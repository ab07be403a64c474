import Cki.Calls
import Cki.Run
import Mathlib.Data.List.Infix
import Mathlib.Data.Option.Basic

/-! The gates through which the guest kernel calls the KSM, and the IRET of a guest
that has one. The gate with protection keys opens them for the call. -/
namespace Cki.Gate

open Asm

universe u

/-- The KSM's key is open. -/
def keysOpen : BitVec 32 := 0x55555550
def keysClosed : BitVec 32 := 0x55555554

def pkMcallNopkru (back : Word) : List KeyedInstr :=
  [.plain (.mov .rdi .rax),
   .plain (.mov .rsi .rdi),
   .plain (.mov .rdx .rsi),
   .callReg back .rax,
   .plain .ret]

def pkMcallPkru (back : Word) : List KeyedInstr :=
  [.plain (.mov .rdi .r8),
   .plain (.mov .rsi .rdi),
   .plain (.mov .rdx .rsi),
   .plain (.movlImm 0 .rdx),
   .plain (.movlImm 0 .rcx),
   .plain (.movlImm 0x55555550 .rax),
   .wrpkru,
   .cmplImm 0x55555550 .rax,
   .jneSelf,
   .plain (.mov .rsp .rax),
   .plain (.mov .rax .rsp),
   .callReg back .r8,
   .plain (.mov .rsp .rax),
   .plain (.mov .rax .rsp),
   .plain (.movlImm 0 .rdx),
   .plain (.movlImm 0 .rcx),
   .plain (.movlImm 0x55555554 .rax),
   .wrpkru,
   .cmplImm 0x55555554 .rax,
   .jneSelf,
   .plain .ret]

def pkmIret : List KeyedInstr :=
  [.plain (.push .rdx),
   .plain (.push .rcx),
   .plain (.push .rax),
   .plain (.movlImm 0 .rdx),
   .plain (.movlImm 0 .rcx),
   .plain (.movlImm 0x55555550 .rax),
   .wrpkru,
   .plain (.movlImm 0 .rdx),
   .plain (.movlImm 0 .rcx),
   .plain (.movlImm 0x55555554 .rax),
   .wrpkru,
   .plain (.pop .rax),
   .plain (.pop .rcx),
   .plain (.pop .rdx),
   .iretq]

variable {Space : Type u} [DecidableEq Space]

/-! What a piece of the gate does with the keys, whichever instruction it is entered
at and whatever the callee does. -/

/-- An instruction that control only leaves towards the next one. -/
def Onward : KeyedInstr → Prop
  | .plain i => i ≠ .ret
  | .iretq => False
  | _ => True

/-- An instruction that neither calls nor touches the keys. -/
def Quiet : KeyedInstr → Prop
  | .callReg .. => False
  | .wrpkru => False
  | _ => True

/-- From any keys, the code leaves them closed. -/
def Closes (cpu : Cpu Space) (callee : Keyed Space → Option (Keyed Space))
    (code : List KeyedInstr) : Prop :=
  ∀ k t, passage cpu callee code k = some t → t.pkru = keysClosed

section Closing

variable {cpu : Cpu Space} {callee : Keyed Space → Option (Keyed Space)}

theorem Closes.cons {i : KeyedInstr} {code : List KeyedInstr} (onward : Onward i)
    (closes : Closes cpu callee code) : Closes cpu callee (i :: code) := by
  intro k t passes
  cases i with
  | plain i => exact closes _ t (passage_plain cpu callee code k onward ▸ passes)
  | andImm imm dst => exact closes _ t passes
  | pushImm imm => exact closes _ t passes
  | wrpkru => exact closes _ t (passage_wrpkru_some cpu callee code k passes)
  | cmplImm imm dst => exact closes _ t passes
  | jneSelf =>
    rw [passage] at passes
    split at passes
    · exact closes _ t passes
    · cases passes
  | callReg back target =>
    obtain ⟨returned,_,rest⟩ := Option.bind_eq_some_iff.mp passes
    exact closes _ t rest
  | iretq => exact onward.elim

theorem Closes.append {front code : List KeyedInstr} (onward : ∀ i ∈ front, Onward i)
    (closes : Closes cpu callee code) : Closes cpu callee (front ++ code) := by
  induction front with
  | nil => exact closes
  | cons i front ih =>
    rw [List.forall_mem_cons] at onward
    exact (ih onward.2).cons onward.1

/-- WRPKRU followed by the check of what it loaded. -/
def closing : List KeyedInstr :=
  [.wrpkru,.cmplImm 0x55555554 .rax,.jneSelf,.plain .ret]

theorem closing_closes : Closes cpu callee closing := by
  intro k t passes
  have loaded := passage_wrpkru_some cpu callee _ k passes
  rw [passage_checked] at loaded
  split at loaded
  case isTrue checked =>
    rw [passage_ret] at loaded
    cases loaded
    exact checked
  case isFalse => cases loaded

theorem quiet_keeps {code : List KeyedInstr} (quiet : ∀ i ∈ code, Quiet i) {k t : Keyed Space}
    (passes : passage cpu callee code k = some t) : t.pkru = k.pkru := by
  induction code generalizing k with
  | nil =>
    cases passes
    rfl
  | cons i code ih =>
    rw [List.forall_mem_cons] at quiet
    cases i with
    | plain i =>
      by_cases leaves : i = .ret
      · subst leaves
        rw [passage_ret] at passes
        cases passes
        rfl
      · rw [passage_plain cpu callee code k leaves] at passes
        exact ih quiet.2 (k := k.onMachine _) passes
    | andImm imm dst => exact ih quiet.2 (k := k.onMachine _) passes
    | pushImm imm => exact ih quiet.2 (k := k.onMachine _) passes
    | wrpkru => exact quiet.1.elim
    | cmplImm imm dst => exact ih quiet.2 (k := k.onMachine _) passes
    | jneSelf =>
      rw [passage] at passes
      split at passes
      · exact ih quiet.2 passes
      · cases passes
    | callReg back target => exact quiet.1.elim
    | iretq =>
      cases passes
      rfl

end Closing

/-- A suffix of two pieces is one of the second or reaches into the first. -/
theorem suffix_append {α : Type u} {code front rest : List α} (suffix : code <:+ front ++ rest) :
    code <:+ rest ∨ ∃ last, last <:+ front ∧ code = last ++ rest := by
  obtain ⟨dropped,eq⟩ := suffix
  rcases List.append_eq_append_iff.mp eq with ⟨last,front_eq,code_eq⟩ | ⟨more,_,rest_eq⟩
  · exact .inr ⟨last,⟨dropped,front_eq.symm⟩,code_eq⟩
  · exact .inl ⟨more,rest_eq.symm⟩

/-- The gate up to its last WRPKRU. -/
def beforeClosing (back : Word) : List KeyedInstr := (pkMcallPkru back).take 17

theorem pkMcallPkru_closing (back : Word) : pkMcallPkru back = beforeClosing back ++ closing := rfl

theorem beforeClosing_onward (back : Word) : ∀ i ∈ beforeClosing back, Onward i := by
  simp [beforeClosing,pkMcallPkru,Onward]

/-- Wherever the gate is entered with the keys closed, it leaves them closed. -/
theorem pkMcallPkru_closes {cpu : Cpu Space} {callee : Keyed Space → Option (Keyed Space)}
    {back : Word} {code : List KeyedInstr} (entry : code <:+ pkMcallPkru back) {k t : Keyed Space}
    (closed : k.pkru = keysClosed) (passes : passage cpu callee code k = some t) :
    t.pkru = keysClosed := by
  rw [pkMcallPkru_closing] at entry
  rcases suffix_append entry with inClosing | ⟨last,inFront,rfl⟩
  · rcases List.suffix_cons_iff.mp inClosing with rfl | after
    · exact closing_closes k t passes
    · have quiet : ∀ i ∈ closing.tail, Quiet i := by simp [closing,Quiet]
      rw [quiet_keeps (fun i mem => quiet i (after.subset mem)) passes,closed]
  · have onward : ∀ i ∈ last, Onward i := fun i mem => beforeClosing_onward back i (inFront.subset mem)
    exact closing_closes.append onward k t passes

/-! What the callee is entered with. -/

def Admitted (pkru : BitVec 32) : Prop := pkru = keysOpen ∨ pkru = keysClosed

/-- From keys that meet `start`, callees that agree under admitted keys are not told apart. -/
def Screened (cpu : Cpu Space) (start : BitVec 32 → Prop) (code : List KeyedInstr) : Prop :=
  ∀ callee callee' : Keyed Space → Option (Keyed Space),
    (∀ k, Admitted k.pkru → callee k = callee' k) →
    ∀ k, start k.pkru → passage cpu callee code k = passage cpu callee' code k

section Screening

variable {cpu : Cpu Space} {start : BitVec 32 → Prop} {code : List KeyedInstr}

theorem Screened.cons {i : KeyedInstr} (quiet : Quiet i) (screened : Screened cpu start code) :
    Screened cpu start (i :: code) := by
  intro callee callee' agree k keys
  cases i with
  | plain i =>
    by_cases leaves : i = .ret
    · subst leaves
      rw [passage_ret,passage_ret]
    · rw [passage_plain cpu callee code k leaves,passage_plain cpu callee' code k leaves]
      exact screened callee callee' agree _ keys
  | andImm imm dst => exact screened callee callee' agree _ keys
  | pushImm imm => exact screened callee callee' agree _ keys
  | wrpkru => exact quiet.elim
  | cmplImm imm dst => exact screened callee callee' agree _ keys
  | jneSelf =>
    rw [passage,passage]
    split
    · exact screened callee callee' agree _ keys
    · rfl
  | callReg back target => exact quiet.elim
  | iretq => rfl

theorem Screened.append {front : List KeyedInstr} (quiet : ∀ i ∈ front, Quiet i)
    (screened : Screened cpu start code) : Screened cpu start (front ++ code) := by
  induction front with
  | nil => exact screened
  | cons i front ih =>
    rw [List.forall_mem_cons] at quiet
    exact (ih quiet.2).cons quiet.1

theorem Screened.within {front last : List KeyedInstr} (quiet : ∀ i ∈ front, Quiet i)
    (inFront : last <:+ front) (screened : Screened cpu start code) :
    Screened cpu start (last ++ code) :=
  screened.append fun i mem => quiet i (inFront.subset mem)

theorem screened_nil : Screened cpu start [] := fun _ _ _ _ _ => rfl

theorem Screened.wrpkru (screened : Screened cpu (fun _ => True) code) :
    Screened cpu start (.wrpkru :: code) := by
  intro callee callee' agree k _
  rw [passage,passage]
  split
  · exact screened callee callee' agree _ trivial
  · rfl

/-- The keys that the check lets through are the open ones. -/
theorem Screened.checked (screened : Screened cpu Admitted code) :
    Screened cpu start (.wrpkru :: .cmplImm 0x55555550 .rax :: .jneSelf :: code) := by
  intro callee callee' agree k _
  rw [passage,passage]
  split
  · rw [passage_checked,passage_checked]
    split
    case isTrue checked => exact screened callee callee' agree _ (.inl checked)
    case isFalse => rfl
  · rfl

theorem Screened.call {back : Word} {target : Gpr} (screened : Screened cpu (fun _ => True) code) :
    Screened cpu Admitted (.callReg back target :: code) := by
  intro callee callee' agree k keys
  rw [passage_call,passage_call,agree (k.enter cpu back target) keys]
  congr 1
  funext returned
  exact screened callee callee' agree returned trivial

end Screening

/-- The gate behind its call. -/
def afterCall : List KeyedInstr := (pkMcallPkru 0).drop 12

/-- The gate from its check on. -/
def fromCheck (back : Word) : List KeyedInstr :=
  [.cmplImm 0x55555550 .rax,.jneSelf,.plain (.mov .rsp .rax),.plain (.mov .rax .rsp)] ++
    .callReg back .r8 :: afterCall

theorem pkMcallPkru_check (back : Word) :
    pkMcallPkru back = (pkMcallPkru back).take 6 ++ .wrpkru :: fromCheck back := rfl

theorem afterCall_screened {cpu : Cpu Space} {code : List KeyedInstr} (suffix : code <:+ afterCall)
    (start : BitVec 32 → Prop) : Screened cpu start code := by
  rw [show afterCall = afterCall.take 5 ++ .wrpkru :: closing.tail from rfl] at suffix
  have tail : ∀ start, ∀ code, code <:+ closing.tail → Screened cpu start code := by
    intro start code inTail
    rw [← List.append_nil code]
    exact screened_nil.within (by simp [closing,Quiet]) inTail
  have load : ∀ start, Screened cpu start (.wrpkru :: closing.tail) :=
    fun start => (tail _ closing.tail (List.suffix_refl _)).wrpkru
  rcases suffix_append suffix with inLoad | ⟨last,inFront,rfl⟩
  · rcases List.suffix_cons_iff.mp inLoad with rfl | inTail
    · exact load start
    · exact tail start code inTail
  · exact (load start).within (by simp [afterCall,pkMcallPkru,Quiet]) inFront

theorem call_screened {cpu : Cpu Space} (back : Word) :
    Screened cpu Admitted (.callReg back .r8 :: afterCall) :=
  (afterCall_screened (List.suffix_refl _) _).call

/-- Wherever the gate is entered with the keys closed, its callee has them open or closed. -/
theorem pkMcallPkru_screened {cpu : Cpu Space} {back : Word} {code : List KeyedInstr}
    (entry : code <:+ pkMcallPkru back) : Screened cpu (· = keysClosed) code := by
  have weaken : Screened cpu Admitted code → Screened cpu (· = keysClosed) code :=
    fun screened callee callee' agree k keys => screened callee callee' agree k (.inr keys)
  rw [pkMcallPkru_check] at entry
  have stack : Screened cpu Admitted ([.plain (.mov .rsp .rax),.plain (.mov .rax .rsp)] ++
      .callReg back .r8 :: afterCall) := (call_screened back).append (by simp [Quiet])
  have load : ∀ start, Screened cpu start (.wrpkru :: fromCheck back) := fun start => stack.checked
  rcases suffix_append entry with inLoad | ⟨last,inFront,rfl⟩
  · rcases List.suffix_cons_iff.mp inLoad with rfl | inCheck
    · exact load _
    rcases suffix_append inCheck with inCall | ⟨last,inFront,rfl⟩
    · rcases List.suffix_cons_iff.mp inCall with rfl | after
      · exact weaken (call_screened back)
      · exact afterCall_screened after _
    · exact weaken ((call_screened back).within (by simp [Quiet]) inFront)
  · exact (load _).within (by simp [pkMcallPkru,Quiet]) inFront

theorem pkMcallPkru_screened_load :
    Screened (⟨fun _ => (),fun _ _ => 0⟩ : Cpu Unit) (· = keysClosed) ((pkMcallPkru 0x4000).drop 6) :=
  pkMcallPkru_screened (List.drop_suffix 6 (pkMcallPkru 0x4000))

/-! The guest's IRET. It checks neither of its WRPKRUs, but from the first one control goes on to
the second. -/

/-- The IRET from its second WRPKRU on. -/
def secondLoad : List KeyedInstr := pkmIret.drop 10

theorem secondLoad_tail_quiet : ∀ i ∈ secondLoad.tail, Quiet i := by
  simp [secondLoad,pkmIret,Quiet]

theorem pkmIret_closing {cpu : Cpu Space} {callee : Keyed Space → Option (Keyed Space)} :
    Closes cpu callee (.plain (.movlImm 0x55555554 .rax) :: secondLoad) := by
  intro k t passes
  rw [passage_plain cpu callee secondLoad k (by decide)] at passes
  have loaded := passage_wrpkru_some cpu callee secondLoad.tail _ passes
  rw [quiet_keeps secondLoad_tail_quiet loaded]
  rfl

theorem pkmIret_closes {cpu : Cpu Space} {callee : Keyed Space → Option (Keyed Space)}
    {code : List KeyedInstr} (entry : code <:+ pkmIret) (other : code ≠ secondLoad)
    {k t : Keyed Space} (closed : k.pkru = keysClosed) (passes : passage cpu callee code k = some t) :
    t.pkru = keysClosed := by
  rw [show pkmIret = pkmIret.take 9 ++ .plain (.movlImm 0x55555554 .rax) :: secondLoad from rfl]
    at entry
  rcases suffix_append entry with inLoad | ⟨last,inFront,rfl⟩
  · rcases List.suffix_cons_iff.mp inLoad with rfl | inSecond
    · exact pkmIret_closing k t passes
    · have inTail : code <:+ secondLoad.tail :=
        (List.suffix_cons_iff.mp inSecond).resolve_left other
      rw [quiet_keeps (fun i mem => secondLoad_tail_quiet i (inTail.subset mem)) passes,closed]
  · have onward : ∀ i ∈ pkmIret.take 9, Onward i := by simp [pkmIret,Onward]
    exact (pkmIret_closing.append fun i mem => onward i (inFront.subset mem)) k t passes

/-- Any keys can leave the IRET entered there. -/
theorem secondLoad_opens (cpu : Cpu Space) (callee : Keyed Space → Option (Keyed Space))
    (pkru : BitVec 32) : ∃ k t : Keyed Space, k.pkru = keysClosed ∧
      passage cpu callee secondLoad k = some t ∧ t.pkru = pkru := by
  let gpr : Gpr → Word := setReg (fun _ => 0) .rax (pkru.setWidth 64)
  let m : Machine Space := ⟨gpr,0,0,0,0,fun _ => 0,0,0,fun _ _ => 0⟩
  refine ⟨⟨m,keysClosed⟩,⟨(run cpu [.pop .rax,.pop .rcx,.pop .rdx] m).iret cpu,pkru⟩,rfl,?_,rfl⟩
  simp [secondLoad,pkmIret,passage,m,gpr]

/-! The keys over a run of the guest kernel whose passages are not interrupted. -/

inductive GuestLabel where
  | own
  | gate (entry : List KeyedInstr)
  | iret (entry : List KeyedInstr)

/-- The guest's own code holds no WRPKRU. It can enter the gate at any instruction, with
any function to call, and the IRET at the entries in `entries`; a passage is one step, from its
entry to the return. -/
inductive GuestStep (cpu : Cpu Space) (entries : List KeyedInstr → Prop) :
    Keyed Space → GuestLabel → Keyed Space → Prop where
  | own (k : Keyed Space) (machine : Machine Space) :
      GuestStep cpu entries k .own { k with machine }
  | gate {k t : Keyed Space} {code : List KeyedInstr} (back : Word)
      (callee : Keyed Space → Option (Keyed Space)) (entry : code <:+ pkMcallPkru back)
      (passes : passage cpu callee code k = some t) : GuestStep cpu entries k (.gate code) t
  | iret {k t : Keyed Space} {code : List KeyedInstr}
      (callee : Keyed Space → Option (Keyed Space)) (entry : code <:+ pkmIret)
      (allowed : entries code) (passes : passage cpu callee code k = some t) :
      GuestStep cpu entries k (.iret code) t

/-- Whatever the guest does, the keys are closed between the passages, unless it can enter
the IRET at its second WRPKRU. -/
theorem guest_closed_iff (cpu : Cpu Space) (entries : List KeyedInstr → Prop) :
    (∀ k labels t, Run (GuestStep cpu entries) k labels t → k.pkru = keysClosed →
      t.pkru = keysClosed) ↔ ¬ entries secondLoad := by
  constructor
  · intro closes allowed
    obtain ⟨k,t,closed,passes,opened⟩ := secondLoad_opens cpu some keysOpen
    have step : GuestStep cpu entries k (.iret secondLoad) t :=
      .iret some (List.drop_suffix 10 pkmIret) allowed passes
    have still := closes k _ t (.single step) closed
    rw [opened] at still
    revert still
    decide
  · intro barred k labels t run closed
    refine run.invariant (·.pkru = keysClosed) ?_ closed
    intro k label t closed step
    cases step with
    | own => exact closed
    | gate back callee entry passes => exact pkMcallPkru_closes entry closed passes
    | iret callee entry allowed passes =>
      exact pkmIret_closes entry (fun same => barred (same ▸ allowed)) closed passes

/-! The two gates side by side. They call the same function with the same arguments on the
same stack, and differ in the registers a callee may change. -/

/-- The registers the gates use beside the arguments. -/
def scratch : List Gpr := [.rax,.rcx,.rdx,.r8]

/-- The registers a callee may change. -/
def callerSaved : List Gpr := [.rax,.rcx,.rdx,.rsi,.rdi,.r8,.r9,.r10,.r11]

/-- The stack from the return address at `slot` down, for `depth` bytes. -/
def Below (slot : Word) (depth : Nat) (a : Word) : Prop := (slot - a).toNat ≤ depth

theorem below_slot (slot : Word) (depth : Nat) : Below slot depth slot := by simp [Below]

/-- Equal but for the registers in `free`, the flags, the keys and the stack below. -/
structure Alike (free : List Gpr) (space : Space) (slot : Word) (depth : Nat)
    (k k' : Keyed Space) : Prop where
  gpr : ∀ r, r ∉ free → k.machine.gpr r = k'.machine.gpr r
  cr3 : k.machine.cr3 = k'.machine.cr3
  cr4 : k.machine.cr4 = k'.machine.cr4
  msr : k.machine.msr = k'.machine.msr
  idtr : k.machine.idtr = k'.machine.idtr
  gdtr : k.machine.gdtr = k'.machine.gdtr
  mem : ∀ s a, (s = space → ¬ Below slot depth a) → k.machine.mem s a = k'.machine.mem s a

/-- A callee that has the keys and keeps the calling convention: it ignores what the gates differ
in and what is on the stack below, and returns with its stack pointer as it found it. -/
def Blind (cpu : Cpu Space) (depth : Nat) (callee : Keyed Space → Option (Keyed Space)) : Prop :=
  ∀ k k' : Keyed Space, k.pkru = keysOpen → k'.pkru = keysOpen → k.machine.rip = k'.machine.rip →
    Alike scratch (k.machine.here cpu) (k.machine.gpr .rsp) depth k k' →
    Option.Rel (fun t t' =>
      Alike callerSaved (k.machine.here cpu) (k.machine.gpr .rsp) depth t t' ∧
      t.machine.gpr .rsp = k.machine.gpr .rsp + 8) (callee k) (callee k')

/-- The gate's code up to its first WRPKRU, and up to its last. -/
def pkruSetup : List Instr :=
  [.mov .rdi .r8,.mov .rsi .rdi,.mov .rdx .rsi,.movlImm 0 .rdx,.movlImm 0 .rcx,
    .movlImm 0x55555550 .rax]

def pkruTeardown : List Instr :=
  [.mov .rsp .rax,.mov .rax .rsp,.movlImm 0 .rdx,.movlImm 0 .rcx,.movlImm 0x55555554 .rax]

/-- The gate's machine at the first instruction of the callee. -/
def opened (cpu : Cpu Space) (back : Word) (k : Keyed Space) : Keyed Space :=
  let m := run cpu pkruSetup k.machine
  let checked := { m with rflags := cpu.compare m.rflags keysOpen keysOpen }
  (⟨run cpu [.mov .rsp .rax,.mov .rax .rsp] checked,keysOpen⟩ : Keyed Space).enter cpu back .r8

/-- What the gate makes of the machine its callee returned with. -/
def closedAfter (cpu : Cpu Space) (t : Keyed Space) : Keyed Space :=
  let m := run cpu pkruTeardown t.machine
  ⟨exec cpu { m with rflags := cpu.compare m.rflags keysClosed keysClosed } .ret,keysClosed⟩

theorem pkMcallPkru_run (cpu : Cpu Space) (callee : Keyed Space → Option (Keyed Space)) (back : Word)
    (k : Keyed Space) : passage cpu callee (pkMcallPkru back) k =
      (callee (opened cpu back k)).map (closedAfter cpu) := by
  have entered : passage cpu callee (pkMcallPkru back) k =
      (callee (opened cpu back k)).bind (passage cpu callee afterCall) := by
    rw [show pkMcallPkru back = pkruSetup.map .plain ++ .wrpkru :: fromCheck back from rfl,
      passage_plains cpu callee _ k (by decide)]
    simp [passage,fromCheck,passage_checked,opened,pkruSetup,keysOpen]
  have left : ∀ t : Keyed Space, passage cpu callee afterCall t = some (closedAfter cpu t) := by
    intro t
    rw [show afterCall = pkruTeardown.map .plain ++ closing from rfl,
      passage_plains cpu callee _ t (by decide)]
    simp [passage,closing,closedAfter,pkruTeardown,keysClosed]
  rw [entered]
  cases callee (opened cpu back k) with
  | none => rfl
  | some t => exact left t

def plainSetup : List Instr := [.mov .rdi .rax,.mov .rsi .rdi,.mov .rdx .rsi]

theorem pkMcallNopkru_run (cpu : Cpu Space) (callee : Keyed Space → Option (Keyed Space))
    (back : Word) (k : Keyed Space) : passage cpu callee (pkMcallNopkru back) k =
      (callee ((k.onMachine (run cpu plainSetup)).enter cpu back .rax)).map
        (·.onMachine (exec cpu · .ret)) := by
  rw [show pkMcallNopkru back = plainSetup.map .plain ++ [.callReg back .rax,.plain .ret] from rfl,
    passage_plains cpu callee _ k (by decide),passage_call]
  cases callee ((k.onMachine (run cpu plainSetup)).enter cpu back .rax) with
  | none => rfl
  | some t => exact passage_ret cpu callee [] t

/-- The callee cannot tell the gates apart. -/
theorem entered_alike (cpu : Cpu Space) (back back' : Word) (depth : Nat) {k k' : Keyed Space}
    (same : k.machine = k'.machine) :
    Alike scratch (k.machine.here cpu) (k.machine.gpr .rsp - 8#64) depth (opened cpu back k)
      ((k'.onMachine (run cpu plainSetup)).enter cpu back' .rax) where
  gpr := by
    intro r other
    simp only [scratch,List.mem_cons,List.not_mem_nil,or_false,not_or] at other
    simp only [opened,pkruSetup,plainSetup,run_cons,run_nil,exec,Machine.set,Keyed.enter,
      Keyed.onMachine,Machine.pushWord,Machine.setWord,setReg_apply,other,if_false,reduceCtorEq,same]
    split
    · rfl
    · rfl
  cr3 := by simp [opened,pkruSetup,plainSetup,same]
  cr4 := by simp [opened,pkruSetup,plainSetup,same]
  msr := by simp [opened,pkruSetup,plainSetup,same]
  idtr := by simp [opened,pkruSetup,plainSetup,same]
  gdtr := by simp [opened,pkruSetup,plainSetup,same]
  mem := by
    intro s a apart
    rw [same] at apart
    have away : ¬ (s = cpu.space (frameOf k'.machine.cr3) ∧ a = k'.machine.gpr .rsp - 8#64) :=
      fun slot => apart slot.1 (slot.2 ▸ below_slot _ depth)
    simp [opened,pkruSetup,plainSetup,same]
    rw [if_neg away,if_neg away]

theorem closedAfter_rsp (cpu : Cpu Space) (t : Keyed Space) :
    (closedAfter cpu t).machine.gpr .rsp = t.machine.gpr .rsp + 8#64 := by
  simp [closedAfter,pkruTeardown]

/-- The caller's stack is above. -/
theorem not_below_above {slot : Word} {depth : Nat} (short : depth < 2 ^ 64 - 8) :
    ¬ Below slot depth (slot + 8#64) := by
  have distance : slot - (slot + 8#64) = -8#64 := by grind
  rw [Below,distance,show (-8#64).toNat = 2 ^ 64 - 8 by decide]
  omega

/-- After the return of the callee too. -/
theorem left_alike {cpu : Cpu Space} {space : Space} {slot : Word} {depth : Nat}
    {t t' : Keyed Space} (short : depth < 2 ^ 64 - 8) (alike : Alike callerSaved space slot depth t t')
    (rsp : t.machine.gpr .rsp = slot + 8#64) :
    Alike callerSaved space slot depth (closedAfter cpu t) (t'.onMachine (exec cpu · .ret)) ∧
      (closedAfter cpu t).machine.rip = (t'.onMachine (exec cpu · .ret)).machine.rip := by
  have stack : t.machine.gpr .rsp = t'.machine.gpr .rsp := alike.gpr .rsp (by decide)
  constructor
  · constructor
    · intro r other
      have same := alike.gpr r other
      simp only [callerSaved,List.mem_cons,List.not_mem_nil,or_false,not_or] at other
      by_cases isRsp : r = .rsp
      · subst isRsp
        rw [closedAfter_rsp,stack]
        simp
      · simp [closedAfter,pkruTeardown,other,isRsp,same]
    · simp [closedAfter,pkruTeardown,alike.cr3]
    · simp [closedAfter,pkruTeardown,alike.cr4]
    · simp [closedAfter,pkruTeardown,alike.msr]
    · simp [closedAfter,pkruTeardown,alike.idtr]
    · simp [closedAfter,pkruTeardown,alike.gdtr]
    · intro s a apart
      simp [closedAfter,pkruTeardown,alike.mem s a apart]
  · rw [rsp] at stack
    simp [closedAfter,pkruTeardown,rsp,← stack,alike.cr3]
    exact alike.mem _ _ fun _ => not_below_above short

/-- For a function that keeps the calling convention the gate with keys does what the plain
gate does with open ones: it comes back exactly if that does, to the same caller with the same
registers and memory, the caller-saved registers and the stack below apart, and with the keys
closed. -/
theorem pkMcall_alike (cpu : Cpu Space) {depth : Nat} (short : depth < 2 ^ 64 - 8)
    {callee : Keyed Space → Option (Keyed Space)} (blind : Blind cpu depth callee)
    (back back' : Word) (k : Keyed Space) :
    Option.Rel (fun t t' =>
        Alike callerSaved (k.machine.here cpu) (k.machine.gpr .rsp - 8) depth t t' ∧
        t.machine.rip = t'.machine.rip ∧ t.machine.gpr .rsp = k.machine.gpr .rsp + 8 ∧
        t.pkru = keysClosed)
      (passage cpu callee (pkMcallPkru back) k)
      (passage cpu callee (pkMcallNopkru back') { k with pkru := keysOpen }) := by
  have slot : (opened cpu back k).machine.gpr .rsp = k.machine.gpr .rsp - 8#64 := by
    simp [opened,pkruSetup]
  have here : (opened cpu back k).machine.here cpu = k.machine.here cpu := by
    simp [opened,pkruSetup]
  let plain : Keyed Space := { k with pkru := keysOpen }
  have rip : (opened cpu back k).machine.rip =
      ((plain.onMachine (run cpu plainSetup)).enter cpu back' .rax).machine.rip := by
    simp [opened,pkruSetup,plainSetup,plain]
  have alike := entered_alike cpu back back' depth (show k.machine = plain.machine from rfl)
  rw [← slot,← here] at alike
  have returned := blind _ _ rfl rfl rip alike
  rw [slot,here] at returned
  rw [pkMcallPkru_run,pkMcallNopkru_run]
  generalize callee (opened cpu back k) = first at returned
  generalize callee ((plain.onMachine (run cpu plainSetup)).enter cpu back' .rax) = second at returned
  cases returned with
  | none => exact .none
  | @some t t' both =>
    obtain ⟨kept,rsp⟩ := both
    obtain ⟨after,same⟩ := left_alike short kept rsp
    have stack : (closedAfter cpu t).machine.gpr .rsp = k.machine.gpr .rsp + 8 := by
      rw [closedAfter_rsp,rsp]
      exact congrArg (· + 8#64) (BitVec.sub_add_cancel ..)
    exact .some ⟨after,same,stack,rfl⟩

/-- A function that spills a scratch register and stores its second argument at its first. -/
def storing (cpu : Cpu Space) (k : Keyed Space) : Option (Keyed Space) :=
  some (k.onMachine fun m =>
    let m := run cpu [.push .rax,.pop .rcx] m
    exec cpu (m.setWord cpu (m.gpr .rdi) (m.gpr .rsi)) .ret)

theorem storing_blind (cpu : Cpu Space) {depth : Nat} (room : 8 ≤ depth) :
    Blind cpu depth (storing cpu) := by
  intro k k' _ _ _ alike
  have rdi := alike.gpr .rdi (by decide)
  have rsi := alike.gpr .rsi (by decide)
  have rsp := alike.gpr .rsp (by decide)
  refine .some ⟨?_,?_⟩
  · constructor
    · intro r other
      simp only [callerSaved,List.mem_cons,List.not_mem_nil,or_false,not_or] at other
      have same := alike.gpr r (by simp [scratch,other])
      by_cases isRsp : r = .rsp
      · subst isRsp
        simp [rsp]
      · simp [other,isRsp,same]
    · exact alike.cr3
    · exact alike.cr4
    · exact alike.msr
    · exact alike.idtr
    · exact alike.gdtr
    · intro s a apart
      have away : ¬ (s = k.machine.here cpu ∧ a = k.machine.gpr .rsp - 8) := by
        rintro ⟨rfl,rfl⟩
        have distance : k.machine.gpr .rsp - (k.machine.gpr .rsp - 8) = 8 := by grind
        exact apart rfl (by rw [Below,distance]; exact room)
      have kept := alike.mem s a apart
      rw [Machine.here,rsp,alike.cr3] at away
      simp only [Keyed.onMachine,run_cons,run_nil,exec,Machine.set,Machine.pushWord,Machine.setWord,
        Machine.here,setWord_apply,setReg_apply,reduceCtorEq,if_false,if_true,rdi,rsi,rsp,alike.cr3,
        if_neg away,kept]
  · simp only [Keyed.onMachine,run_cons,run_nil,exec,Machine.set,Machine.pushWord,Machine.setWord,
      Machine.here,Machine.word,setWord_apply,setReg_apply,reduceCtorEq,if_false,if_true]
    rw [BitVec.sub_add_cancel]

theorem pkMcall_alike_storing :
    let cpu : Cpu Unit := ⟨fun _ => (),fun _ _ => 0⟩
    let gpr : Gpr → Word := setReg (setReg (setReg (fun _ => 0x9000) .rdi 0x1000) .rsi 0x2000) .rdx 0x63
    let k : Keyed Unit := ⟨⟨gpr,0x2,0,0x1000,0x20,fun _ => 0,0,0,fun _ _ => 0⟩,keysClosed⟩
    Option.Rel (fun t t' =>
        Alike callerSaved (k.machine.here cpu) (k.machine.gpr .rsp - 8) 8 t t' ∧
        t.machine.rip = t'.machine.rip ∧ t.machine.gpr .rsp = k.machine.gpr .rsp + 8 ∧
        t.pkru = keysClosed)
      (passage cpu (storing cpu) (pkMcallPkru 0x4000) k)
      (passage cpu (storing cpu) (pkMcallNopkru 0x4100) { k with pkru := keysOpen }) :=
  pkMcall_alike _ (by decide) (storing_blind _ (by decide)) 0x4000 0x4100 _

end Cki.Gate
