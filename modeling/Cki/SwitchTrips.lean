import Cki.SwitchRules

/-! Whole trips through the switch: from the guest into the host and back for the
two types side by side, and from the host into the guest and back. -/
namespace Cki.Switch

open Asm

universe u

variable {Space : Type u} [DecidableEq Space]

/-- What the host may do between an entry and the next resume. It runs with any
registers on page tables that map the same memory, and in the guest's half of the
context it changes RSI, RDX and the PCID bits of CR3. -/
structure HostTurn (cpu : Cpu Space) (ctx : Word) (m t : Machine Space) : Prop where
  rdi : t.gpr .rdi = ctx
  here : t.here cpu = m.here cpu
  words : ∀ disp, disp < 248 → disp ∉ [pkCtxRsi,pkCtxRdx,pkCtxCr3] →
    t.mem (m.here cpu) (ctx + disp) = m.mem (m.here cpu) (ctx + disp)
  root : t.mem (m.here cpu) (ctx + pkCtxCr3) &&& ~~~0xfff =
    m.mem (m.here cpu) (ctx + pkCtxCr3) &&& ~~~0xfff
  others : ∀ s, s ≠ m.here cpu → t.mem s = m.mem s

theorem contextWords_kept : ∀ disp ∈ contextWords, disp ∉ [pkCtxRsi,pkCtxRdx,pkCtxCr3] := by
  simp [contextWords]

theorem extraWords_kept : ∀ disp ∈ extraWords, disp ∉ [pkCtxRsi,pkCtxRdx,pkCtxCr3] := by
  simp [extraWords]

omit [DecidableEq Space] in
theorem HostTurn.context {cpu : Cpu Space} {ctx : Word} {m t : Machine Space}
    (turn : HostTurn cpu ctx m t) :
    contextAt (t.mem (m.here cpu)) ctx = contextAt (m.mem (m.here cpu)) ctx :=
  contextAt_congr fun disp word =>
    turn.words disp (contextWords_small disp word) (contextWords_kept disp word)

omit [DecidableEq Space] in
theorem HostTurn.extra {cpu : Cpu Space} {ctx : Word} {m t : Machine Space}
    (turn : HostTurn cpu ctx m t) :
    extraAt (t.mem (m.here cpu)) ctx = extraAt (m.mem (m.here cpu)) ctx :=
  extraAt_congr fun disp word =>
    turn.words disp (extraWords_small disp word) (extraWords_kept disp word)

/-- A call, the host's turn and the resume. -/
structure RoundTrip (cpu : Cpu Space) (type : Variant) (back hostBack : Word)
    (m host turned t : Machine Space) : Prop where
  spaces : m.here cpu ≠ hostOf cpu m
  enter : host = run cpu (pkRkcall type back) m
  turn : HostTurn cpu (m.gpr .rsi) host turned
  resume : t = run cpu (pkRkret type hostBack) turned

theorem RoundTrip.entered {cpu : Cpu Space} {type : Variant} {back hostBack : Word}
    {m host turned t : Machine Space} (trip : RoundTrip cpu type back hostBack m host turned t) :
    Entered cpu type back m host := by
  rw [trip.enter]
  exact pkRkcall_spec cpu type back m trip.spaces

theorem RoundTrip.resumed {cpu : Cpu Space} {type : Variant} {back hostBack : Word}
    {m host turned t : Machine Space} (trip : RoundTrip cpu type back hostBack m host turned t) :
    Resumed cpu type hostBack turned t := by
  rw [trip.resume]
  exact pkRkret_spec cpu type hostBack turned

theorem RoundTrip.hostHere {cpu : Cpu Space} {type : Variant} {back hostBack : Word}
    {m host turned t : Machine Space} (trip : RoundTrip cpu type back hostBack m host turned t) :
    host.here cpu = hostOf cpu m := by
  rw [Machine.here,trip.entered.cr3,frameOf_dropNoFlush,hostOf]

/-- What the guest has again at label 1. -/
theorem RoundTrip.context {cpu : Cpu Space} {type : Variant} {back hostBack : Word}
    {m host turned t : Machine Space} (trip : RoundTrip cpu type back hostBack m host turned t) :
    contextOf t = { contextOf m with rsp := m.gpr .rsp - 8 } := by
  have resumed := trip.resumed.context
  rw [trip.turn.rdi,trip.turn.here,trip.turn.context,trip.hostHere,trip.entered.saved] at resumed
  exact resumed

theorem RoundTrip.extra {cpu : Cpu Space} {type : Variant} {back hostBack : Word}
    {m host turned t : Machine Space} (trip : RoundTrip cpu type back hostBack m host turned t) :
    extraOf t = type.pick (extraOf m) (extraOf turned) := by
  have resumed := trip.resumed.extra
  rw [trip.turn.rdi,trip.turn.here,trip.turn.extra,trip.hostHere,trip.entered.savedExtra] at resumed
  cases type <;> exact resumed

theorem RoundTrip.rip {cpu : Cpu Space} {type : Variant} {back hostBack : Word}
    {m host turned t : Machine Space} (trip : RoundTrip cpu type back hostBack m host turned t) :
    t.rip = back := by
  have resumed := trip.resumed.rip
  rw [trip.turn.rdi,trip.turn.here,trip.turn.words pkCtxRip (by decide) (by decide),trip.hostHere,
    trip.entered.savedRip] at resumed
  exact resumed

theorem RoundTrip.cr3 {cpu : Cpu Space} {type : Variant} {back hostBack : Word}
    {m host turned t : Machine Space} (trip : RoundTrip cpu type back hostBack m host turned t) :
    t.cr3 = dropNoFlush (turned.mem (hostOf cpu m) (m.gpr .rsi + pkCtxCr3)) := by
  have resumed := trip.resumed.cr3
  rwa [trip.turn.rdi,trip.turn.here,trip.hostHere] at resumed

theorem RoundTrip.rsi {cpu : Cpu Space} {type : Variant} {back hostBack : Word}
    {m host turned t : Machine Space} (trip : RoundTrip cpu type back hostBack m host turned t) :
    t.gpr .rsi = turned.mem (hostOf cpu m) (m.gpr .rsi + pkCtxRsi) := by
  have resumed := trip.resumed.rsi
  rwa [trip.turn.rdi,trip.turn.here,trip.hostHere] at resumed

theorem RoundTrip.rdx {cpu : Cpu Space} {type : Variant} {back hostBack : Word}
    {m host turned t : Machine Space} (trip : RoundTrip cpu type back hostBack m host turned t) :
    t.gpr .rdx = turned.mem (hostOf cpu m) (m.gpr .rsi + pkCtxRdx) := by
  have resumed := trip.resumed.rdx
  rwa [trip.turn.rdi,trip.turn.here,trip.hostHere] at resumed

theorem RoundTrip.root {cpu : Cpu Space} {type : Variant} {back hostBack : Word}
    {m host turned t : Machine Space} (trip : RoundTrip cpu type back hostBack m host turned t) :
    frameOf t.cr3 = frameOf m.cr3 := by
  have root := trip.turn.root
  rw [trip.hostHere,trip.entered.savedCr3] at root
  rw [trip.cr3,frameOf_dropNoFlush]
  exact frameOf_of_root root

/-- In the guest's memory the trip writes the flags that the call pushed. -/
theorem RoundTrip.mem {cpu : Cpu Space} {type : Variant} {back hostBack : Word}
    {m host turned t : Machine Space} (trip : RoundTrip cpu type back hostBack m host turned t) :
    t.mem (m.here cpu) = setWord m.mem (m.here cpu) (m.gpr .rsp - 8) m.rflags (m.here cpu) := by
  have apart : m.here cpu ≠ turned.here cpu := by
    rw [trip.turn.here,trip.hostHere]
    exact trip.spaces
  funext a
  rw [trip.resumed.frame _ a fun same => absurd same apart,
    trip.turn.others _ (trip.turn.here ▸ apart)]
  by_cases flags : a = m.gpr .rsp - 8
  · rw [flags,setWord_here,trip.entered.savedFlags]
  · rw [trip.entered.frame _ a (fun same => absurd same trip.spaces) fun _ => flags]
    exact (if_neg fun same => flags same.2).symm

/-! The two types side by side. -/

/-- The registers the slow type saves and restores, and CR3. -/
structure SameRegisters (a b : Machine Space) : Prop where
  context : contextOf a = contextOf b
  extra : extraOf a = extraOf b
  cr3 : a.cr3 = b.cr3

/-- The slow and the fast trip agree in the host while it runs and in the guest when
it resumes. Each resumes at its own label 1. -/
structure TripsAgree (slowBack fastBack : Word) (slowHost fastHost slow fast : Machine Space) :
    Prop where
  host : SameRegisters slowHost fastHost
  hostRip : slowHost.rip = fastHost.rip
  guest : SameRegisters slow fast
  slowRip : slow.rip = slowBack
  fastRip : fast.rip = fastBack

/-- The registers of the slow type that the host saved last. -/
def hostExtra (cpu : Cpu Space) (m : Machine Space) : Extra :=
  extraAt (m.mem (hostOf cpu m)) (m.gpr .rsi + pkCtxSize)

theorem slowHost_extra {cpu : Cpu Space} {back hostBack : Word} {m host turned t : Machine Space}
    (trip : RoundTrip cpu .slow back hostBack m host turned t) : extraOf host = hostExtra cpu m :=
  trip.entered.extra

theorem fastHost_extra {cpu : Cpu Space} {back hostBack : Word} {m host turned t : Machine Space}
    (trip : RoundTrip cpu .fast back hostBack m host turned t) : extraOf host = extraOf m :=
  trip.entered.extra

/-- With equal IDTR and CR4 the fast trip equals the slow one exactly when the third
register that the fast type leaves alone is equal too. -/
theorem tripsAgree_iff {cpu : Cpu Space} {slowBack fastBack slowHostBack fastHostBack : Word}
    {m slowHost slowTurned slow fastHost fastTurned fast : Machine Space}
    (slowTrip : RoundTrip cpu .slow slowBack slowHostBack m slowHost slowTurned slow)
    (fastTrip : RoundTrip cpu .fast fastBack fastHostBack m fastHost fastTurned fast)
    (sameRoot : slowTurned.mem (hostOf cpu m) (m.gpr .rsi + pkCtxCr3) =
      fastTurned.mem (hostOf cpu m) (m.gpr .rsi + pkCtxCr3))
    (savedIdtr : (hostExtra cpu m).idtr = m.idtr) (savedCr4 : (hostExtra cpu m).cr4 = m.cr4)
    (hostIdtr : fastTurned.idtr = m.idtr) (hostCr4 : fastTurned.cr4 = m.cr4) :
    TripsAgree slowBack fastBack slowHost fastHost slow fast ↔
      (hostExtra cpu m).kgs = m.msr msrKernelGsBase ∧
      fastTurned.msr msrKernelGsBase = m.msr msrKernelGsBase := by
  constructor
  · intro agree
    have host := agree.host.extra
    have guest := agree.guest.extra
    rw [slowHost_extra slowTrip,fastHost_extra fastTrip] at host
    rw [slowTrip.extra,fastTrip.extra] at guest
    exact ⟨congrArg Extra.kgs host,(congrArg Extra.kgs guest).symm⟩
  · rintro ⟨savedKgs,hostKgs⟩
    exact {
      host := {
        context := slowTrip.entered.context.trans fastTrip.entered.context.symm
        extra := by
          rw [slowHost_extra slowTrip,fastHost_extra fastTrip]
          exact Extra.ext savedKgs savedIdtr savedCr4
        cr3 := slowTrip.entered.cr3.trans fastTrip.entered.cr3.symm }
      hostRip := slowTrip.entered.rip.trans fastTrip.entered.rip.symm
      guest := {
        context := slowTrip.context.trans fastTrip.context.symm
        extra := by
          rw [slowTrip.extra,fastTrip.extra]
          exact (Extra.ext hostKgs hostIdtr hostCr4).symm
        cr3 := by rw [slowTrip.cr3,fastTrip.cr3,sameRoot] }
      slowRip := slowTrip.rip
      fastRip := fastTrip.rip }

/-- The loop's changes to the guest's half of the context. -/
def servedWords (mem : Space → Word → Word) (space : Space) (ctx rsi rdx root : Word) :
    Space → Word → Word :=
  setWord (setWord (setWord mem space (ctx + pkCtxRsi) rsi) space (ctx + pkCtxRdx) rdx)
    space (ctx + pkCtxCr3) root

def serve (cpu : Cpu Space) (ctx rsi rdx pcid : Word) (m : Machine Space) : Machine Space :=
  { m.set .rdi ctx with
    mem := servedWords m.mem (m.here cpu) ctx rsi rdx
      (withPcid (m.mem (m.here cpu) (ctx + pkCtxCr3)) pcid) }

theorem serve_extra (cpu : Cpu Space) (ctx rsi rdx pcid : Word) (m : Machine Space) :
    extraOf (serve cpu ctx rsi rdx pcid m) = extraOf m := rfl

theorem serve_turn (cpu : Cpu Space) (ctx rsi rdx : Word) {pcid : Word} (m : Machine Space)
    (small : pcid &&& ~~~0xfff = 0#64) : HostTurn cpu ctx m (serve cpu ctx rsi rdx pcid m) where
  rdi := m.set_same .rdi ctx
  here := rfl
  words := by
    intro disp _ other
    simp only [List.mem_cons,List.not_mem_nil,or_false,not_or] at other
    apply Eq.trans (setWord_disp other.2.2)
    rw [setWord_disp other.2.1,setWord_disp other.1]
  root := Eq.trans (congrArg (· &&& ~~~0xfff) setWord_here) (withPcid_root _ small)
  others := by
    intro s other
    funext a
    apply Eq.trans (setWord_space other)
    rw [setWord_space other,setWord_space other]

theorem serve_rsi (cpu : Cpu Space) (ctx rsi rdx pcid : Word) (m : Machine Space) :
    (serve cpu ctx rsi rdx pcid m).mem (m.here cpu) (ctx + pkCtxRsi) = rsi :=
  (setWord_disp (by decide)).trans ((setWord_disp (by decide)).trans setWord_here)

theorem serve_rdx (cpu : Cpu Space) (ctx rsi rdx pcid : Word) (m : Machine Space) :
    (serve cpu ctx rsi rdx pcid m).mem (m.here cpu) (ctx + pkCtxRdx) = rdx :=
  (setWord_disp (by decide)).trans setWord_here

/-- The trip in which the host serves a call and resumes the guest at once. -/
theorem serve_trip (cpu : Cpu Space) (type : Variant) (back hostBack rsi rdx : Word)
    (m : Machine Space) (spaces : m.here cpu ≠ hostOf cpu m) :
    RoundTrip cpu type back hostBack m (run cpu (pkRkcall type back) m)
      (serve cpu (m.gpr .rsi) rsi rdx 0 (run cpu (pkRkcall type back) m))
      (run cpu (pkRkret type hostBack)
        (serve cpu (m.gpr .rsi) rsi rdx 0 (run cpu (pkRkcall type back) m))) where
  spaces := spaces
  enter := rfl
  turn := serve_turn cpu (m.gpr .rsi) rsi rdx _ (by decide)
  resume := rfl

/-- Two memories: the guest's lies under frame 5. -/
inductive Side where
  | host | guest
  deriving DecidableEq, Repr

def sides : Cpu Side where
  space frame := if frame = 5 then .guest else .host
  status _ _ := 0

/-- A guest about to call, with the context at 0x9000 and `kgs` in KERNEL_GS_BASE. -/
def caller (kgs : Word) : Machine Side where
  gpr reg := if reg = .rdi then 0x1000 else if reg = .rsi then 0x9000 else 0x800
  rflags := 2
  rip := 0
  cr3 := 0x5000
  cr4 := 0
  msr number := if number = msrKernelGsBase then kgs else 0
  idtr := 0
  gdtr := 0
  mem _ _ := 0

theorem caller_spaces (kgs : Word) : (caller kgs).here sides ≠ hostOf sides (caller kgs) :=
  (by decide : sides.space (frameOf 0x5000) ≠ sides.space (frameOf 0x1000))

theorem caller_trip (type : Variant) (kgs : Word) : RoundTrip sides type 0x100 0x200 (caller kgs)
    (run sides (pkRkcall type 0x100) (caller kgs))
    (serve sides 0x9000 0 0 0 (run sides (pkRkcall type 0x100) (caller kgs)))
    (run sides (pkRkret type 0x200)
      (serve sides 0x9000 0 0 0 (run sides (pkRkcall type 0x100) (caller kgs)))) :=
  serve_trip sides type 0x100 0x200 0 0 (caller kgs) (caller_spaces kgs)

theorem caller_hostExtra (kgs : Word) : hostExtra sides (caller kgs) = ⟨0,0,0⟩ := by
  have table : tableOf 0 0 = 0 := by decide
  simp only [hostExtra,extraAt,caller,table]

theorem caller_root (type : Variant) (kgs : Word) :
    (serve sides 0x9000 0 0 0 (run sides (pkRkcall type 0x100) (caller kgs))).mem
      (hostOf sides (caller kgs)) ((caller kgs).gpr .rsi + pkCtxCr3) = withPcid 0x5000 0 := by
  have trip := caller_trip type kgs
  rw [← trip.hostHere]
  refine Eq.trans setWord_here (congrArg (withPcid · 0) ?_)
  rw [trip.hostHere]
  exact trip.entered.savedCr3

theorem caller_turned_extra (kgs : Word) : extraOf
    (serve sides 0x9000 0 0 0 (run sides (pkRkcall .fast 0x100) (caller kgs))) =
      extraOf (caller kgs) :=
  (serve_extra ..).trans (fastHost_extra (caller_trip .fast kgs))

/-- Where all three registers are equal the trips agree. -/
theorem tripsAgree_caller : TripsAgree 0x100 0x100
    (run sides (pkRkcall .slow 0x100) (caller 0)) (run sides (pkRkcall .fast 0x100) (caller 0))
    (run sides (pkRkret .slow 0x200)
      (serve sides 0x9000 0 0 0 (run sides (pkRkcall .slow 0x100) (caller 0))))
    (run sides (pkRkret .fast 0x200)
      (serve sides 0x9000 0 0 0 (run sides (pkRkcall .fast 0x100) (caller 0)))) := by
  have saved := caller_hostExtra 0
  have slowTrip := caller_trip .slow 0
  have fastTrip := caller_trip .fast 0
  have sameRoot := (caller_root .slow 0).trans (caller_root .fast 0).symm
  have kept := caller_turned_extra 0
  generalize serve sides 0x9000 0 0 0 (run sides (pkRkcall .fast 0x100) (caller 0)) = turned at *
  exact (tripsAgree_iff slowTrip fastTrip sameRoot
    (congrArg Extra.idtr saved) (congrArg Extra.cr4 saved)
    (congrArg Extra.idtr kept) (congrArg Extra.cr4 kept)).mpr
    ⟨congrArg Extra.kgs saved,congrArg Extra.kgs kept⟩

/-- The guest's KERNEL_GS_BASE is in force in the host during the fast trip. -/
theorem fast_leaks_kernelGsBase : ¬ ∀ (m slowHost slowTurned slow fastHost fastTurned fast :
    Machine Side), RoundTrip sides .slow 0x100 0x200 m slowHost slowTurned slow →
    RoundTrip sides .fast 0x100 0x200 m fastHost fastTurned fast →
    slowTurned.mem (hostOf sides m) (m.gpr .rsi + pkCtxCr3) =
      fastTurned.mem (hostOf sides m) (m.gpr .rsi + pkCtxCr3) →
    (hostExtra sides m).idtr = m.idtr → (hostExtra sides m).cr4 = m.cr4 →
    fastTurned.idtr = m.idtr → fastTurned.cr4 = m.cr4 →
    TripsAgree 0x100 0x100 slowHost fastHost slow fast := by
  intro claim
  have saved := caller_hostExtra 1
  have slowTrip := caller_trip .slow 1
  have fastTrip := caller_trip .fast 1
  have sameRoot := (caller_root .slow 1).trans (caller_root .fast 1).symm
  have kept := caller_turned_extra 1
  generalize serve sides 0x9000 0 0 0 (run sides (pkRkcall .fast 0x100) (caller 1)) = turned at *
  have host := (claim _ _ _ _ _ _ _ slowTrip fastTrip sameRoot
    (congrArg Extra.idtr saved) (congrArg Extra.cr4 saved)
    (congrArg Extra.idtr kept) (congrArg Extra.cr4 kept)).host.extra
  rw [slowHost_extra slowTrip,fastHost_extra fastTrip,saved] at host
  exact absurd (congrArg Extra.kgs host) (by decide)

end Cki.Switch
