import Cki.SwitchTrips

/-! The rest of an rkcall in the guest. From POPFQ on interrupts may be taken between
any two instructions, and their handlers, like `pk_handle_events`, may make further
rkcalls on the same context. What such a piece of guest code must leave alone is the
memory live for the code it interrupts. -/
namespace Cki.Switch

open Asm

universe u

/-- The addresses of the code of one call type. -/
structure Labels where
  back : Word
  handled : Word
  pkHandleEvents : Word
  hostBack : Word

variable {Space : Type u} [DecidableEq Space]

/-- The caller's live memory and the own frame from the stack pointer up to `top`. -/
def Live (outer : Word → Prop) (top : Word) (m : Machine Space) (a : Word) : Prop :=
  outer a ∨ a - m.gpr .rsp ≤ top - m.gpr .rsp

def KeepsLive (guest : Space) (live : Word → Prop) (m t : Machine Space) : Prop :=
  ∀ a, live a → t.mem guest a = m.mem guest a

/-- A C function entered at `m` has returned at `t`. The status flags are its own. -/
structure AbiReturn (guest : Space) (m t : Machine Space) : Prop where
  rip : t.rip = m.mem guest (m.gpr .rsp)
  context : contextOf t = { contextOf m with rsp := m.gpr .rsp + 8 }
  root : frameOf t.cr3 = frameOf m.cr3
  flags : t.rflags &&& ~~~statusMask = m.rflags &&& ~~~statusMask

/-- What the guest may be doing: an rkcall from call site to return, for which the host
leaves `rsi` and `rdx` in the context; the guest's part of one; an interrupt; a run of
`pk_handle_events`; any guest code. -/
inductive Activity where
  | rkcall (type : Variant) (ret rsi rdx : Word)
  | code (code : List Instr) (top : Word)
  | irq
  | handler
  | body

/-- Guest runs that leave `live` alone, with the arguments of the `pk_handle_events`
calls that the code itself makes. An interrupt returns with every register as it was,
CR3 up to the PCID. -/
inductive Runs (cpu : Cpu Space) (labels : Variant → Labels) (guest : Space) :
    Activity → (Word → Prop) → Machine Space → Machine Space → List Word → Prop where
  | idle (live : Word → Prop) (m : Machine Space) : Runs cpu labels guest .body live m m []
  | code {live : Word → Prop} {m u t : Machine Space} : KeepsLive guest live m u →
      Runs cpu labels guest .body live u t [] → Runs cpu labels guest .body live m t []
  | interrupted {live : Word → Prop} {m u t : Machine Space} :
      Runs cpu labels guest .irq live m u [] → Runs cpu labels guest .body live u t [] →
      Runs cpu labels guest .body live m t []
  | called {type : Variant} {ret rsi rdx : Word} {live : Word → Prop} {m u t : Machine Space}
      {args : List Word} : Runs cpu labels guest (.rkcall type ret rsi rdx) live m u args →
      Runs cpu labels guest .body live u t [] → Runs cpu labels guest .body live m t []
  | irq {live : Word → Prop} {m u : Machine Space} : Runs cpu labels guest .body live m u [] →
      frameOf u.cr3 = frameOf m.cr3 →
      Runs cpu labels guest .irq live m { m with mem := u.mem, cr3 := u.cr3 } []
  | handler {live : Word → Prop} {m t : Machine Space} : Runs cpu labels guest .body live m t [] →
      AbiReturn guest m t → Runs cpu labels guest .handler live m t []
  | done (top : Word) (live : Word → Prop) (m : Machine Space) :
      Runs cpu labels guest (.code [] top) live m m []
  | step {i : Instr} {code : List Instr} {top : Word} {live : Word → Prop} {m t : Machine Space}
      {args : List Word} : (∀ ret target, i ≠ .call ret target) →
      Runs cpu labels guest (.code code top) live (exec cpu m i) t args →
      Runs cpu labels guest (.code (i :: code) top) live m t args
  | stepIrq {i : Instr} {code : List Instr} {top : Word} {live : Word → Prop}
      {m u t : Machine Space} {args : List Word} :
      Runs cpu labels guest .irq (Live live top m) m u [] →
      Runs cpu labels guest (.code (i :: code) top) live u t args →
      Runs cpu labels guest (.code (i :: code) top) live m t args
  | stepCall {ret target : Word} {code : List Instr} {top : Word} {live : Word → Prop}
      {m u t : Machine Space} {args : List Word} :
      Runs cpu labels guest .handler (Live live top (exec cpu m (.call ret target)))
        (exec cpu m (.call ret target)) u [] →
      Runs cpu labels guest (.code code top) live u t args →
      Runs cpu labels guest (.code (.call ret target :: code) top) live m t (m.gpr .rdi :: args)
  | rkcall {type : Variant} {ret target : Word} {live : Word → Prop}
      {c host turned u t : Machine Space} {args : List Word} :
      c.here cpu = guest → (∀ k ∈ [8#64,16#64,24#64], ¬ live (c.gpr .rsp - k)) →
      RoundTrip cpu type (labels type).back (labels type).hostBack (exec cpu c (.call ret target))
        host turned u →
      Runs cpu labels guest (.code (pkRkcallBack (labels type).handled (labels type).pkHandleEvents ++
        pkRkcallHandled) (c.gpr .rsp - 8)) live u t args →
      Runs cpu labels guest (.rkcall type ret
        (turned.mem (hostOf cpu c) (c.gpr .rsi + pkCtxRsi))
        (turned.mem (hostOf cpu c) (c.gpr .rsi + pkCtxRdx))) live c t args

/-! What each activity has done when it ends. -/

/-- An interrupt has been served: memory below the stack pointer and the PCID may differ. -/
structure Served (guest : Space) (live : Word → Prop) (m t : Machine Space) : Prop where
  rest : t = { m with mem := t.mem, cr3 := t.cr3 }
  root : frameOf t.cr3 = frameOf m.cr3
  memory : KeepsLive guest live m t

structure Handled (guest : Space) (live : Word → Prop) (m t : Machine Space) : Prop where
  returned : AbiReturn guest m t
  memory : KeepsLive guest live m t

/-- An rkcall made at `c` has returned at `t`, the status flags aside as if nothing had
happened. -/
structure Transparent (guest : Space) (live : Word → Prop) (ret rsi rdx : Word)
    (c t : Machine Space) (args : List Word) : Prop where
  rip : t.rip = ret
  context : contextOf t = contextOf c
  flags : t.rflags &&& ~~~statusMask = c.rflags &&& ~~~statusMask
  root : frameOf t.cr3 = frameOf c.cr3
  rax : t.gpr .rax = rsi
  events : args = [rdx]
  memory : KeepsLive guest live c t

/-- One instruction of the code, a call together with the function it calls. -/
def Step (cpu : Cpu Space) (guest : Space) (live : Word → Prop) (top : Word) :
    Instr → Machine Space → Machine Space → List Word → Prop
  | .call ret target,m,t,args =>
    Handled guest (Live live top (exec cpu m (.call ret target))) (exec cpu m (.call ret target)) t ∧
    args = [m.gpr .rdi]
  | i,m,t,args => t = exec cpu m i ∧ args = []

/-- The code runs through, with interrupts before any instruction. -/
def Through (cpu : Cpu Space) (guest : Space) (live : Word → Prop) (top : Word) :
    List Instr → Machine Space → Machine Space → List Word → Prop
  | [],m,t,args => t = m ∧ args = []
  | i :: code,m,t,args => ∃ u v first rest, Served guest (Live live top m) m u ∧
    Step cpu guest live top i u v first ∧ Through cpu guest live top code v t rest ∧
    args = first ++ rest

def Activity.Spec (cpu : Cpu Space) (guest : Space) (live : Word → Prop) (m t : Machine Space)
    (args : List Word) : Activity → Prop
  | .rkcall _ ret rsi rdx => Transparent guest live ret rsi rdx m t args
  | .code instrs top => Through cpu guest live top instrs m t args
  | .irq => Served guest live m t
  | .handler => Handled guest live m t
  | .body => KeepsLive guest live m t

omit [DecidableEq Space] in
theorem Served.gpr {guest : Space} {live : Word → Prop} {m t : Machine Space}
    (served : Served guest live m t) : t.gpr = m.gpr := by rw [served.rest]

omit [DecidableEq Space] in
theorem Served.here {guest : Space} {live : Word → Prop} {m t : Machine Space} (cpu : Cpu Space)
    (served : Served guest live m t) : t.here cpu = m.here cpu := by
  simp only [Machine.here,served.root]

omit [DecidableEq Space] in
theorem live_congr {outer : Word → Prop} {top : Word} {m t : Machine Space}
    (gpr : t.gpr = m.gpr) : Live outer top t = Live outer top m := by
  funext a
  simp only [Live,gpr]

omit [DecidableEq Space] in
theorem Served.refl (guest : Space) (live : Word → Prop) (m : Machine Space) :
    Served guest live m m := ⟨rfl,rfl,fun _ _ => rfl⟩

omit [DecidableEq Space] in
theorem Served.trans {guest : Space} {live : Word → Prop} {m u t : Machine Space}
    (first : Served guest live m u) (second : Served guest live u t) : Served guest live m t where
  rest := by
    rw [second.rest,first.rest]
  root := second.root.trans first.root
  memory := by
    intro a word
    rw [second.memory a word,first.memory a word]

theorem step_plain {cpu : Cpu Space} {guest : Space} {live : Word → Prop} {top : Word} {i : Instr}
    {m : Machine Space} (plain : ∀ ret target, i ≠ .call ret target) :
    Step cpu guest live top i m (exec cpu m i) [] := by
  cases i with
  | call ret target => exact absurd rfl (plain ret target)
  | _ => exact ⟨rfl,rfl⟩

theorem Through.served {cpu : Cpu Space} {guest : Space} {live : Word → Prop} {top : Word}
    {i : Instr} {code : List Instr} {m u t : Machine Space} {args : List Word}
    (served : Served guest (Live live top m) m u)
    (through : Through cpu guest live top (i :: code) u t args) :
    Through cpu guest live top (i :: code) m t args := by
  obtain ⟨v,w,first,rest,second,step,through,joined⟩ := through
  rw [live_congr served.gpr] at second
  exact ⟨v,w,first,rest,served.trans second,step,through,joined⟩

/-! Label 1 of `__pk_rkcall`. -/

/-- A point of label 1: between its instructions only the stack below the return
address and the PCID change. -/
structure Point (guest : Space) (live : Word → Prop) (top rsp : Word) (m t : Machine Space) :
    Prop where
  context : contextOf t = { contextOf m with rsp := rsp }
  root : frameOf t.cr3 = frameOf m.cr3
  ret : t.mem guest top = m.mem guest top
  memory : KeepsLive guest live m t

omit [DecidableEq Space] in
theorem Point.stack {guest : Space} {live : Word → Prop} {top rsp : Word} {m t : Machine Space}
    (point : Point guest live top rsp m t) : t.gpr .rsp = rsp :=
  congrArg Context.rsp point.context

omit [DecidableEq Space] in
theorem Point.here {guest : Space} {live : Word → Prop} {top rsp : Word} {m t : Machine Space}
    (cpu : Cpu Space) (point : Point guest live top rsp m t) : t.here cpu = m.here cpu := by
  simp only [Machine.here,point.root]

omit [DecidableEq Space] in
theorem Point.served {guest : Space} {live : Word → Prop} {top rsp : Word} {m t u : Machine Space}
    (point : Point guest live top rsp m t) (served : Served guest (Live live top t) t u) :
    Point guest live top rsp m u where
  context := by
    rw [← point.context,served.rest]
    rfl
  root := served.root.trans point.root
  ret := by
    rw [served.memory top (Or.inr (BitVec.le_refl _)),point.ret]
  memory := by
    intro a word
    rw [served.memory a (Or.inl word),point.memory a word]

omit [DecidableEq Space] in
/-- The word under the stack pointer is live as well. -/
theorem Served.stack {guest : Space} {live : Word → Prop} {top : Word} {t u : Machine Space}
    (served : Served guest (Live live top t) t u) :
    u.mem guest (t.gpr .rsp) = t.mem guest (t.gpr .rsp) := by
  refine served.memory _ (Or.inr ?_)
  rw [BitVec.sub_self]
  exact Nat.zero_le _

omit [DecidableEq Space] in
theorem Point.popped {guest : Space} {live : Word → Prop} {top : Word} {m t u : Machine Space}
    (point : Point guest live top (top - 8) m t)
    (context : contextOf u = { contextOf t with rsp := t.gpr .rsp + 8 }) (cr3 : u.cr3 = t.cr3)
    (mem : u.mem = t.mem) : Point guest live top top m u where
  context := by
    rw [context,point.context,point.stack,BitVec.sub_add_cancel]
  root := by
    rw [cr3]
    exact point.root
  ret := by
    rw [mem]
    exact point.ret
  memory := by
    rw [KeepsLive,mem]
    exact point.memory

theorem Point.push {cpu : Cpu Space} {guest : Space} {live : Word → Prop} {top : Word}
    {m t : Machine Space} (guestHere : m.here cpu = guest) (free : ¬ live (top - 8))
    (point : Point guest live top top m t) :
    Point guest live top (top - 8) m (exec cpu t (.push .rsi)) ∧
    (exec cpu t (.push .rsi)).mem guest (top - 8) = t.gpr .rsi := by
  have pushed : (exec cpu t (.push .rsi)).mem = setWord t.mem guest (top - 8) (t.gpr .rsi) := by
    rw [← guestHere,← point.here cpu,← point.stack]
    rfl
  have context : contextOf (exec cpu t (.push .rsi)) =
    { contextOf t with rsp := t.gpr .rsp - 8 } := rfl
  refine ⟨?_,by rw [pushed,setWord_here]⟩
  exact {
    context := by rw [context,point.context,point.stack]
    root := point.root
    ret := by
      rw [pushed,← point.ret]
      exact if_neg fun same => absurd same.2 (by bv_omega)
    memory := by
      intro a word
      rw [pushed,← point.memory a word]
      refine if_neg fun same => free ?_
      rwa [← same.2] }

theorem Point.mov {cpu : Cpu Space} {guest : Space} {live : Word → Prop} {top rsp : Word}
    {m t : Machine Space} (point : Point guest live top rsp m t) :
    Point guest live top rsp m (exec cpu t (.mov .rdx .rdi)) where
  context := point.context
  root := point.root
  ret := point.ret
  memory := point.memory

/-- The call keeps the word pushed before it, the return address and what is live. -/
theorem Point.called {cpu : Cpu Space} {guest : Space} {live : Word → Prop} {top back target : Word}
    {m t u : Machine Space} (guestHere : m.here cpu = guest) (free : ¬ live (top - 16))
    (point : Point guest live top (top - 8) m t)
    (handled : Handled guest (Live live top (exec cpu t (.call back target)))
      (exec cpu t (.call back target)) u) :
    Point guest live top (top - 8) m u ∧ u.mem guest (top - 8) = t.mem guest (top - 8) ∧
    u.rflags &&& ~~~statusMask = t.rflags &&& ~~~statusMask := by
  have stack : t.gpr .rsp - 8 = top - 16 := by
    rw [point.stack]
    bv_omega
  have popped : top - 16 + 8 = top - 8 := by bv_omega
  have rsp : (exec cpu t (.call back target)).gpr .rsp = top - 16 := stack
  have pushed : (exec cpu t (.call back target)).mem = setWord t.mem guest (top - 16) back := by
    rw [← guestHere,← point.here cpu,← stack]
    rfl
  have context : contextOf (exec cpu t (.call back target)) =
    { contextOf t with rsp := t.gpr .rsp - 8 } := rfl
  have kept : ∀ a, Live live top (exec cpu t (.call back target)) a → a ≠ top - 16 →
      u.mem guest a = t.mem guest a := by
    intro a word other
    rw [handled.memory a word,pushed]
    exact if_neg fun same => other same.2
  have own : ∀ a, a - (top - 16) ≤ top - (top - 16) →
      Live live top (exec cpu t (.call back target)) a := by
    intro a inside
    apply Or.inr
    rwa [rsp]
  refine ⟨?_,kept _ (own _ (by bv_omega)) (by bv_omega),handled.returned.flags⟩
  exact {
    context := by
      rw [handled.returned.context,rsp,context,point.context,popped]
    root := handled.returned.root.trans point.root
    ret := by
      rw [kept top (own top (by bv_omega)) (by bv_omega),point.ret]
    memory := by
      intro a word
      rw [kept a (Or.inl word),point.memory a word]
      rintro rfl
      exact free word }

omit [DecidableEq Space] in
theorem Point.start (guest : Space) (live : Word → Prop) (top : Word) {rsp : Word}
    {m : Machine Space} (stack : m.gpr .rsp = rsp) : Point guest live top rsp m m where
  context := by
    rw [← stack]
    rfl
  root := rfl
  ret := rfl
  memory := fun _ _ => rfl

omit [DecidableEq Space] in
theorem Point.trans {guest : Space} {live : Word → Prop} {top rsp other : Word}
    {m u t : Machine Space} (first : Point guest live top rsp m u)
    (second : Point guest live top other u t) : Point guest live top other m t where
  context := by
    rw [second.context,first.context]
  root := second.root.trans first.root
  ret := second.ret.trans first.ret
  memory := by
    intro a word
    rw [second.memory a word,first.memory a word]

/-- From label 1 to the return of `pk_handle_events`. -/
theorem pkRkcallBack_spec {cpu : Cpu Space} {guest : Space} {live : Word → Prop}
    {top handled pkHandleEvents : Word} {rest : List Instr} {m t : Machine Space} {args : List Word}
    (guestHere : m.here cpu = guest) (stack : m.gpr .rsp = top - 8)
    (free8 : ¬ live (top - 8)) (free16 : ¬ live (top - 16))
    (through : Through cpu guest live top (pkRkcallBack handled pkHandleEvents ++ rest) m t args) :
    ∃ u others, Point guest live top (top - 8) m u ∧ u.mem guest (top - 8) = m.gpr .rsi ∧
      u.rflags &&& ~~~statusMask = m.mem guest (top - 8) &&& ~~~statusMask ∧
      args = m.gpr .rdx :: others ∧ Through cpu guest live top rest u t others := by
  obtain ⟨u0,_,_,_,served0,⟨rfl,rfl⟩,through,rfl⟩ := through
  obtain ⟨u1,_,_,_,served1,⟨rfl,rfl⟩,through,rfl⟩ := through
  obtain ⟨u2,_,_,_,served2,⟨rfl,rfl⟩,through,rfl⟩ := through
  obtain ⟨u3,u4,_,others,served3,⟨handled4,rfl⟩,through,rfl⟩ := through
  have at0 := (Point.start guest live top stack).served served0
  have flags0 := served0.stack
  rw [stack] at flags0
  have popped : Point guest live top top m (exec cpu u0 .popfq) := at0.popped rfl rfl rfl
  have rflags0 : (exec cpu u0 .popfq).rflags = u0.mem guest (top - 8) := by
    rw [← at0.stack,← guestHere,← at0.here cpu]
    rfl
  have at1 := popped.served served1
  have rflags1 : u1.rflags = m.mem guest (top - 8) := by
    rw [served1.rest,← flags0,← rflags0]
  have rsi1 : u1.gpr .rsi = m.gpr .rsi := (congrFun served1.gpr .rsi).trans (congrFun served0.gpr .rsi)
  have rdx1 : u1.gpr .rdx = m.gpr .rdx := (congrFun served1.gpr .rdx).trans (congrFun served0.gpr .rdx)
  obtain ⟨pushed,word⟩ := at1.push guestHere free8
  have rdx2 : u2.gpr .rdx = m.gpr .rdx := (congrFun served2.gpr .rdx).trans rdx1
  have rflags2 : u2.rflags = u1.rflags := by
    rw [served2.rest]
    rfl
  have word2 := served2.stack
  rw [pushed.stack,word,rsi1] at word2
  have at2 := pushed.served served2
  have rdi3 : u3.gpr .rdi = m.gpr .rdx := (congrFun served3.gpr .rdi).trans rdx2
  have rflags3 : u3.rflags = u2.rflags := by
    rw [served3.rest]
    rfl
  have word3 := served3.stack
  rw [at2.mov.stack] at word3
  have at3 := at2.mov.served served3
  obtain ⟨at4,word4,flags4⟩ := at3.called guestHere free16 handled4
  refine ⟨u4,others,at4,?_,?_,?_,through⟩
  · rw [word4,word3,← word2]
    rfl
  · rw [flags4,rflags3,rflags2,rflags1]
  · rw [rdi3]
    rfl

theorem pkRkcallHandled_spec {cpu : Cpu Space} {guest : Space} {live : Word → Prop} {top : Word}
    {m t : Machine Space} {args : List Word} (guestHere : m.here cpu = guest)
    (stack : m.gpr .rsp = top - 8) (through : Through cpu guest live top pkRkcallHandled m t args) :
    Point guest live top (top + 8) m t ∧ t.rip = m.mem guest top ∧
      t.gpr .rax = m.mem guest (top - 8) ∧ t.rflags = m.rflags ∧ args = [] := by
  obtain ⟨u0,_,_,_,served0,⟨rfl,rfl⟩,through,rfl⟩ := through
  obtain ⟨u1,_,_,_,served1,⟨rfl,rfl⟩,⟨rfl,rfl⟩,rfl⟩ := through
  have at0 := (Point.start guest live top stack).served served0
  have word0 := served0.stack
  rw [stack] at word0
  have popped : Point guest live top top m (exec cpu u0 (.pop .rax)) := at0.popped rfl rfl rfl
  have rax0 : (exec cpu u0 (.pop .rax)).gpr .rax = m.mem guest (top - 8) := by
    rw [← word0,← at0.stack,← guestHere,← at0.here cpu]
    rfl
  have at1 := popped.served served1
  have context : contextOf (exec cpu u1 .ret) = { contextOf u1 with rsp := u1.gpr .rsp + 8 } := rfl
  refine ⟨?_,?_,(congrFun served1.gpr .rax).trans rax0,?_,rfl⟩
  · exact {
      context := by rw [context,at1.stack,at1.context]
      root := at1.root
      ret := at1.ret
      memory := at1.memory }
  · rw [← at1.ret,← at1.stack,← guestHere,← at1.here cpu]
    rfl
  · have rflags0 : u0.rflags = m.rflags := by rw [served0.rest]
    have rflags1 : u1.rflags = (exec cpu u0 (.pop .rax)).rflags := by rw [served1.rest]
    exact rflags1.trans rflags0

/-! The whole call. -/

theorem rkcall_through {cpu : Cpu Space} {type : Variant} {back hostBack handled pkHandleEvents ret
    target : Word} {guest : Space} {live : Word → Prop} {c host turned u t : Machine Space}
    {args : List Word} (guestHere : c.here cpu = guest)
    (free : ∀ k ∈ [8#64,16#64,24#64], ¬ live (c.gpr .rsp - k))
    (trip : RoundTrip cpu type back hostBack (exec cpu c (.call ret target)) host turned u)
    (through : Through cpu guest live (c.gpr .rsp - 8)
      (pkRkcallBack handled pkHandleEvents ++ pkRkcallHandled) u t args) :
    Transparent guest live ret (turned.mem (hostOf cpu c) (c.gpr .rsi + pkCtxRsi))
      (turned.mem (hostOf cpu c) (c.gpr .rsi + pkCtxRdx)) c t args := by
  have stack : (exec cpu c (.call ret target)).gpr .rsp = c.gpr .rsp - 8 := rfl
  have context : contextOf (exec cpu c (.call ret target)) =
    { contextOf c with rsp := c.gpr .rsp - 8 } := rfl
  have called : (exec cpu c (.call ret target)).mem =
      setWord c.mem guest (c.gpr .rsp - 8) ret := by
    rw [← guestHere]
    rfl
  have rsi := trip.rsi
  have rdx := trip.rdx
  have root := trip.root
  have context1 := trip.context
  have mem := trip.mem
  have callHere : (exec cpu c (.call ret target)).here cpu = guest := guestHere
  rw [callHere,stack,called] at mem
  rw [context,stack] at context1
  have here : u.here cpu = guest := by
    rw [← guestHere]
    exact congrArg cpu.space root
  obtain ⟨free8,free16,free24,_⟩ : _ ∧ _ ∧ _ ∧ _ := by
    simpa only [List.forall_mem_cons] using free
  have down1 : c.gpr .rsp - 8 - 8 = c.gpr .rsp - 16 := by bv_omega
  have down2 : c.gpr .rsp - 8 - 16 = c.gpr .rsp - 24 := by bv_omega
  have up : c.gpr .rsp - 8 + 8 = c.gpr .rsp := BitVec.sub_add_cancel ..
  have flags : u.mem guest (c.gpr .rsp - 8 - 8) = c.rflags := by
    rw [mem,setWord_here]
    rfl
  have retWord : u.mem guest (c.gpr .rsp - 8) = ret := by
    rw [mem]
    exact (if_neg fun same => absurd same.2 (by bv_omega)).trans setWord_here
  have kept : KeepsLive guest live c u := by
    intro a word
    rw [mem]
    refine (if_neg fun same => ?_).trans (if_neg fun same => ?_)
    · exact free16 (down1 ▸ same.2 ▸ word)
    · exact free8 (same.2 ▸ word)
  obtain ⟨v,others,first,rax,rflags,args1,through⟩ := pkRkcallBack_spec here
    (congrArg Context.rsp context1) (by rwa [down1]) (by rwa [down2]) through
  obtain ⟨last,rip,rax2,rflags2,args2⟩ :=
    pkRkcallHandled_spec ((first.here cpu).trans here) first.stack through
  have whole := first.trans last
  exact {
    rip := rip.trans (first.ret.trans retWord)
    context := by
      rw [whole.context,context1,up]
      rfl
    flags := by rw [rflags2,rflags,flags]
    root := whole.root.trans root
    rax := rax2.trans (rax.trans rsi)
    events := by
      rw [args1,args2,rdx]
      rfl
    memory := by
      intro a word
      rw [whole.memory a word,kept a word] }

theorem runs_spec {cpu : Cpu Space} {labels : Variant → Labels} {guest : Space} {activity : Activity}
    {live : Word → Prop} {m t : Machine Space} {args : List Word}
    (runs : Runs cpu labels guest activity live m t args) :
    activity.Spec cpu guest live m t args := by
  induction runs with
  | idle live m => exact fun _ _ => rfl
  | code kept _ later => exact fun a word => (later a word).trans (kept a word)
  | interrupted _ _ served later => exact fun a word => (later a word).trans (served.memory a word)
  | called _ _ call later => exact fun a word => (later a word).trans (call.memory a word)
  | irq _ root kept => exact ⟨rfl,root,kept⟩
  | handler _ returned kept => exact ⟨returned,kept⟩
  | done top live m => exact ⟨rfl,rfl⟩
  | step plain _ through => exact ⟨_,_,[],_,.refl .., step_plain plain,through,rfl⟩
  | stepIrq _ _ served through => exact Through.served served through
  | stepCall _ _ handled through => exact ⟨_,_,[_],_,.refl ..,⟨handled,rfl⟩,through,rfl⟩
  | rkcall guestHere free trip _ through => exact rkcall_through guestHere free trip through

/-- An rkcall in its context of interrupts, handlers and further rkcalls. -/
theorem rkcall_transparent {cpu : Cpu Space} {labels : Variant → Labels} {guest : Space}
    {type : Variant} {ret rsi rdx : Word} {live : Word → Prop} {c t : Machine Space}
    {args : List Word} (runs : Runs cpu labels guest (.rkcall type ret rsi rdx) live c t args) :
    Transparent guest live ret rsi rdx c t args := runs_spec runs

/-- A `pk_handle_events` that does nothing but leave its own status flags. -/
def returnWith (guest : Space) (status : Word) (m : Machine Space) : Machine Space :=
  { m.set .rsp (m.gpr .rsp + 8) with
    rip := m.mem guest (m.gpr .rsp)
    rflags := m.rflags &&& ~~~statusMask ||| status &&& statusMask }

omit [DecidableEq Space] in
theorem returnWith_abi (guest : Space) (status : Word) (m : Machine Space) :
    AbiReturn guest m (returnWith guest status m) where
  rip := rfl
  context := rfl
  root := rfl
  flags := by
    have apart : statusMask &&& ~~~statusMask = 0 := by decide
    simp only [returnWith,BitVec.and_or_distrib_right,BitVec.and_assoc,BitVec.and_self,apart]
    simp

theorem returnWith_runs (cpu : Cpu Space) (labels : Variant → Labels) (guest : Space)
    (status : Word) (live : Word → Prop) (m : Machine Space) :
    Runs cpu labels guest .handler live m (returnWith guest status m) [] := by
  have kept : KeepsLive guest live m (returnWith guest status m) := fun _ _ => rfl
  exact .handler (.code kept (.idle ..)) (returnWith_abi guest status m)

/-- Every resumed rkcall can return, with any status flags. -/
theorem rkcall_returns {cpu : Cpu Space} (labels : Variant → Labels) {guest : Space}
    {type : Variant} {ret target : Word} (live : Word → Prop) {c host turned u : Machine Space}
    (guestHere : c.here cpu = guest) (free : ∀ k ∈ [8#64,16#64,24#64], ¬ live (c.gpr .rsp - k))
    (trip : RoundTrip cpu type (labels type).back (labels type).hostBack
      (exec cpu c (.call ret target)) host turned u) (status : Word) :
    ∃ t args, Runs cpu labels guest (.rkcall type ret
        (turned.mem (hostOf cpu c) (c.gpr .rsi + pkCtxRsi))
        (turned.mem (hostOf cpu c) (c.gpr .rsi + pkCtxRdx))) live c t args ∧
      t.rflags &&& statusMask = status &&& statusMask := by
  refine ⟨_,_,.rkcall guestHere free trip (.step nofun (.step nofun (.step nofun
    (.stepCall (returnWith_runs cpu labels guest status _ _)
      (.step nofun (.step nofun (.done ..))))))),?_⟩
  have apart : ~~~statusMask &&& statusMask = 0 := by decide
  simp only [exec,Machine.set,returnWith,BitVec.and_or_distrib_right,BitVec.and_assoc,
    BitVec.and_self,apart]
  simp

def callerLabels (_ : Variant) : Labels := ⟨0x100,0x180,0x400,0x200⟩

/-- A call whose host stores the result 7 and the events word 4. -/
theorem caller_returns (type : Variant) (status : Word) :
    ∃ t args, Runs sides callerLabels .guest (.rkcall type 0x300 7 4) (· = 0x800) (caller 0) t args ∧
      t.rflags &&& statusMask = status &&& statusMask := by
  have trip := serve_trip sides type 0x100 0x200 7 4 (exec sides (caller 0) (.call 0x300 0x50))
    (caller_spaces 0)
  have rsi := serve_rsi sides 0x9000 7 4 0
    (run sides (pkRkcall type 0x100) (exec sides (caller 0) (.call 0x300 0x50)))
  have rdx := serve_rdx sides 0x9000 7 4 0
    (run sides (pkRkcall type 0x100) (exec sides (caller 0) (.call 0x300 0x50)))
  have hostHere := trip.hostHere
  rw [hostHere] at rsi rdx
  have ctx : (exec sides (caller 0) (.call 0x300 0x50)).gpr .rsi = 0x9000 := rfl
  rw [ctx] at trip
  generalize serve sides 0x9000 7 4 0 _ = turned at *
  generalize run sides (pkRkret type 0x200) turned = u at *
  generalize run sides (pkRkcall type 0x100) _ = host at *
  have guestHere : (caller 0).here sides = .guest := (by decide : sides.space (frameOf 0x5000) = _)
  have stack : (caller 0).gpr .rsp = 0x800 := rfl
  have free : ∀ k ∈ [8#64,16#64,24#64], ¬ (caller 0).gpr .rsp - k = 0x800 := by
    rw [stack]
    simp
  obtain ⟨t,args,runs,flags⟩ := rkcall_returns callerLabels (· = 0x800) guestHere free trip status
  refine ⟨t,args,?_,flags⟩
  have rsiWord : turned.mem (hostOf sides (caller 0)) ((caller 0).gpr .rsi + pkCtxRsi) = 7 := rsi
  have rdxWord : turned.mem (hostOf sides (caller 0)) ((caller 0).gpr .rsi + pkCtxRdx) = 4 := rdx
  rwa [rsiWord,rdxWord] at runs

theorem rkcall_transparent_caller : ∃ t args, Transparent Side.guest (· = 0x800) 0x300 7 4 (caller 0)
    t args := by
  obtain ⟨t,args,runs,_⟩ := caller_returns .fast 1
  exact ⟨t,args,rkcall_transparent runs⟩

/-- The call of `pk_handle_events` comes after POPFQ, so its status flags stay. -/
theorem rkcall_loses_statusFlags : ¬ ∀ (type : Variant) (t : Machine Side) (args : List Word),
    Runs sides callerLabels .guest (.rkcall type 0x300 7 4) (· = 0x800) (caller 0) t args →
    t.rflags = (caller 0).rflags := by
  intro claim
  obtain ⟨t,args,runs,flags⟩ := caller_returns .slow 1
  have same : t.rflags = 2 := claim .slow t args runs
  rw [same] at flags
  exact absurd flags (by decide)

end Cki.Switch
