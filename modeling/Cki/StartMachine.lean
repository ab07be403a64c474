import Cki.Run
import Cki.StartEvents
import Cki.StartSwitch
import Cki.SwitchHost

/-! START's vCPU on the machine. The contexts lie in the host's memory, the two templates switch
between START and the guest, and START reads and writes the context's words. -/
namespace Cki.Start

open Asm Switch Virtio

universe u

/-- START's thread: its processor, and the rest of what it works on. While an rkcall waits,
`caller` notes the registers it was made with and where it goes on. -/
structure OnMachine (Space : Type u) where
  machine : Machine Space
  virtioEventCnt : BitVec 32
  pkRkret : Variant
  virtio : VirtioNet
  control : Control
  ret : Word
  kargs : Word × Word
  caller : Option (Context × Word)

variable {Space : Type u}

/-- What START's C code finds in its variables and behind `ctx`. -/
def OnMachine.state (c : OnMachine Space) (host : Space) (ctx : Word) : State where
  vcpu := ⟨regsAt (c.machine.mem host) ctx,regsAt (c.machine.mem host) (ctx + pkCtxSize),
    c.virtioEventCnt,c.pkRkret⟩
  virtio := c.virtio
  control := c.control
  ret := c.ret
  kargs := c.kargs
  unanswered := none

variable [DecidableEq Space]

/-- The words that START's C code writes to the context, and its variables. -/
def OnMachine.store (c : OnMachine Space) (host : Space) (ctx : Word) (s : State) :
    OnMachine Space where
  machine := { c.machine with
    mem := servedWords c.machine.mem host ctx s.vcpu.pmode.rsi s.vcpu.pmode.rdx s.vcpu.pmode.cr3 }
  virtioEventCnt := s.vcpu.virtioEventCnt
  pkRkret := s.vcpu.pkRkret
  virtio := s.virtio
  control := s.control
  ret := s.ret
  kargs := s.kargs
  caller := c.caller

/-- The top of the loop, before the call of `pk_rkret`. -/
def OnMachine.ready (c : OnMachine Space) (cntr : Cntr) (host : Space) (ctx : Word) : Machine Space :=
  { c.machine.set .rdi ctx with
    mem := setWord c.machine.mem host (ctx + pkCtxCr3)
      (withPcid (c.machine.mem host (ctx + pkCtxCr3)) cntr.pcid) }

/-- Both halves of the context are as they were. -/
def CtxKept (host : Space) (ctx : Word) (m t : Machine Space) : Prop :=
  ∀ a, Half ctx a ∨ Half (ctx + pkCtxSize) a → t.mem host a = m.mem host a

inductive MachineEvent where
  | start (kargs : Word × Word) (ret : Word)
  | wakeup
  | resume (back : Word)
  | rkcall (type : Variant) (back : Word)
  | host
  | copied (ok : Bool)
  | code
  | own
  deriving DecidableEq, Repr

inductive MachineStep (cpu : Cpu Space) (cntr : Cntr) (host : Space) (ctx : Word)
    (c : OnMachine Space) : MachineEvent → OnMachine Space → Prop where
  | start {result : Int} {copied : Option (Word × Word)} (kargs : Word × Word) (ret : Word)
      (away : c.control = .launcher result copied) :
      MachineStep cpu cntr host ctx c (.start kargs ret)
        { c with kargs := kargs, ret := ret, control := .loop }
  | wakeup : MachineStep cpu cntr host ctx c .wakeup
      { c with virtioEventCnt := c.virtioEventCnt + 1 }
  | resume (back : Word) (top : c.control = .loop) :
      MachineStep cpu cntr host ctx c (.resume back)
        { c with
          machine := run cpu (pkRkret c.pkRkret back) (c.ready cntr host ctx)
          control := .guest
          caller := none }
  /-- The guest calls with its `rk_cr3` and `rk_ctx`. -/
  | rkcall (type : Variant) (back : Word) (running : c.control = .guest)
      (root : hostOf cpu c.machine = host) (rsi : c.machine.gpr .rsi = ctx)
      (apart : c.machine.here cpu ≠ host) :
      MachineStep cpu cntr host ctx c (.rkcall type back)
        { c with
          machine := run cpu (pkRkcall type back) c.machine
          control := .dispatch
          caller := some ({ contextOf c.machine with rsp := c.machine.gpr .rsp - 8 },back) }
  /-- The next step of START's C code. -/
  | host {s : State} (step : (c.state host ctx).host cntr = some s) :
      MachineStep cpu cntr host ctx c .host (c.store host ctx s)
  | copied {result : Int} (ok : Bool) (ends : c.control = .copying result) :
      MachineStep cpu cntr host ctx c (.copied ok) { c with
        control := if ok then .launcher result (some c.kargs) else .launcher (-efault) none }
  /-- The guest's own code cannot reach the context. -/
  | code {m : Machine Space} (running : c.control = .guest) (kept : CtxKept host ctx c.machine m) :
      MachineStep cpu cntr host ctx c .code { c with machine := m }
  /-- Nor does the rest of the host write it. -/
  | own {m : Machine Space} (away : c.control ≠ .guest) (here : m.here cpu = host)
      (kept : CtxKept host ctx c.machine m) :
      MachineStep cpu cntr host ctx c .own { c with machine := m }

/-- What both levels show of an event. -/
inductive Kind where
  | start (kargs : Word × Word) (ret : Word)
  | wakeup
  | resume
  | rkcall (type : Variant)
  | host
  | copied (ok : Bool)
  deriving DecidableEq, Repr

def Event.shown : Event → List Kind
  | .start kargs ret => [.start kargs ret]
  | .wakeup => [.wakeup]
  | .resume _ => [.resume]
  | .rkcall type _ _ _ => [.rkcall type]
  | .host => [.host]
  | .copied ok => [.copied ok]

def MachineEvent.shown : MachineEvent → List Kind
  | .start kargs ret => [.start kargs ret]
  | .wakeup => [.wakeup]
  | .resume _ => [.resume]
  | .rkcall type _ => [.rkcall type]
  | .host => [.host]
  | .copied ok => [.copied ok]
  | .code | .own => []

/-- The thread is where the model has it, with the model's vCPU behind `ctx`. -/
structure Shows (cpu : Cpu Space) (host : Space) (ctx : Word) (c : OnMachine Space) (s : State) :
    Prop where
  view : View (c.machine.mem host) ctx s.vcpu
  virtioEventCnt : s.vcpu.virtioEventCnt = c.virtioEventCnt
  pkRkret : s.vcpu.pkRkret = c.pkRkret
  virtio : s.virtio = c.virtio
  control : s.control = c.control
  ret : s.ret = c.ret
  kargs : s.kargs = c.kargs
  here : c.control ≠ .guest → c.machine.here cpu = host

/-- The waiting rkcall's registers and resume address are in the context. -/
structure Waits (host : Space) (ctx : Word) (c : OnMachine Space) : Prop where
  context : ∀ context back, c.caller = some (context,back) →
    contextAt (c.machine.mem host) ctx = context ∧ c.machine.mem host (ctx + pkCtxRip) = back
  away : c.control = .guest → c.caller = none

/-- A resume of a waiting rkcall goes on behind it with its registers, and with the answer and the
events that START has left. -/
def Resumes (host : Space) (ctx : Word) (c : OnMachine Space) (event : MachineEvent)
    (d : OnMachine Space) : Prop :=
  ∀ own context back, event = .resume own → c.caller = some (context,back) →
    contextOf d.machine = context ∧ d.machine.rip = back ∧
    d.machine.gpr .rsi = (c.state host ctx).vcpu.pmode.rsi ∧
    d.machine.gpr .rdx = (c.state host ctx).vcpu.pmode.rdx

/-! START's C code over what it reads. -/

/-- The model's state with another host half, of which only the images are read. -/
def State.over (s : State) (rmode : PkCtxRegs) (unanswered : Option Unanswered) : State :=
  { s with vcpu := { s.vcpu with rmode := rmode }, unanswered := unanswered }

theorem dispatch_over (cntr : Cntr) (s : State) {rmode : PkCtxRegs} (unanswered : Option Unanswered)
    (idtr : rmode.idtr = s.vcpu.rmode.idtr) (cr4 : rmode.cr4 = s.vcpu.rmode.cr4) :
    (s.over rmode unanswered).dispatch cntr = (s.dispatch cntr).over rmode unanswered := by
  have late : handleRkcallInitLate (s.over rmode unanswered).vcpu = handleRkcallInitLate s.vcpu := by
    simp only [handleRkcallInitLate,State.over,idtr,cr4]
  have call : (s.over rmode unanswered).vcpu.call = s.vcpu.call := rfl
  have virtio : (s.over rmode unanswered).virtio = s.virtio := rfl
  cases served : Rkcall.ofNumber s.vcpu.call.n with
  | none =>
    simp only [State.dispatch,call,served]
    rfl
  | some rkcall =>
    cases rkcall with
    | initLate =>
      simp only [State.dispatch,call,served,late]
      split <;> rfl
    | mmioRead =>
      simp only [State.dispatch,call,served,virtio]
      split <;> rfl
    | mmioWrite =>
      simp only [State.dispatch,call,served,virtio]
      split
      · split <;> rfl
      · rfl
      · rfl
    | _ =>
      simp only [State.dispatch,call,served]
      rfl

theorem host_over (cntr : Cntr) (s : State) {rmode : PkCtxRegs} (unanswered : Option Unanswered)
    (idtr : rmode.idtr = s.vcpu.rmode.idtr) (cr4 : rmode.cr4 = s.vcpu.rmode.cr4) :
    ∃ unanswered', (s.over rmode unanswered).host cntr =
      (s.host cntr).map fun t => t.over rmode unanswered' := by
  have control : (s.over rmode unanswered).control = s.control := rfl
  have count : (s.over rmode unanswered).vcpu.virtioEventCnt = s.vcpu.virtioEventCnt := rfl
  cases at_ : s.control with
  | dispatch =>
    refine ⟨unanswered,?_⟩
    simp only [State.host,control,at_,dispatch_over cntr s unanswered idtr cr4,Option.map_some]
  | halting =>
    refine ⟨unanswered,?_⟩
    simp only [State.host,control,at_,count,Option.map_some]
    split <;> rfl
  | polling =>
    simp only [State.host,control,at_,Option.map_some]
    by_cases none : s.vcpu.virtioEventCnt = 0
    · rw [poll_none none,poll_none (s := s.over rmode unanswered) none]
      exact ⟨unanswered,rfl⟩
    · rw [poll_some none,poll_some (s := s.over rmode unanswered) none]
      exact ⟨_,rfl⟩
  | consuming count =>
    refine ⟨unanswered,?_⟩
    simp only [State.host,control,at_,Option.map_some]
    rfl
  | storing events =>
    refine ⟨unanswered,?_⟩
    simp only [State.host,control,at_,Option.map_some]
    rfl
  | spinning =>
    refine ⟨unanswered,?_⟩
    simp only [State.host,control,at_,Option.map_some]
  | _ =>
    refine ⟨unanswered,?_⟩
    simp only [State.host,control,at_,Option.map_none]

/-- What START's C code writes of the context. -/
structure Stores (s t : State) : Prop where
  pmode : t.vcpu.pmode = { s.vcpu.pmode with
    rsi := t.vcpu.pmode.rsi
    rdx := t.vcpu.pmode.rdx
    cr3 := t.vcpu.pmode.cr3 }
  rmode : t.vcpu.rmode = s.vcpu.rmode
  away : s.control ≠ .guest ∧ t.control ≠ .guest

theorem dispatch_pmode (cntr : Cntr) (s : State) :
    (s.dispatch cntr).vcpu.pmode = { s.vcpu.pmode with cr3 := (s.dispatch cntr).vcpu.pmode.cr3 } := by
  cases served : Rkcall.ofNumber s.vcpu.call.n with
  | none =>
    simp only [State.dispatch,served]
  | some rkcall =>
    cases rkcall with
    | initLate =>
      simp only [State.dispatch,served]
      split <;> rfl
    | mmioRead =>
      simp only [State.dispatch,served]
      split <;> rfl
    | mmioWrite =>
      simp only [State.dispatch,served]
      split
      · split <;> rfl
      · rfl
      · rfl
    | _ => simp only [State.dispatch,served,State.answer]

theorem dispatch_away (cntr : Cntr) (s : State) : (s.dispatch cntr).control ≠ .guest := by
  cases dispatch_leads cntr s <;> simp_all

theorem host_stores {cntr : Cntr} {s t : State} (step : s.host cntr = some t) : Stores s t := by
  cases at_ : s.control with
  | dispatch =>
    simp only [State.host,at_,Option.some.injEq] at step
    subst step
    have written := dispatch_pmode cntr s
    refine ⟨?_,(dispatch_dispatched cntr s).rmode,by rw [at_]; simp,dispatch_away cntr s⟩
    rw [written]
  | halting =>
    simp only [State.host,at_,Option.some.injEq] at step
    subst step
    split
    · exact ⟨rfl,rfl,by simp [at_]⟩
    · exact ⟨rfl,rfl,by simp [at_,State.answer]⟩
  | polling =>
    simp only [State.host,at_,Option.some.injEq] at step
    subst step
    by_cases none : s.vcpu.virtioEventCnt = 0
    · rw [poll_none none]
      exact ⟨rfl,rfl,by simp [at_]⟩
    · rw [poll_some none]
      exact ⟨rfl,rfl,by simp [at_]⟩
  | consuming count =>
    simp only [State.host,at_,Option.some.injEq] at step
    subst step
    exact ⟨rfl,rfl,by simp [at_,State.consume]⟩
  | storing events =>
    simp only [State.host,at_,Option.some.injEq] at step
    subst step
    exact ⟨rfl,rfl,by simp [at_]⟩
  | spinning =>
    simp only [State.host,at_,Option.some.injEq] at step
    subst step
    exact ⟨rfl,rfl,by simp [at_]⟩
  | _ =>
    simp only [State.host,at_] at step
    cases step

/-! One step of the machine. -/

theorem setWord_self (mem : Space → Word → Word) (space : Space) (addr : Word) :
    setWord mem space addr (mem space addr) = mem := by
  funext s a
  rw [setWord_apply]
  split
  case isTrue same =>
    obtain ⟨rfl,rfl⟩ := same
    rfl
  case isFalse => rfl

section
variable {cpu : Cpu Space} {cntr : Cntr} {host : Space} {ctx : Word} {c d : OnMachine Space} {s t : State}

omit [DecidableEq Space] in
theorem View.congr {mem : Word → Word} {v w : Vcpu} (view : View mem ctx v)
    (pmode : w.pmode = v.pmode) (rmode : w.rmode = v.rmode) : View mem ctx w :=
  ⟨by rw [view.pmode,pmode],by rw [view.idtr,rmode],by rw [view.cr4,rmode]⟩

omit [DecidableEq Space] in
theorem CtxKept.pmode {m m' : Machine Space} (kept : CtxKept host ctx m m') {disp : Word}
    (small : disp < 480) : m'.mem host (ctx + disp) = m.mem host (ctx + disp) :=
  kept _ (.inl ((half_add ctx disp).mpr small))

omit [DecidableEq Space] in
theorem CtxKept.rmode {m m' : Machine Space} (kept : CtxKept host ctx m m') {disp : Word}
    (small : disp < 480) :
    m'.mem host (ctx + pkCtxSize + disp) = m.mem host (ctx + pkCtxSize + disp) :=
  kept _ (.inr ((half_add (ctx + pkCtxSize) disp).mpr small))

omit [DecidableEq Space] in
theorem CtxKept.view {m m' : Machine Space} {v : Vcpu} (kept : CtxKept host ctx m m')
    (view : View (m.mem host) ctx v) : View (m'.mem host) ctx v := by
  refine view.rmode (fun disp small => kept.rmode (by bv_omega)) ?_ rfl
  rw [← view.pmode]
  exact PkCtxRegs.ext (kept.pmode (by decide)) (kept.pmode (by decide)) (kept.pmode (by decide))
    (kept.pmode (by decide)) (kept.pmode (by decide)) (kept.pmode (by decide))
    (kept.pmode (by decide))
    (idtrWords_congr fun disp word => kept.pmode (by have := extraWords_small disp word; bv_omega))

theorem ready_mem (c : OnMachine Space) (cntr : Cntr) (host : Space) (ctx : Word) :
    (c.ready cntr host ctx).mem = servedWords c.machine.mem host ctx
      (c.machine.mem host (ctx + pkCtxRsi)) (c.machine.mem host (ctx + pkCtxRdx))
      (withPcid (c.machine.mem host (ctx + pkCtxCr3)) cntr.pcid) := by
  rw [servedWords,setWord_self,setWord_self]
  rfl

omit [DecidableEq Space] in
/-- START's C code finds the model's state, whatever else is in the host's half. -/
theorem Shows.state (shows : Shows cpu host ctx c s) :
    c.state host ctx = s.over (regsAt (c.machine.mem host) (ctx + pkCtxSize)) none := by
  obtain ⟨⟨pmode,rmode,count,type⟩,virtio,control,ret,kargs,unanswered⟩ := s
  obtain ⟨⟨rfl,_,_⟩,rfl,rfl,rfl,rfl,rfl,rfl,_⟩ := shows
  rfl

theorem Shows.ready (shows : Shows cpu host ctx c s) (cntr : Cntr) :
    View ((c.ready cntr host ctx).mem host) ctx
      { s.vcpu with
        pmode := { s.vcpu.pmode with cr3 := withPcid s.vcpu.pmode.cr3 cntr.pcid } } := by
  have cr3 := congrArg PkCtxRegs.cr3 shows.view.pmode
  have rsi := congrArg PkCtxRegs.rsi shows.view.pmode
  have rdx := congrArg PkCtxRegs.rdx shows.view.pmode
  simp only [regsAt] at cr3 rsi rdx
  rw [ready_mem,rsi,rdx,cr3]
  exact answer_view shows.view _ _ _

theorem Shows.resume (shows : Shows cpu host ctx c s) (top : c.control = .loop) (back : Word) :
    Shows cpu host ctx
      { c with
        machine := run cpu (Switch.pkRkret c.pkRkret back) (c.ready cntr host ctx)
        control := .guest
        caller := none }
      { s with
        vcpu := s.vcpu.resume cntr (tablesOf c.machine)
        control := .guest
        unanswered := none } := by
  have here : (c.ready cntr host ctx).here cpu = host := shows.here (by rw [top]; simp)
  have resumed := pkRkret_spec cpu c.pkRkret back (c.ready cntr host ctx)
  have ready := shows.ready cntr
  rw [← congrArg (c.ready cntr host ctx).mem here] at ready
  have view := resume_view resumed (c.machine.set_same .rdi ctx) (by exact shows.pkRkret) ready
  rw [here] at view
  exact {
    view := view.congr rfl rfl
    virtioEventCnt := shows.virtioEventCnt
    pkRkret := shows.pkRkret
    virtio := shows.virtio
    control := rfl
    ret := shows.ret
    kargs := shows.kargs
    here := fun away => absurd rfl away }

theorem Shows.rkcall (shows : Shows cpu host ctx c s) (root : hostOf cpu c.machine = host)
    (rsi : c.machine.gpr .rsi = ctx) (apart : c.machine.here cpu ≠ host) (type : Variant)
    (back : Word) (caller : Option (Context × Word)) :
    Shows cpu host ctx
      { c with
        machine := run cpu (pkRkcall type back) c.machine
        control := .dispatch
        caller := caller }
      { s with
        vcpu := s.vcpu.enter type (callOf c.machine) c.machine.cr3 (tablesOf c.machine)
        control := .dispatch
        unanswered := some ⟨type,false⟩ } := by
  subst root
  subst rsi
  have entered := pkRkcall_spec cpu type back c.machine apart
  exact {
    view := enter_view apart entered shows.view
    virtioEventCnt := shows.virtioEventCnt
    pkRkret := shows.pkRkret
    virtio := shows.virtio
    control := rfl
    ret := shows.ret
    kargs := shows.kargs
    here := fun _ => by rw [Machine.here,entered.cr3,frameOf_dropNoFlush,hostOf] }

omit [DecidableEq Space] in
/-- A step of the C code on the model is one on the machine. -/
theorem Shows.host_step (shows : Shows cpu host ctx c s) (cntr : Cntr) :
    ∃ unanswered, (c.state host ctx).host cntr =
      (s.host cntr).map fun t => t.over (regsAt (c.machine.mem host) (ctx + pkCtxSize)) unanswered := by
  rw [shows.state]
  exact host_over cntr s none shows.view.idtr shows.view.cr4

theorem Shows.store (shows : Shows cpu host ctx c s) (step : s.host cntr = some t)
    (rmode : PkCtxRegs) (unanswered : Option Unanswered) :
    Shows cpu host ctx (c.store host ctx (t.over rmode unanswered)) t := by
  have stores := host_stores step
  have away : c.control ≠ .guest := by
    rw [← shows.control]
    exact stores.away.1
  have view := answer_view shows.view t.vcpu.pmode.rsi t.vcpu.pmode.rdx t.vcpu.pmode.cr3
  exact {
    view := view.congr stores.pmode stores.rmode
    virtioEventCnt := rfl
    pkRkret := rfl
    virtio := rfl
    control := rfl
    ret := rfl
    kargs := rfl
    here := fun _ => shows.here away }

/-- Each step of the machine is the model's of that kind, or none. -/
theorem Shows.follow {event : MachineEvent} (shows : Shows cpu host ctx c s)
    (step : MachineStep cpu cntr host ctx c event d) : ∃ events t, Run (Step cntr) s events t ∧
      Shows cpu host ctx d t ∧ events.flatMap Event.shown = event.shown := by
  have control := shows.control
  cases step with
  | start kargs ret away =>
    have step : Step cntr s (.start kargs ret)
        { s with kargs := kargs, ret := ret, control := .loop } := by
      simp only [Step,Start.step,control,away]
    refine ⟨_,_,.single step,?_,rfl⟩
    exact { shows with
      control := rfl
      ret := rfl
      kargs := rfl
      here := fun _ => shows.here (by rw [away]; simp) }
  | wakeup =>
    have step : Step cntr s .wakeup _ := rfl
    refine ⟨_,_,.single step,?_,rfl⟩
    exact { shows with
      view := shows.view.congr rfl rfl
      virtioEventCnt := congrArg (· + 1) shows.virtioEventCnt }
  | resume back top =>
    have step : Step cntr s (.resume (tablesOf c.machine))
        { s with
          vcpu := s.vcpu.resume cntr (tablesOf c.machine)
          control := .guest
          unanswered := none } := by
      simp only [Step,Start.step,control,top]
    exact ⟨_,_,.single step,shows.resume top back,rfl⟩
  | rkcall type back running root rsi apart =>
    have step : Step cntr s
        (.rkcall type (callOf c.machine) c.machine.cr3 (tablesOf c.machine))
        { s with
          vcpu := s.vcpu.enter type (callOf c.machine) c.machine.cr3 (tablesOf c.machine)
          control := .dispatch
          unanswered := some ⟨type,false⟩ } := by
      simp only [Step,Start.step,control,running]
    exact ⟨_,_,.single step,shows.rkcall root rsi apart type back _,rfl⟩
  | @host s' step =>
    obtain ⟨unanswered,same⟩ := shows.host_step cntr
    rw [same] at step
    obtain ⟨t,step',rfl⟩ := Option.map_eq_some_iff.mp step
    have step : Step cntr s .host t := step'
    exact ⟨_,_,.single step,shows.store step' _ _,rfl⟩
  | @copied result ok ends =>
    have step : Step cntr s (.copied ok) { s with
        control := if ok then .launcher result (some s.kargs) else .launcher (-efault) none } := by
      simp only [Step,Start.step,control,ends]
    refine ⟨_,_,.single step,?_,rfl⟩
    exact { shows with
      control := by rw [shows.kargs]
      here := fun _ => shows.here (by rw [ends]; simp) }
  | code running kept =>
    refine ⟨[],s,.nil s,?_,rfl⟩
    exact { shows with
      view := kept.view shows.view
      here := fun away => absurd running away }
  | own away here kept =>
    refine ⟨[],s,.nil s,?_,rfl⟩
    exact { shows with
      view := kept.view shows.view
      here := fun _ => here }

/-! What a waiting rkcall is resumed with. -/

theorem ready_word (c : OnMachine Space) (cntr : Cntr) {disp : Word} (other : disp ≠ pkCtxCr3) :
    (c.ready cntr host ctx).mem host (ctx + disp) = c.machine.mem host (ctx + disp) :=
  setWord_disp other

theorem contextWords_kept : ∀ disp ∈ contextWords, disp ≠ pkCtxRsi ∧ disp ≠ pkCtxRdx ∧ disp ≠ pkCtxCr3 := by
  simp [contextWords]

theorem store_word (c : OnMachine Space) (s : State) {disp : Word}
    (other : disp ≠ pkCtxRsi ∧ disp ≠ pkCtxRdx ∧ disp ≠ pkCtxCr3) :
    (c.store host ctx s).machine.mem host (ctx + disp) = c.machine.mem host (ctx + disp) := by
  simp only [OnMachine.store,servedWords]
  rw [setWord_disp other.2.2,setWord_disp other.2.1,setWord_disp other.1]

theorem Waits.step {event : MachineEvent} (waits : Waits host ctx c)
    (step : MachineStep cpu cntr host ctx c event d) : Waits host ctx d := by
  cases step with
  | start kargs ret away => exact ⟨waits.context,fun guest => by cases guest⟩
  | wakeup => exact ⟨waits.context,waits.away⟩
  | resume back top =>
    refine ⟨fun context back caller => ?_,fun _ => rfl⟩
    cases caller
  | rkcall type back running root rsi apart =>
    subst root
    subst rsi
    have entered := pkRkcall_spec cpu type back c.machine apart
    refine ⟨?_,fun guest => by cases guest⟩
    rintro context back' ⟨⟩
    exact ⟨entered.saved,entered.savedRip⟩
  | @host s step =>
    have away := (host_stores step).away.2
    refine ⟨fun context back caller => ?_,fun guest => absurd guest away⟩
    obtain ⟨saved,rip⟩ := waits.context context back caller
    have rest : (c.store host ctx s).machine.mem host (ctx + pkCtxRip) =
        c.machine.mem host (ctx + pkCtxRip) := store_word c s (by decide)
    refine ⟨?_,rest.trans rip⟩
    rw [← saved]
    exact contextAt_congr fun disp word => store_word c s (contextWords_kept disp word)
  | copied ok ends =>
    refine ⟨waits.context,fun guest => ?_⟩
    cases ok <;> cases guest
  | code running kept =>
    refine ⟨fun context back caller => ?_,waits.away⟩
    cases (waits.away running).symm.trans caller
  | own away here kept =>
    refine ⟨fun context back caller => ?_,waits.away⟩
    obtain ⟨saved,rip⟩ := waits.context context back caller
    refine ⟨?_,(kept.pmode (by decide)).trans rip⟩
    rw [← saved]
    refine contextAt_congr fun disp word => kept.pmode ?_
    have small := contextWords_small disp word
    bv_omega

theorem Shows.resumes {event : MachineEvent} (shows : Shows cpu host ctx c s)
    (waits : Waits host ctx c) (step : MachineStep cpu cntr host ctx c event d) :
    Resumes host ctx c event d := by
  rintro own context back rfl caller
  cases step with
  | resume _ top =>
    obtain ⟨saved,rip⟩ := waits.context context back caller
    have here : (c.ready cntr host ctx).here cpu = host := shows.here (by rw [top]; simp)
    have rdi : (c.ready cntr host ctx).gpr .rdi = ctx := c.machine.set_same .rdi ctx
    have resumed := pkRkret_spec cpu c.pkRkret own (c.ready cntr host ctx)
    have same := resumed.context
    have resumedRip := resumed.rip
    have resumedRsi := resumed.rsi
    have resumedRdx := resumed.rdx
    rw [here,rdi] at same resumedRip resumedRsi resumedRdx
    rw [ready_word c cntr (by decide)] at resumedRip resumedRsi resumedRdx
    refine ⟨same.trans ?_,resumedRip.trans rip,resumedRsi,resumedRdx⟩
    rw [← saved]
    exact contextAt_congr fun disp word => ready_word c cntr (contextWords_kept disp word).2.2

/-! The way back. -/

/-- The guest's root leads into another address space than the host's. -/
def Rooted (cpu : Cpu Space) (host : Space) (_ : State) : Event → Prop
  | .rkcall _ _ cr3 _ => cpu.space (frameOf cr3) ≠ host
  | _ => True

/-- A guest about to make this call, under `rkCr3`. -/
def poised (m : Machine Space) (rkCr3 ctx cr3 : Word) (call : Call) (tables : Tables) :
    Machine Space :=
  { m with
    gpr := setReg (setReg (setReg (setReg (setReg (setReg m.gpr .rdi rkCr3) .rsi ctx) .rdx call.n)
      .rcx call.arg1) .r8 call.arg2) .r9 call.arg3
    cr3 := cr3
    cr4 := tables.cr4
    idtr := tables.idtr }

omit [DecidableEq Space] in
theorem ctxKept_rfl {m m' : Machine Space} (same : m'.mem = m.mem) : CtxKept host ctx m m' := by
  intro a _
  rw [same]

omit [DecidableEq Space] in
theorem Shows.retabled (shows : Shows cpu host ctx c s) (away : c.control ≠ .guest) (tables : Tables) :
    Shows cpu host ctx
      { c with machine := { c.machine with cr4 := tables.cr4, idtr := tables.idtr } } s :=
  { shows with
    view := (ctxKept_rfl rfl).view shows.view
    here := fun _ => shows.here away }

omit [DecidableEq Space] in
theorem Shows.prepared (shows : Shows cpu host ctx c s) (running : c.control = .guest)
    (rkCr3 cr3 : Word) (call : Call) (tables : Tables) :
    Shows cpu host ctx { c with machine := poised c.machine rkCr3 ctx cr3 call tables } s :=
  { shows with
    view := (ctxKept_rfl rfl).view shows.view
    here := fun away => absurd running away }

omit [DecidableEq Space] in
theorem poised_callOf (m : Machine Space) (rkCr3 ctx cr3 : Word) (call : Call) (tables : Tables) :
    callOf (poised m rkCr3 ctx cr3 call tables) = call := by
  simp [poised,callOf]

/-- Each step of the model is carried out by the machine. -/
theorem Shows.realise {rkCr3 : Word} (root : cpu.space (frameOf rkCr3) = host) {event : Event}
    (shows : Shows cpu host ctx c s) (rooted : Rooted cpu host s event)
    (step : Step cntr s event t) : ∃ events d, Run (MachineStep cpu cntr host ctx) c events d ∧
      Shows cpu host ctx d t ∧ events.flatMap MachineEvent.shown = event.shown := by
  have control := shows.control
  cases event with
  | start kargs ret =>
    cases step_moves step with
    | start _ _ away =>
      rw [control] at away
      refine ⟨_,_,.single (.start kargs ret away),?_,rfl⟩
      exact { shows with
        control := rfl
        ret := rfl
        kargs := rfl
        here := fun _ => shows.here (by rw [away]; simp) }
  | wakeup =>
    cases step
    refine ⟨_,_,.single .wakeup,?_,rfl⟩
    exact { shows with
      view := shows.view.congr rfl rfl
      virtioEventCnt := congrArg (· + 1) shows.virtioEventCnt }
  | resume tables =>
    cases step_moves step with
    | resume _ top =>
      rw [control] at top
      have away : c.control ≠ .guest := by
        rw [top]
        simp
      have own : MachineStep cpu cntr host ctx c .own
          { c with machine := { c.machine with cr4 := tables.cr4, idtr := tables.idtr } } :=
        .own away (shows.here away) (ctxKept_rfl rfl)
      exact ⟨_,_,.cons own (.single (.resume 0 top)),(shows.retabled away tables).resume top 0,rfl⟩
  | rkcall type call cr3 tables =>
    cases step_moves step with
    | rkcall _ _ _ _ running =>
      rw [control] at running
      have code : MachineStep cpu cntr host ctx c .code
          { c with machine := poised c.machine rkCr3 ctx cr3 call tables } :=
        .code running (ctxKept_rfl rfl)
      have reached := shows.prepared running rkCr3 cr3 call tables
      have entered := reached.rkcall root rfl rooted type 0
        (some ({ contextOf (poised c.machine rkCr3 ctx cr3 call tables) with
          rsp := (poised c.machine rkCr3 ctx cr3 call tables).gpr .rsp - 8 },0))
      rw [poised_callOf] at entered
      exact ⟨_,_,.cons code (.single (.rkcall type 0 running root rfl rooted)),entered,rfl⟩
  | copied ok =>
    cases step_moves step with
    | copied _ ends =>
      rw [control] at ends
      refine ⟨_,_,.single (.copied ok ends),?_,rfl⟩
      exact { shows with
        control := by rw [shows.kargs]
        here := fun _ => shows.here (by rw [ends]; simp) }
  | host =>
    have step' : s.host cntr = some t := step
    obtain ⟨unanswered,same⟩ := shows.host_step cntr
    rw [step'] at same
    exact ⟨_,_,.single (.host same),shows.store step' _ _,rfl⟩

/-- The machine refines the model over every run, and wherever it resumes a waiting rkcall the
guest goes on behind the call with its own registers and START's answer. -/
theorem run_onMachine {events : List MachineEvent} (shows : Shows cpu host ctx c s)
    (waits : Waits host ctx c) (run : Run (MachineStep cpu cntr host ctx) c events d) :
    Run (fun c event d => MachineStep cpu cntr host ctx c event d ∧ Resumes host ctx c event d)
      c events d ∧
    ∃ events' t, Run (Step cntr) s events' t ∧ Shows cpu host ctx d t ∧
      events'.flatMap Event.shown = events.flatMap MachineEvent.shown := by
  constructor
  · refine run.strengthen (fun c => Waits host ctx c ∧ ∃ s, Shows cpu host ctx c s) ?_ ?_
      ⟨waits,s,shows⟩
    · rintro c event d ⟨waits,s,shows⟩ step
      obtain ⟨_,t,_,reached,_⟩ := shows.follow step
      exact ⟨waits.step step,t,reached⟩
    · rintro c event d ⟨waits,s,shows⟩ step
      exact ⟨step,shows.resumes waits step⟩
  · exact run.simulate_shown MachineEvent.shown Event.shown (fun c s => Shows cpu host ctx c s)
      (fun _ _ _ _ shows step => shows.follow step) shows

/-- Every run of the model, event for event, is one of the machine. -/
theorem run_onMachine_of_model {rkCr3 : Word} (root : cpu.space (frameOf rkCr3) = host)
    {events : List Event} (shows : Shows cpu host ctx c s)
    (run : Run (Guarded (Rooted cpu host) (Step cntr)) s events t) :
    ∃ events' d, Run (MachineStep cpu cntr host ctx) c events' d ∧ Shows cpu host ctx d t ∧
      events'.flatMap MachineEvent.shown = events.flatMap Event.shown :=
  run.simulate_shown Event.shown MachineEvent.shown (fun s c => Shows cpu host ctx c s)
    (fun _ _ _ _ shows step => shows.realise root step.1 step.2) shows

/-- The machine and the model have the same runs. -/
theorem onMachine_refines {rkCr3 : Word} (root : cpu.space (frameOf rkCr3) = host)
    (shows : Shows cpu host ctx c s) (waits : Waits host ctx c) :
    (∀ events d, Run (MachineStep cpu cntr host ctx) c events d →
      Run (fun c event d => MachineStep cpu cntr host ctx c event d ∧ Resumes host ctx c event d)
        c events d ∧
      ∃ events' t, Run (Step cntr) s events' t ∧ Shows cpu host ctx d t ∧
        events'.flatMap Event.shown = events.flatMap MachineEvent.shown) ∧
    ∀ events t, Run (Guarded (Rooted cpu host) (Step cntr)) s events t →
      ∃ events' d, Run (MachineStep cpu cntr host ctx) c events' d ∧ Shows cpu host ctx d t ∧
        events'.flatMap MachineEvent.shown = events.flatMap Event.shown :=
  ⟨fun _ _ => run_onMachine shows waits,fun _ _ => run_onMachine_of_model root shows⟩

end

/-- The context of a fresh vCPU at 0x9000, and the launcher's thread outside START. -/
def freshOnMachine : OnMachine Side where
  machine := { launcher 0x1000 with mem := fun _ a => if a = 0x9000 + pkCtxRsi then 0x1000 else 0 }
  virtioEventCnt := 0
  pkRkret := .slow
  virtio := fresh.virtio
  control := .launcher 0 none
  ret := 0
  kargs := (0,0)
  caller := none

theorem freshOnMachine_shows : Shows sides .host 0x9000 freshOnMachine fresh where
  view := ⟨by decide,by decide,by decide⟩
  virtioEventCnt := rfl
  pkRkret := rfl
  virtio := rfl
  control := rfl
  ret := rfl
  kargs := rfl
  here _ := by decide

theorem onMachine_refines_fresh :
    (∀ events d, Run (MachineStep sides block .host 0x9000) freshOnMachine events d →
      Run (fun c event d => MachineStep sides block .host 0x9000 c event d ∧
        Resumes .host 0x9000 c event d) freshOnMachine events d ∧
      ∃ events' t, Run (Step block) fresh events' t ∧ Shows sides .host 0x9000 d t ∧
        events'.flatMap Event.shown = events.flatMap MachineEvent.shown) ∧
    ∀ events t, Run (Guarded (Rooted sides .host) (Step block)) fresh events t →
      ∃ events' d, Run (MachineStep sides block .host 0x9000) freshOnMachine events' d ∧
        Shows sides .host 0x9000 d t ∧
        events'.flatMap MachineEvent.shown = events.flatMap Event.shown :=
  onMachine_refines (by decide : sides.space (frameOf 0x1000) = .host) freshOnMachine_shows
    ⟨fun _ _ caller => absurd caller (by simp [freshOnMachine]),fun _ => rfl⟩

end Cki.Start
