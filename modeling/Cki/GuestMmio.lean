import Cki.EfdsSteps
import Cki.StartEvents
import Cki.VirtioRun

/-! The guest's MMIO accessors. In a container `readl` and its like do not touch the device but
make an rkcall, so that a driver runs against the device of the host module through the loop of
START, through exits to the launcher, the eventfds that it sets and whatever wakeups come. -/
namespace Cki.Start

open Switch Virtio

/-- The types that `build_mmio_read` and `build_mmio_write` are instantiated with. -/
inductive MmioType where
  | b | w | l | q
  deriving DecidableEq, Repr

def MmioType.size : MmioType → Char
  | .b => 'b'
  | .w => 'w'
  | .l => 'l'
  | .q => 'q'

/-- `size_str2int`, on the first letter of the string. -/
def sizeStr2int (size : Char) : BitVec 32 :=
  match size with
  | 'b' => 1
  | 'w' => 2
  | 'l' => 4
  | 'q' => 8
  | _ => 0

/-- A cast to the type. -/
def MmioType.cast (type : MmioType) (value : Word) : Word :=
  match type with
  | .b => (value.setWidth 8).setWidth 64
  | .w => (value.setWidth 16).setWidth 64
  | .l => (value.setWidth 32).setWidth 64
  | .q => value

def offsetInPage (addr : Word) : Word := addr &&& 0xfff

def pkRkcall2 (rkcall : Rkcall) (arg1 arg2 : Word) : Call := ⟨rkcall.number,arg1,arg2,0⟩

def pkRkcall3 (rkcall : Rkcall) (arg1 arg2 arg3 : Word) : Call := ⟨rkcall.number,arg1,arg2,arg3⟩

def pkMmioRead (addr : Word) (size : Char) : Call :=
  pkRkcall2 .mmioRead (offsetInPage addr) ((sizeStr2int size).signExtend 64)

def pkMmioWrite (val addr : Word) (size : Char) : Call :=
  pkRkcall3 .mmioWrite val (offsetInPage addr) ((sizeStr2int size).signExtend 64)

/-- A driver, by its accesses: what it does next may depend on what it has read. -/
inductive Driver (α : Type) where
  | done (value : α)
  | read (type : MmioType) (addr : Word) (next : Word → Driver α)
  | write (type : MmioType) (val addr : Word) (next : Driver α)

/-- The launcher sets the eventfds of queues, one after the other. -/
def installAll (pairs : List Efds.Pair) (virtio : VirtioNet) : VirtioNet :=
  pairs.foldl (fun virtio pair => pair.install virtio) virtio

theorem installAll_append (first second : List Efds.Pair) (virtio : VirtioNet) :
    installAll (first ++ second) virtio = installAll second (installAll first virtio) :=
  List.foldl_append

/-- The driver on the device itself, whose registers lie at `base`, with the launcher's
installations between its accesses. -/
inductive Driver.Direct {α : Type} (base : Word) :
    Driver α → VirtioNet → List Efds.Pair → α → VirtioNet → Prop where
  | done (value : α) (v : VirtioNet) : Direct base (.done value) v [] value v
  | read {type : MmioType} {addr result : Word} {next : Word → Driver α} {v w : VirtioNet}
      {pairs : List Efds.Pair} {value : α}
      (read : handleRkcallMmioRead v (addr - base) (sizeStr2int type.size) = .done result)
      (rest : Direct base (next (type.cast result)) v pairs value w) :
      Direct base (.read type addr next) v pairs value w
  | write {type : MmioType} {val addr : Word} {next : Driver α} {v w : VirtioNet} {written : Written}
      {pairs : List Efds.Pair} {value : α}
      (write : handleRkcallMmioWrite v (type.cast val) (addr - base) (sizeStr2int type.size) =
        .done written)
      (rest : Direct base next written.virtio pairs value w) :
      Direct base (.write type val addr next) v pairs value w
  | install {driver : Driver α} {v w : VirtioNet} {pairs : List Efds.Pair} {value : α}
      (pair : Efds.Pair) (rest : Direct base driver (pair.install v) pairs value w) :
      Direct base driver v (pair :: pairs) value w

theorem Driver.Direct.installAll {α : Type} {base : Word} {driver : Driver α} {v w : VirtioNet}
    {first pairs : List Efds.Pair} {value : α}
    (direct : driver.Direct base (installAll first v) pairs value w) :
    driver.Direct base v (first ++ pairs) value w := by
  induction first generalizing v with
  | nil => exact direct
  | cons pair first ih => exact .install pair (ih direct)

/-- The driver accesses nothing but the page of the device. -/
def Driver.Within {α : Type} (base : Word) : Driver α → Prop
  | .done _ => True
  | .read _ addr next => addr &&& ~~~0xfff = base ∧ ∀ value, (next value).Within base
  | .write _ _ addr next => addr &&& ~~~0xfff = base ∧ next.Within base

def NotRkcall (event : Event) : Prop := ∀ type call cr3 tables, event ≠ .rkcall type call cr3 tables

/-- What happens beside the driver's own calls. -/
inductive Beside where
  | event (event : Event)
  | install (pair : Efds.Pair)

/-- The vCPU gets on without a call of the guest, or the launcher sets the eventfds of a queue. -/
inductive BesideStep (cntr : Cntr) (s : State) : Beside → State → Prop where
  | event {event : Event} {t : State} (other : NotRkcall event) (step : Step cntr s event t) :
      BesideStep cntr s (.event event) t
  | install (pair : Efds.Pair) :
      BesideStep cntr s (.install pair) { s with virtio := pair.install s.virtio }

/-- The installations among what happens. -/
def installed : List Beside → List Efds.Pair
  | [] => []
  | .event _ :: events => installed events
  | .install pair :: events => pair :: installed events

/-- One rkcall of the guest and what happens until it runs again. -/
inductive Serves (cntr : Cntr) (call : Call) (s : State) (pairs : List Efds.Pair) (t : State) : Prop where
  | intro {type : Variant} {cr3 : Word} {tables : Tables} {u : State} {events : List Beside}
      (enter : Step cntr s (.rkcall type call cr3 tables) u)
      (run : Run (BesideStep cntr) u events t) (back : t.control = .guest)
      (same : installed events = pairs) : Serves cntr call s pairs t

/-- The driver in the guest: each access is an rkcall, whose result is in RSI. -/
inductive Tunnels {α : Type} (cntr : Cntr) :
    Driver α → State → List Efds.Pair → α → State → Prop where
  | done {s : State} (value : α) : Tunnels cntr (.done value) s [] value s
  | read {s t u : State} {type : MmioType} {addr : Word} {next : Word → Driver α}
      {pairs more : List Efds.Pair} {value : α}
      (served : Serves cntr (pkMmioRead addr type.size) s pairs t)
      (rest : Tunnels cntr (next (type.cast t.vcpu.pmode.rsi)) t more value u) :
      Tunnels cntr (.read type addr next) s (pairs ++ more) value u
  | write {s t u : State} {type : MmioType} {val addr : Word} {next : Driver α}
      {pairs more : List Efds.Pair} {value : α}
      (served : Serves cntr (pkMmioWrite (type.cast val) addr type.size) s pairs t)
      (rest : Tunnels cntr next t more value u) :
      Tunnels cntr (.write type val addr next) s (pairs ++ more) value u
  | beside {s t u : State} {event : Beside} {driver : Driver α} {more : List Efds.Pair} {value : α}
      (running : s.control = .guest) (step : BesideStep cntr s event t)
      (rest : Tunnels cntr driver t more value u) :
      Tunnels cntr driver s (installed [event] ++ more) value u

theorem Serves.back {cntr : Cntr} {call : Call} {s t : State} {pairs : List Efds.Pair}
    (served : Serves cntr call s pairs t) : t.control = .guest := by
  cases served
  assumption

/-! One access. -/

theorem sizeStr2int_word (size : Char) : ((sizeStr2int size).signExtend 64).setWidth 32 = sizeStr2int size := by
  apply BitVec.eq_of_getLsbD_eq
  intro i bound
  simp only [BitVec.getLsbD_setWidth,BitVec.getLsbD_signExtend]
  grind

/-- Of an address in the device's page the offset in the page is that of the register. -/
theorem offsetInPage_within {addr base : Word} (within : addr &&& ~~~0xfff#64 = base) :
    offsetInPage addr = addr - base := by
  have parts : offsetInPage addr + base = addr := by
    rw [← within,and_not_eq_sub,BitVec.add_comm]
    exact BitVec.sub_add_cancel ..
  calc offsetInPage addr
    _ = offsetInPage addr + base - base := (BitVec.add_sub_cancel ..).symm
    _ = addr - base := by rw [parts]

/-- The answer of a call on its way through the loop to the guest. -/
def Answered (value : Word) (s : State) : Prop :=
  match s.control with
  | .polling | .consuming _ | .storing _ => s.ret = value
  | .loop | .guest => s.vcpu.pmode.rsi = value
  | _ => False

/-- The call does not come back. -/
def Stuck (s : State) : Prop := s.control = .spinning ∨ s.control = .faulted

section Access

variable {cntr : Cntr} {s t u : State}

theorem step_answered {value : Word} {event : Beside} (answered : Answered value s)
    (step : BesideStep cntr s event t) : Answered value t := by
  cases step with
  | install pair => exact answered
  | event other step =>
    cases step_moves step with
    | wakeup => exact answered
    | rkcall type call cr3 tables => exact absurd rfl (other type call cr3 tables)
    | poll control =>
      rw [Answered,control] at answered
      by_cases none : s.vcpu.virtioEventCnt = 0
      · rw [poll_none none]
        exact answered
      · rw [poll_some none]
        exact answered
    | resume tables control =>
      rw [Answered,control] at answered
      exact answered
    | consume count control =>
      rw [Answered,control] at answered
      exact answered
    | store events control =>
      rw [Answered,control] at answered
      exact answered
    | start kargs ret control =>
      rw [Answered,control] at answered
      exact answered.elim
    | copied ok control =>
      rw [Answered,control] at answered
      exact answered.elim
    | dispatch control | spin control =>
      rw [Answered,control] at answered
      exact answered.elim
    | halting control none | halted control some =>
      rw [Answered,control] at answered
      exact answered.elim

theorem step_stuck {event : Beside} (stuck : Stuck s) (step : BesideStep cntr s event t) : Stuck t := by
  cases step with
  | install pair => exact stuck
  | event other step =>
    cases step_moves step with
    | wakeup | spin => exact stuck
    | rkcall type call cr3 tables => exact absurd rfl (other type call cr3 tables)
    | _ => simp_all [Stuck]

/-- Behind the switch of the loop only the launcher changes the device. -/
theorem step_behind {event : Beside} (behind : s.control ≠ .dispatch)
    (step : BesideStep cntr s event t) :
    t.control ≠ .dispatch ∧ t.virtio = installAll (installed [event]) s.virtio := by
  cases step with
  | install pair => exact ⟨behind,rfl⟩
  | event other step =>
    cases step_moves step with
    | wakeup => exact ⟨behind,rfl⟩
    | rkcall type call cr3 tables => exact absurd rfl (other type call cr3 tables)
    | dispatch control => exact absurd control behind
    | halting control none => exact ⟨behind,rfl⟩
    | spin control => exact ⟨behind,rfl⟩
    | poll control =>
      rw [State.poll]
      split <;> exact ⟨Control.noConfusion,rfl⟩
    | copied ok control => cases ok <;> exact ⟨Control.noConfusion,rfl⟩
    | _ => exact ⟨Control.noConfusion,rfl⟩

theorem installed_cons (event : Beside) (events : List Beside) :
    installed (event :: events) = installed [event] ++ installed events := by
  cases event <;> rfl

theorem run_behind {events : List Beside} (run : Run (BesideStep cntr) s events t)
    (behind : s.control ≠ .dispatch) : t.virtio = installAll (installed events) s.virtio := by
  induction run with
  | nil => rfl
  | cons step _ ih =>
    obtain ⟨behind,device⟩ := step_behind behind step
    rw [installed_cons,installAll_append,← device]
    exact ih behind

/-- A call that waits for the switch of the loop is handled on the device as the launcher has left
it by then. -/
theorem run_dispatches {events : List Beside} (run : Run (BesideStep cntr) s events t)
    (waiting : s.control = .dispatch) (back : t.control = .guest) :
    ∃ (u : State) (pairs : List Efds.Pair) (after : List Beside),
      installed events = pairs ++ installed after ∧ u.vcpu.call = s.vcpu.call ∧
      u.virtio = installAll pairs s.virtio ∧ Run (BesideStep cntr) (u.dispatch cntr) after t := by
  induction run with
  | nil => cases waiting.symm.trans back
  | @cons s u t event events step rest ih =>
    cases step with
    | install pair =>
      obtain ⟨m,pairs,after,parts,call,device,run⟩ := ih waiting back
      exact ⟨m,pair :: pairs,after,congrArg (pair :: ·) parts,call,device,run⟩
    | event other step =>
      cases step_moves step with
      | wakeup =>
        obtain ⟨m,pairs,after,parts,call,device,run⟩ := ih waiting back
        exact ⟨m,pairs,after,parts,call,device,run⟩
      | dispatch => exact ⟨s,[],events,rfl,rfl,rfl,rest⟩
      | rkcall type call cr3 tables => exact absurd rfl (other type call cr3 tables)
      | _ => simp_all

theorem serves_handled {call : Call} {pairs : List Efds.Pair} (served : Serves cntr call s pairs t) :
    ∃ (u : State) (before : List Efds.Pair) (after : List Beside),
      pairs = before ++ installed after ∧ u.vcpu.call = call ∧
      u.virtio = installAll before s.virtio ∧ Run (BesideStep cntr) (u.dispatch cntr) after t := by
  obtain ⟨enter,run,back,rfl⟩ := served
  cases step_moves enter with
  | rkcall type _ cr3 tables control => exact run_dispatches run rfl back

theorem stuck_returns {events : List Beside} (stuck : Stuck s)
    (run : Run (BesideStep cntr) s events t) : t.control ≠ .guest := by
  have still := run.invariant Stuck (fun _ _ _ => step_stuck) stuck
  rcases still with spins | faults
  · rw [spins]
    exact Control.noConfusion
  · rw [faults]
    exact Control.noConfusion

end Access

theorem serves_read {cntr : Cntr} {s t : State} {addr : Word} {size : Char} {pairs : List Efds.Pair}
    (served : Serves cntr (pkMmioRead addr size) s pairs t) : ∃ before after, pairs = before ++ after ∧
      handleRkcallMmioRead (installAll before s.virtio) (offsetInPage addr) (sizeStr2int size) =
        .done t.vcpu.pmode.rsi ∧
      t.virtio = installAll after (installAll before s.virtio) := by
  obtain ⟨u,before,after,rfl,call,device,run⟩ := serves_handled served
  have number : Rkcall.ofNumber u.vcpu.call.n = some .mmioRead := by
    rw [call]
    exact Rkcall.ofNumber_number .mmioRead
  have asked : handleRkcallMmioRead u.virtio u.vcpu.call.arg1 (u.vcpu.call.arg2.setWidth 32) =
      handleRkcallMmioRead (installAll before s.virtio) (offsetInPage addr) (sizeStr2int size) := by
    rw [call,device]
    simp only [pkMmioRead,pkRkcall2,sizeStr2int_word]
  refine ⟨before,installed after,rfl,?_⟩
  cases read : handleRkcallMmioRead u.virtio u.vcpu.call.arg1 (u.vcpu.call.arg2.setWidth 32) with
  | done value =>
    have dispatched : u.dispatch cntr = u.answer value := by simp only [State.dispatch,number,read]
    rw [dispatched] at run
    have answered := run.invariant (Answered value) (fun _ _ _ => step_answered) rfl
    rw [Answered,served.back] at answered
    refine ⟨?_,?_⟩
    · rw [← asked,read,answered]
    · rw [run_behind run Control.noConfusion,← device]
      rfl
  | spins =>
    have stuck : Stuck (u.dispatch cntr) := .inl (by simp only [State.dispatch,number,read])
    exact absurd served.back (stuck_returns stuck run)
  | faults =>
    have stuck : Stuck (u.dispatch cntr) := .inr (by simp only [State.dispatch,number,read])
    exact absurd served.back (stuck_returns stuck run)

theorem serves_write {cntr : Cntr} {s t : State} {val addr : Word} {size : Char}
    {pairs : List Efds.Pair} (served : Serves cntr (pkMmioWrite val addr size) s pairs t) :
    ∃ before after written, pairs = before ++ after ∧
      handleRkcallMmioWrite (installAll before s.virtio) val (offsetInPage addr) (sizeStr2int size) =
        .done written ∧
      t.virtio = installAll after written.virtio := by
  obtain ⟨u,before,after,rfl,call,device,run⟩ := serves_handled served
  have number : Rkcall.ofNumber u.vcpu.call.n = some .mmioWrite := by
    rw [call]
    exact Rkcall.ofNumber_number .mmioWrite
  have asked : handleRkcallMmioWrite u.virtio u.vcpu.call.arg1 u.vcpu.call.arg2
      (u.vcpu.call.arg3.setWidth 32) =
      handleRkcallMmioWrite (installAll before s.virtio) val (offsetInPage addr) (sizeStr2int size) := by
    rw [call,device]
    simp only [pkMmioWrite,pkRkcall3,sizeStr2int_word]
  cases write : handleRkcallMmioWrite u.virtio u.vcpu.call.arg1 u.vcpu.call.arg2
    (u.vcpu.call.arg3.setWidth 32) with
  | done written =>
    have dispatched : (u.dispatch cntr).control ≠ .dispatch ∧
        (u.dispatch cntr).virtio = written.virtio := by
      simp only [State.dispatch,number,write]
      split <;> exact ⟨Control.noConfusion,rfl⟩
    refine ⟨before,installed after,written,rfl,asked.symm.trans write,?_⟩
    rw [run_behind run dispatched.1,dispatched.2]
  | spins =>
    have stuck : Stuck (u.dispatch cntr) := .inl (by simp only [State.dispatch,number,write])
    exact absurd served.back (stuck_returns stuck run)
  | faults =>
    have stuck : Stuck (u.dispatch cntr) := .inr (by simp only [State.dispatch,number,write])
    exact absurd served.back (stuck_returns stuck run)

/-! An access that the device answers comes back. -/

/-- From the polling on, the loop resumes the guest. -/
theorem polling_resumes (cntr : Cntr) {s : State} (control : s.control = .polling) :
    ∃ events t, Run (BesideStep cntr) s events t ∧ t.control = .guest ∧ installed events = [] := by
  have host : NotRkcall .host := fun _ _ _ _ => Event.noConfusion
  have resume : NotRkcall (.resume ⟨0,0⟩) := fun _ _ _ _ => Event.noConfusion
  by_cases none : s.vcpu.virtioEventCnt = 0
  · have poll : Step cntr s .host { s with control := .storing 0 } := by
      simp only [Step,Start.step,State.host,control,poll_none none]
    exact ⟨_,_,.cons (.event host poll) (.cons (.event host rfl) (.single (.event resume rfl))),rfl,rfl⟩
  · have poll : Step cntr s .host s.poll := by
      simp only [Step,Start.step,State.host,control]
    rw [poll_some none] at poll
    exact ⟨_,_,.cons (.event host poll) (.cons (.event host rfl) (.cons (.event host rfl)
      (.single (.event resume rfl)))),rfl,rfl⟩

/-- From an exit on, the launcher's next START resumes it. -/
theorem copying_resumes (cntr : Cntr) {s : State} {result : Int} (control : s.control = .copying result) :
    ∃ events t, Run (BesideStep cntr) s events t ∧ t.control = .guest ∧ installed events = [] := by
  have copied : Step cntr s (.copied true) { s with control := .launcher result (some s.kargs) } := by
    simp only [Step,Start.step,control,if_true]
  exact ⟨[.event (.copied true),.event (.start (0,0) 0),.event (.resume ⟨0,0⟩)],_,
    .cons (.event (fun _ _ _ _ => Event.noConfusion) copied)
      (.cons (.event (fun _ _ _ _ => Event.noConfusion) rfl)
        (.single (.event (fun _ _ _ _ => Event.noConfusion) rfl))),rfl,rfl⟩

/-- An access whose case of the switch goes on is served. -/
theorem serves_of_dispatch {cntr : Cntr} {s : State} {call : Call} (running : s.control = .guest)
    (onward : ∀ u : State, u.virtio = s.virtio → u.vcpu.call = call →
      (u.dispatch cntr).control = .polling ∨ ∃ result, (u.dispatch cntr).control = .copying result) :
    ∃ t, Serves cntr call s [] t := by
  let u : State := { s with
    vcpu := s.vcpu.enter .slow call 0 ⟨0,0⟩
    control := .dispatch
    unanswered := some ⟨.slow,false⟩ }
  have enter : Step cntr s (.rkcall .slow call 0 ⟨0,0⟩) u := by
    simp only [Step,Start.step,running]
    rfl
  have dispatch : BesideStep cntr u (.event .host) (u.dispatch cntr) :=
    .event (fun _ _ _ _ => Event.noConfusion) rfl
  rcases onward u rfl rfl with polling | ⟨result,copying⟩
  · obtain ⟨events,t,run,back,none⟩ := polling_resumes cntr polling
    exact ⟨t,enter,.cons dispatch run,back,none⟩
  · obtain ⟨events,t,run,back,none⟩ := copying_resumes cntr copying
    exact ⟨t,enter,.cons dispatch run,back,none⟩

theorem reads_served (cntr : Cntr) {s : State} {addr : Word} {size : Char} {value : Word}
    (running : s.control = .guest)
    (done : handleRkcallMmioRead s.virtio (offsetInPage addr) (sizeStr2int size) = .done value) :
    ∃ t, Serves cntr (pkMmioRead addr size) s [] t ∧ t.vcpu.pmode.rsi = value ∧ t.virtio = s.virtio := by
  have serves : ∃ t, Serves cntr (pkMmioRead addr size) s [] t := by
    refine serves_of_dispatch running fun u virtio call => .inl ?_
    have read : handleRkcallMmioRead u.virtio u.vcpu.call.arg1 (u.vcpu.call.arg2.setWidth 32) =
        .done value := by
      rw [virtio,call]
      simpa only [pkMmioRead,pkRkcall2,sizeStr2int_word] using done
    have served : Rkcall.ofNumber u.vcpu.call.n = some .mmioRead := by
      rw [call]
      exact Rkcall.ofNumber_number .mmioRead
    simp only [State.dispatch,served,read]
    rfl
  obtain ⟨t,served⟩ := serves
  obtain ⟨before,after,parts,read,device⟩ := serves_read served
  obtain ⟨rfl,rfl⟩ := List.append_eq_nil_iff.mp parts.symm
  exact ⟨t,served,(Access.done.inj (done.symm.trans read)).symm,device⟩

theorem writes_served (cntr : Cntr) {s : State} {val addr : Word} {size : Char} {written : Written}
    (running : s.control = .guest)
    (done : handleRkcallMmioWrite s.virtio val (offsetInPage addr) (sizeStr2int size) = .done written) :
    ∃ t, Serves cntr (pkMmioWrite val addr size) s [] t ∧ t.virtio = written.virtio := by
  have serves : ∃ t, Serves cntr (pkMmioWrite val addr size) s [] t := by
    refine serves_of_dispatch running fun u virtio call => ?_
    have write : handleRkcallMmioWrite u.virtio u.vcpu.call.arg1 u.vcpu.call.arg2
        (u.vcpu.call.arg3.setWidth 32) = .done written := by
      rw [virtio,call]
      simpa only [pkMmioWrite,pkRkcall3,sizeStr2int_word] using done
    have served : Rkcall.ofNumber u.vcpu.call.n = some .mmioWrite := by
      rw [call]
      exact Rkcall.ofNumber_number .mmioWrite
    simp only [State.dispatch,served,write]
    split
    · exact .inl rfl
    · exact .inr ⟨_,rfl⟩
  obtain ⟨t,served⟩ := serves
  obtain ⟨before,after,again,parts,write,device⟩ := serves_write served
  obtain ⟨rfl,rfl⟩ := List.append_eq_nil_iff.mp parts.symm
  cases done.symm.trans write
  exact ⟨t,served,device⟩

/-! Whole drivers. -/

/-- What a driver sees through the tunnel it sees on the device. -/
theorem Tunnels.direct {α : Type} {cntr : Cntr} {base : Word} {driver : Driver α} {s t : State}
    {pairs : List Efds.Pair} {value : α} (tunnels : Tunnels cntr driver s pairs value t)
    (within : driver.Within base) : driver.Direct base s.virtio pairs value t.virtio := by
  induction tunnels with
  | done value => exact .done value _
  | read served rest ih =>
    obtain ⟨before,after,rfl,read,device⟩ := serves_read served
    rw [offsetInPage_within within.1] at read
    have rest := ih (within.2 _)
    rw [device] at rest
    rw [List.append_assoc]
    exact .installAll (.read read rest.installAll)
  | write served rest ih =>
    obtain ⟨before,after,written,rfl,write,device⟩ := serves_write served
    rw [offsetInPage_within within.1] at write
    have rest := ih within.2
    rw [device] at rest
    rw [List.append_assoc]
    exact .installAll (.write write rest.installAll)
  | beside running step rest ih =>
    have behind := step_behind (fun dispatch => Control.noConfusion (running.symm.trans dispatch)) step
    have rest := ih within
    rw [behind.2] at rest
    exact rest.installAll

theorem Driver.Direct.tunnels {α : Type} (cntr : Cntr) {base : Word} {driver : Driver α}
    {v w : VirtioNet} {pairs : List Efds.Pair} {value : α}
    (direct : driver.Direct base v pairs value w) {s : State} (within : driver.Within base)
    (running : s.control = .guest) (device : s.virtio = v) :
    ∃ t, Tunnels cntr driver s pairs value t ∧ t.virtio = w := by
  induction direct generalizing s with
  | done value v => exact ⟨s,.done value,device⟩
  | read read rest ih =>
    rw [← offsetInPage_within within.1,← device] at read
    obtain ⟨t,served,rfl,kept⟩ := reads_served cntr running read
    obtain ⟨u,rest,same⟩ := ih (within.2 _) served.back (kept.trans device)
    exact ⟨u,.read served rest,same⟩
  | write write rest ih =>
    rw [← offsetInPage_within within.1,← device] at write
    obtain ⟨t,served,left⟩ := writes_served cntr running write
    obtain ⟨u,rest,same⟩ := ih within.2 served.back left
    exact ⟨u,.write served rest,same⟩
  | install pair rest ih =>
    have step : BesideStep cntr s (.install pair) { s with virtio := pair.install s.virtio } :=
      .install pair
    obtain ⟨u,rest,same⟩ := ih (s := { s with virtio := pair.install s.virtio }) within running
      (congrArg pair.install device)
    exact ⟨u,.beside running step rest,same⟩

/-- A driver that runs on the device runs in the guest, with the same results and the same
device after it, and it runs in the guest in no other way, however its calls are interleaved with
wakeups and exits, and with the eventfds that the launcher sets on either side. -/
theorem tunnels_iff {α : Type} (cntr : Cntr) {base : Word} (driver : Driver α) (s : State)
    (pairs : List Efds.Pair) (value : α) (w : VirtioNet) (within : driver.Within base)
    (running : s.control = .guest) :
    driver.Direct base s.virtio pairs value w ↔
      ∃ t, Tunnels cntr driver s pairs value t ∧ t.virtio = w := by
  constructor
  · exact fun direct => direct.tunnels cntr within running rfl
  · rintro ⟨t,tunnels,rfl⟩
    exact tunnels.direct within

/-- The first queue of a device mapped at 0xffffc90000000000, made ready and notified. -/
def notifying : Driver Word :=
  .write .l 1 0xffffc90000000044 (.write .l 0 0xffffc90000000050 (.read .l 0xffffc90000000044 .done))

/-- The eventfds of the first queue. -/
def firstPair : Efds.Pair := ⟨⟨0,zero_lt_queueNum⟩,7,8,9⟩

/-- The launcher sets the eventfds of the queue when it is told that it is ready. -/
theorem tunnels_iff_notifying : ∃ t,
    Tunnels block notifying { fresh with control := .guest } [firstPair] 1 t ∧
      t.virtio = firstPair.install (queueSet fresh.virtio fun q => { q with ready := true }) := by
  have within : notifying.Within 0xffffc90000000000 :=
    ⟨by decide,by decide,by decide,fun _ => trivial⟩
  refine (tunnels_iff block notifying { fresh with control := .guest } [firstPair] 1 _ within rfl).mp ?_
  exact .write rfl (.install firstPair (.write rfl (.read rfl (.done _ _))))

end Cki.Start
