import Cki.SwitchTrips
import Cki.VirtioNet

/-! `pkm_cntr_ioctl_start`: the loop that runs a vCPU, one step at a time, with the
guest's calls, the wakeups and the launcher's START calls between its steps. -/
namespace Cki.Start

open Asm Switch Virtio

inductive Rkcall where
  | debug | shutdown | memCheck | yield | initLate | writeCr3 | nop | intr | halt | cpuUp
  | mmioRead | mmioWrite | print
  deriving DecidableEq, Repr

def Rkcall.number : Rkcall → Word
  | .debug => 0
  | .shutdown => 1
  | .memCheck => 2
  | .yield => 3
  | .initLate => 4
  | .writeCr3 => 7
  | .nop => 8
  | .intr => 10
  | .halt => 11
  | .cpuUp => 12
  | .mmioRead => 13
  | .mmioWrite => 14
  | .print => 15

def Rkcall.all : List Rkcall :=
  [.debug,.shutdown,.memCheck,.yield,.initLate,.writeCr3,.nop,.intr,.halt,.cpuUp,.mmioRead,
    .mmioWrite,.print]

/-- The case of the switch that serves a number, if there is one. -/
def Rkcall.ofNumber (n : Word) : Option Rkcall := Rkcall.all.find? (·.number = n)

theorem Rkcall.ofNumber_number (rkcall : Rkcall) : ofNumber rkcall.number = some rkcall := by
  cases rkcall <;> rfl

theorem Rkcall.number_of_ofNumber {n : Word} {rkcall : Rkcall} (served : ofNumber n = some rkcall) :
    n = rkcall.number := by
  have found := List.find?_some served
  exact (of_decide_eq_true found).symm

def pkEventVirtioIntr : Word := 4
def pkmCntrMemSize : Word := 1 <<< 30
def pkmCntrInitrdSize : Word := 1 <<< 30

def pkmCntrExitCpuUp : Int := 101
def pkmCntrExitVringReady : Int := 201
def pkmCntrExitPrint : Int := 301
def efault : Int := 14
def einval : Int := 22

/-- What START reads of the container and no step changes. -/
structure Cntr where
  pcid : Word
  memPaddr : Word
  mem2Paddr : Word
  initrdPaddr : Word

/-- The words of one half of the context that START or its handlers use. -/
@[ext] structure PkCtxRegs where
  rcx : Word
  rdx : Word
  rsi : Word
  r8 : Word
  r9 : Word
  cr3 : Word
  cr4 : Word
  idtr : Word × Word
  deriving DecidableEq, Repr

structure Vcpu where
  pmode : PkCtxRegs
  rmode : PkCtxRegs
  virtioEventCnt : BitVec 32
  pkRkret : Variant
  deriving DecidableEq, Repr

/-- The registers in force of which the slow type leaves an image in its half. -/
structure Tables where
  idtr : BitVec 80
  cr4 : Word
  deriving DecidableEq, Repr

structure Call where
  n : Word
  arg1 : Word
  arg2 : Word
  arg3 : Word
  deriving DecidableEq, Repr

def PkCtxRegs.save (regs : PkCtxRegs) (type : Variant) (tables : Tables) : PkCtxRegs :=
  match type with
  | .slow => { regs with cr4 := tables.cr4, idtr := tableWords tables.idtr regs.idtr.2 }
  | .fast => regs

/-- An rkcall's entry: `__pk_rkcall` notes the call and the root in the guest's half. -/
def Vcpu.enter (vcpu : Vcpu) (type : Variant) (call : Call) (cr3 : Word) (tables : Tables) : Vcpu :=
  { vcpu with
    pmode := { vcpu.pmode.save type tables with
      rdx := call.n, rcx := call.arg1, r8 := call.arg2, r9 := call.arg3, cr3 := cr3 } }

/-- The top of the loop, down to the jump into the guest. -/
def Vcpu.resume (cntr : Cntr) (vcpu : Vcpu) (tables : Tables) : Vcpu :=
  { vcpu with
    pmode := { vcpu.pmode with cr3 := withPcid vcpu.pmode.cr3 cntr.pcid }
    rmode := vcpu.rmode.save vcpu.pkRkret tables }

def Vcpu.call (vcpu : Vcpu) : Call :=
  ⟨vcpu.pmode.rdx,vcpu.pmode.rcx,vcpu.pmode.r8,vcpu.pmode.r9⟩

def Vcpu.answer (vcpu : Vcpu) (rsi rdx : Word) : Vcpu :=
  { vcpu with pmode := { vcpu.pmode with rsi := rsi, rdx := rdx } }

/-- `mem_check`: whether the address lies outside the container's blocks. -/
def memCheck (cntr : Cntr) (paddr : Word) : Bool :=
  if cntr.memPaddr ≤ paddr ∧ paddr < cntr.memPaddr + pkmCntrMemSize then false
  else if cntr.mem2Paddr ≤ paddr ∧ paddr < cntr.mem2Paddr + pkmCntrMemSize then false
  else if cntr.initrdPaddr ≤ paddr ∧ paddr < cntr.initrdPaddr + pkmCntrInitrdSize then false
  else true

/-- The saved images are compared, not the registers. -/
def handleRkcallInitLate (vcpu : Vcpu) : Word :=
  if vcpu.pmode.idtr ≠ vcpu.rmode.idtr then -1
  else if vcpu.pmode.cr4 ≠ vcpu.rmode.cr4 then -1
  else 0

/-- Where the thread is. Outside START it has a result and, if they could be copied out,
the arguments. -/
inductive Control where
  | launcher (result : Int) (copied : Option (Word × Word))
  | loop
  | guest
  | dispatch
  | halting
  | polling
  | consuming (count : BitVec 32)
  | storing (events : Word)
  | copying (result : Int)
  | spinning
  | faulted
  deriving DecidableEq, Repr

/-- An rkcall that has not been resumed yet: its type of switch and whether the loop has
seen a positive count since. -/
structure Unanswered where
  type : Variant
  observed : Bool
  deriving DecidableEq, Repr

structure State where
  vcpu : Vcpu
  virtio : VirtioNet
  control : Control
  ret : Word
  kargs : Word × Word
  unanswered : Option Unanswered

def State.answer (s : State) (ret : Word) : State := { s with ret := ret, control := .polling }

/-- The switch of the loop. -/
def State.dispatch (cntr : Cntr) (s : State) : State :=
  let call := s.vcpu.call
  match Rkcall.ofNumber call.n with
  | some .debug => s.answer 0
  | some .memCheck => s.answer (if memCheck cntr call.arg1 then 1 else 0)
  | some .shutdown => { s with control := .launcher 0 none }
  | some .initLate =>
    let ret := handleRkcallInitLate s.vcpu
    if ret = 0 then { s.answer ret with vcpu := { s.vcpu with pkRkret := .fast } } else s.answer ret
  | some .writeCr3 =>
    { s.answer 0 with vcpu := { s.vcpu with pmode := { s.vcpu.pmode with cr3 := call.arg1 } } }
  | some .nop => s.answer 0
  | some .intr => { s with control := .polling }
  | some .halt => { s with control := .halting }
  | some .cpuUp =>
    { s with kargs := (call.arg1,s.kargs.2), control := .copying pkmCntrExitCpuUp }
  | some .yield => { s with control := .polling }
  | some .mmioRead =>
    match handleRkcallMmioRead s.virtio call.arg1 (call.arg2.setWidth 32) with
    | .done value => s.answer value
    | .spins => { s with control := .spinning }
    | .faults => { s with control := .faulted }
  | some .mmioWrite =>
    match handleRkcallMmioWrite s.virtio call.arg1 call.arg2 (call.arg3.setWidth 32) with
    | .done written =>
      if written.result = 0 then { s.answer 0 with virtio := written.virtio } else
        { s with
          virtio := written.virtio
          ret := written.result.signExtend 64
          kargs := (written.virtio.queueSelect.setWidth 64,s.kargs.2)
          control := .copying pkmCntrExitVringReady }
    | .spins => { s with control := .spinning }
    | .faults => { s with control := .faulted }
  | some .print => { s with kargs := (call.arg1,call.arg2), control := .copying pkmCntrExitPrint }
  | none => { s with control := .launcher (-einval) none }

/-- `count` is read and the loop decides on the event. -/
def State.poll (s : State) : State :=
  let count := s.vcpu.virtioEventCnt
  if count = 0 then { s with control := .storing 0 } else
    { s with
      control := .consuming count
      unanswered := s.unanswered.map fun u => { u with observed := u.observed || 0 < count.toInt } }

theorem poll_none {s : State} (none : s.vcpu.virtioEventCnt = 0) :
    s.poll = { s with control := .storing 0 } := if_pos none

theorem poll_some {s : State} (some : s.vcpu.virtioEventCnt ≠ 0) : s.poll = { s with
    control := .consuming s.vcpu.virtioEventCnt
    unanswered := s.unanswered.map fun u =>
      { u with observed := u.observed || 0 < s.vcpu.virtioEventCnt.toInt } } := if_neg some

/-- `arch_cmpxchg` -/
def State.consume (s : State) (count : BitVec 32) : State :=
  { s with
    control := .storing pkEventVirtioIntr
    vcpu := { s.vcpu with
      virtioEventCnt := if s.vcpu.virtioEventCnt = count then count - 1 else s.vcpu.virtioEventCnt } }

/-- What happens next on a vCPU: a thread's START gets past its checks with an
uninitialised `ret`, `virtio_wakeup` counts an event (on vCPU 0), the loop resumes the
guest, the guest makes an rkcall, the loop takes its next step, or the arguments have been
copied out. -/
inductive Event where
  | start (kargs : Word × Word) (ret : Word)
  | wakeup
  | resume (tables : Tables)
  | rkcall (type : Variant) (call : Call) (cr3 : Word) (tables : Tables)
  | host
  | copied (ok : Bool)
  deriving DecidableEq, Repr

def State.host (cntr : Cntr) (s : State) : Option State :=
  match s.control with
  | .dispatch => some (s.dispatch cntr)
  | .halting => some (if s.vcpu.virtioEventCnt = 0 then s else s.answer 0)
  | .polling => some s.poll
  | .consuming count => some (s.consume count)
  | .storing events => some { s with control := .loop, vcpu := s.vcpu.answer s.ret events }
  | .spinning => some s
  | _ => none

def step (cntr : Cntr) (s : State) : Event → Option State
  | .start kargs ret =>
    match s.control with
    | .launcher _ _ => some { s with kargs := kargs, ret := ret, control := .loop }
    | _ => none
  | .wakeup =>
    some { s with vcpu := { s.vcpu with virtioEventCnt := s.vcpu.virtioEventCnt + 1 } }
  | .resume tables =>
    match s.control with
    | .loop =>
      some { s with vcpu := s.vcpu.resume cntr tables, control := .guest, unanswered := none }
    | _ => none
  | .rkcall type call cr3 tables =>
    match s.control with
    | .guest => some { s with
        vcpu := s.vcpu.enter type call cr3 tables
        control := .dispatch
        unanswered := some ⟨type,false⟩ }
    | _ => none
  | .host => s.host cntr
  | .copied ok =>
    match s.control with
    | .copying result => some { s with
        control := if ok then .launcher result (some s.kargs) else .launcher (-efault) none }
    | _ => none

/-- One step as a relation, for runs. -/
def Step (cntr : Cntr) (s : State) (event : Event) (t : State) : Prop := step cntr s event = some t

/-- A vCPU as `pkm_dev_ioctl_create_cntr` leaves it, the contexts zeroed apart from the
guest's first registers. -/
structure Created (s : State) : Prop where
  control : ∃ result copied, s.control = .launcher result copied
  pkRkret : s.vcpu.pkRkret = .slow
  virtioEventCnt : s.vcpu.virtioEventCnt = 0
  pmodeIdtr : s.vcpu.pmode.idtr = (0,0)
  rmodeIdtr : s.vcpu.rmode.idtr = (0,0)
  unanswered : s.unanswered = none

/-! What a step has done, by where the thread was. -/

inductive Moves (cntr : Cntr) (s : State) : Event → State → Prop where
  | start {result : Int} {copied : Option (Word × Word)} (kargs : Word × Word) (ret : Word) :
      s.control = .launcher result copied →
      Moves cntr s (.start kargs ret) { s with kargs := kargs, ret := ret, control := .loop }
  | wakeup : Moves cntr s .wakeup
      { s with vcpu := { s.vcpu with virtioEventCnt := s.vcpu.virtioEventCnt + 1 } }
  | resume (tables : Tables) : s.control = .loop → Moves cntr s (.resume tables)
      { s with vcpu := s.vcpu.resume cntr tables, control := .guest, unanswered := none }
  | rkcall (type : Variant) (call : Call) (cr3 : Word) (tables : Tables) : s.control = .guest →
      Moves cntr s (.rkcall type call cr3 tables)
        { s with
          vcpu := s.vcpu.enter type call cr3 tables
          control := .dispatch
          unanswered := some ⟨type,false⟩ }
  | dispatch : s.control = .dispatch → Moves cntr s .host (s.dispatch cntr)
  | halting : s.control = .halting → s.vcpu.virtioEventCnt = 0 → Moves cntr s .host s
  | halted : s.control = .halting → s.vcpu.virtioEventCnt ≠ 0 → Moves cntr s .host (s.answer 0)
  | poll : s.control = .polling → Moves cntr s .host s.poll
  | consume (count : BitVec 32) : s.control = .consuming count →
      Moves cntr s .host (s.consume count)
  | store (events : Word) : s.control = .storing events →
      Moves cntr s .host { s with control := .loop, vcpu := s.vcpu.answer s.ret events }
  | spin : s.control = .spinning → Moves cntr s .host s
  | copied {result : Int} (ok : Bool) : s.control = .copying result → Moves cntr s (.copied ok)
      { s with control := if ok then .launcher result (some s.kargs) else .launcher (-efault) none }

theorem step_moves {cntr : Cntr} {s t : State} {event : Event} (step : Step cntr s event t) :
    Moves cntr s event t := by
  obtain ⟨vcpu,virtio,control,ret,kargs,unanswered⟩ := s
  cases event with
  | wakeup =>
    cases step
    exact .wakeup
  | host =>
    cases control with
    | dispatch =>
      cases step
      exact .dispatch rfl
    | halting =>
      by_cases none : vcpu.virtioEventCnt = 0
      · simp only [Step,Start.step,State.host,if_pos none] at step
        cases step
        exact .halting rfl none
      · simp only [Step,Start.step,State.host,if_neg none] at step
        cases step
        exact .halted rfl none
    | polling =>
      cases step
      exact .poll rfl
    | consuming count =>
      cases step
      exact .consume count rfl
    | storing events =>
      cases step
      exact .store events rfl
    | spinning =>
      cases step
      exact .spin rfl
    | _ => cases step
  | start kargs' ret' =>
    cases control <;> cases step
    exact .start kargs' ret' rfl
  | resume tables =>
    cases control <;> cases step
    exact .resume tables rfl
  | rkcall type call cr3 tables =>
    cases control <;> cases step
    exact .rkcall type call cr3 tables rfl
  | copied ok =>
    cases control <;> cases step
    exact .copied ok rfl

/-- What the switch of the loop leaves alone. -/
structure Dispatched (s t : State) : Prop where
  rdx : t.vcpu.pmode.rdx = s.vcpu.pmode.rdx
  rsi : t.vcpu.pmode.rsi = s.vcpu.pmode.rsi
  idtr : t.vcpu.pmode.idtr = s.vcpu.pmode.idtr
  cr4 : t.vcpu.pmode.cr4 = s.vcpu.pmode.cr4
  rmode : t.vcpu.rmode = s.vcpu.rmode
  virtioEventCnt : t.vcpu.virtioEventCnt = s.vcpu.virtioEventCnt
  unanswered : t.unanswered = s.unanswered
  pkRkret : s.vcpu.call.n ≠ Rkcall.initLate.number → t.vcpu.pkRkret = s.vcpu.pkRkret

theorem dispatch_dispatched (cntr : Cntr) (s : State) : Dispatched s (s.dispatch cntr) := by
  cases served : Rkcall.ofNumber s.vcpu.call.n with
  | none =>
    simp only [State.dispatch,served]
    exact ⟨rfl,rfl,rfl,rfl,rfl,rfl,rfl,fun _ => rfl⟩
  | some rkcall =>
    cases rkcall with
    | initLate =>
      have late := Rkcall.number_of_ofNumber served
      simp only [State.dispatch,served]
      split <;> exact ⟨rfl,rfl,rfl,rfl,rfl,rfl,rfl,fun other => absurd late other⟩
    | mmioRead =>
      simp only [State.dispatch,served]
      split <;> exact ⟨rfl,rfl,rfl,rfl,rfl,rfl,rfl,fun _ => rfl⟩
    | mmioWrite =>
      simp only [State.dispatch,served]
      split
      · split <;> exact ⟨rfl,rfl,rfl,rfl,rfl,rfl,rfl,fun _ => rfl⟩
      · exact ⟨rfl,rfl,rfl,rfl,rfl,rfl,rfl,fun _ => rfl⟩
      · exact ⟨rfl,rfl,rfl,rfl,rfl,rfl,rfl,fun _ => rfl⟩
    | _ =>
      simp only [State.dispatch,served]
      exact ⟨rfl,rfl,rfl,rfl,rfl,rfl,rfl,fun _ => rfl⟩

/-- The calls after which START returns to the launcher. -/
def Exits (n : Word) : Prop :=
  ∀ rkcall, Rkcall.ofNumber n = some rkcall → rkcall ∈ [.shutdown,.cpuUp,.mmioWrite,.print]

/-- Where the switch leads. -/
inductive Leads (s t : State) : Prop where
  | answered : t.control = .polling → Leads s t
  | halting : t.control = .halting → Leads s t
  | spinning : t.control = .spinning → Leads s t
  | faulted : t.control = .faulted → Leads s t
  | copying (result : Int) : t.control = .copying result → Exits s.vcpu.call.n → Leads s t
  | launcher (result : Int) : t.control = .launcher result none → Exits s.vcpu.call.n → Leads s t

theorem exits_of_served {n : Word} {rkcall : Rkcall} (served : Rkcall.ofNumber n = some rkcall)
    (exit : rkcall ∈ [.shutdown,.cpuUp,.mmioWrite,.print]) : Exits n := by
  intro other served'
  rw [served] at served'
  cases served'
  exact exit

theorem dispatch_leads (cntr : Cntr) (s : State) : Leads s (s.dispatch cntr) := by
  cases served : Rkcall.ofNumber s.vcpu.call.n with
  | none =>
    simp only [State.dispatch,served]
    exact .launcher _ rfl fun _ served' => by rw [served] at served'; cases served'
  | some rkcall =>
    cases rkcall with
    | shutdown =>
      simp only [State.dispatch,served]
      exact .launcher _ rfl (exits_of_served served (by decide))
    | cpuUp =>
      simp only [State.dispatch,served]
      exact .copying _ rfl (exits_of_served served (by decide))
    | print =>
      simp only [State.dispatch,served]
      exact .copying _ rfl (exits_of_served served (by decide))
    | halt =>
      simp only [State.dispatch,served]
      exact .halting rfl
    | initLate =>
      simp only [State.dispatch,served]
      split <;> exact .answered rfl
    | mmioRead =>
      simp only [State.dispatch,served]
      split
      · exact .answered rfl
      · exact .spinning rfl
      · exact .faulted rfl
    | mmioWrite =>
      simp only [State.dispatch,served]
      split
      · split
        · exact .answered rfl
        · exact .copying _ rfl (exits_of_served served (by decide))
      · exact .spinning rfl
      · exact .faulted rfl
    | _ =>
      simp only [State.dispatch,served]
      exact .answered rfl

end Cki.Start
