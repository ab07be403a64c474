import Cki.MonitorBoot
import Cki.Start

/-! The roots that reach CR3: through the KSM, through the guest's hook for CR3 writes and
through the host's resume after an rkcall. Only the first checks the frame. -/
namespace Cki.Monitor

/-- The PCID of a container, which the guest and the host have alike. -/
structure Pcid where
  value : Word
  range : value ≤ 100

theorem Pcid.small (pcid : Pcid) : pcid.value &&& ~~~0xfff = 0#64 := by
  have all : ∀ k : Fin 101, BitVec.ofNat 64 k.val &&& ~~~0xfff = 0#64 := by decide
  have bound : pcid.value.toNat < 101 := Nat.lt_succ_of_le (BitVec.le_def.mp pcid.range)
  have low := all ⟨_,bound⟩
  rwa [BitVec.ofNat_toNat,BitVec.setWidth_eq] at low

def x86Cr3PcidMask : Word := 0xfff

def nativeWriteCr3 (val : Word) : Ksm Unit := loadCr3 val

/-- The guest's `pkm_write_cr3`, which calls the KSM no more. -/
def Guest.pkmWriteCr3 (pcid : Pcid) (val : Word) : Ksm Unit :=
  let val := val &&& ~~~x86Cr3PcidMask
  let val := val ||| pcid.value
  nativeWriteCr3 val

/-- PK_RKCALL_WRITE_CR3 and the resume after it. -/
def rkcallWriteCr3 (pcid : Pcid) (arg1 : Word) : Ksm Unit := loadCr3 (withPcid arg1 pcid.value)

/-- In the loop of START the call is answered and the guest resumed with this root. -/
def Answering (cntr : Start.Cntr) (call : Start.Call) (s : Start.State) : Prop :=
  match s.control with
  | .dispatch => s.vcpu.call = call
  | .polling | .consuming _ | .storing _ | .loop => s.vcpu.pmode.cr3 = call.arg1
  | .guest => s.vcpu.pmode.cr3 = withPcid call.arg1 cntr.pcid
  | _ => False

theorem answering_step {cntr : Start.Cntr} {call : Start.Call}
    (served : Start.Rkcall.ofNumber call.n = some .writeCr3) {s t : Start.State}
    {event : Start.Event} (answering : Answering cntr call s) (step : Start.Step cntr s event t)
    (waits : ∀ type other cr3 tables, event ≠ .rkcall type other cr3 tables) :
    Answering cntr call t := by
  cases Start.step_moves step with
  | start _ _ control | halting control _ | halted control _ | spin control | copied _ control =>
    rw [Answering,control] at answering
    exact answering.elim
  | wakeup => exact answering
  | resume tables control =>
    rw [Answering,control] at answering
    exact congrArg (withPcid · cntr.pcid) answering
  | rkcall type other cr3 tables control => exact absurd rfl (waits type other cr3 tables)
  | dispatch control =>
    rw [Answering,control] at answering
    rw [← answering] at served
    simp only [Start.State.dispatch,served]
    exact congrArg Start.Call.arg1 answering
  | poll control =>
    rw [Answering,control] at answering
    by_cases none : s.vcpu.virtioEventCnt = 0
    · rw [Start.poll_none none]
      exact answering
    · rw [Start.poll_some none]
      exact answering
  | consume _ control | store _ control =>
    rw [Answering,control] at answering
    exact answering

/-- START gives the guest the root of the call, with the container's PCID. -/
theorem writeCr3_resumes {cntr : Start.Cntr} {s t : Start.State} {events : List Start.Event}
    (control : s.control = .dispatch)
    (served : Start.Rkcall.ofNumber s.vcpu.call.n = some .writeCr3)
    (run : Run (Guarded (fun _ event => ∀ type other cr3 tables,
      event ≠ .rkcall type other cr3 tables) (Start.Step cntr)) s events t)
    (guest : t.control = .guest) :
    t.vcpu.pmode.cr3 = withPcid s.vcpu.call.arg1 cntr.pcid := by
  have begins : Answering cntr s.vcpu.call s := by
    rw [Answering,control]
  have ends := run.invariant (Answering cntr s.vcpu.call)
    (fun _ _ _ answering step => answering_step served answering step.2 step.1) begins
  rw [Answering,guest] at ends
  exact ends

inductive RootEvent where
  | call (op : Op)
  | hook (val : Word)
  | rkcall (arg1 : Word)
  deriving DecidableEq, Repr

variable (layout : Layout) (pcid : Pcid)

def RootEvent.run : RootEvent → Ksm Unit
  | .call op => op.call layout
  | .hook val => Guest.pkmWriteCr3 pcid val
  | .rkcall arg1 => rkcallWriteCr3 pcid arg1

/-- The descriptors are written by the KSM's own calls only. -/
def RootStep (s : State) (event : RootEvent) (t : State) : Prop :=
  (∀ kind var value, event ≠ .call (.set kind (.own var) value)) ∧
    event.run layout pcid s = .ret () t

/-- The KSM is in force and CR3 points to a root it knows. -/
def RootTyped (s : State) : Prop :=
  s.mmuIsInitialized ≠ 0 ∧ s.typeOf (frameOf s.cr3) = some .l4

/-- No root is loaded past the KSM unless it is a typed one, and the active root is not
released. -/
def RootAllowed (s : State) : RootEvent → Prop
  | .call (.release _ pfn) => pfnFrame pfn ≠ frameOf s.cr3
  | .call _ => True
  | .hook root | .rkcall root => s.typeOf (frameOf root) = some .l4

variable {layout pcid}

theorem withPcid_frame (root : Word) : frameOf (dropNoFlush (withPcid root pcid.value)) = frameOf root := by
  rw [frameOf_dropNoFlush]
  exact frameOf_of_root (withPcid_root root pcid.small)

theorem hook_step (layout : Layout) (pcid : Pcid) (s : State) (val : Word) :
    RootStep layout pcid s (.hook val) { s with cr3 := dropNoFlush (withPcid val pcid.value) } :=
  ⟨fun _ _ _ => by simp,rfl⟩

/-- Both ways past the KSM load the frame they are given. -/
theorem unchecked_root {s t : State} {root : Word} (initialized : s.mmuIsInitialized ≠ 0)
    (loaded : t = { s with cr3 := dropNoFlush (withPcid root pcid.value) }) :
    s.typeOf (frameOf root) = some .l4 ↔ RootTyped t := by
  subst loaded
  constructor
  · intro typed
    refine ⟨initialized,?_⟩
    rw [withPcid_frame]
    exact typed
  · rintro ⟨_,typed⟩
    rw [withPcid_frame] at typed
    exact typed

/-- One step keeps the root typed exactly when it is allowed. -/
theorem rootStep_iff {s t : State} {event : RootEvent} (inv : RootTyped s)
    (step : RootStep layout pcid s event t) : RootAllowed s event ↔ RootTyped t := by
  obtain ⟨initialized,typed⟩ := inv
  obtain ⟨table,returns⟩ := step
  cases event with
  | hook val =>
    cases returns
    exact unchecked_root initialized rfl
  | rkcall arg1 =>
    cases returns
    exact unchecked_root initialized rfl
  | call op =>
    have effect := callStep_effect initialized returns
    cases op with
    | set kind ptr value =>
      obtain ⟨_,rfl⟩ := effect
      cases ptr with
      | entry slot => exact ⟨fun _ => ⟨initialized,typed⟩,fun _ => trivial⟩
      | own var => exact absurd rfl (table kind var value)
    | alloc kind pfn =>
      obtain ⟨desc,describes,old,rfl⟩ := effect
      refine ⟨fun _ => ⟨initialized,?_⟩,fun _ => trivial⟩
      rw [setType_typeOf s describes,setType_cr3]
      split
      · rename_i same
        rw [← same,typed] at old
        rcases old with unused | level
        · cases unused
        · exact level.symm
      · exact typed
    | release kind pfn =>
      obtain ⟨desc,describes,rfl⟩ := effect
      constructor
      · intro apart
        refine ⟨initialized,?_⟩
        rw [setType_typeOf s describes,setType_cr3,if_neg apart.symm]
        exact typed
      · rintro ⟨_,kept⟩ same
        rw [setType_typeOf s describes,setType_cr3,if_pos same.symm] at kept
        cases kept
    | writeCr3 value =>
      obtain ⟨root,rfl⟩ := effect
      refine ⟨fun _ => ⟨initialized,?_⟩,fun _ => trivial⟩
      rw [frameOf_dropNoFlush]
      exact root

theorem pkmInit_rootTyped {start s : State} (init : pkmInit start = .ret () s)
    (once : RootOnce start) : RootTyped s := by
  refine ⟨?_,svaMmuInit_root init once⟩
  rw [(svaMmuInit_ret init).2.2.1]
  decide

/-- Over runs from initialisation on: the root is a typed one in every state exactly where
every step is allowed. -/
theorem run_rootTyped_iff {start s t : State} {events : List RootEvent}
    (init : pkmInit start = .ret () s) (once : RootOnce start) :
    RootTyped s ∧ (Run (Guarded RootAllowed (RootStep layout pcid)) s events t ↔
      Run (fun u event v => RootStep layout pcid u event v ∧ RootTyped v) s events t) := by
  have typed := pkmInit_rootTyped init once
  exact ⟨typed,Run.guarded_iff RootTyped RootAllowed (fun _ _ _ inv step => rootStep_iff inv step) typed⟩

theorem bootTables_rootOnce : RootOnce bootTables := by
  intro level table
  rcases (bootTables_shape rfl rfl).tables table with ⟨same,_⟩ | ⟨_,apart⟩ | ⟨_,apart,_⟩
  · exact same
  · exact absurd apart (by decide)
  · exact absurd apart (by decide)

/-- The guest loads the root it booted with once more. -/
theorem bootTables_rootTyped : ∃ (pcid : Pcid) (s t : State), pkmInit bootTables = .ret () s ∧
    Run (fun u event v => RootStep flatLayout pcid u event v ∧ RootTyped v) s [.hook 0x1000] t := by
  obtain ⟨pcid⟩ : Nonempty Pcid := ⟨10,by decide⟩
  obtain ⟨s,init⟩ := svaMmuInit_returns bootTables_described (by decide)
  obtain ⟨typed,allowed⟩ := run_rootTyped_iff init bootTables_rootOnce
  have root : s.typeOf (frameOf 0x1000) = some .l4 := by
    have known := typed.2
    rw [(svaMmuInit_ret init).2.1] at known
    exact known
  exact ⟨pcid,s,_,init,allowed.mp (.single ⟨root,hook_step flatLayout pcid s 0x1000⟩)⟩

/-- The hook loads frame 5, which no call has ever declared. -/
theorem hook_loads_unused : ¬ ∀ (layout : Layout) (pcid : Pcid) (start s t : State)
    (events : List RootEvent), pkmInit start = .ret () s →
    Run (RootStep layout pcid) s events t → t.typeOf (frameOf t.cr3) = some .l4 := by
  intro claim
  obtain ⟨s,init⟩ := svaMmuInit_returns bootTables_described (by decide)
  obtain ⟨pcid⟩ : Nonempty Pcid := ⟨10,by decide⟩
  have typed := claim _ _ _ _ _ _ init (.single (hook_step flatLayout pcid s 0x5000))
  have frame : frameOf (0x5000 : Word) = 5 := by decide
  rw [withPcid_frame,frame] at typed
  change s.typeOf 5 = some .l4 at typed
  rw [(bootTables_shape rfl rfl).untouched init (by decide)] at typed
  cases typed

end Cki.Monitor
