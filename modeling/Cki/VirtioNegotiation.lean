import Cki.VirtioRun

/-! Feature negotiation over runs of the device. The status handler tests the bits that are
new and stores the whole value, so that a bit can be dropped with the next one. -/
namespace Cki.Virtio

def AckedOffered (v : VirtioNet) : Prop := v.ackedFeatures &&& ~~~v.availFeatures = 0

/-- The status is the same, or has the next bit besides. -/
def Gains (old new : BitVec 32) : Prop :=
  new = old ∨ ∃ bit, nextStatusBit old = some bit ∧ new = old ||| bit

/-- A status write other than a reset has all bits that are set. -/
def KeepsStatus (v : VirtioNet) : DeviceEvent → Prop
  | .write val offset size => WriteRegister.at offset size = some .status → val ≠ 0 →
      v.deviceStatus &&& ~~~val = 0
  | _ => True

/-- FEATURES_OK is accepted from `v` to `w`. -/
def AcceptsFeaturesOk (v w : VirtioNet) : Prop :=
  v.deviceStatus &&& virtioConfigSFeaturesOk = 0 ∧ w.deviceStatus &&& virtioConfigSFeaturesOk ≠ 0

/-- What a sealed negotiation means for a run of these events from `start`. -/
structure Negotiates (start : VirtioNet) (events : List DeviceEvent) : Prop where
  offered : ∀ first rest v, events = first ++ rest → Run DeviceStep start first v → AckedOffered v
  gains : ∀ first event rest v w, events = first ++ event :: rest → Run DeviceStep start first v →
    DeviceStep v event w → Gains v.deviceStatus w.deviceStatus
  closed : ∀ first event second rest v w u, events = first ++ event :: (second ++ rest) →
    Run DeviceStep start first v → DeviceStep v event w → AcceptsFeaturesOk v w →
    Run DeviceStep w second u → u.ackedFeatures = w.ackedFeatures

/-! Bits. -/

theorem or_offered {acked new avail : Word} (old : acked &&& ~~~avail = 0) :
    (acked ||| new &&& avail) &&& ~~~avail = 0 := by
  rw [BitVec.and_or_distrib_right,old,BitVec.and_assoc,BitVec.and_not_self]
  simp

/-- A value that brings the bits `bit` is the old one with them added if it drops nothing. -/
theorem gained_iff {old new bit : BitVec 32} (diff : ~~~old &&& new = bit) :
    new = old ||| bit ↔ old &&& ~~~new = 0 := by
  subst diff
  constructor
  · intro same
    apply BitVec.eq_of_getElem_eq
    intro i hi
    have pair := congrArg (fun value : BitVec 32 => value[i]) same
    simp only [BitVec.getElem_or,BitVec.getElem_and,BitVec.getElem_not] at pair ⊢
    revert pair
    cases old[i] <;> cases new[i] <;> simp
  · intro none
    apply BitVec.eq_of_getElem_eq
    intro i hi
    have pair := congrArg (fun value : BitVec 32 => value[i]) none
    simp only [BitVec.getElem_or,BitVec.getElem_and,BitVec.getElem_not] at pair ⊢
    revert pair
    cases old[i] <;> cases new[i] <;> simp

theorem featuresOk_or {status bit : BitVec 32} (accepted : status &&& virtioConfigSFeaturesOk ≠ 0) :
    (status ||| bit) &&& virtioConfigSFeaturesOk ≠ 0 := by
  intro none
  apply accepted
  apply BitVec.eq_of_getElem_eq
  intro i hi
  have pair := congrArg (fun value : BitVec 32 => value[i]) none
  simp only [BitVec.getElem_or,BitVec.getElem_and] at pair ⊢
  revert pair
  cases status[i] <;> simp

/-! One step. -/

theorem step_negotiation {v w : VirtioNet} {event : DeviceEvent} (step : DeviceStep v event w) :
    w.availFeatures = v.availFeatures ∧
    ((∀ val offset size, event = .write val offset size →
      WriteRegister.at offset size ≠ some .status) → w.deviceStatus = v.deviceStatus) := by
  cases event with
  | read offset size =>
    rw [step.1]
    exact ⟨rfl,fun _ => rfl⟩
  | efds idx kick call =>
    rw [step]
    exact ⟨rfl,fun _ => rfl⟩
  | write val offset size =>
    obtain ⟨written,done,rfl⟩ := step
    obtain ⟨register,served,done⟩ := handleRkcallMmioWrite_done done
    obtain ⟨avail,status,_⟩ := writeRegister_negotiation done
    refine ⟨avail,fun other => status ?_⟩
    rintro rfl
    exact other _ _ _ rfl served

theorem keepsStatus_iff {v w : VirtioNet} {event : DeviceEvent} (step : DeviceStep v event w) :
    KeepsStatus v event ↔ Gains v.deviceStatus w.deviceStatus := by
  have same : (∀ val offset size, event = .write val offset size →
      WriteRegister.at offset size ≠ some .status) → Gains v.deviceStatus w.deviceStatus :=
    fun other => .inl ((step_negotiation step).2 other)
  cases event with
  | read offset size => exact ⟨fun _ => same nofun,fun _ => trivial⟩
  | efds idx kick call => exact ⟨fun _ => same nofun,fun _ => trivial⟩
  | write val offset size =>
    by_cases status : WriteRegister.at offset size = some .status
    · obtain ⟨written,done,rfl⟩ := step
      rw [handleRkcallMmioWrite_at v _ status] at done
      obtain ⟨next,accepted,rfl⟩ := Access.map_done done
      rw [setWidth_word] at accepted
      rcases handleMmioWriteDeviceStatus_done accepted with ⟨zero,rfl⟩ | ⟨nonzero,bit,rfl⟩
      · exact ⟨fun _ => .inl rfl,fun _ _ nonzero => absurd zero nonzero⟩
      · have gained := gained_iff (rfl : ~~~v.deviceStatus &&& val = _)
        constructor
        · intro keeps
          exact .inr ⟨_,bit,gained.mpr (keeps status nonzero)⟩
        · rintro (stays | ⟨_,next,adds⟩) _ _
          · change val = v.deviceStatus at stays
            rw [stays,BitVec.and_not_self]
          · rw [bit] at next
            cases next
            exact gained.mp adds
    · exact ⟨fun _ => same fun _ _ _ equal served => by cases equal; exact status served,
        fun _ served => absurd served status⟩

theorem step_offered {v w : VirtioNet} {event : DeviceEvent} (offered : AckedOffered v)
    (step : DeviceStep v event w) : AckedOffered w := by
  cases event with
  | read offset size =>
    rw [step.1]
    exact offered
  | efds idx kick call =>
    rw [step]
    exact offered
  | write val offset size =>
    obtain ⟨written,done,rfl⟩ := step
    obtain ⟨register,_,done⟩ := handleRkcallMmioWrite_done done
    obtain ⟨avail,_,acked⟩ := writeRegister_negotiation done
    by_cases features : register = .driverFeatures
    · subst features
      cases done
      rcases handleMmioWriteAckedFeatures_cases v ((val.setWidth 64).setWidth 32) with
        same | ⟨_,new,taken⟩
      · rw [same]
        exact offered
      · rw [taken]
        exact or_offered offered
    · rw [AckedOffered,avail,acked features]
      exact offered

/-- After FEATURES_OK a step that keeps the status keeps the features. -/
theorem step_closed {v w : VirtioNet} {event : DeviceEvent} (step : DeviceStep v event w)
    (keeps : KeepsStatus v event) (accepted : v.deviceStatus &&& virtioConfigSFeaturesOk ≠ 0) :
    w.deviceStatus &&& virtioConfigSFeaturesOk ≠ 0 ∧ w.ackedFeatures = v.ackedFeatures := by
  have status : w.deviceStatus &&& virtioConfigSFeaturesOk ≠ 0 := by
    rcases (keepsStatus_iff step).mp keeps with same | ⟨bit,_,adds⟩
    · rw [same]
      exact accepted
    · rw [adds]
      exact featuresOk_or accepted
  refine ⟨status,?_⟩
  cases event with
  | read offset size => rw [step.1]
  | efds idx kick call =>
    rw [step]
    rfl
  | write val offset size =>
    obtain ⟨written,done,rfl⟩ := step
    obtain ⟨register,_,done⟩ := handleRkcallMmioWrite_done done
    by_cases features : register = .driverFeatures
    · subst features
      cases done
      rcases handleMmioWriteAckedFeatures_cases v ((val.setWidth 64).setWidth 32) with
        same | ⟨open_,_,_⟩
      · rw [same]
      · exact absurd open_ accepted
    · exact (writeRegister_negotiation done).2.2 features

/-! The runs. -/

theorem run_offered {start v : VirtioNet} {events : List DeviceEvent}
    (run : Run DeviceStep start events v) (offered : AckedOffered start) : AckedOffered v :=
  run.invariant AckedOffered (fun _ _ _ offered step => step_offered offered step) offered

theorem run_closed {v w : VirtioNet} {events : List DeviceEvent}
    (run : Run (Guarded KeepsStatus DeviceStep) v events w)
    (accepted : v.deviceStatus &&& virtioConfigSFeaturesOk ≠ 0) :
    w.ackedFeatures = v.ackedFeatures := by
  induction run with
  | nil => rfl
  | cons step _ ih =>
    obtain ⟨still,same⟩ := step_closed step.2 step.1 accepted
    exact (ih still).trans same

theorem initVirtioNet_offered (memory : VirtioNet) : AckedOffered (initVirtioNet memory) := by
  change (0 : Word) &&& _ = 0
  exact BitVec.zero_and

theorem negotiates_of_keeps {start v : VirtioNet} {events : List DeviceEvent}
    (offered : AckedOffered start) (run : Run (Guarded KeepsStatus DeviceStep) start events v) :
    Negotiates start events where
  offered := fun _ _ _ _ before => run_offered before offered
  gains := by
    rintro first event rest u w rfl before step
    obtain ⟨u',before',after⟩ := run.split
    cases after with
    | cons head _ =>
      obtain rfl := Run.deterministic DeviceStep.deterministic before
        (before'.weaken fun _ _ _ => And.right)
      exact (keepsStatus_iff step).mp head.1
  closed := by
    rintro first event second rest u w x rfl before step accepts between
    obtain ⟨u',before',after⟩ := run.split
    cases after with
    | cons head after =>
      obtain rfl := Run.deterministic DeviceStep.deterministic before
        (before'.weaken fun _ _ _ => And.right)
      obtain rfl := DeviceStep.deterministic _ _ _ _ step head.2
      obtain ⟨x',between',_⟩ := after.split
      obtain rfl := Run.deterministic DeviceStep.deterministic between
        (between'.weaken fun _ _ _ => And.right)
      exact run_closed between' accepts.2

theorem keeps_of_gains {start v : VirtioNet} {events : List DeviceEvent}
    (run : Run DeviceStep start events v)
    (gains : ∀ first event rest u w, events = first ++ event :: rest →
      Run DeviceStep start first u → DeviceStep u event w → Gains u.deviceStatus w.deviceStatus) :
    Run (Guarded KeepsStatus DeviceStep) start events v := by
  induction run with
  | nil => exact .nil _
  | cons head _ ih =>
    have keeps := (keepsStatus_iff head).mpr (gains [] _ _ _ _ rfl (.nil _) head)
    refine .cons ⟨keeps,head⟩ (ih fun first event rest u w split before => ?_)
    exact gains (_ :: first) event rest u w (congrArg _ split) (.cons head before)

/-- The negotiation of a fresh device is sealed in exactly the runs whose status writes keep
the bits that are set. -/
theorem run_negotiates_iff {memory v : VirtioNet} {events : List DeviceEvent}
    (run : Run DeviceStep (initVirtioNet memory) events v) :
    Negotiates (initVirtioNet memory) events ↔
      Run (Guarded KeepsStatus DeviceStep) (initVirtioNet memory) events v :=
  ⟨fun negotiates => keeps_of_gains run negotiates.gains,
    negotiates_of_keeps (initVirtioNet_offered memory)⟩

def blankWith (status : BitVec 32) (acked : Word) : VirtioNet :=
  { blankDevice with deviceStatus := status, ackedFeatures := acked }

/-- Two status writes, the second with the bit of the first. -/
theorem blankDevice_negotiates : Negotiates blankDevice [.write 1 0x70 4,.write 3 0x70 4] := by
  have first : DeviceStep blankDevice (.write 1 0x70 4) (blankWith 1 0) := write_step rfl
  have second : DeviceStep (blankWith 1 0) (.write 3 0x70 4) (blankWith 3 0) := write_step rfl
  have keeps : KeepsStatus (blankWith 1 0) (.write 3 0x70 4) := fun _ _ => by decide
  have start : KeepsStatus blankDevice (.write 1 0x70 4) := fun _ _ => by decide
  exact (run_negotiates_iff (.cons first (.single second))).mpr
    (.cons ⟨start,first⟩ (.single ⟨keeps,second⟩))

/-- DRIVER_OK written without FEATURES_OK: feature bit 15 is acknowledged after the
negotiation was closed. -/
theorem dropped_featuresOk : ¬ ∀ (memory v : VirtioNet) (events : List DeviceEvent),
    Run DeviceStep (initVirtioNet memory) events v → Negotiates (initVirtioNet memory) events := by
  intro claim
  have acknowledge : DeviceStep blankDevice (.write 1 0x70 4) (blankWith 1 0) := write_step rfl
  have driver : DeviceStep (blankWith 1 0) (.write 3 0x70 4) (blankWith 3 0) := write_step rfl
  have featuresOk : DeviceStep (blankWith 3 0) (.write 11 0x70 4) (blankWith 11 0) := write_step rfl
  have drops : DeviceStep (blankWith 11 0) (.write 6 0x70 4) (blankWith 6 0) := write_step rfl
  have takes : DeviceStep (blankWith 6 0) (.write 0x8000 0x20 4) (blankWith 6 0x8000) :=
    write_step rfl
  have before := Run.cons acknowledge (.single driver)
  have after := Run.cons drops (.single takes)
  have negotiates := claim _ _ _ (before.append (.cons featuresOk after))
  have same := negotiates.closed _ _ _ [] _ _ _ (by rfl) before featuresOk ⟨by decide,by decide⟩ after
  exact absurd same (by decide)

end Cki.Virtio
