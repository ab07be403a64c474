import Cki.LauncherRings
import Cki.VirtioNegotiation

/-! The features vhost runs a ring with against the ones a guest has acknowledged. They are set
once, by `init_vhost_net`, and the module keeps what is acknowledged to itself. -/
namespace Cki.Launcher

open Virtio

/-- VIRTIO_NET_F_MRG_RXBUF, VIRTIO_RING_F_INDIRECT_DESC, VIRTIO_RING_F_EVENT_IDX and
VIRTIO_F_VERSION_1. -/
def ringFeatures : List Nat := [15,28,29,32]

/-- The module takes features from the driver. -/
def Negotiating (v : VirtioNet) : Prop :=
  v.deviceStatus &&& virtioConfigSDriver ≠ 0 ∧ v.deviceStatus &&& virtioConfigSFeaturesOk = 0 ∧
    v.deviceStatus &&& virtioConfigSFailed = 0

/-- A value for the half that is selected has the feature. -/
def Selects (v : VirtioNet) (val : BitVec 32) (feature : Nat) : Prop :=
  v.ackedFeaturesSelect = 0 ∧ val.getLsbD feature = true ∨
    v.ackedFeaturesSelect = 1 ∧ 32 ≤ feature ∧ val.getLsbD (feature - 32) = true

/-- A write with the feature that the module takes. -/
def Acknowledges (v : VirtioNet) (feature : Nat) : DeviceEvent → Prop
  | .write val offset size =>
    WriteRegister.at offset size = some .driverFeatures ∧ Negotiating v ∧ Selects v val feature
  | _ => False

/-- Some event of the run acknowledges the feature. -/
def Acknowledged (start : VirtioNet) (events : List DeviceEvent) (feature : Nat) : Prop :=
  ∃ before event rest v, events = before ++ event :: rest ∧ Run DeviceStep start before v ∧
    Acknowledges v feature event

/-! One step. -/

theorem selected_bit (v : VirtioNet) (val : BitVec 32) {feature : Nat} (bound : feature < 64) :
    (if v.ackedFeaturesSelect = 0 then val.setWidth 64
      else if v.ackedFeaturesSelect = 1 then val.setWidth 64 <<< 32 else (0 : Word)).getLsbD feature =
        true ↔ Selects v val feature := by
  rw [Selects]
  by_cases low : v.ackedFeaturesSelect = 0
  · have other : ¬ v.ackedFeaturesSelect = 1 := by
      rw [low]
      decide
    simp only [if_pos low,BitVec.getLsbD_setWidth,bound,decide_true,Bool.true_and]
    exact ⟨fun bit => .inl ⟨low,bit⟩,fun cases => cases.elim And.right fun high => absurd high.1 other⟩
  · rw [if_neg low]
    by_cases high : v.ackedFeaturesSelect = 1
    · simp [high,bound]
    · rw [if_neg high]
      refine iff_of_false (by simp) ?_
      rintro (⟨first,_⟩ | ⟨second,_⟩)
      · exact low first
      · exact high second

theorem handleMmioWriteAckedFeatures_bit (v : VirtioNet) (val : BitVec 32) {feature : Nat}
    (offered : v.availFeatures.getLsbD feature = true) :
    (handleMmioWriteAckedFeatures v val).ackedFeatures.getLsbD feature = true ↔
      v.ackedFeatures.getLsbD feature = true ∨ Negotiating v ∧ Selects v val feature := by
  have bound := BitVec.lt_of_getLsbD offered
  rw [handleMmioWriteAckedFeatures,Negotiating,← selected_bit v val bound]
  split
  · rename_i none
    exact (or_iff_left fun both => both.1.1 none).symm
  · rename_i driver
    split
    · rename_i accepted
      exact (or_iff_left fun both => accepted both.1.2.1).symm
    · rename_i before
      split
      · rename_i failed
        exact (or_iff_left fun both => failed both.1.2.2).symm
      · rename_i working
        rw [and_iff_right ⟨driver,Classical.not_not.mp before,Classical.not_not.mp working⟩]
        simp only [BitVec.getLsbD_or,BitVec.getLsbD_and,offered,Bool.and_true,Bool.or_eq_true]

theorem step_acknowledges {v w : VirtioNet} {event : DeviceEvent} (step : DeviceStep v event w)
    {feature : Nat} (offered : v.availFeatures.getLsbD feature = true) :
    w.ackedFeatures.getLsbD feature = true ↔
      v.ackedFeatures.getLsbD feature = true ∨ Acknowledges v feature event := by
  cases event with
  | read offset size =>
    rw [step.1]
    exact (or_iff_left id).symm
  | efds idx kick call =>
    rw [step]
    exact (or_iff_left id).symm
  | write val offset size =>
    obtain ⟨written,done,rfl⟩ := step
    obtain ⟨register,served,done⟩ := handleRkcallMmioWrite_done done
    by_cases features : register = .driverFeatures
    · subst features
      cases done
      rw [Acknowledges,and_iff_right served,setWidth_word]
      exact handleMmioWriteAckedFeatures_bit v val offered
    · rw [(writeRegister_negotiation done).2.2 features,Acknowledges]
      refine (or_iff_left fun all => features ?_).symm
      rw [served] at all
      exact Option.some.inj all.1

/-! Whole runs. -/

theorem acknowledged_cons {start v : VirtioNet} {event : DeviceEvent} {events : List DeviceEvent}
    (step : DeviceStep start event v) (feature : Nat) :
    Acknowledged start (event :: events) feature ↔
      Acknowledges start feature event ∨ Acknowledged v events feature := by
  constructor
  · rintro ⟨before,event',rest,u,split,run,takes⟩
    cases run with
    | nil =>
      cases split
      exact .inl takes
    | cons head tail =>
      cases split
      obtain rfl := DeviceStep.deterministic _ _ _ _ head step
      exact .inr ⟨_,event',rest,u,rfl,tail,takes⟩
  · rintro (takes | ⟨before,event',rest,u,rfl,run,takes⟩)
    · exact ⟨[],event,events,start,rfl,.nil _,takes⟩
    · exact ⟨event :: before,event',rest,u,rfl,.cons step run,takes⟩

/-- A feature that is on offer is among the acknowledged ones if some event has brought it. -/
theorem run_acknowledged {start v : VirtioNet} {events : List DeviceEvent}
    (run : Run DeviceStep start events v) {feature : Nat}
    (offered : start.availFeatures.getLsbD feature = true) :
    v.ackedFeatures.getLsbD feature = true ↔
      start.ackedFeatures.getLsbD feature = true ∨ Acknowledged start events feature := by
  induction run with
  | nil start =>
    refine (or_iff_left ?_).symm
    rintro ⟨before,event,rest,u,split,_⟩
    exact absurd split (by simp)
  | cons step _ ih =>
    have still := (step_negotiation step).1
    rw [ih (by rw [still]; exact offered),step_acknowledges step offered,acknowledged_cons step,or_assoc]

variable {g : Globals}

/-- vhost runs a ring with the features that were negotiated exactly where the guest has
acknowledged all of those that `init_vhost_net` sets. -/
theorem vringReady_features_iff {memory v : VirtioNet} {events : List DeviceEvent}
    (run : Run DeviceStep (initVirtioNet memory) events v) {vhost : Vhost} (setUp : SetUp g vhost)
    (idx : BitVec 32) (fds : RingFds) :
    (∀ feature ∈ ringFeatures,
      (vhost.ioctls (handleExitVringReady g v idx fds)).features.getLsbD feature =
        v.ackedFeatures.getLsbD feature) ↔
    ∀ feature ∈ ringFeatures, Acknowledged (initVirtioNet memory) events feature := by
  have all : ∀ feature ∈ ringFeatures, initVhostFeatures.getLsbD feature = true ∧
      initAvailFeatures.getLsbD feature = true := by decide
  refine forall_congr' fun feature => forall_congr' fun member => ?_
  obtain ⟨set,offered⟩ := all feature member
  rw [handleExitVringReady_features,setUp.features,set,eq_comm]
  refine (run_acknowledged run offered).trans (or_iff_right ?_)
  exact fun taken => absurd taken (by simp [initVirtioNet])

/-- A driver that takes the lower feature bits `low`, and of the upper ones VERSION_1. -/
def negotiation (low : BitVec 32) : List DeviceEvent :=
  [.write 1 0x70 4,.write 3 0x70 4,.write 0 0x24 4,.write low 0x20 4,.write 1 0x24 4,.write 1 0x20 4,
    .write 11 0x70 4]

def deviceAt (status select : BitVec 32) (acked : Word) : VirtioNet :=
  { blankDevice with deviceStatus := status, ackedFeaturesSelect := select, ackedFeatures := acked }

theorem driver_run : Run DeviceStep blankDevice [.write 1 0x70 4,.write 3 0x70 4,.write 0 0x24 4]
    (deviceAt 3 0 0) := by
  have acknowledge : DeviceStep blankDevice (.write 1 0x70 4) (deviceAt 1 0 0) := write_step rfl
  have driver : DeviceStep (deviceAt 1 0 0) (.write 3 0x70 4) (deviceAt 3 0 0) := write_step rfl
  exact .cons acknowledge (.cons driver (.single (write_step rfl)))

theorem fullNegotiation_run :
    Run DeviceStep blankDevice (negotiation 0x30008000) (deviceAt 11 1 0x130008000) := by
  have takes : DeviceStep (deviceAt 3 0 0) (.write 0x30008000 0x20 4) (deviceAt 3 0 0x30008000) :=
    write_step rfl
  have select : DeviceStep (deviceAt 3 0 0x30008000) (.write 1 0x24 4) (deviceAt 3 1 0x30008000) :=
    write_step rfl
  have version : DeviceStep (deviceAt 3 1 0x30008000) (.write 1 0x20 4) (deviceAt 3 1 0x130008000) :=
    write_step rfl
  exact driver_run.append (.cons takes (.cons select (.cons version (.single (write_step rfl)))))

theorem smallNegotiation_run :
    Run DeviceStep blankDevice (negotiation 0x10008000) (deviceAt 11 1 0x110008000) := by
  have takes : DeviceStep (deviceAt 3 0 0) (.write 0x10008000 0x20 4) (deviceAt 3 0 0x10008000) :=
    write_step rfl
  have select : DeviceStep (deviceAt 3 0 0x10008000) (.write 1 0x24 4) (deviceAt 3 1 0x10008000) :=
    write_step rfl
  have version : DeviceStep (deviceAt 3 1 0x10008000) (.write 1 0x20 4) (deviceAt 3 1 0x110008000) :=
    write_step rfl
  exact driver_run.append (.cons takes (.cons select (.cons version (.single (write_step rfl)))))

/-- A driver that takes all four. -/
theorem fullNegotiation_agrees : setUpVhost.features = initVhostFeatures ∧
    ∀ feature ∈ ringFeatures, Acknowledged blankDevice (negotiation 0x30008000) feature := by
  refine ⟨rfl,(vringReady_features_iff fullNegotiation_run setUpVhost_setUp 0 ⟨5,6,7⟩).mp ?_⟩
  rw [handleExitVringReady_features,setUpVhost_setUp.features]
  decide

/-- A driver that does not take the event index: vhost uses it all the same. -/
theorem eventIdx_unacknowledged : ¬ ∀ (g : Globals) (memory v : VirtioNet)
    (events : List DeviceEvent) (vhost : Vhost) (idx : BitVec 32) (fds : RingFds),
    Run DeviceStep (initVirtioNet memory) events v → SetUp g vhost → ∀ feature ∈ ringFeatures,
      (vhost.ioctls (handleExitVringReady g v idx fds)).features.getLsbD feature =
        v.ackedFeatures.getLsbD feature := by
  intro claim
  have same := claim _ _ _ _ _ 0 ⟨5,6,7⟩ smallNegotiation_run setUpVhost_setUp 29 (by decide)
  rw [handleExitVringReady_features,setUpVhost_setUp.features] at same
  exact absurd same (by decide)

end Cki.Launcher
