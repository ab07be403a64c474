import Cki.Run
import Cki.VirtioNet

/-! The device over runs: from what `init_virtio_net` leaves, through the accesses of the
guest and the eventfds the launcher sets. -/
namespace Cki.Virtio

def pkmVirtioNetQueueSize : BitVec 16 := 256

/-- VIRTIO_F_NOTIFY_ON_EMPTY, VIRTIO_RING_F_INDIRECT_DESC, VIRTIO_RING_F_EVENT_IDX,
VIRTIO_F_ANY_LAYOUT, VIRTIO_F_VERSION_1, VIRTIO_NET_F_MRG_RXBUF and VIRTIO_F_ACCESS_PLATFORM. -/
def initAvailFeatures : Word :=
  1 <<< 24 ||| 1 <<< 28 ||| 1 <<< 29 ||| 1 <<< 27 ||| 1 <<< 32 ||| 1 <<< 15 ||| 1 <<< 33

/-- The other fields keep what the memory from `kmalloc` held. -/
def initVirtioNet (memory : VirtioNet) : VirtioNet :=
  { memory with
    deviceStatus := 0
    featuresSelect := 0
    availFeatures := initAvailFeatures
    ackedFeatures := 0
    queueSelect := 0
    queues := fun i =>
      { memory.queues i with
        ready := false
        maxSize := pkmVirtioNetQueueSize
        kick := none
        call := none } }

/-- PKM_CNTR_SET_VRING_EFDS, when the eventfds are found. -/
def setVringEfds (virtio : VirtioNet) (idx : BitVec 32) (kick call : Eventfd) : VirtioNet :=
  { virtio with queues := fun i =>
      if i.val = idx.toNat then { virtio.queues i with kick := some kick, call := some call }
      else virtio.queues i }

/-- The guest accesses a register with 32 bits, or the launcher sets the eventfds. -/
inductive DeviceEvent where
  | read (offset : Word) (size : BitVec 32)
  | write (val : BitVec 32) (offset : Word) (size : BitVec 32)
  | efds (idx : BitVec 32) (kick call : Eventfd)
  deriving DecidableEq, Repr

@[simp] theorem setWidth_word (val : BitVec 32) : (val.setWidth 64).setWidth 32 = val := by
  simp

/-- An access that does not return ends the run. -/
def DeviceStep (v : VirtioNet) (event : DeviceEvent) (w : VirtioNet) : Prop :=
  match event with
  | .read offset size => w = v ∧ ∃ value, handleRkcallMmioRead v offset size = .done value
  | .write val offset size => ∃ written,
      handleRkcallMmioWrite v (val.setWidth 64) offset size = .done written ∧ w = written.virtio
  | .efds idx kick call => w = setVringEfds v idx kick call

theorem DeviceStep.deterministic (v : VirtioNet) (event : DeviceEvent) (w w' : VirtioNet)
    (first : DeviceStep v event w) (second : DeviceStep v event w') : w = w' := by
  cases event with
  | read offset size => exact first.1.trans second.1.symm
  | write val offset size =>
    obtain ⟨written,done,rfl⟩ := first
    obtain ⟨written',done',rfl⟩ := second
    rw [done] at done'
    cases done'
    rfl
  | efds idx kick call => exact first.trans second.symm

theorem handleRkcallMmioWrite_done {v : VirtioNet} {val offset : Word} {size : BitVec 32}
    {written : Written} (done : handleRkcallMmioWrite v val offset size = .done written) :
    ∃ register, WriteRegister.at offset size = some register ∧
      writeRegister v val register = .done written := by
  unfold handleRkcallMmioWrite at done
  cases served : WriteRegister.at offset size with
  | none =>
    rw [served] at done
    cases done
  | some register =>
    rw [served] at done
    exact ⟨register,rfl,done⟩

theorem handleRkcallMmioWrite_at (v : VirtioNet) (val : Word) {offset : Word} {size : BitVec 32}
    {register : WriteRegister} (served : WriteRegister.at offset size = some register) :
    handleRkcallMmioWrite v val offset size = writeRegister v val register := by
  rw [handleRkcallMmioWrite,served]

theorem write_step {v w : VirtioNet} {val : BitVec 32} {offset : Word} {size result : BitVec 32}
    {signalled : Option Eventfd}
    (done : handleRkcallMmioWrite v (val.setWidth 64) offset size = .done ⟨w,result,signalled⟩) :
    DeviceStep v (.write val offset size) w := ⟨_,done,rfl⟩

/-- A device in zeroed memory. -/
def blankDevice : VirtioNet :=
  initVirtioNet ⟨0,0,0,0,0,0,fun _ => ⟨0,0,false,0,0,0,none,none⟩⟩

/-! What a write may change. -/

/-- The bit that a device status admits next. -/
def nextStatusBit (status : BitVec 32) : Option (BitVec 32) :=
  if status = 0 then some virtioConfigSAcknowledge
  else if status = virtioConfigSAcknowledge then some virtioConfigSDriver
  else if status = virtioConfigSAcknowledge ||| virtioConfigSDriver then
    some virtioConfigSFeaturesOk
  else if status = virtioConfigSAcknowledge ||| virtioConfigSDriver ||| virtioConfigSFeaturesOk then
    some virtioConfigSDriverOk
  else none

/-- A status write that returns brings the next bit and no other, and is stored as it is. -/
theorem handleMmioWriteDeviceStatus_done {v w : VirtioNet} {status : BitVec 32}
    (done : handleMmioWriteDeviceStatus v status = .done w) :
    status = 0 ∧ w = v ∨
      status ≠ 0 ∧ nextStatusBit v.deviceStatus = some (~~~v.deviceStatus &&& status) ∧
        w = { v with deviceStatus := status } := by
  have turn : ∀ {bit old : BitVec 32}, nextStatusBit old = some bit →
      ~~~v.deviceStatus &&& status = bit ∧ v.deviceStatus = old →
      nextStatusBit v.deviceStatus = some (~~~v.deviceStatus &&& status) := by
    rintro _ _ next ⟨rfl,rfl⟩
    exact next
  simp only [handleMmioWriteDeviceStatus] at done
  split at done
  · rename_i zero
    cases done
    exact .inl ⟨zero,rfl⟩
  · rename_i nonzero
    refine .inr ⟨nonzero,?_⟩
    split at done
    · rename_i first
      cases done
      exact ⟨turn rfl first,rfl⟩
    · split at done
      · rename_i second
        cases done
        exact ⟨turn rfl second,rfl⟩
      · split at done
        · rename_i third
          cases done
          exact ⟨turn rfl third,rfl⟩
        · split at done
          · rename_i fourth
            cases done
            exact ⟨turn rfl fourth,rfl⟩
          · cases done

/-- Features are taken only while a driver negotiates, and of those on offer. -/
theorem handleMmioWriteAckedFeatures_cases (v : VirtioNet) (features : BitVec 32) :
    handleMmioWriteAckedFeatures v features = v ∨
      v.deviceStatus &&& virtioConfigSFeaturesOk = 0 ∧ ∃ acked : Word,
        handleMmioWriteAckedFeatures v features =
          { v with ackedFeatures := v.ackedFeatures ||| acked &&& v.availFeatures } := by
  simp only [handleMmioWriteAckedFeatures]
  split
  · exact .inl rfl
  · split
    · exact .inl rfl
    · rename_i negotiating
      split
      · exact .inl rfl
      · exact .inr ⟨Classical.not_not.mp negotiating,_,rfl⟩

theorem writeStatus_frame {v : VirtioNet} {val : Word} {written : Written}
    (done : writeRegister v val .status = .done written) :
    ∃ status, written.virtio = { v with deviceStatus := status } := by
  obtain ⟨next,accepted,rfl⟩ := Access.map_done done
  rcases handleMmioWriteDeviceStatus_done accepted with ⟨_,rfl⟩ | ⟨_,_,rfl⟩
  · exact ⟨_,rfl⟩
  · exact ⟨_,rfl⟩

theorem writeFeatures_frame {v : VirtioNet} {val : Word} {written : Written}
    (done : writeRegister v val .driverFeatures = .done written) :
    ∃ acked, written.virtio = { v with ackedFeatures := acked } := by
  cases done
  rcases handleMmioWriteAckedFeatures_cases v (val.setWidth 32) with same | ⟨_,acked,taken⟩
  · exact ⟨_,same⟩
  · exact ⟨_,taken⟩

theorem writeNotify_frame {v : VirtioNet} {val : Word} {written : Written}
    (done : writeRegister v val .queueNotify = .done written) : written.virtio = v := by
  obtain ⟨signalled,_,rfl⟩ := Access.map_done done
  rfl

/-- Of the registers only two change the negotiation, and none the features on offer. -/
theorem writeRegister_negotiation {v : VirtioNet} {val : Word} {register : WriteRegister}
    {written : Written} (done : writeRegister v val register = .done written) :
    written.virtio.availFeatures = v.availFeatures ∧
    (register ≠ .status → written.virtio.deviceStatus = v.deviceStatus) ∧
    (register ≠ .driverFeatures → written.virtio.ackedFeatures = v.ackedFeatures) := by
  cases register with
  | status =>
    obtain ⟨status,same⟩ := writeStatus_frame done
    rw [same]
    exact ⟨rfl,fun other => absurd rfl other,fun _ => rfl⟩
  | driverFeatures =>
    obtain ⟨acked,same⟩ := writeFeatures_frame done
    rw [same]
    exact ⟨rfl,fun _ => rfl,fun other => absurd rfl other⟩
  | queueNotify =>
    rw [writeNotify_frame done]
    exact ⟨rfl,fun _ => rfl,fun _ => rfl⟩
  | _ =>
    cases done
    exact ⟨rfl,fun _ => rfl,fun _ => rfl⟩

/-- What of a queue a guest cannot change. -/
def Queue.fixed (queue : Queue) : BitVec 16 × Option Eventfd × Option Eventfd :=
  (queue.maxSize,queue.kick,queue.call)

theorem queueSet_fixed (v : VirtioNet) {write : Queue → Queue}
    (kept : ∀ q, (write q).fixed = q.fixed) (i : Fin pkmVirtioNetQueueNum) :
    ((queueSet v write).queues i).fixed = (v.queues i).fixed := by
  simp only [queueSet]
  split
  · exact kept _
  · rfl

theorem writeRegister_fixed {v : VirtioNet} {val : Word} {register : WriteRegister}
    {written : Written} (done : writeRegister v val register = .done written)
    (i : Fin pkmVirtioNetQueueNum) : (written.virtio.queues i).fixed = (v.queues i).fixed := by
  cases register with
  | status =>
    obtain ⟨status,same⟩ := writeStatus_frame done
    rw [same]
  | driverFeatures =>
    obtain ⟨acked,same⟩ := writeFeatures_frame done
    rw [same]
  | queueNotify => rw [writeNotify_frame done]
  | deviceFeaturesSel | driverFeaturesSel | queueSel =>
    cases done
    rfl
  | _ =>
    cases done
    dsimp only
    refine queueSet_fixed v ?_ i
    exact fun _ => rfl

end Cki.Virtio
