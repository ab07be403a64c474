import Cki.PageTable

/-! The virtio-net device of the host module (struct pkm_virtio_net): its registers
as a guest reads and writes them, each access as the C handler makes it. -/
namespace Cki.Virtio

/-- An eventfd context, by its address. -/
abbrev Eventfd := Word

def pkmVirtioNetQueueNum : Nat := 2

theorem zero_lt_queueNum : 0 < pkmVirtioNetQueueNum := by decide

theorem one_lt_queueNum : 1 < pkmVirtioNetQueueNum := by decide

structure Queue where
  maxSize : BitVec 16
  size : BitVec 16
  ready : Bool
  descTable : Word
  availRing : Word
  usedRing : Word
  kick : Option Eventfd
  call : Option Eventfd
  deriving DecidableEq, Repr

structure VirtioNet where
  deviceStatus : BitVec 32
  featuresSelect : BitVec 32
  availFeatures : Word
  ackedFeaturesSelect : BitVec 32
  ackedFeatures : Word
  queueSelect : BitVec 32
  queues : Fin pkmVirtioNetQueueNum → Queue

/-- How an access ends. A register that no case handles spins in `while (1)`, and a
queue without eventfd is signalled through a null pointer. -/
inductive Access (α : Type) where
  | done (value : α)
  | spins
  | faults
  deriving DecidableEq, Repr

def Access.map {α β : Type} (f : α → β) : Access α → Access β
  | .done value => .done (f value)
  | .spins => .spins
  | .faults => .faults

theorem Access.map_done {α β : Type} {f : α → β} {access : Access α} {value : β}
    (done : access.map f = .done value) : ∃ inner, access = .done inner ∧ f inner = value := by
  cases access with
  | done inner => exact ⟨inner,rfl,Access.done.inj done⟩
  | spins => cases done
  | faults => cases done

theorem Access.map_map {α β γ : Type} (f : α → β) (g : β → γ) (access : Access α) :
    (access.map f).map g = access.map fun value => g (f value) := by
  cases access <;> rfl

def virtioConfigSAcknowledge : BitVec 32 := 1
def virtioConfigSDriver : BitVec 32 := 2
def virtioConfigSDriverOk : BitVec 32 := 4
def virtioConfigSFeaturesOk : BitVec 32 := 8
def virtioConfigSFailed : BitVec 32 := 0x80

/-- An index that names queue `i` is in bounds. -/
theorem queue_named {idx : BitVec 32} {i : Fin pkmVirtioNetQueueNum} (named : idx.toNat = i.val) :
    ∃ bound : idx.toNat < pkmVirtioNetQueueNum,
      (⟨idx.toNat,bound⟩ : Fin pkmVirtioNetQueueNum) = i := by
  have bound : idx.toNat < pkmVirtioNetQueueNum := by
    rw [named]
    exact i.isLt
  exact ⟨bound,Fin.ext named⟩

variable (virtio : VirtioNet)

/-- `virtio_queue_get` -/
def queueGet (attr : Queue → Word) : Word :=
  if bound : virtio.queueSelect.toNat < pkmVirtioNetQueueNum then
    attr (virtio.queues ⟨virtio.queueSelect.toNat,bound⟩) else 0

/-- `virtio_queue_set` -/
def queueSet (write : Queue → Queue) : VirtioNet :=
  { virtio with queues := fun idx =>
      if idx.val = virtio.queueSelect.toNat then write (virtio.queues idx) else virtio.queues idx }

def handleMmioReadAvailFeatures : BitVec 32 :=
  if virtio.featuresSelect = 0 then virtio.availFeatures.setWidth 32
  else if virtio.featuresSelect = 1 then (virtio.availFeatures >>> 32).setWidth 32
  else 0

/-- The registers a guest can read, each with its offset in the page. -/
inductive ReadRegister where
  | magicValue | version | deviceId | vendorId | status | deviceFeatures | queueReady | queueNumMax
  deriving DecidableEq, Repr

def ReadRegister.offset : ReadRegister → Word
  | .magicValue => 0x0
  | .version => 0x4
  | .deviceId => 0x8
  | .vendorId => 0xc
  | .status => 0x70
  | .deviceFeatures => 0x10
  | .queueReady => 0x44
  | .queueNumMax => 0x34

def ReadRegister.all : List ReadRegister :=
  [.magicValue,.version,.deviceId,.vendorId,.status,.deviceFeatures,.queueReady,.queueNumMax]

/-- Only 4-byte accesses are served; `size` is the C int. -/
def ReadRegister.at (offset : Word) (size : BitVec 32) : Option ReadRegister :=
  if size = 4 then ReadRegister.all.find? (·.offset = offset) else none

def readRegister : ReadRegister → Word
  | .magicValue => 0x74726976
  | .version => 0x2
  | .deviceId => 0x1
  | .vendorId => 0x1af4
  | .status => virtio.deviceStatus.setWidth 64
  | .deviceFeatures => (handleMmioReadAvailFeatures virtio).setWidth 64
  | .queueReady => queueGet virtio fun q => if q.ready then 1 else 0
  | .queueNumMax => queueGet virtio fun q => q.maxSize.setWidth 64

def handleRkcallMmioRead (offset : Word) (size : BitVec 32) : Access Word :=
  match ReadRegister.at offset size with
  | some register => .done (readRegister virtio register)
  | none => .spins

/-- Each bit is accepted in its turn; a reset keeps the status. -/
def handleMmioWriteDeviceStatus (status : BitVec 32) : Access VirtioNet :=
  let old := virtio.deviceStatus
  let diff := ~~~old &&& status
  let ack := virtioConfigSAcknowledge
  let driver := virtioConfigSDriver
  let featuresOk := virtioConfigSFeaturesOk
  if status = 0 then .done virtio
  else if diff = ack ∧ old = 0 then .done { virtio with deviceStatus := status }
  else if diff = driver ∧ old = ack then .done { virtio with deviceStatus := status }
  else if diff = featuresOk ∧ old = ack ||| driver then .done { virtio with deviceStatus := status }
  else if diff = virtioConfigSDriverOk ∧ old = ack ||| driver ||| featuresOk then
    .done { virtio with deviceStatus := status }
  else .spins

def handleMmioWriteAckedFeatures (features : BitVec 32) : VirtioNet :=
  if virtio.deviceStatus &&& virtioConfigSDriver = 0 then virtio
  else if virtio.deviceStatus &&& virtioConfigSFeaturesOk ≠ 0 then virtio
  else if virtio.deviceStatus &&& virtioConfigSFailed ≠ 0 then virtio
  else
    let acked : Word :=
      if virtio.ackedFeaturesSelect = 0 then features.setWidth 64
      else if virtio.ackedFeaturesSelect = 1 then features.setWidth 64 <<< 32
      else 0
    { virtio with ackedFeatures := virtio.ackedFeatures ||| acked &&& virtio.availFeatures }

/-- The eventfd that is signalled, if the index names a queue. -/
def handleMmioWriteQueueNotify (idx : BitVec 32) : Access (Option Eventfd) :=
  if bound : idx.toNat < pkmVirtioNetQueueNum then
    match (virtio.queues ⟨idx.toNat,bound⟩).kick with
    | some kick => .done (some kick)
    | none => .faults
  else .done none

/-- What a register write leaves behind: the device, the result and the eventfd it
signalled. -/
structure Written where
  virtio : VirtioNet
  result : BitVec 32
  signalled : Option Eventfd

def highHalf (value : Word) : Word := value >>> 32 <<< 32
def lowHalf (value : Word) : Word := value <<< 32 >>> 32

/-- The registers a guest can write. -/
inductive WriteRegister where
  | status | deviceFeaturesSel | driverFeaturesSel | driverFeatures | queueSel | queueNum
  | queueDescLow | queueDescHigh | queueAvailLow | queueAvailHigh | queueUsedLow | queueUsedHigh
  | queueReady | queueNotify
  deriving DecidableEq, Repr

def WriteRegister.offset : WriteRegister → Word
  | .status => 0x70
  | .deviceFeaturesSel => 0x14
  | .driverFeaturesSel => 0x24
  | .driverFeatures => 0x20
  | .queueSel => 0x30
  | .queueNum => 0x38
  | .queueDescLow => 0x80
  | .queueDescHigh => 0x84
  | .queueAvailLow => 0x90
  | .queueAvailHigh => 0x94
  | .queueUsedLow => 0xa0
  | .queueUsedHigh => 0xa4
  | .queueReady => 0x44
  | .queueNotify => 0x50

def WriteRegister.all : List WriteRegister :=
  [.status,.deviceFeaturesSel,.driverFeaturesSel,.driverFeatures,.queueSel,.queueNum,.queueDescLow,
    .queueDescHigh,.queueAvailLow,.queueAvailHigh,.queueUsedLow,.queueUsedHigh,.queueReady,
    .queueNotify]

def WriteRegister.at (offset : Word) (size : BitVec 32) : Option WriteRegister :=
  if size = 4 then WriteRegister.all.find? (·.offset = offset) else none

/-- Only a write of the ready flag has a result, the value as a C int. -/
def writeRegister (val : Word) : WriteRegister → Access Written
  | .status => (handleMmioWriteDeviceStatus virtio (val.setWidth 32)).map (⟨·,0,none⟩)
  | .deviceFeaturesSel => .done ⟨{ virtio with featuresSelect := val.setWidth 32 },0,none⟩
  | .driverFeaturesSel => .done ⟨{ virtio with ackedFeaturesSelect := val.setWidth 32 },0,none⟩
  | .driverFeatures => .done ⟨handleMmioWriteAckedFeatures virtio (val.setWidth 32),0,none⟩
  | .queueSel => .done ⟨{ virtio with queueSelect := val.setWidth 32 },0,none⟩
  | .queueNum => .done ⟨queueSet virtio fun q => { q with size := val.setWidth 16 },0,none⟩
  | .queueDescLow =>
    let hi := highHalf (queueGet virtio Queue.descTable)
    .done ⟨queueSet virtio fun q => { q with descTable := hi ||| val },0,none⟩
  | .queueDescHigh =>
    let lo := lowHalf (queueGet virtio Queue.descTable)
    .done ⟨queueSet virtio fun q => { q with descTable := val <<< 32 ||| lo },0,none⟩
  | .queueAvailLow =>
    let hi := highHalf (queueGet virtio Queue.availRing)
    .done ⟨queueSet virtio fun q => { q with availRing := hi ||| val },0,none⟩
  | .queueAvailHigh =>
    let lo := lowHalf (queueGet virtio Queue.availRing)
    .done ⟨queueSet virtio fun q => { q with availRing := val <<< 32 ||| lo },0,none⟩
  | .queueUsedLow =>
    let hi := highHalf (queueGet virtio Queue.usedRing)
    .done ⟨queueSet virtio fun q => { q with usedRing := hi ||| val },0,none⟩
  | .queueUsedHigh =>
    let lo := lowHalf (queueGet virtio Queue.usedRing)
    .done ⟨queueSet virtio fun q => { q with usedRing := val <<< 32 ||| lo },0,none⟩
  | .queueReady => .done ⟨queueSet virtio fun q => { q with ready := val ≠ 0 },val.setWidth 32,none⟩
  | .queueNotify => (handleMmioWriteQueueNotify virtio (val.setWidth 32)).map (⟨virtio,0,·⟩)

def handleRkcallMmioWrite (val offset : Word) (size : BitVec 32) : Access Written :=
  match WriteRegister.at offset size with
  | some register => writeRegister virtio val register
  | none => .spins

/-- Every write that returns, other than of the ready flag, has the result 0. -/
theorem writeRegister_result {virtio : VirtioNet} {val : Word} {register : WriteRegister}
    {written : Written} (done : writeRegister virtio val register = .done written)
    (other : register ≠ .queueReady) : written.result = 0 := by
  cases register with
  | queueReady => exact absurd rfl other
  | status =>
    obtain ⟨next,_,rfl⟩ := Access.map_done done
    rfl
  | queueNotify =>
    obtain ⟨signalled,_,rfl⟩ := Access.map_done done
    rfl
  | _ =>
    cases done
    rfl

theorem handleRkcallMmioWrite_result {virtio : VirtioNet} {val offset : Word} {size : BitVec 32}
    {written : Written} (done : handleRkcallMmioWrite virtio val offset size = .done written)
    (other : WriteRegister.at offset size ≠ some .queueReady) : written.result = 0 := by
  unfold handleRkcallMmioWrite at done
  cases register : WriteRegister.at offset size with
  | none =>
    rw [register] at done
    cases done
  | some register' =>
    rw [register] at done
    apply writeRegister_result done
    rintro rfl
    exact other register

theorem handleRkcallMmioWrite_ready (val : Word) {offset : Word} {size : BitVec 32}
    (ready : WriteRegister.at offset size = some .queueReady) :
    handleRkcallMmioWrite virtio val offset size =
      .done ⟨queueSet virtio fun q => { q with ready := val ≠ 0 },val.setWidth 32,none⟩ := by
  rw [handleRkcallMmioWrite,ready]
  rfl

end Cki.Virtio
