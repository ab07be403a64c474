import Cki.VirtioRun

/-! The ring registers of a queue. Each address is written in halves through the queue that
is selected, and GET_VRING_INFO reports what the halves last written make up. -/
namespace Cki.Virtio

/-! The report. -/

@[ext] structure VringArgs where
  idx : BitVec 32
  size : BitVec 16
  descTable : Word
  availRing : Word
  usedRing : Word
  deriving DecidableEq, Repr

/-- `virtio_queue_get_idx`, for an attribute whose zero is `zero`. -/
def queueGetIdx {α : Type} (virtio : VirtioNet) (idx : BitVec 32) (attr : Queue → α) (zero : α) : α :=
  if bound : idx.toNat < pkmVirtioNetQueueNum then attr (virtio.queues ⟨idx.toNat,bound⟩) else zero

def vringInfo (virtio : VirtioNet) (kargs : VringArgs) : VringArgs where
  idx := kargs.idx
  size := queueGetIdx virtio kargs.idx Queue.size 0
  availRing := queueGetIdx virtio kargs.idx Queue.availRing 0
  descTable := queueGetIdx virtio kargs.idx Queue.descTable 0
  usedRing := queueGetIdx virtio kargs.idx Queue.usedRing 0

def efault : Int := 14

/-- GET_VRING_INFO: the result, and the arguments it leaves with the launcher. `arg` is
`none` where they cannot be read. -/
def pkmCntrIoctlGetVringInfo (virtio : VirtioNet) (arg : Option VringArgs) (copied : Bool) :
    Int × Option VringArgs :=
  match arg with
  | none => (-efault,none)
  | some kargs => if copied then (0,some (vringInfo virtio kargs)) else (-efault,some kargs)

/-! The registers. -/

/-- What the ring registers of a queue make up. -/
structure Config where
  size : BitVec 16
  descTable : Word
  availRing : Word
  usedRing : Word
  deriving DecidableEq, Repr

def Queue.config (queue : Queue) : Config :=
  ⟨queue.size,queue.descTable,queue.availRing,queue.usedRing⟩

abbrev RingWrite := WriteRegister × BitVec 32

def Config.write (c : Config) : RingWrite → Config
  | (.queueNum,val) => { c with size := val.setWidth 16 }
  | (.queueDescLow,val) => { c with descTable := highHalf c.descTable ||| val.setWidth 64 }
  | (.queueDescHigh,val) => { c with descTable := val.setWidth 64 <<< 32 ||| lowHalf c.descTable }
  | (.queueAvailLow,val) => { c with availRing := highHalf c.availRing ||| val.setWidth 64 }
  | (.queueAvailHigh,val) => { c with availRing := val.setWidth 64 <<< 32 ||| lowHalf c.availRing }
  | (.queueUsedLow,val) => { c with usedRing := highHalf c.usedRing ||| val.setWidth 64 }
  | (.queueUsedHigh,val) => { c with usedRing := val.setWidth 64 <<< 32 ||| lowHalf c.usedRing }
  | _ => c

def WriteRegister.isRing : WriteRegister → Bool
  | .queueNum | .queueDescLow | .queueDescHigh | .queueAvailLow | .queueAvailHigh | .queueUsedLow
  | .queueUsedHigh => true
  | _ => false

/-- The ring register of queue `i` that an event writes while `select` is selected. -/
def DeviceEvent.ringWrite (i : Fin pkmVirtioNetQueueNum) (select : BitVec 32) :
    DeviceEvent → Option RingWrite
  | .write val offset size =>
    match WriteRegister.at offset size with
    | some register => if register.isRing ∧ select.toNat = i.val then some (register,val) else none
    | none => none
  | _ => none

def DeviceEvent.selectAfter (select : BitVec 32) : DeviceEvent → BitVec 32
  | .write val offset size => if WriteRegister.at offset size = some .queueSel then val else select
  | _ => select

/-- The writes made to the ring registers while queue `i` was selected. -/
def writesTo (i : Fin pkmVirtioNetQueueNum) : BitVec 32 → List DeviceEvent → List RingWrite
  | _, [] => []
  | select, event :: rest =>
    (event.ringWrite i select).toList ++ writesTo i (event.selectAfter select) rest

def lastWrite (register : WriteRegister) : List RingWrite → Option (BitVec 32)
  | [] => none
  | write :: rest => (lastWrite register rest).or (if write.1 = register then some write.2 else none)

/-! One step. -/

theorem queueGet_selected {v : VirtioNet} {i : Fin pkmVirtioNetQueueNum}
    (selected : v.queueSelect.toNat = i.val) (attr : Queue → Word) :
    queueGet v attr = attr (v.queues i) := by
  obtain ⟨bound,same⟩ := queue_named selected
  rw [queueGet,dif_pos bound,same]

theorem queueSet_queues (v : VirtioNet) (i : Fin pkmVirtioNetQueueNum) (write : Queue → Queue) :
    (queueSet v write).queues i =
      if v.queueSelect.toNat = i.val then write (v.queues i) else v.queues i := by
  simp only [queueSet,eq_comm]

/-- A write through the macro `virtio_queue_set` changes what it should of the selected
queue, and of the others nothing. -/
theorem queueSet_config (register : WriteRegister) (ring : register.isRing = true) {v : VirtioNet}
    {i : Fin pkmVirtioNetQueueNum} {write : Queue → Queue} {val : BitVec 32}
    (own : v.queueSelect.toNat = i.val →
      (write (v.queues i)).config = (v.queues i).config.write (register,val)) :
    ((queueSet v write).queues i).config =
      if register.isRing ∧ v.queueSelect.toNat = i.val then (v.queues i).config.write (register,val)
      else (v.queues i).config := by
  rw [queueSet_queues]
  by_cases selected : v.queueSelect.toNat = i.val
  · rw [if_pos selected,if_pos ⟨ring,selected⟩]
    exact own selected
  · rw [if_neg selected,if_neg fun both => selected both.2]

theorem writeRegister_config {v : VirtioNet} {val : BitVec 32} {register : WriteRegister}
    {written : Written} (done : writeRegister v (val.setWidth 64) register = .done written)
    (i : Fin pkmVirtioNetQueueNum) :
    (written.virtio.queues i).config =
      if register.isRing ∧ v.queueSelect.toNat = i.val then (v.queues i).config.write (register,val)
      else (v.queues i).config := by
  cases register with
  | status =>
    obtain ⟨status,same⟩ := writeStatus_frame done
    rw [same]
    rfl
  | driverFeatures =>
    obtain ⟨acked,same⟩ := writeFeatures_frame done
    rw [same]
    rfl
  | queueNotify =>
    rw [writeNotify_frame done]
    rfl
  | queueReady =>
    cases done
    rw [queueSet_queues]
    split <;> rfl
  | queueNum =>
    cases done
    dsimp only
    refine queueSet_config .queueNum rfl fun _ => ?_
    simp [Queue.config,Config.write]
  | queueDescLow | queueDescHigh | queueAvailLow | queueAvailHigh | queueUsedLow | queueUsedHigh =>
    -- the half that is kept is read back from the queue that is written
    cases done
    dsimp only
    refine queueSet_config _ rfl fun selected => ?_
    rw [queueGet_selected selected]
    rfl
  | _ =>
    cases done
    rfl

theorem writeRegister_select {v : VirtioNet} {val : BitVec 32} {register : WriteRegister}
    {written : Written} (done : writeRegister v (val.setWidth 64) register = .done written) :
    written.virtio.queueSelect = if register = .queueSel then val else v.queueSelect := by
  cases register with
  | status =>
    obtain ⟨status,same⟩ := writeStatus_frame done
    rw [same]
    rfl
  | driverFeatures =>
    obtain ⟨acked,same⟩ := writeFeatures_frame done
    rw [same]
    rfl
  | queueNotify =>
    rw [writeNotify_frame done]
    rfl
  | queueSel =>
    cases done
    exact setWidth_word val
  | _ =>
    cases done
    rfl

theorem step_config {v w : VirtioNet} {event : DeviceEvent} (step : DeviceStep v event w)
    (i : Fin pkmVirtioNetQueueNum) :
    (w.queues i).config =
        (event.ringWrite i v.queueSelect).toList.foldl Config.write (v.queues i).config ∧
      w.queueSelect = event.selectAfter v.queueSelect := by
  cases event with
  | read offset size =>
    rw [step.1]
    exact ⟨rfl,rfl⟩
  | efds idx kick call =>
    rw [step]
    refine ⟨?_,rfl⟩
    simp only [setVringEfds]
    split <;> rfl
  | write val offset size =>
    obtain ⟨written,done,rfl⟩ := step
    obtain ⟨register,served,done⟩ := handleRkcallMmioWrite_done done
    rw [writeRegister_config done i,writeRegister_select done]
    simp only [DeviceEvent.ringWrite,DeviceEvent.selectAfter,served,Option.some.injEq,and_true]
    split <;> rfl

/-- A queue's ring registers after a run: only the writes made while it was selected count. -/
theorem run_config {v w : VirtioNet} {events : List DeviceEvent} (run : Run DeviceStep v events w)
    (i : Fin pkmVirtioNetQueueNum) : (w.queues i).config =
      (writesTo i v.queueSelect events).foldl Config.write (v.queues i).config := by
  induction run with
  | nil => rfl
  | cons head _ ih =>
    obtain ⟨config,select⟩ := step_config head i
    rw [ih,config,select,writesTo,List.foldl_append]

/-! Halves. -/

def upperHalf (value : Word) : BitVec 32 := value.extractLsb' 32 32
def lowerHalf (value : Word) : BitVec 32 := value.setWidth 32

theorem upperHalf_low (value : Word) (val : BitVec 32) :
    upperHalf (highHalf value ||| val.setWidth 64) = upperHalf value := by
  apply BitVec.eq_of_getElem_eq
  intro i hi
  simp only [upperHalf,highHalf,BitVec.getElem_extractLsb',BitVec.getLsbD_or,
    BitVec.getLsbD_shiftLeft,BitVec.getLsbD_ushiftRight,BitVec.getLsbD_setWidth]
  grind

theorem lowerHalf_low (value : Word) (val : BitVec 32) :
    lowerHalf (highHalf value ||| val.setWidth 64) = val := by
  apply BitVec.eq_of_getElem_eq
  intro i hi
  simp only [lowerHalf,highHalf,BitVec.getElem_setWidth,BitVec.getLsbD_or,
    BitVec.getLsbD_shiftLeft,BitVec.getLsbD_setWidth]
  grind

theorem upperHalf_high (value : Word) (val : BitVec 32) :
    upperHalf (val.setWidth 64 <<< 32 ||| lowHalf value) = val := by
  apply BitVec.eq_of_getElem_eq
  intro i hi
  simp only [upperHalf,lowHalf,BitVec.getElem_extractLsb',BitVec.getLsbD_or,
    BitVec.getLsbD_shiftLeft,BitVec.getLsbD_ushiftRight,BitVec.getLsbD_setWidth]
  grind

theorem lowerHalf_high (value : Word) (val : BitVec 32) :
    lowerHalf (val.setWidth 64 <<< 32 ||| lowHalf value) = lowerHalf value := by
  apply BitVec.eq_of_getElem_eq
  intro i hi
  simp only [lowerHalf,lowHalf,BitVec.getElem_setWidth,BitVec.getLsbD_or,
    BitVec.getLsbD_shiftLeft,BitVec.getLsbD_ushiftRight,BitVec.getLsbD_setWidth]
  grind

theorem toNat_halves (value : Word) :
    value.toNat = (upperHalf value).toNat * 2 ^ 32 + (lowerHalf value).toNat := by
  have bound := value.isLt
  simp only [upperHalf,lowerHalf,BitVec.extractLsb'_toNat,BitVec.toNat_setWidth,
    Nat.shiftRight_eq_div_pow]
  omega

/-! The last writes. -/

inductive Ring where
  | desc | avail | used
  deriving DecidableEq, Repr

def Ring.low : Ring → WriteRegister
  | .desc => .queueDescLow
  | .avail => .queueAvailLow
  | .used => .queueUsedLow

def Ring.high : Ring → WriteRegister
  | .desc => .queueDescHigh
  | .avail => .queueAvailHigh
  | .used => .queueUsedHigh

def Config.addr (c : Config) : Ring → Word
  | .desc => c.descTable
  | .avail => c.availRing
  | .used => c.usedRing

theorem write_upperHalf (c : Config) (write : RingWrite) (ring : Ring) :
    upperHalf ((c.write write).addr ring) =
      if write.1 = ring.high then write.2 else upperHalf (c.addr ring) := by
  obtain ⟨register,val⟩ := write
  cases ring <;> cases register <;>
    simp [Config.write,Config.addr,Ring.high,upperHalf_low,upperHalf_high]

theorem write_lowerHalf (c : Config) (write : RingWrite) (ring : Ring) :
    lowerHalf ((c.write write).addr ring) =
      if write.1 = ring.low then write.2 else lowerHalf (c.addr ring) := by
  obtain ⟨register,val⟩ := write
  cases ring <;> cases register <;>
    simp [Config.write,Config.addr,Ring.low,lowerHalf_low,lowerHalf_high]

theorem write_size (c : Config) (write : RingWrite) :
    (c.write write).size = if write.1 = .queueNum then write.2.setWidth 16 else c.size := by
  obtain ⟨register,val⟩ := write
  cases register <;> simp [Config.write]

/-- What a register's writes determine, the last of them determines. -/
theorem foldl_lastWrite {α : Type} (value : Config → α) (register : WriteRegister)
    (stored : BitVec 32 → α)
    (writes : ∀ c write, value (c.write write) =
      if write.1 = register then stored write.2 else value c)
    (all : List RingWrite) (c : Config) :
    value (all.foldl Config.write c) = ((lastWrite register all).map stored).getD (value c) := by
  induction all generalizing c with
  | nil => rfl
  | cons write rest ih =>
    rw [List.foldl_cons,ih,writes,lastWrite]
    cases lastWrite register rest with
    | some val => rfl
    | none =>
      by_cases own : write.1 = register
      · simp [own]
      · simp [own]

def VringArgs.config (info : VringArgs) : Config :=
  ⟨info.size,info.descTable,info.availRing,info.usedRing⟩

theorem vringInfo_config {v : VirtioNet} {kargs : VringArgs} {i : Fin pkmVirtioNetQueueNum}
    (idx : kargs.idx.toNat = i.val) : (vringInfo v kargs).config = (v.queues i).config := by
  obtain ⟨bound,same⟩ := queue_named idx
  simp only [VringArgs.config,vringInfo,queueGetIdx,dif_pos bound,same]
  rfl

theorem vringInfo_congr {v w : VirtioNet} {kargs : VringArgs}
    (same : (vringInfo w kargs).config = (vringInfo v kargs).config) :
    vringInfo w kargs = vringInfo v kargs :=
  VringArgs.ext rfl (congrArg Config.size same) (congrArg Config.descTable same)
    (congrArg Config.availRing same) (congrArg Config.usedRing same)

/-- GET_VRING_INFO after any accesses: each address is made of the halves last written while
the queue was selected, the size is the number last written, and no other write has a part
in the report. -/
theorem getVringInfo_reports {memory v : VirtioNet} {events : List DeviceEvent}
    (run : Run DeviceStep (initVirtioNet memory) events v) {kargs info : VringArgs} {copied : Bool}
    {i : Fin pkmVirtioNetQueueNum} (idx : kargs.idx.toNat = i.val)
    (issued : pkmCntrIoctlGetVringInfo v (some kargs) copied = (0,some info)) :
    (∀ ring hi lo, lastWrite (Ring.high ring) (writesTo i 0 events) = some hi →
      lastWrite (Ring.low ring) (writesTo i 0 events) = some lo →
      (info.config.addr ring).toNat = hi.toNat * 2 ^ 32 + lo.toNat) ∧
    (∀ num, lastWrite .queueNum (writesTo i 0 events) = some num →
      info.size.toNat = num.toNat % 2 ^ 16) ∧
    (∀ others w, Run DeviceStep (initVirtioNet memory) others w →
      writesTo i 0 others = writesTo i 0 events →
      pkmCntrIoctlGetVringInfo w (some kargs) copied = (0,some info)) := by
  have config := run_config run i
  rw [← vringInfo_config idx] at config
  change _ = (writesTo i 0 events).foldl Config.write _ at config
  cases copied with
  | false => cases issued
  | true =>
    cases issued
    refine ⟨?_,?_,?_⟩
    · intro ring hi lo high low
      have upper := foldl_lastWrite (fun c => upperHalf (c.addr ring)) ring.high id
        (fun c write => write_upperHalf c write ring) (writesTo i 0 events)
        ((initVirtioNet memory).queues i).config
      have lower := foldl_lastWrite (fun c => lowerHalf (c.addr ring)) ring.low id
        (fun c write => write_lowerHalf c write ring) (writesTo i 0 events)
        ((initVirtioNet memory).queues i).config
      rw [← config,high] at upper
      rw [← config,low] at lower
      rw [toNat_halves,upper,lower]
      rfl
    · intro num last
      have size := foldl_lastWrite Config.size .queueNum (·.setWidth 16) write_size
        (writesTo i 0 events) ((initVirtioNet memory).queues i).config
      rw [← config,last] at size
      change (vringInfo v kargs).config.size.toNat = _
      rw [size]
      exact BitVec.toNat_setWidth 16 num
    · intro others w run' same
      have config' := run_config run' i
      rw [← vringInfo_config idx] at config'
      change _ = (writesTo i 0 others).foldl Config.write _ at config'
      rw [same,← config] at config'
      have report := vringInfo_congr config'
      simp only [pkmCntrIoctlGetVringInfo,if_true,report]

/-- The high half of queue 1's descriptor table comes first, and a write to queue 0 before
the low half. -/
theorem getVringInfo_interleaved : ∃ v info,
    pkmCntrIoctlGetVringInfo v (some ⟨1,0,0,0,0⟩) true = (0,some info) ∧
      info.descTable.toNat = 1 * 2 ^ 32 + 0x2000 := by
  obtain ⟨v,run⟩ : ∃ v, Run DeviceStep blankDevice [.write 1 0x30 4,.write 1 0x84 4,
      .write 0 0x30 4,.write 0x5000 0x80 4,.write 1 0x30 4,.write 0x2000 0x80 4] v :=
    ⟨_,.cons (write_step rfl) (.cons (write_step rfl) (.cons (write_step rfl)
      (.cons (write_step rfl) (.cons (write_step rfl) (.cons (write_step rfl) (.nil _))))))⟩
  obtain ⟨info,issued⟩ : ∃ info,
      pkmCntrIoctlGetVringInfo v (some ⟨1,0,0,0,0⟩) true = (0,some info) := ⟨_,rfl⟩
  have report := getVringInfo_reports run (i := ⟨1,by decide⟩) rfl issued
  exact ⟨v,info,issued,report.1 .desc 1 0x2000 rfl rfl⟩

end Cki.Virtio
