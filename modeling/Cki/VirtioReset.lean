import Cki.VirtioRun

/-! A reset of the device. A write of 0 to the status register is accepted and changes
nothing, so that a device is as new after it only where it was as new before. -/
namespace Cki.Virtio

/-! What a guest can tell of a device. -/

/-- A register access as the host gets it, with a value of 64 bits. -/
inductive MmioCall where
  | read (offset : Word) (size : BitVec 32)
  | write (val offset : Word) (size : BitVec 32)
  deriving DecidableEq, Repr

/-- What the host answers to a write, sign extended, and the device after it. -/
def Written.answer (written : Written) : Word × VirtioNet :=
  (written.result.signExtend 64,written.virtio)

/-- The answer to the guest and the device after it. -/
def respond (v : VirtioNet) : MmioCall → Access (Word × VirtioNet)
  | .read offset size => (handleRkcallMmioRead v offset size).map (·,v)
  | .write val offset size => (handleRkcallMmioWrite v val offset size).map Written.answer

/-- The answers to a sequence of accesses, up to the first that does not return, and the
device that is left. -/
def serve (v : VirtioNet) : List MmioCall → List (Access Word) × VirtioNet
  | [] => ([],v)
  | call :: rest =>
    match respond v call with
    | .done (answer,w) => (.done answer :: (serve w rest).1,(serve w rest).2)
    | .spins => ([.spins],v)
    | .faults => ([.faults],v)

/-- Two devices that give the same answers to a sequence, and are left with the same features
and ready flags. -/
structure SameService (v w : VirtioNet) (later : List MmioCall) : Prop where
  answers : (serve v later).1 = (serve w later).1
  acked : (serve v later).2.ackedFeatures = (serve w later).2.ackedFeatures
  ready : ∀ i, ((serve v later).2.queues i).ready = ((serve w later).2.queues i).ready

/-- The half of the features that `acked_features_select` names: the low or the high one, or
neither. -/
def ackedHalf (select : BitVec 32) : Option Bool :=
  if select = 0 then some false else if select = 1 then some true else none

/-- Two devices that differ in nothing a guest can see: in the ring registers only, and in
which eventfds a kick signals. -/
structure Alike (v w : VirtioNet) : Prop where
  status : v.deviceStatus = w.deviceStatus
  featuresSelect : v.featuresSelect = w.featuresSelect
  avail : v.availFeatures = w.availFeatures
  half : ackedHalf v.ackedFeaturesSelect = ackedHalf w.ackedFeaturesSelect
  acked : v.ackedFeatures = w.ackedFeatures
  queueSelect : v.queueSelect = w.queueSelect
  maxSize : ∀ i, (v.queues i).maxSize = (w.queues i).maxSize
  ready : ∀ i, (v.queues i).ready = (w.queues i).ready
  kick : ∀ i, (v.queues i).kick.isSome = (w.queues i).kick.isSome

/-- The same answer, and devices that are alike. -/
def AlikeAccess {α : Type} : Access (α × VirtioNet) → Access (α × VirtioNet) → Prop
  | .done (answer,v), .done (answer',w) => answer = answer' ∧ Alike v w
  | .spins, .spins => True
  | .faults, .faults => True
  | _, _ => False

/-! Alike devices. -/

theorem alikeAccess_cases {α : Type} {a b : Access (α × VirtioNet)} (alike : AlikeAccess a b) :
    (∃ answer v w, a = .done (answer,v) ∧ b = .done (answer,w) ∧ Alike v w) ∨
      (a = .spins ∧ b = .spins) ∨ (a = .faults ∧ b = .faults) := by
  cases a with
  | done served =>
    cases b with
    | done served' =>
      obtain ⟨answer,v⟩ := served
      obtain ⟨answer',w⟩ := served'
      obtain ⟨rfl,after⟩ := alike
      exact .inl ⟨answer,v,w,rfl,rfl,after⟩
    | _ => exact alike.elim
  | spins =>
    cases b with
    | spins => exact .inr (.inl ⟨rfl,rfl⟩)
    | _ => exact alike.elim
  | faults =>
    cases b with
    | faults => exact .inr (.inr ⟨rfl,rfl⟩)
    | _ => exact alike.elim

theorem queueGet_alike {v w : VirtioNet} (attr : Queue → Word) (select : v.queueSelect = w.queueSelect)
    (same : ∀ i, attr (v.queues i) = attr (w.queues i)) : queueGet v attr = queueGet w attr := by
  simp only [queueGet,select,same]

theorem readRegister_alike {v w : VirtioNet} (alike : Alike v w) (register : ReadRegister) :
    readRegister v register = readRegister w register := by
  cases register with
  | status => simp only [readRegister,alike.status]
  | deviceFeatures =>
    simp only [readRegister,handleMmioReadAvailFeatures,alike.featuresSelect,alike.avail]
  | queueReady =>
    refine queueGet_alike (fun q => if q.ready then 1 else 0) alike.queueSelect fun i => ?_
    rw [alike.ready]
  | queueNumMax =>
    refine queueGet_alike (fun q => q.maxSize.setWidth 64) alike.queueSelect fun i => ?_
    rw [alike.maxSize]
  | _ => rfl

/-- A queue register is written to the same queue of both, and those a guest can see to the
same value. -/
theorem queueSet_alike {v w : VirtioNet} (alike : Alike v w) {write write' : Queue → Queue}
    (maxSize : ∀ q q', q.maxSize = q'.maxSize → (write q).maxSize = (write' q').maxSize)
    (ready : ∀ q q', q.ready = q'.ready → (write q).ready = (write' q').ready)
    (kick : ∀ q q', q.kick.isSome = q'.kick.isSome →
      (write q).kick.isSome = (write' q').kick.isSome) :
    Alike (queueSet v write) (queueSet w write') := by
  have field : ∀ {β : Type} (attr : Queue → β),
      (∀ q q', attr q = attr q' → attr (write q) = attr (write' q')) →
      (∀ i, attr (v.queues i) = attr (w.queues i)) →
      ∀ i, attr ((queueSet v write).queues i) = attr ((queueSet w write').queues i) := by
    intro β attr written same i
    simp only [queueSet,alike.queueSelect]
    split
    · exact written _ _ (same i)
    · exact same i
  exact { alike with
    maxSize := field Queue.maxSize maxSize alike.maxSize
    ready := field Queue.ready ready alike.ready
    kick := field (fun q => q.kick.isSome) kick alike.kick }

theorem writeStatus_alike {v w : VirtioNet} (alike : Alike v w) (status : BitVec 32) :
    AlikeAccess ((handleMmioWriteDeviceStatus v status).map fun v => ((0 : Word),v))
      ((handleMmioWriteDeviceStatus w status).map fun w => (0,w)) := by
  have stored : AlikeAccess (.done ((0 : Word),{ v with deviceStatus := status }))
      (.done (0,{ w with deviceStatus := status })) := ⟨rfl,{ alike with status := rfl }⟩
  simp only [handleMmioWriteDeviceStatus,alike.status]
  split
  · exact ⟨rfl,alike⟩
  · split
    · exact stored
    · split
      · exact stored
      · split
        · exact stored
        · split
          · exact stored
          · trivial

theorem ackedHalf_value (select : BitVec 32) (low high : Word) :
    (if select = 0 then low else if select = 1 then high else 0) =
      match ackedHalf select with
      | some false => low
      | some true => high
      | none => 0 := by
  unfold ackedHalf
  split
  · rfl
  · split <;> rfl

theorem writeFeatures_alike {v w : VirtioNet} (alike : Alike v w) (features : BitVec 32) :
    Alike (handleMmioWriteAckedFeatures v features) (handleMmioWriteAckedFeatures w features) := by
  simp only [handleMmioWriteAckedFeatures,ackedHalf_value,alike.status,alike.half,alike.acked,
    alike.avail]
  split
  · exact alike
  · split
    · exact alike
    · split
      · exact alike
      · exact ⟨rfl,alike.featuresSelect,rfl,alike.half,rfl,alike.queueSelect,alike.maxSize,
          alike.ready,alike.kick⟩

theorem notify_alike {v w : VirtioNet} (alike : Alike v w) (idx : BitVec 32) :
    AlikeAccess ((handleMmioWriteQueueNotify v idx).map fun _ => ((0 : Word),v))
      ((handleMmioWriteQueueNotify w idx).map fun _ => (0,w)) := by
  unfold handleMmioWriteQueueNotify
  split
  · rename_i bound
    have same := alike.kick ⟨idx.toNat,bound⟩
    cases mine : (v.queues ⟨idx.toNat,bound⟩).kick with
    | none =>
      cases other : (w.queues ⟨idx.toNat,bound⟩).kick with
      | none => trivial
      | some kick =>
        rw [mine,other] at same
        cases same
    | some kick =>
      cases other : (w.queues ⟨idx.toNat,bound⟩).kick with
      | none =>
        rw [mine,other] at same
        cases same
      | some kick' => exact ⟨rfl,alike⟩
  · exact ⟨rfl,alike⟩

theorem writeRegister_alike {v w : VirtioNet} (alike : Alike v w) (val : Word)
    (register : WriteRegister) :
    AlikeAccess ((writeRegister v val register).map Written.answer)
      ((writeRegister w val register).map Written.answer) := by
  cases register with
  | status =>
    have same := writeStatus_alike alike (val.setWidth 32)
    simp only [writeRegister,Access.map_map]
    exact same
  | queueNotify =>
    have same := notify_alike alike (val.setWidth 32)
    simp only [writeRegister,Access.map_map]
    exact same
  | driverFeatures => exact ⟨rfl,writeFeatures_alike alike _⟩
  | deviceFeaturesSel => exact ⟨rfl,{ alike with featuresSelect := rfl }⟩
  | driverFeaturesSel => exact ⟨rfl,{ alike with half := rfl }⟩
  | queueSel => exact ⟨rfl,{ alike with queueSelect := rfl }⟩
  | queueReady =>
    refine ⟨rfl,?_⟩
    dsimp only
    exact queueSet_alike alike (fun _ _ same => same) (fun _ _ _ => rfl) fun _ _ same => same
  | _ =>
    refine ⟨rfl,?_⟩
    dsimp only
    exact queueSet_alike alike (fun _ _ same => same) (fun _ _ same => same) fun _ _ same => same

theorem respond_alike {v w : VirtioNet} (alike : Alike v w) (call : MmioCall) :
    AlikeAccess (respond v call) (respond w call) := by
  cases call with
  | read offset size =>
    simp only [respond,handleRkcallMmioRead]
    cases ReadRegister.at offset size with
    | none => trivial
    | some register => exact ⟨readRegister_alike alike register,alike⟩
  | write val offset size =>
    simp only [respond,handleRkcallMmioWrite]
    cases WriteRegister.at offset size with
    | none => trivial
    | some register => exact writeRegister_alike alike val register

/-- Alike devices serve every sequence alike. -/
theorem serve_alike {v w : VirtioNet} (alike : Alike v w) (later : List MmioCall) :
    (serve v later).1 = (serve w later).1 ∧ Alike (serve v later).2 (serve w later).2 := by
  induction later generalizing v w with
  | nil => exact ⟨rfl,alike⟩
  | cons call rest ih =>
    simp only [serve]
    rcases alikeAccess_cases (respond_alike alike call) with
      ⟨answer,v',w',mine,other,alike'⟩ | ⟨mine,other⟩ | ⟨mine,other⟩
    · rw [mine,other]
      obtain ⟨answers,after⟩ := ih alike'
      exact ⟨congrArg (.done answer :: ·) answers,after⟩
    · rw [mine,other]
      exact ⟨rfl,alike⟩
    · rw [mine,other]
      exact ⟨rfl,alike⟩

theorem alike_sameService {v w : VirtioNet} (alike : Alike v w) (later : List MmioCall) :
    SameService v w later := by
  obtain ⟨answers,after⟩ := serve_alike alike later
  exact ⟨answers,after.acked,after.ready⟩

/-! The devices that a run reaches. -/

/-- The guest accesses a register, or the launcher sets the eventfds of a queue. -/
inductive HostEvent where
  | mmio (call : MmioCall)
  | efds (idx : BitVec 32) (kick call : Eventfd)
  deriving DecidableEq, Repr

def HostStep (v : VirtioNet) (event : HostEvent) (w : VirtioNet) : Prop :=
  match event with
  | .mmio call => ∃ answer, respond v call = .done (answer,w)
  | .efds idx kick call => w = setVringEfds v idx kick call

/-- What no access changes. -/
structure Built (v : VirtioNet) : Prop where
  avail : v.availFeatures = initAvailFeatures
  maxSize : ∀ i, (v.queues i).maxSize = pkmVirtioNetQueueSize

theorem step_built {v w : VirtioNet} {event : HostEvent} (built : Built v)
    (step : HostStep v event w) : Built w := by
  cases event with
  | efds idx kick call =>
    rw [step]
    refine ⟨built.avail,fun i => ?_⟩
    simp only [setVringEfds]
    split <;> exact built.maxSize i
  | mmio call =>
    obtain ⟨answer,served⟩ := step
    cases call with
    | read offset size =>
      obtain ⟨value,_,same⟩ := Access.map_done served
      cases same
      exact built
    | write val offset size =>
      obtain ⟨written,done,same⟩ := Access.map_done served
      obtain ⟨register,_,done⟩ := handleRkcallMmioWrite_done done
      cases same
      exact ⟨(writeRegister_negotiation done).1.trans built.avail,
        fun i =>
          (congrArg Prod.fst (writeRegister_fixed done i)).trans (built.maxSize i)⟩

theorem initVirtioNet_built (memory : VirtioNet) : Built (initVirtioNet memory) :=
  ⟨rfl,fun _ => rfl⟩

/-! The reset. -/

/-- A device on which the guest and the launcher have left no trace, where the register that
`init_virtio_net` leaves as it is selects as `select`. -/
structure Untouched (v : VirtioNet) (select : BitVec 32) : Prop where
  status : v.deviceStatus = 0
  featuresSelect : v.featuresSelect = 0
  half : ackedHalf v.ackedFeaturesSelect = ackedHalf select
  acked : v.ackedFeatures = 0
  queueSelect : v.queueSelect = 0
  ready : ∀ i, (v.queues i).ready = false
  kick : ∀ i, (v.queues i).kick = none

theorem reset_keeps {v w : VirtioNet} (reset : HostStep v (.mmio (.write 0 0x70 4)) w) : w = v := by
  obtain ⟨answer,served⟩ := reset
  have kept : respond v (.write 0 0x70 4) = .done (0,v) := rfl
  rw [kept] at served
  cases served
  rfl

theorem untouched_alike {v memory : VirtioNet} (built : Built v)
    (untouched : Untouched v memory.ackedFeaturesSelect) : Alike v (initVirtioNet memory) where
  status := untouched.status
  featuresSelect := untouched.featuresSelect
  avail := built.avail
  half := untouched.half
  acked := untouched.acked
  queueSelect := untouched.queueSelect
  maxSize := built.maxSize
  ready := untouched.ready
  kick := fun i => by
    rw [untouched.kick]
    rfl

/-! What each part of the state shows. -/

theorem status_shows {v : VirtioNet} {memory : VirtioNet}
    (same : SameService v (initVirtioNet memory) [.read 0x70 4]) : v.deviceStatus = 0 := by
  have answer : [Access.done (v.deviceStatus.setWidth 64)] = [.done ((0 : BitVec 32).setWidth 64)] :=
    same.answers
  injection answer with first
  injection first with value
  have low := congrArg (BitVec.setWidth 32) value
  simpa using low

theorem features_show {v : VirtioNet} {memory : VirtioNet} (built : Built v)
    (same : SameService v (initVirtioNet memory) [.read 0x10 4]) : v.featuresSelect = 0 := by
  have answer : [Access.done ((handleMmioReadAvailFeatures v).setWidth 64)] =
      [.done (initAvailFeatures.setWidth 32 |>.setWidth 64)] := same.answers
  injection answer with first
  injection first with value
  have low := congrArg (BitVec.setWidth 32) value
  simp only [handleMmioReadAvailFeatures,built.avail] at low
  by_cases zero : v.featuresSelect = 0
  · exact zero
  · rw [if_neg zero] at low
    split at low
    · exact absurd low (by decide)
    · exact absurd low (by decide)

theorem select_shows {v : VirtioNet} {memory : VirtioNet} (ready : ∀ i, (v.queues i).ready = false)
    (same : SameService v (initVirtioNet memory) [.write 1 0x44 4]) : v.queueSelect = 0 := by
  have first : ((queueSet v fun q => { q with ready := decide ((1 : Word) ≠ 0) }).queues
      ⟨0,by decide⟩).ready = true := same.ready ⟨0,by decide⟩
  simp only [queueSet] at first
  split at first
  · rename_i selected
    exact BitVec.eq_of_toNat_eq selected.symm
  · rw [ready] at first
    cases first

theorem notify_kick {v : VirtioNet} {idx : BitVec 32} {i : Fin pkmVirtioNetQueueNum}
    (named : idx.toNat = i.val) : handleMmioWriteQueueNotify v idx =
      match (v.queues i).kick with
      | some kick => .done (some kick)
      | none => .faults := by
  obtain ⟨bound,same⟩ := queue_named named
  cases kick : (v.queues i).kick with
  | none => simp only [handleMmioWriteQueueNotify,dif_pos bound,same,kick]
  | some eventfd => simp only [handleMmioWriteQueueNotify,dif_pos bound,same,kick]

theorem serve_notify {v : VirtioNet} {idx : Word} {i : Fin pkmVirtioNetQueueNum}
    (named : (idx.setWidth 32).toNat = i.val) : (serve v [.write idx 0x50 4]).1 =
      match (v.queues i).kick with
      | some _ => [.done 0]
      | none => [.faults] := by
  have served : respond v (.write idx 0x50 4) =
      ((handleMmioWriteQueueNotify v (idx.setWidth 32)).map (⟨v,0,·⟩)).map Written.answer := rfl
  rw [serve,served,notify_kick named]
  cases (v.queues i).kick <;> rfl

theorem kick_shows {v : VirtioNet} {memory : VirtioNet} {idx : Word}
    {i : Fin pkmVirtioNetQueueNum} (named : (idx.setWidth 32).toNat = i.val)
    (same : SameService v (initVirtioNet memory) [.write idx 0x50 4]) :
    (v.queues i).kick = none := by
  have answers := same.answers
  rw [serve_notify named,serve_notify named] at answers
  cases kick : (v.queues i).kick with
  | none => rfl
  | some eventfd =>
    rw [kick] at answers
    cases answers

/-- The features that a driver writing all ones acknowledges, by the half selected. -/
def ackedOnes (half : Option Bool) : Word :=
  (match half with
    | some false => (0xffffffff : Word)
    | some true => (0xffffffff : Word) <<< 32
    | none => 0) &&& initAvailFeatures

theorem ackedOnes_injective {half half' : Option Bool} (same : ackedOnes half = ackedOnes half') :
    half = half' := by
  rcases half with _ | _ | _ <;> rcases half' with _ | _ | _ <;>
    first | rfl | exact absurd same (by decide)

/-- The driver acknowledges the device and all features of one half. -/
def acknowledgeAll : List MmioCall :=
  [.write 1 0x70 4,.write 3 0x70 4,.write 0xffffffff 0x20 4]

theorem handleMmioWriteDeviceStatus_first {v : VirtioNet} (status : v.deviceStatus = 0) :
    handleMmioWriteDeviceStatus v 1 = .done { v with deviceStatus := 1 } := by
  simp [handleMmioWriteDeviceStatus,status,virtioConfigSAcknowledge]

theorem handleMmioWriteDeviceStatus_second {v : VirtioNet} (status : v.deviceStatus = 1) :
    handleMmioWriteDeviceStatus v 3 = .done { v with deviceStatus := 3 } := by
  simp [handleMmioWriteDeviceStatus,status,virtioConfigSAcknowledge,virtioConfigSDriver]

theorem handleMmioWriteAckedFeatures_ones {v : VirtioNet} (status : v.deviceStatus = 3)
    (avail : v.availFeatures = initAvailFeatures) :
    (handleMmioWriteAckedFeatures v 0xffffffff).ackedFeatures =
      v.ackedFeatures ||| ackedOnes (ackedHalf v.ackedFeaturesSelect) := by
  simp only [ackedOnes,← ackedHalf_value]
  simp [handleMmioWriteAckedFeatures,status,avail,virtioConfigSDriver,virtioConfigSFeaturesOk,
    virtioConfigSFailed]

theorem serve_done {v w : VirtioNet} {call : MmioCall} {rest : List MmioCall} {answer : Word}
    (served : respond v call = .done (answer,w)) : (serve v (call :: rest)).2 = (serve w rest).2 := by
  rw [serve,served]

theorem respond_status {v w : VirtioNet} (val : Word)
    (accepted : handleMmioWriteDeviceStatus v (val.setWidth 32) = .done w) :
    ∃ answer, respond v (.write val 0x70 4) = .done (answer,w) := by
  have served : respond v (.write val 0x70 4) =
      ((handleMmioWriteDeviceStatus v (val.setWidth 32)).map (⟨·,0,none⟩)).map Written.answer := rfl
  rw [served,accepted]
  exact ⟨_,rfl⟩

theorem serve_acknowledgeAll {v : VirtioNet} (built : Built v) (status : v.deviceStatus = 0)
    (acked : v.ackedFeatures = 0) :
    (serve v acknowledgeAll).2.ackedFeatures = ackedOnes (ackedHalf v.ackedFeaturesSelect) := by
  obtain ⟨_,first⟩ := respond_status 1 (handleMmioWriteDeviceStatus_first status)
  obtain ⟨_,second⟩ := respond_status 3
    (handleMmioWriteDeviceStatus_second (v := { v with deviceStatus := 1 }) rfl)
  rw [acknowledgeAll,serve_done first,serve_done second]
  refine (handleMmioWriteAckedFeatures_ones (v := { v with deviceStatus := 3 }) rfl
    built.avail).trans ?_
  dsimp only
  rw [acked]
  exact BitVec.zero_or

theorem half_shows {v : VirtioNet} {memory : VirtioNet} (built : Built v)
    (status : v.deviceStatus = 0) (acked : v.ackedFeatures = 0)
    (same : SameService v (initVirtioNet memory) acknowledgeAll) :
    ackedHalf v.ackedFeaturesSelect = ackedHalf memory.ackedFeaturesSelect := by
  have equal := same.acked
  rw [serve_acknowledgeAll built status acked,
    serve_acknowledgeAll (initVirtioNet_built memory) rfl rfl] at equal
  exact ackedOnes_injective equal

theorem service_untouched {v memory : VirtioNet} (built : Built v)
    (same : ∀ later, SameService v (initVirtioNet memory) later) :
    Untouched v memory.ackedFeaturesSelect := by
  have status := status_shows (same _)
  have acked : v.ackedFeatures = 0 := (same []).acked
  have ready : ∀ i, (v.queues i).ready = false := (same []).ready
  refine ⟨status,features_show built (same _),half_shows built status acked (same _),acked,
    select_shows ready (same _),ready,fun i => ?_⟩
  have named : ((BitVec.ofNat 64 i.val).setWidth 32).toNat = i.val := by
    revert i
    decide
  exact kick_shows named (same _)

/-- After a reset a device serves every sequence as a new one does exactly when nothing that
a guest can see was left on it before: a reset takes nothing away. -/
theorem reset_restores_iff {memory memory' v w : VirtioNet} {events : List HostEvent}
    (run : Run HostStep (initVirtioNet memory) events v)
    (reset : HostStep v (.mmio (.write 0 0x70 4)) w) :
    (∀ later, SameService w (initVirtioNet memory') later) ↔
      Untouched v memory'.ackedFeaturesSelect := by
  have built := run.invariant Built (fun _ _ _ built step => step_built built step)
    (initVirtioNet_built memory)
  rw [reset_keeps reset]
  exact ⟨service_untouched built,
    fun untouched later => alike_sameService (untouched_alike built untouched) later⟩

/-- A guest does not see the address of a ring: the device that has one is reset to a new
one. -/
theorem blankDevice_restores : ∃ v, HostStep blankDevice (.mmio (.write 0x1000 0x80 4)) v ∧
    ∀ later, SameService v blankDevice later := by
  obtain ⟨v,address,untouched⟩ : ∃ v, HostStep blankDevice (.mmio (.write 0x1000 0x80 4)) v ∧
      Untouched v 0 :=
    ⟨_,⟨_,rfl⟩,rfl,rfl,rfl,rfl,rfl,by decide,by decide⟩
  exact ⟨v,address,(reset_restores_iff (.single address) ⟨_,rfl⟩).mpr untouched⟩

/-- ACKNOWLEDGE is still set after a reset, and no new device has it. -/
theorem reset_keeps_acknowledge : ¬ ∀ (memory v w : VirtioNet) (events : List HostEvent),
    Run HostStep (initVirtioNet memory) events v →
    HostStep v (.mmio (.write 0 0x70 4)) w →
    ∃ memory', ∀ later, SameService w (initVirtioNet memory') later := by
  intro claim
  obtain ⟨v,step,status⟩ : ∃ v, HostStep blankDevice (.mmio (.write 1 0x70 4)) v ∧
      v.deviceStatus = 1 := ⟨_,⟨_,rfl⟩,rfl⟩
  obtain ⟨memory',same⟩ := claim _ _ v _ (.single step) ⟨_,rfl⟩
  have zero := status_shows (same _)
  rw [status] at zero
  cases zero

end Cki.Virtio
