import Cki.CreateWhole
import Cki.VirtioReset
import Cki.VirtioRings

/-! What of the memory from `kmalloc` shows in the device. `init_virtio_net` leaves the
selector of the acknowledged features and the ring registers as they are, so that they are
the memory's until they are written, the addresses bit by bit. -/
namespace Cki.Virtio

/-! What can be seen. -/

/-- The guest accesses a register, or the launcher sets eventfds or asks for the rings. -/
inductive IoEvent where
  | mmio (call : MmioCall)
  | setVringEfds (idx : BitVec 32) (kick call : Eventfd)
  | getVringInfo (arg : Option VringArgs) (copied : Bool)
  deriving DecidableEq, Repr

/-- The answer to an access and the features acknowledged after it, or what the launcher
gets. -/
inductive Observed where
  | mmio (answer : Access Word) (ackedFeatures : Word)
  | setVringEfds
  | getVringInfo (result : Int × Option VringArgs)
  deriving DecidableEq, Repr

/-- What an event shows, and the device after it if it returns. -/
def observeOne (v : VirtioNet) : IoEvent → Observed × Option VirtioNet
  | .mmio call =>
    match respond v call with
    | .done (answer,w) => (.mmio (.done answer) w.ackedFeatures,some w)
    | .spins => (.mmio .spins v.ackedFeatures,none)
    | .faults => (.mmio .faults v.ackedFeatures,none)
  | .setVringEfds idx kick call => (.setVringEfds,some (setVringEfds v idx kick call))
  | .getVringInfo arg copied => (.getVringInfo (pkmCntrIoctlGetVringInfo v arg copied),some v)

def observe (v : VirtioNet) : List IoEvent → List Observed
  | [] => []
  | event :: rest =>
    (observeOne v event).1 ::
      match (observeOne v event).2 with
      | some w => observe w rest
      | none => []

/-! What is left of the memory. -/

/-- Whether the selector has not been written, and which bits of the ring registers of each
queue have not. -/
structure Left where
  select : Bool
  queues : Fin pkmVirtioNetQueueNum → Config

def Left.all : Left := ⟨true,fun _ => ⟨-1,-1,-1,-1⟩⟩

def Config.leave (left : Config) (val : Word) : WriteRegister → Config
  | .queueNum => { left with size := 0 }
  | .queueDescLow => { left with descTable := highHalf left.descTable &&& ~~~val }
  | .queueDescHigh => { left with descTable := lowHalf left.descTable }
  | .queueAvailLow => { left with availRing := highHalf left.availRing &&& ~~~val }
  | .queueAvailHigh => { left with availRing := lowHalf left.availRing }
  | .queueUsedLow => { left with usedRing := highHalf left.usedRing &&& ~~~val }
  | .queueUsedHigh => { left with usedRing := lowHalf left.usedRing }
  | _ => left

def Left.written (left : Left) (select : BitVec 32) (val : Word) (register : WriteRegister) : Left :=
  if register = .driverFeaturesSel then { left with select := false }
  else { left with queues := fun i =>
    if i.val = select.toNat then (left.queues i).leave val register else left.queues i }

def Left.after (left : Left) (select : BitVec 32) : IoEvent → Left
  | .mmio (.write val offset size) =>
    match WriteRegister.at offset size with
    | some register => left.written select val register
    | none => left
  | _ => left

/-- Nothing is acknowledged, whichever half is selected: no driver negotiates, or the device
has all that either half offers. -/
def TakesNothing (v : VirtioNet) (features : BitVec 32) : Prop :=
  v.deviceStatus &&& virtioConfigSDriver = 0 ∨
  v.deviceStatus &&& virtioConfigSFeaturesOk ≠ 0 ∨
  v.deviceStatus &&& virtioConfigSFailed ≠ 0 ∨
  (features.setWidth 64 ||| features.setWidth 64 <<< 32) &&& v.availFeatures &&&
    ~~~v.ackedFeatures = 0

/-- An event that shows nothing of what is left. -/
def ShowsNothing (v : VirtioNet) (left : Left) : IoEvent → Prop
  | .mmio (.write val offset size) =>
    WriteRegister.at offset size = some .driverFeatures → left.select = true →
      TakesNothing v (val.setWidth 32)
  | .getVringInfo (some kargs) true =>
    ∀ i : Fin pkmVirtioNetQueueNum, kargs.idx.toNat = i.val → left.queues i = ⟨0,0,0,0⟩
  | _ => True

/-- No event shows anything of what is left, as long as accesses return. -/
def Determined (v : VirtioNet) (left : Left) : List IoEvent → Prop
  | [] => True
  | event :: rest => ShowsNothing v left event ∧
      match (observeOne v event).2 with
      | some w => Determined w (left.after v.queueSelect event) rest
      | none => True

/-! The device and the memory, put together. -/

/-- The bits of the memory where they are left, and those that are known elsewhere. -/
def blend {n : Nat} (left known memory : BitVec n) : BitVec n := known &&& ~~~left ||| memory &&& left

def Queue.fill (left : Config) (known memory : Queue) : Queue :=
  { known with
    size := blend left.size known.size memory.size
    descTable := blend left.descTable known.descTable memory.descTable
    availRing := blend left.availRing known.availRing memory.availRing
    usedRing := blend left.usedRing known.usedRing memory.usedRing }

/-- A device that is `known` but for what is left of the memory. -/
def fill (left : Left) (known memory : VirtioNet) : VirtioNet :=
  { known with
    ackedFeaturesSelect :=
      if left.select then memory.ackedFeaturesSelect else known.ackedFeaturesSelect
    queues := fun i => (known.queues i).fill (left.queues i) (memory.queues i) }

theorem blend_all {n : Nat} (known memory : BitVec n) : blend (-1) known memory = memory := by
  simp [blend,BitVec.neg_one_eq_allOnes]

theorem blend_none {n : Nat} (known memory : BitVec n) : blend 0 known memory = known := by
  simp [blend]

theorem highHalf_blend (left known memory val : Word) :
    highHalf (blend left known memory) ||| val =
      blend (highHalf left &&& ~~~val) (highHalf known ||| val) memory := by
  apply BitVec.eq_of_getLsbD_eq
  intro i hi
  simp only [highHalf,blend,BitVec.getLsbD_or,BitVec.getLsbD_and,BitVec.getLsbD_not,
    BitVec.getLsbD_shiftLeft,BitVec.getLsbD_ushiftRight]
  by_cases low : i < 32
  · simp [low,hi]
  · have back : 32 + (i - 32) = i := by omega
    simp only [back,low,hi,decide_false,decide_true,Bool.not_false,Bool.true_and]
    cases left.getLsbD i <;> cases known.getLsbD i <;> cases val.getLsbD i <;> simp

theorem lowHalf_blend (left known memory val : Word) :
    val <<< 32 ||| lowHalf (blend left known memory) =
      blend (lowHalf left) (val <<< 32 ||| lowHalf known) memory := by
  apply BitVec.eq_of_getLsbD_eq
  intro i hi
  simp only [lowHalf,blend,BitVec.getLsbD_or,BitVec.getLsbD_and,BitVec.getLsbD_not,
    BitVec.getLsbD_shiftLeft,BitVec.getLsbD_ushiftRight]
  have back : 32 + i - 32 = i := by omega
  have past : ¬ 32 + i < 32 := by omega
  by_cases low : i < 32
  · have inside : 32 + i < 64 := by omega
    simp [low,hi,back,past,inside]
  · have outside : ¬ 32 + i < 64 := by omega
    simp [low,hi,back,outside]

/-- Where a memory of zeros and one of ones look alike, nothing is left. -/
theorem blend_injective {n : Nat} {left known : BitVec n}
    (same : blend left known 0 = blend left known (-1)) : left = 0 := by
  apply BitVec.eq_of_getLsbD_eq
  intro i hi
  have bit := congrArg (fun value : BitVec n => value.getLsbD i) same
  simp [blend,BitVec.neg_one_eq_allOnes,hi] at bit ⊢
  cases here : left[i] with
  | false => rfl
  | true =>
    rw [here] at bit
    exact absurd (bit rfl).2 nofun

theorem initVirtioNet_fill (memory : VirtioNet) : initVirtioNet memory = fill .all blankDevice memory := by
  simp only [fill,Left.all,Queue.fill,blend_all,if_true]
  rfl

/-! One event. -/

section
variable {left : Left} (known memory : VirtioNet)

/-- A ring register that is written to the queue selected. -/
theorem queueSet_fill {write write' : Queue → Queue} (leave : Config → Config)
    (same : ∀ i : Fin pkmVirtioNetQueueNum, known.queueSelect.toNat = i.val →
      write ((known.queues i).fill (left.queues i) (memory.queues i)) =
        (write' (known.queues i)).fill (leave (left.queues i)) (memory.queues i)) :
    queueSet (fill left known memory) write =
      fill { left with queues := fun i =>
        if i.val = known.queueSelect.toNat then leave (left.queues i) else left.queues i }
        (queueSet known write') memory := by
  simp only [queueSet,fill,VirtioNet.mk.injEq,true_and]
  funext i
  by_cases selected : i.val = known.queueSelect.toNat
  · simp only [selected,if_true]
    exact same i selected.symm
  · simp only [selected,if_false]

theorem queueGet_fill {i : Fin pkmVirtioNetQueueNum} (selected : known.queueSelect.toNat = i.val)
    (attr : Queue → Word) : queueGet (fill left known memory) attr =
      attr ((known.queues i).fill (left.queues i) (memory.queues i)) := by
  have selected' : (fill left known memory).queueSelect.toNat = i.val := selected
  exact queueGet_selected selected' attr

theorem writeStatus_fill (status : BitVec 32) :
    handleMmioWriteDeviceStatus (fill left known memory) status =
      (handleMmioWriteDeviceStatus known status).map (fill left · memory) := by
  simp only [handleMmioWriteDeviceStatus]
  repeat' split
  all_goals first | rfl | contradiction

theorem or_absorbs_iff {acked avail low high : Word} :
    (low ||| high) &&& avail &&& ~~~acked = 0 ↔
      acked ||| low &&& avail = acked ∧ acked ||| high &&& avail = acked := by
  constructor
  · intro none
    constructor
    all_goals
      apply BitVec.eq_of_getElem_eq
      intro i hi
      have bit := congrArg (fun value : Word => value[i]) none
      simp only [BitVec.getElem_or,BitVec.getElem_and,BitVec.getElem_not] at bit ⊢
      revert bit
      cases low[i] <;> cases high[i] <;> cases avail[i] <;> cases acked[i] <;> simp
  · rintro ⟨first,second⟩
    apply BitVec.eq_of_getElem_eq
    intro i hi
    have bit := congrArg (fun value : Word => value[i]) first
    have bit' := congrArg (fun value : Word => value[i]) second
    simp only [BitVec.getElem_or,BitVec.getElem_and,BitVec.getElem_not] at bit bit' ⊢
    revert bit bit'
    cases low[i] <;> cases high[i] <;> cases avail[i] <;> cases acked[i] <;> simp

/-- Where nothing is taken the selector does not matter. -/
theorem writeFeatures_nothing {v : VirtioNet} {features : BitVec 32}
    (nothing : TakesNothing v features) : handleMmioWriteAckedFeatures v features = v := by
  rw [handleMmioWriteAckedFeatures]
  split
  · rfl
  · rename_i driver
    split
    · rfl
    · rename_i negotiating
      split
      · rfl
      · rename_i working
        rcases nothing with none | sealed | failed | offered
        · exact absurd none driver
        · exact absurd sealed negotiating
        · exact absurd failed working
        · obtain ⟨low,high⟩ := or_absorbs_iff.mp offered
          dsimp only
          split
          · rw [low]
          · split
            · rw [high]
            · have none : v.ackedFeatures ||| 0 &&& v.availFeatures = v.ackedFeatures := by simp
              rw [none]

theorem writeFeatures_fill {features : BitVec 32}
    (nothing : left.select = true → TakesNothing known features) :
    handleMmioWriteAckedFeatures (fill left known memory) features =
      fill left (handleMmioWriteAckedFeatures known features) memory := by
  cases selected : left.select with
  | true =>
    have same := nothing selected
    have same' : TakesNothing (fill left known memory) features := same
    rw [writeFeatures_nothing same,writeFeatures_nothing same']
  | false =>
    simp only [handleMmioWriteAckedFeatures,fill,selected,Bool.false_eq_true,if_false]
    by_cases driver : known.deviceStatus &&& virtioConfigSDriver = 0
    · simp only [driver,if_true]
    · by_cases done : known.deviceStatus &&& virtioConfigSFeaturesOk ≠ 0
      · simp only [driver,done,if_true,if_false,ne_eq,not_false_eq_true]
      · by_cases failed : known.deviceStatus &&& virtioConfigSFailed ≠ 0
        · simp only [driver,done,failed,if_true,if_false,ne_eq,not_false_eq_true]
        · simp only [driver,done,failed,if_false]

theorem writeRegister_fill (val : Word) (register : WriteRegister)
    (nothing : register = .driverFeatures → left.select = true →
      TakesNothing known (val.setWidth 32)) :
    (writeRegister (fill left known memory) val register).map Written.answer =
      ((writeRegister known val register).map Written.answer).map fun served =>
        (served.1,fill (left.written known.queueSelect val register) served.2 memory) := by
  have kept : register ≠ .driverFeaturesSel → register.isRing = false →
      left.written known.queueSelect val register = left := by
    intro other ring
    simp only [Left.written,if_neg other]
    cases register <;> simp_all [Config.leave,WriteRegister.isRing]
  cases register with
  | status =>
    rw [kept (by decide) rfl,writeRegister,writeRegister,writeStatus_fill]
    simp only [Access.map_map]
    rfl
  | queueNotify =>
    rw [kept (by decide) rfl,writeRegister,writeRegister]
    have same : handleMmioWriteQueueNotify (fill left known memory) (val.setWidth 32) =
        handleMmioWriteQueueNotify known (val.setWidth 32) := rfl
    rw [same]
    simp only [Access.map_map]
    rfl
  | driverFeatures =>
    rw [kept (by decide) rfl]
    simp only [writeRegister,Access.map,Written.answer]
    rw [writeFeatures_fill known memory (nothing rfl)]
  | driverFeaturesSel =>
    simp only [writeRegister,Access.map,Written.answer]
    rfl
  | queueReady =>
    simp only [writeRegister,Access.map,Written.answer]
    apply congrArg (fun w => Access.done (_,w))
    exact queueSet_fill known memory (Config.leave · val _) fun _ _ => rfl
  | queueNum =>
    simp only [writeRegister,Access.map,Written.answer]
    apply congrArg (fun w => Access.done (_,w))
    refine queueSet_fill known memory (Config.leave · val _) fun i _ => ?_
    simp only [Queue.fill,Config.leave,blend_none]
  | queueDescLow | queueAvailLow | queueUsedLow =>
    simp only [writeRegister,Access.map,Written.answer]
    apply congrArg (fun w => Access.done (_,w))
    refine queueSet_fill known memory (Config.leave · val _) fun i selected => ?_
    simp only [queueGet_fill known memory selected,queueGet_selected selected]
    simp only [Queue.fill,Config.leave,highHalf_blend]
  | queueDescHigh | queueAvailHigh | queueUsedHigh =>
    simp only [writeRegister,Access.map,Written.answer]
    apply congrArg (fun w => Access.done (_,w))
    refine queueSet_fill known memory (Config.leave · val _) fun i selected => ?_
    simp only [queueGet_fill known memory selected,queueGet_selected selected]
    simp only [Queue.fill,Config.leave,lowHalf_blend]
  | _ =>
    rw [kept (by decide) rfl]
    rfl

theorem respond_fill (call : MmioCall) (nothing : ShowsNothing known left (.mmio call)) :
    respond (fill left known memory) call = (respond known call).map fun served =>
      (served.1,fill (left.after known.queueSelect (.mmio call)) served.2 memory) := by
  cases call with
  | read offset size =>
    simp only [respond,handleRkcallMmioRead]
    cases ReadRegister.at offset size with
    | none => rfl
    | some register => cases register <;> rfl
  | write val offset size =>
    simp only [ShowsNothing] at nothing
    simp only [respond,handleRkcallMmioWrite,Left.after]
    cases served : WriteRegister.at offset size with
    | none => rfl
    | some register =>
      rw [served,Option.some.injEq] at nothing
      exact writeRegister_fill known memory val register nothing

theorem setVringEfds_fill (idx : BitVec 32) (kick call : Eventfd) :
    setVringEfds (fill left known memory) idx kick call =
      fill left (setVringEfds known idx kick call) memory := by
  simp only [setVringEfds,fill,VirtioNet.mk.injEq,true_and]
  funext i
  split <;> rfl

theorem vringInfo_fill {kargs : VringArgs} (none : ∀ i : Fin pkmVirtioNetQueueNum,
    kargs.idx.toNat = i.val → left.queues i = ⟨0,0,0,0⟩) :
    vringInfo (fill left known memory) kargs = vringInfo known kargs := by
  by_cases bound : kargs.idx.toNat < pkmVirtioNetQueueNum
  · have zero := none ⟨kargs.idx.toNat,bound⟩ rfl
    simp only [vringInfo,queueGetIdx,dif_pos bound,fill,Queue.fill,zero,blend_none]
  · simp only [vringInfo,queueGetIdx,dif_neg bound]

/-- An event that shows nothing of what is left goes the same way in every memory. -/
theorem observeOne_fill (event : IoEvent) (nothing : ShowsNothing known left event) :
    observeOne (fill left known memory) event = ((observeOne known event).1,
      (observeOne known event).2.map (fill (left.after known.queueSelect event) · memory)) := by
  cases event with
  | mmio call =>
    simp only [observeOne,respond_fill known memory call nothing]
    cases respond known call with
    | done served =>
      have acked : (fill (left.after known.queueSelect (.mmio call)) served.2 memory).ackedFeatures =
          served.2.ackedFeatures := rfl
      simp only [Access.map,acked,Option.map_some]
    | spins => rfl
    | faults => rfl
  | setVringEfds idx kick call =>
    simp only [observeOne,Option.map_some,Left.after,setVringEfds_fill]
  | getVringInfo arg copied =>
    have same : pkmCntrIoctlGetVringInfo (fill left known memory) arg copied =
        pkmCntrIoctlGetVringInfo known arg copied := by
      cases arg with
      | none => rfl
      | some kargs =>
        cases copied with
        | false => rfl
        | true => simp only [pkmCntrIoctlGetVringInfo,vringInfo_fill known memory nothing]
    simp only [observeOne,Option.map_some,Left.after,same]

end

/-! What shows. -/

/-- A memory with this selector and these ring registers in all queues. -/
def memoryWith (select : BitVec 32) (config : Config) : VirtioNet :=
  ⟨0,0,0,select,0,0,fun _ =>
    ⟨0,config.size,false,config.descTable,config.availRing,config.usedRing,none,none⟩⟩

section
variable {left : Left} {known : VirtioNet}

/-- Of the rings a report shows all that is left. -/
theorem vringInfo_shows {kargs : VringArgs} (same : ∀ memory memory',
    vringInfo (fill left known memory) kargs = vringInfo (fill left known memory') kargs)
    (i : Fin pkmVirtioNetQueueNum) (named : kargs.idx.toNat = i.val) :
    left.queues i = ⟨0,0,0,0⟩ := by
  obtain ⟨bound,own⟩ := queue_named named
  have two := same (memoryWith 0 ⟨0,0,0,0⟩) (memoryWith 0 ⟨-1,-1,-1,-1⟩)
  simp only [vringInfo,queueGetIdx,dif_pos bound,own,fill,Queue.fill,memoryWith,
    VringArgs.mk.injEq,true_and] at two
  obtain ⟨size,descTable,availRing,usedRing⟩ := two
  cases config : left.queues i with
  | mk =>
    rw [config] at size descTable availRing usedRing
    rw [Config.mk.injEq]
    exact ⟨blend_injective size,blend_injective descTable,blend_injective availRing,
      blend_injective usedRing⟩

/-- Of the selector a write of features shows whether anything is taken. -/
theorem writeFeatures_shows {features : BitVec 32} (selected : left.select = true)
    (same : ∀ memory memory',
      (handleMmioWriteAckedFeatures (fill left known memory) features).ackedFeatures =
        (handleMmioWriteAckedFeatures (fill left known memory') features).ackedFeatures) :
    TakesNothing known features := by
  by_cases driver : known.deviceStatus &&& virtioConfigSDriver = 0
  · exact .inl driver
  · by_cases done : known.deviceStatus &&& virtioConfigSFeaturesOk ≠ 0
    · exact .inr (.inl done)
    · by_cases failed : known.deviceStatus &&& virtioConfigSFailed ≠ 0
      · exact .inr (.inr (.inl failed))
      · refine .inr (.inr (.inr (or_absorbs_iff.mpr ?_)))
        have acked : ∀ select, (handleMmioWriteAckedFeatures
            (fill left known (memoryWith select ⟨0,0,0,0⟩)) features).ackedFeatures =
            known.ackedFeatures ||| (if select = 0 then features.setWidth 64
              else if select = 1 then features.setWidth 64 <<< 32 else 0) &&&
                known.availFeatures := by
          intro select
          simp only [handleMmioWriteAckedFeatures,fill,selected,if_true,driver,done,failed,if_false,
            memoryWith]
        have neither := acked 2
        have low := (acked 0).symm.trans (same _ _ |>.trans neither)
        have high := (acked 1).symm.trans (same _ _ |>.trans neither)
        simpa using And.intro low high

/-- An event that goes the same way in every memory shows nothing of what is left. -/
theorem observeOne_shows {event : IoEvent} (same : ∀ memory memory',
    (observeOne (fill left known memory) event).1 = (observeOne (fill left known memory') event).1) :
    ShowsNothing known left event := by
  cases event with
  | setVringEfds idx kick call => trivial
  | getVringInfo arg copied =>
    cases arg with
    | none => trivial
    | some kargs =>
      cases copied with
      | false => trivial
      | true =>
        intro i named
        have rings : ∀ memory memory', vringInfo (fill left known memory) kargs =
            vringInfo (fill left known memory') kargs := by
          intro memory memory'
          have two := same memory memory'
          simp only [observeOne,pkmCntrIoctlGetVringInfo,Observed.getVringInfo.injEq] at two
          exact Option.some.inj (congrArg Prod.snd two)
        exact vringInfo_shows rings i named
  | mmio call =>
    cases call with
    | read offset size => trivial
    | write val offset size =>
      intro served selected
      refine writeFeatures_shows selected fun memory memory' => ?_
      have two := same memory memory'
      simp only [observeOne,respond,handleRkcallMmioWrite,served] at two
      exact (Observed.mmio.inj two).2

/-- From the same known device all memories look alike exactly where nothing that is left
shows. -/
theorem observe_determined_iff (events : List IoEvent) (left : Left) (known : VirtioNet) :
    (∀ memory memory', observe (fill left known memory) events =
      observe (fill left known memory') events) ↔ Determined known left events := by
  induction events generalizing left known with
  | nil => exact iff_of_true (fun _ _ => rfl) trivial
  | cons event rest ih =>
    by_cases nothing : ShowsNothing known left event
    · simp only [observe,Determined,observeOne_fill known _ event nothing]
      cases (observeOne known event).2 with
      | none => exact iff_of_true (fun _ _ => rfl) ⟨nothing,trivial⟩
      | some w =>
        simp only [Option.map_some,List.cons.injEq,true_and]
        rw [ih]
        exact (and_iff_right nothing).symm
    · refine iff_of_false (fun same => nothing ?_) fun determined => nothing determined.1
      refine observeOne_shows fun memory memory' => ?_
      have two := same memory memory'
      simp only [observe,List.cons.injEq] at two
      exact two.1

end

/-! From the creation on. -/

open Create

/-- In every memory there is a container. -/
theorem grants_creates (memory : Cntr) : ∃ cntr k,
    pkmDevIoctlCreateCntr grants memory ⟨[],pkmCntrMinPcid⟩ = .ret (3,some cntr) k := ⟨_,_,rfl⟩

/-- Containers made in any two memories show the same in all events exactly where nothing
that is left of the memory shows. -/
theorem memory_unseen_iff (events : List IoEvent) :
    (∀ env env' memory memory' r r' cntr cntr' k k' l l',
      pkmDevIoctlCreateCntr env memory k = .ret (r,some cntr) l →
      pkmDevIoctlCreateCntr env' memory' k' = .ret (r',some cntr') l' →
      observe cntr.virtioNet events = observe cntr'.virtioNet events) ↔
    Determined blankDevice .all events := by
  rw [← observe_determined_iff]
  constructor
  · intro same memory memory'
    obtain ⟨cntr,k,made⟩ := grants_creates { blankCntr with virtioNet := memory }
    obtain ⟨cntr',k',made'⟩ := grants_creates { blankCntr with virtioNet := memory' }
    have two := same _ _ _ _ _ _ _ _ _ _ _ _ made made'
    rw [(create_whole made).virtioNet,(create_whole made').virtioNet] at two
    rwa [initVirtioNet_fill,initVirtioNet_fill memory'] at two
  · intro same env env' memory memory' r r' cntr cntr' k k' l l' made made'
    rw [(create_whole made).virtioNet,(create_whole made').virtioNet,initVirtioNet_fill,
      initVirtioNet_fill memory'.virtioNet]
    exact same _ _

/-- The launcher gets the rings of a queue that no guest has written. -/
theorem vringInfo_leaks : ¬ ∀ env env' memory memory' r r' cntr cntr' k k' l l',
    ∀ events : List IoEvent, pkmDevIoctlCreateCntr env memory k = .ret (r,some cntr) l →
      pkmDevIoctlCreateCntr env' memory' k' = .ret (r',some cntr') l' →
      observe cntr.virtioNet events = observe cntr'.virtioNet events := by
  intro claim
  obtain ⟨cntr,k,made⟩ := grants_creates blankCntr
  obtain ⟨cntr',k',made'⟩ := grants_creates
    { blankCntr with virtioNet := memoryWith 0 ⟨1,0,0,0⟩ }
  have two := claim _ _ _ _ _ _ _ _ _ _ _ _ [.getVringInfo (some ⟨0,0,0,0,0⟩) true] made made'
  rw [(create_whole made).virtioNet,(create_whole made').virtioNet] at two
  exact absurd two (by decide)

end Cki.Virtio
