import Cki.Monitor

/-! What each monitor call does when it returns, and what it leaves behind when it
stops. Types are read by frame number here: `typeOf` is `none` for a frame that
lies beyond `page_desc`. -/
namespace Cki.Monitor

def descOf (frame : Frame) : Option (Fin pageDescLength) :=
  if h : frame.toNat < pageDescLength then some ⟨frame.toNat,h⟩ else none

def State.typeOf (s : State) (frame : Frame) : Option PageType :=
  (descOf frame).map s.pageDesc

theorem frameIndex_toNat (value : Word) :
    ((value &&& pgFrame) / pageSize).toNat = (frameOf value).toNat := by
  have mask : (0x000ffffffffff000 : Nat) = (2 ^ 40 - 1) <<< 12 := by decide
  simp only [pgFrame,pageSize,frameOf,BitVec.toNat_udiv,BitVec.toNat_and,BitVec.extractLsb'_toNat]
  change (value.toNat &&& 0x000ffffffffff000) / 2 ^ 12 = _
  rw [mask]
  apply Nat.eq_of_testBit_eq
  intro i
  simp only [Nat.testBit_div_two_pow,Nat.testBit_and,Nat.testBit_shiftLeft,
    Nat.testBit_two_pow_sub_one,Nat.testBit_mod_two_pow,Nat.testBit_shiftRight]
  rw [Nat.add_comm 12 i]
  simp [Bool.and_comm]

/-- The descriptor pointer depends on the frame alone. -/
theorem getPageDescPtr_eq (mapping : Word) : getPageDescPtr mapping = descOf (frameOf mapping) := by
  have index := frameIndex_toNat mapping
  have bound := numPageDescEntries_toNat
  simp only [getPageDescPtr,descOf,BitVec.le_def,index,bound]
  by_cases inside : (frameOf mapping).toNat < pageDescLength
  · simp [inside,Nat.not_le.mpr inside]
  · simp [inside,Nat.not_lt.mp inside]

theorem descOf_injective {a b : Frame} {desc : Fin pageDescLength} (ha : descOf a = some desc)
    (hb : descOf b = some desc) : a = b := by
  simp only [descOf] at ha hb
  split at ha <;> split at hb <;> simp_all
  apply BitVec.eq_of_toNat_eq
  have := congrArg Fin.val ha
  have := congrArg Fin.val hb
  simp_all

/-! State updates. -/

@[simp] theorem setMem_mem (s : State) (slot other : Slot) (value : Word) :
    (s.setMem slot value).mem other = if other = slot then value else s.mem other := rfl
@[simp] theorem setMem_pageDesc (s : State) (slot : Slot) (value : Word) :
    (s.setMem slot value).pageDesc = s.pageDesc := rfl
@[simp] theorem setMem_cr3 (s : State) (slot : Slot) (value : Word) :
    (s.setMem slot value).cr3 = s.cr3 := rfl
@[simp] theorem setMem_initialized (s : State) (slot : Slot) (value : Word) :
    (s.setMem slot value).mmuIsInitialized = s.mmuIsInitialized := rfl
@[simp] theorem setMem_typeOf (s : State) (slot : Slot) (value : Word) (frame : Frame) :
    (s.setMem slot value).typeOf frame = s.typeOf frame := rfl

@[simp] theorem setMem_same (s : State) (slot : Slot) : s.setMem slot (s.mem slot) = s := by
  cases s with
  | mk mem pageDesc initialized cr3 =>
    simp only [State.setMem,State.mk.injEq,and_true]
    funext other
    split <;> simp_all

@[simp] theorem setType_mem (s : State) (desc : Fin pageDescLength) (type : PageType) :
    (s.setType desc type).mem = s.mem := rfl
@[simp] theorem setType_cr3 (s : State) (desc : Fin pageDescLength) (type : PageType) :
    (s.setType desc type).cr3 = s.cr3 := rfl
@[simp] theorem setType_initialized (s : State) (desc : Fin pageDescLength) (type : PageType) :
    (s.setType desc type).mmuIsInitialized = s.mmuIsInitialized := rfl

/-- Retyping a descriptor retypes the one frame it describes. -/
theorem setType_typeOf (s : State) {desc : Fin pageDescLength} {frame : Frame}
    (describes : descOf frame = some desc) (type : PageType) (other : Frame) :
    (s.setType desc type).typeOf other = if other = frame then some type else s.typeOf other := by
  by_cases same : other = frame
  · subst other
    simp [State.typeOf,describes,State.setType]
  · rw [if_neg same]
    simp only [State.typeOf,State.setType]
    cases h : descOf other with
    | none => rfl
    | some d =>
      have apart : d ≠ desc := by
        rintro rfl
        exact same (descOf_injective h describes)
      simp [apart]

/-- The walk reads memory and CR3 alone. -/
theorem getPgeVaddr_congr {s t : State} (mem : t.mem = s.mem) (cr3 : t.cr3 = s.cr3) (vaddr : Word) :
    getPgeVaddr vaddr t = getPgeVaddr vaddr s := by
  cases s
  cases t
  cases mem
  cases cr3
  rfl

/-! The checks of an update. -/

def InRange (paddr size : Word) : Prop := ¬ paddr + size < paddr ∧ paddr + size < memSize

/-- What the monitor asks of a present entry in a page of type `level`. -/
def EntryAccepted (s : State) (level : PageType) (value : Word) : Prop :=
  match level with
  | .l1 => InRange (value &&& pgFrame) bytes4K ∧
      ∃ type, s.typeOf (frameOf value) = some type ∧ type.isPtp = false
  | .l2 => if Huge value then InRange (value &&& pgFrame) bytes2M
      else s.typeOf (frameOf value) = some .l1
  | .l3 => if Huge value then InRange (value &&& pgFrame) bytes1G
      else s.typeOf (frameOf value) = some .l2
  | .l4 => ¬ Huge value ∧ s.typeOf (frameOf value) = some .l3
  | _ => False

def State.IsPtp (s : State) (frame : Frame) : Prop :=
  ∃ type, s.typeOf frame = some type ∧ type.isPtp = true

/-- Only an entry of a page-table page passes the check. -/
theorem EntryAccepted.isPtp {s : State} {level : PageType} {value : Word}
    (accepted : EntryAccepted s level value) : level.isPtp = true := by
  cases level with
  | l1 | l2 | l3 | l4 => rfl
  | unused | other bits => exact accepted.elim

/-- The frame of an entry pointer, by its physical address. -/
def ptrFrame (layout : Layout) (ptr : Ptr) : Frame := frameOf (getPhysicalAddr layout ptr)

@[simp] theorem ptrFrame_entry (layout : Layout) (slot : Slot) :
    ptrFrame layout (.entry slot) = slot.frame := frameOf_addr slot

/-- The update reaches the type check: the value is present and the frame of the
slot has a descriptor. Otherwise it is accepted as it is. -/
def Checked (layout : Layout) (s : State) (ptr : Ptr) (value : Word) (level : PageType) : Prop :=
  Present value ∧ s.typeOf (ptrFrame layout ptr) = some level

def Accepted (layout : Layout) (s : State) (ptr : Ptr) (value : Word) : Prop :=
  ∀ level, Checked layout s ptr value level → EntryAccepted s level value

/-- In a page of a known type the rule of the type decides. -/
theorem accepted_iff {layout : Layout} {s : State} {ptr : Ptr} {value : Word} {level : PageType}
    (type : s.typeOf (ptrFrame layout ptr) = some level) (present : Present value) :
    Accepted layout s ptr value ↔ EntryAccepted s level value := by
  constructor
  · intro accepted
    exact accepted level ⟨present,type⟩
  · rintro accepted other ⟨_,found⟩
    rw [type] at found
    cases found
    exact accepted

/-- A check answers `true` where `p` holds, stops where it does not, and writes
nothing either way. -/
def Decides (s : State) (check : Ksm Bool) (p : Prop) : Prop :=
  (p → check s = .ret true s) ∧ (¬ p → check s = .bug s ∨ check s = .fault s)

theorem Decides.congr {s : State} {check : Ksm Bool} {p q : Prop} (decides : Decides s check p)
    (same : p ↔ q) : Decides s check q := by
  rwa [← same]

theorem decides_true (s : State) : Decides s (pure true) True :=
  ⟨fun _ => rfl,fun never => absurd trivial never⟩

theorem decides_stop (s : State) : Decides s (Call.stop >>= fun (_ : PUnit) => pure true) False :=
  ⟨fun never => never.elim,fun _ => .inl rfl⟩

theorem decides_stopIf {s : State} {next : Ksm Bool} {p q : Prop} [Decidable p]
    (rest : Decides s next q) :
    Decides s (Call.stopIf p >>= fun (_ : PUnit) => next) (¬ p ∧ q) := by
  by_cases bad : p
  · refine ⟨fun good => absurd bad good.1,fun _ => .inl ?_⟩
    rw [Call.bind_apply,Call.stopIf_apply,if_pos bad]
  · have passes : (Call.stopIf p >>= fun (_ : PUnit) => next) s = next s := by
      rw [Call.bind_apply,Call.stopIf_apply,if_neg bad]
    rw [Decides,passes]
    exact rest.congr (by simp [bad])

theorem decides_range {s : State} {next : Ksm Bool} {q : Prop} (paddr size : Word)
    (rest : Decides s next q) :
    Decides s (assertPageInRange paddr size >>= fun _ => next) (InRange paddr size ∧ q) := by
  have checks := decides_stopIf (p := paddr + size < paddr)
    (decides_stopIf (p := memSize ≤ paddr + size) rest)
  rw [Std.not_le,← and_assoc] at checks
  rw [assertPageInRange,Call.bind_assoc]
  exact checks

theorem decides_type {s : State} {next : PageType → Ksm Bool} {q : PageType → Prop} (value : Word)
    (rest : ∀ type, Decides s (next type) (q type)) :
    Decides s (typeAt (getPageDescPtr value) >>= next)
      (∃ type, s.typeOf (frameOf value) = some type ∧ q type) := by
  rw [getPageDescPtr_eq]
  cases desc : descOf (frameOf value) with
  | none =>
    refine ⟨?_,fun _ => .inr rfl⟩
    rintro ⟨type,found,_⟩
    simp [State.typeOf,desc] at found
  | some d =>
    have found : s.typeOf (frameOf value) = some (s.pageDesc d) := by simp [State.typeOf,desc]
    have unfolded : (typeAt (some d) >>= next) s = next (s.pageDesc d) s := rfl
    rw [Decides,unfolded]
    exact (rest (s.pageDesc d)).congr (by simp [found])

/-- The switch accepts exactly the accepted entries. -/
theorem ptUpdateSwitch_decides (s : State) (level : PageType) (value : Word) :
    Decides s (ptUpdateSwitch level value) (EntryAccepted s level value) := by
  cases level with
  | l1 =>
    refine (decides_range _ _ (decides_type value fun type =>
      decides_stopIf (decides_true s))).congr ?_
    simp [EntryAccepted]
  | l2 | l3 =>
    by_cases huge : Huge value
    · simp only [ptUpdateSwitch,huge,if_true]
      exact (decides_range _ _ (decides_true s)).congr (by simp [EntryAccepted,huge])
    · simp only [ptUpdateSwitch,huge,if_false]
      refine (decides_type value fun type => decides_stopIf (decides_true s)).congr ?_
      simp [EntryAccepted,huge]
  | l4 =>
    refine (decides_stopIf (decides_type value fun type =>
      decides_stopIf (decides_true s))).congr ?_
    simp [EntryAccepted]
  | unused | other bits => exact decides_stop s

theorem ptUpdateIsValid_decides (layout : Layout) (s : State) (ptr : Ptr) (value : Word) :
    Decides s (ptUpdateIsValid layout ptr value) (Accepted layout s ptr value) := by
  by_cases present : Present value
  · simp only [ptUpdateIsValid,present,not_true,if_false]
    rw [getPageDescPtr_eq]
    cases desc : descOf (frameOf (getPhysicalAddr layout ptr)) with
    | none =>
      apply (decides_true s).congr
      simp [Accepted,Checked,State.typeOf,ptrFrame,desc]
    | some d =>
      apply (ptUpdateSwitch_decides s (s.pageDesc d) value).congr
      simp [Accepted,Checked,State.typeOf,ptrFrame,desc,present]
  · simp only [ptUpdateIsValid,present,not_false_iff,if_true]
    exact (decides_true s).congr (by simp [Accepted,Checked,present])

theorem updateMapping_initialized (layout : Layout) {s : State}
    (initialized : s.mmuIsInitialized ≠ 0) (ptr : Ptr) (value : Word) :
    updateMapping layout ptr value s = (ptUpdateIsValid layout ptr value >>= fun valid =>
      Call.stopIf (valid = false) >>= fun (_ : PUnit) => pageEntryStore ptr value) s := by
  simp only [updateMapping,Call.bind_apply,Call.read_apply,ne_eq,initialized,not_false_eq_true,
    if_true]

/-- After initialization an update stores exactly the accepted values and leaves
everything as it was otherwise. -/
theorem updateMapping_spec (layout : Layout) {s : State} (initialized : s.mmuIsInitialized ≠ 0)
    (ptr : Ptr) (value : Word) :
    (Accepted layout s ptr value →
      updateMapping layout ptr value s = .ret () (s.store ptr value)) ∧
    (¬ Accepted layout s ptr value → updateMapping layout ptr value s = .bug s ∨
      updateMapping layout ptr value s = .fault s) := by
  have decides := ptUpdateIsValid_decides layout s ptr value
  constructor
  · intro accepted
    have valid := decides.1 accepted
    simp [updateMapping_initialized layout initialized,Call.bind_apply,valid,pageEntryStore]
  · intro refused
    rcases decides.2 refused with stops | faults
    · left
      simp [updateMapping_initialized layout initialized,Call.bind_apply,stops]
    · right
      simp [updateMapping_initialized layout initialized,Call.bind_apply,faults]

theorem updateMapping_ret {layout : Layout} {s t : State} {ptr : Ptr} {value : Word}
    (initialized : s.mmuIsInitialized ≠ 0) (returns : updateMapping layout ptr value s = .ret () t) :
    Accepted layout s ptr value ∧ t = s.store ptr value := by
  have spec := updateMapping_spec layout initialized ptr value
  by_cases accepted : Accepted layout s ptr value
  · rw [spec.1 accepted] at returns
    cases returns
    exact ⟨accepted,rfl⟩
  · rcases spec.2 accepted with stops | faults
    · rw [stops] at returns
      cases returns
    · rw [faults] at returns
      cases returns

/-! Declaring, removing and loading. -/

/-- Writing the mapping of a page back as it was changes nothing. -/
theorem initDeclaredPage_apply (layout : Layout) (frameAddr : Word) (s : State) :
    initDeclaredPage layout frameAddr s = .ret () s := by
  simp only [initDeclaredPage,Call.bind_apply,Call.read_apply]
  cases getPgeVaddr (layout.physToVirt frameAddr) s with
  | none => rfl
  | some slot =>
    simp only [Call.bind_apply,Call.read_apply,pageEntryStore,Call.modify_apply,State.store,
      setMappingReadOnly,setMem_same]

theorem svaDeclarePage_ret {layout : Layout} {s t : State} {paddr : Word} {type : PageType}
    (returns : svaDeclarePage layout paddr type s = .ret () t) :
    ∃ desc, descOf (frameOf paddr) = some desc ∧
      (s.pageDesc desc = .unused ∨ s.pageDesc desc = type) ∧ t = s.setType desc type := by
  simp only [svaDeclarePage,getPageDescPtr_eq] at returns
  cases found : descOf (frameOf paddr) with
  | none =>
    rw [found] at returns
    cases returns
  | some desc =>
    rw [found] at returns
    by_cases bad : s.pageDesc desc ≠ .unused ∧ s.pageDesc desc ≠ type
    · simp [Call.bind_apply,bad] at returns
    · simp only [Call.bind_apply,Call.read_apply,Call.stopIf_apply,if_neg bad,Call.modify_apply,
        initDeclaredPage_apply] at returns
      cases returns
      refine ⟨desc,rfl,?_,rfl⟩
      rw [Classical.not_and_iff_not_or_not,Classical.not_not,Classical.not_not] at bad
      exact bad

theorem svaRemovePage_ret {layout : Layout} {s t : State} {paddr : Word}
    (returns : svaRemovePage layout paddr s = .ret () t) :
    ∃ desc, descOf (frameOf paddr) = some desc ∧ t = s.setType desc .unused := by
  simp only [svaRemovePage,getPageDescPtr_eq,Call.bind_apply,Call.read_apply] at returns
  cases found : descOf (frameOf paddr) with
  | none =>
    rw [found] at returns
    cases returns
  | some desc =>
    rw [found] at returns
    refine ⟨desc,rfl,?_⟩
    simp only [Call.follow_some,Call.modify_apply] at returns
    cases entry : getPgeVaddr (layout.physToVirt paddr) s with
    | none =>
      rw [entry] at returns
      cases returns
    | some slot =>
      rw [entry] at returns
      simp only [Call.follow_some,pageEntryStore,Call.modify_apply,State.store,
        setMappingReadWrite,setMem_same] at returns
      cases returns
      rfl

theorem svaMmLoadPgtable_ret {s t : State} {cr3 : Word} (initialized : s.mmuIsInitialized ≠ 0)
    (returns : svaMmLoadPgtable cr3 s = .ret () t) :
    s.typeOf (frameOf cr3) = some .l4 ∧ t = { s with cr3 := dropNoFlush cr3 } := by
  simp only [svaMmLoadPgtable,Call.bind_apply,Call.read_apply,ne_eq,initialized,not_false_eq_true,
    if_true,getPageDescPtr_eq,frameOf_dropNoFlush] at returns
  cases found : descOf (frameOf cr3) with
  | none =>
    rw [found] at returns
    cases returns
  | some desc =>
    have type : s.typeOf (frameOf cr3) = some (s.pageDesc desc) := by simp [State.typeOf,found]
    rw [found] at returns
    by_cases root : s.pageDesc desc = .l4
    · simp [typeAt,Call.bind_apply,root,loadCr3] at returns
      exact ⟨type.trans (congrArg some root),returns.symm⟩
    · simp [typeAt,Call.bind_apply,root] at returns

end Cki.Monitor
