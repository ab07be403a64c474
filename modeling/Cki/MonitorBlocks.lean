import Cki.MonitorBoot
import Cki.MonitorLeaves
import Cki.Start

/-! The KSM's range check against the blocks of the container. The check knows the size of
physical memory only; where the blocks lie is known to the host's `mem_check`. -/
namespace Cki.Monitor

def pageToPhys (frame : Frame) : Word := 0#12 ++ frame ++ 0#12

def InBlocks (cntr : Start.Cntr) (frame : Frame) : Prop :=
  Start.memCheck cntr (pageToPhys frame) = false

/-- What `assert_page_in_range` and the test for page-table pages refuse. -/
def LeafRefused (s : State) (level : PageType) (value : Word) : Prop :=
  match level with
  | .l1 => ¬ InRange (value &&& pgFrame) bytes4K ∨ s.IsPtp (frameOf value)
  | .l2 => ¬ InRange (value &&& pgFrame) bytes2M
  | .l3 => ¬ InRange (value &&& pgFrame) bytes1G
  | _ => False

/-- The size that `pt_update_is_valid` passes for a leaf of this level. -/
def leafBytes : PageType → Word
  | .l2 => bytes2M
  | .l3 => bytes1G
  | _ => bytes4K

/-- The number of frames of a leaf. -/
def leafFrames (level : PageType) : Nat := 2 ^ leafShift level

theorem leafBytes_toNat (level : PageType) : (leafBytes level).toNat = leafFrames level * 4096 := by
  cases level <;> simp [leafBytes,leafFrames,leafShift,bytes4K,bytes2M,bytes1G]

theorem leafFrames_le (level : PageType) : leafFrames level ≤ 262144 := by
  cases level <;> simp [leafFrames,leafShift]

/-- The check of the range is one of the frame number. -/
theorem inRange_iff (value : Word) (level : PageType) :
    InRange (value &&& pgFrame) (leafBytes level) ↔
      (frameOf value).toNat + leafFrames level < pageDescLength := by
  have index := frameIndex_toNat value
  have aligned : (value &&& pgFrame).toNat % 4096 = 0 := by
    rw [← Nat.and_two_pow_sub_one_eq_mod _ 12,BitVec.toNat_and,Nat.and_assoc]
    exact Nat.and_zero _
  have bound := (frameOf value).isLt
  have bytes := leafBytes_toNat level
  have small := leafFrames_le level
  rw [InRange]
  generalize value &&& pgFrame = paddr at index aligned ⊢
  simp only [BitVec.lt_def,BitVec.toNat_add,BitVec.toNat_udiv,memSize,pageSize,pageDescLength,
    bytes] at index ⊢
  change paddr.toNat / 4096 = _ at index
  change ¬ (paddr.toNat + _) % 2 ^ 64 < paddr.toNat ∧ (paddr.toNat + _) % 2 ^ 64 < 34359738368 ↔ _
  omega

theorem inRange_frame {value : Word} (inRange : InRange (value &&& pgFrame) bytes4K) :
    (frameOf value).toNat < pageDescLength :=
  Nat.lt_of_le_of_lt (Nat.le_add_right _ _) ((inRange_iff value .l1).mp inRange)

/-- A leaf passes the checks unless it is refused: of the leaves only an entry of a last
level table has its frame looked up, and a frame in range has a descriptor. -/
theorem leaf_accepted_iff {s : State} {level : PageType} {value : Word} (leaf : IsLeaf level value) :
    EntryAccepted s level value ↔ ¬ LeafRefused s level value := by
  cases level with
  | l1 =>
    simp only [EntryAccepted,LeafRefused,not_or,Classical.not_not]
    refine and_congr_right fun inRange => ?_
    have describes : descOf (frameOf value) = some ⟨_,inRange_frame inRange⟩ :=
      dif_pos (inRange_frame inRange)
    simp [State.IsPtp,State.typeOf,describes]
  | l2 | l3 => simp [EntryAccepted,LeafRefused,leaf.2]
  | l4 | unused | other bits => exact leaf.elim

variable {layout : Layout} {s : State} {ptr : Ptr} {level : PageType} {value : Word}

/-- A leaf is stored exactly when it is not refused. -/
theorem leaf_stored_iff (initialized : s.mmuIsInitialized ≠ 0) (kind : SetKind)
    (type : s.typeOf (ptrFrame layout ptr) = some level) (leaf : IsLeaf level value) :
    (∃ t, CallStep layout s (.set kind ptr value) t) ↔ ¬ LeafRefused s level value := by
  rw [← leaf_accepted_iff leaf]
  have present : Present value := by
    cases level with
    | l1 => exact leaf
    | l2 | l3 => exact leaf.1
    | l4 | unused | other bits => exact leaf.elim
  constructor
  · rintro ⟨t,step⟩
    exact (accepted_iff type present).mp (callStep_effect initialized step).1
  · intro accepted
    exact ⟨_,set_step layout initialized kind ((accepted_iff type present).mpr accepted)⟩

/-- A leaf that a call installs stays inside the container exactly when it is refused or
maps frames of the blocks alone. -/
theorem set_leaf_inBlocks_iff (cntr : Start.Cntr) (initialized : s.mmuIsInitialized ≠ 0)
    (kind : SetKind) (type : s.typeOf (ptrFrame layout ptr) = some level) (leaf : IsLeaf level value) :
    (∀ t, CallStep layout s (.set kind ptr value) t →
      ∀ frame, Covers level value frame → InBlocks cntr frame) ↔
    LeafRefused s level value ∨ ∀ frame, Covers level value frame → InBlocks cntr frame := by
  have stored := leaf_stored_iff initialized kind type leaf
  constructor
  · intro confined
    by_cases refused : LeafRefused s level value
    · exact .inl refused
    · obtain ⟨t,step⟩ := stored.mpr refused
      exact .inr (confined t step)
  · rintro (refused | inside) t step
    · exact absurd refused (stored.mp ⟨t,step⟩)
    · exact inside

def blocksOf : Start.Cntr := ⟨10,0x40000000,0x80000000,0xc0000000⟩

/-- A page of the first block may be mapped. -/
theorem set_leaf_inBlocks_emptyTables : IsLeaf .l1 0x40005003 ∧
    ∀ t, CallStep flatLayout emptyTables (.set .pte (.entry ⟨4,0⟩) 0x40005003) t →
      ∀ frame, Covers .l1 0x40005003 frame → InBlocks blocksOf frame := by
  have type : emptyTables.typeOf (ptrFrame flatLayout (.entry ⟨4,0⟩)) = some .l1 := by
    rw [ptrFrame_entry]
    rfl
  have leaf : IsLeaf .l1 0x40005003 := by
    change Present _
    decide
  refine ⟨leaf,(set_leaf_inBlocks_iff blocksOf (by decide) .pte type leaf).mpr (.inr ?_)⟩
  intro frame covers
  have same : frame = 0x40005 := by
    have own : frame = frameOf 0x40005003 := by simpa [Covers,leafShift] using covers
    exact own.trans (by decide)
  rw [same]
  exact (by decide : Start.memCheck blocksOf (pageToPhys 0x40005) = false)

/-- After initialisation the guest declares frame 4 as a last level table and maps frame 5,
which lies in none of its blocks. -/
theorem leaf_outside_blocks : ¬ ∀ (layout : Layout) (cntr : Start.Cntr) (start initial s t : State)
    (ops : List Op) (kind : SetKind) (ptr : Ptr) (value : Word) (level : PageType) (frame : Frame),
    pkmInit start = .ret () initial → Run (CallStep layout) initial ops s →
    CallStep layout s (.set kind ptr value) t → s.typeOf (ptrFrame layout ptr) = some level →
    IsLeaf level value → Covers level value frame → InBlocks cntr frame := by
  intro claim
  obtain ⟨s,init⟩ := svaMmuInit_returns bootTables_described (by decide)
  have unused : s.typeOf 4 = some .unused := (bootTables_shape rfl rfl).untouched init (by decide)
  have free : s.typeOf 5 = some .unused := (bootTables_shape rfl rfl).untouched init (by decide)
  have desc : descOf (4 : Frame) = some ⟨4,by decide⟩ := rfl
  have declared : CallStep flatLayout s (.alloc .pte 4) (s.setType ⟨4,by decide⟩ .l1) :=
    alloc_step flatLayout _ _ desc (.inl (Option.some.inj unused))
  have initialized : (s.setType ⟨4,by decide⟩ .l1).mmuIsInitialized ≠ 0 := by
    rw [setType_initialized,(svaMmuInit_ret init).2.2.1]
    decide
  have type : (s.setType ⟨4,by decide⟩ .l1).typeOf (ptrFrame flatLayout (.entry ⟨4,0⟩)) = some .l1 := by
    rw [ptrFrame_entry,setType_typeOf s desc,if_pos rfl]
  have leaf : IsLeaf .l1 0x5003 := by
    change Present _
    decide
  have stored : ¬ LeafRefused (s.setType ⟨4,by decide⟩ .l1) .l1 0x5003 := by
    rintro (outside | ⟨type,found,isPtp⟩)
    · exact outside (by unfold InRange; decide)
    · have frame : frameOf (0x5003 : Word) = 5 := by decide
      rw [frame,setType_typeOf s desc,if_neg (by decide),free] at found
      cases found
      cases isPtp
  obtain ⟨t,step⟩ := (leaf_stored_iff initialized .pte type leaf).mpr stored
  have inside := claim _ blocksOf _ _ _ _ _ _ _ _ _ _ init (.single declared) step type leaf rfl
  exact absurd inside (by decide : ¬ Start.memCheck blocksOf (pageToPhys (frameOf 0x5003)) = false)

end Cki.Monitor
