import Cki.MonitorGuest
import Cki.MonitorRelease
import Cki.AddressSpace

/-! The monitor's state as an address space of tables, and its calls as the operations of
such a space. -/
namespace Cki.Monitor

abbrev Space := AddressSpace Frame (BitVec 9) 3
abbrev SpaceOp := AddressSpace.Op Frame (BitVec 9)

def PageType.level : PageType → Option Nat
  | .l1 => some 0
  | .l2 => some 1
  | .l3 => some 2
  | .l4 => some 3
  | .unused | .other _ => none

instance (value : Word) : (level : PageType) → Decidable (IsLeaf level value)
  | .l1 => inferInstanceAs (Decidable (Present value))
  | .l2 | .l3 => inferInstanceAs (Decidable (Present value ∧ Huge value))
  | .l4 | .unused | .other _ => inferInstanceAs (Decidable False)

/-- What a word of a page of this type leads to. -/
def entryOf (type : PageType) (value : Word) : AddressSpace.Entry Frame :=
  if NonLeaf type value then .table (frameOf value)
  else if IsLeaf type value then .leaf (frameOf value)
  else .empty

/-- The space that the descriptors, the tables and CR3 make up. -/
structure Models (space : Space) (s : State) : Prop where
  initialized : s.mmuIsInitialized ≠ 0
  named : ∀ frame bits, s.typeOf frame ≠ some (.other bits)
  level : ∀ frame, space.level frame = (s.typeOf frame).bind PageType.level
  entry : ∀ frame type, s.typeOf frame = some type → ∀ index,
    space.entry frame index = entryOf type (s.mem ⟨frame,index⟩)
  root : space.root = frameOf s.cr3

def indices (vaddr : Word) (level : Nat) : BitVec 9 := Walk.index level vaddr

/-- What the calls ask of an operation beyond what keeps a space one. The last of it, that a
table holds none of the monitor's own words, they leave to the kernel. -/
def Takes (layout : Layout) (space : Space) : SpaceOp → Prop
  | .declare table _ => table.toNat < pageDescLength ∧ ¬ layout.OwnFrame table
  | .remove table => space.root ≠ 0 ∧ ∃ pfn, pfnFrame pfn = table ∧
      space.locate (indices (layout.physToVirt (pfn <<< 12))) ≠ none
  | .set table _ (.leaf page) => ∀ level, space.level table = some level →
      page.toNat + 2 ^ (9 * level) < pageDescLength ∧ (level = 0 → space.level page = none)
  | .set _ _ _ | .switch _ => True

def SpaceStep (layout : Layout) : Space → SpaceOp → Space → Prop :=
  Guarded (Takes layout) AddressSpace.Step

/-- The MMU maps the address to memory at this frame by an entry of this level. -/
def MapsTo (s : State) (vaddr : Word) (level : Nat) (page : Frame) : Prop :=
  ∃ slot, Walk.Ends s.mem (frameOf s.cr3) vaddr level slot ∧ Present (s.mem slot) ∧
    frameOf (s.mem slot) = page

/-! Types and levels. -/

theorem level_ofLevel {level : Nat} (bound : level ≤ 3) :
    (PageType.ofLevel level).level = some level := by
  obtain rfl | rfl | rfl | rfl : level = 0 ∨ level = 1 ∨ level = 2 ∨ level = 3 := by omega
  all_goals rfl

theorem PageType.eq_ofLevel {type : PageType} {level : Nat} (at_ : type.level = some level) :
    type = .ofLevel level ∧ level ≤ 3 := by
  cases type with
  | l1 | l2 | l3 | l4 =>
    cases at_
    exact ⟨rfl,by decide⟩
  | unused | other bits => cases at_

theorem isPtp_iff (type : PageType) : type.isPtp = true ↔ type.level ≠ none := by
  cases type <;> simp [PageType.isPtp,PageType.level]

section
variable {type : PageType} {value : Word} {frame : Frame}

theorem NonLeaf.not_leaf (leads : NonLeaf type value) : ¬ IsLeaf type value := by
  intro leaf
  cases type with
  | l2 | l3 => exact leads.2 leaf.2
  | l1 => exact leads
  | l4 | unused | other bits => exact leaf

theorem IsLeaf.present (leaf : IsLeaf type value) : Present value := by
  cases type with
  | l1 => exact leaf
  | l2 | l3 => exact leaf.1
  | l4 | unused | other bits => exact leaf.elim

theorem entryOf_table : entryOf type value = .table frame ↔ NonLeaf type value ∧ frameOf value = frame := by
  rw [entryOf]
  split
  · simp [*]
  · split <;> simp [*]

theorem entryOf_leaf : entryOf type value = .leaf frame ↔ IsLeaf type value ∧ frameOf value = frame := by
  rw [entryOf]
  split
  · rename_i leads
    simp [leads.not_leaf]
  · split <;> simp [*]

theorem entryOf_absent (absent : ¬ Present value) : entryOf type value = .empty := by
  cases type <;> simp [entryOf,NonLeaf,IsLeaf,absent]

theorem entryOf_empty (ptp : type.isPtp = true) (empty : entryOf type value = .empty) :
    ¬ Present value := by
  intro present
  cases type with
  | l1 | l4 => simp [entryOf,NonLeaf,IsLeaf,present] at empty
  | l2 | l3 =>
    by_cases huge : Huge value <;> simp [entryOf,NonLeaf,IsLeaf,present,huge] at empty
  | unused | other bits => cases ptp

theorem entryOf_plain (plain : type.isPtp = false) : entryOf type value = .empty := by
  cases type with
  | l1 | l2 | l3 | l4 => cases plain
  | unused | other bits => rfl

end

theorem leaf_large {level : Nat} {value : Word} (bound : level + 1 ≤ 3)
    (leaf : IsLeaf (.ofLevel (level + 1)) value) :
    value.getLsbD 0 = true ∧ Walk.Large (level + 1) value := by
  obtain rfl | rfl | rfl : level = 0 ∨ level = 1 ∨ level = 2 := by omega
  · exact ⟨(present_iff _).mp leaf.1,.inl rfl,(huge_iff _).mp leaf.2⟩
  · exact ⟨(present_iff _).mp leaf.1,.inr rfl,(huge_iff _).mp leaf.2⟩
  · exact leaf.elim

theorem nonLeaf_small {level : Nat} {value : Word} (leads : NonLeaf (.ofLevel level) value) :
    ¬ Walk.Large level value := by
  rintro ⟨rfl | rfl,large⟩ <;> exact leads.2 ((huge_iff _).mpr large)

section
variable {space : Space} {s : State} (models : Models space s)
include models

theorem Models.fits {frame : Frame} {type : PageType} (here : s.typeOf frame = some type)
    (index : BitVec 9) :
    AddressSpace.Fits space.level 3 frame (entryOf type (s.mem ⟨frame,index⟩)) := by
  rw [← models.entry frame type here index]
  exact space.fits frame index

theorem Models.level_ptp {frame : Frame} {level : Nat} (here : space.level frame = some level) :
    s.typeOf frame = some (.ofLevel level) ∧ level ≤ 3 := by
  rw [models.level] at here
  obtain ⟨type,found,at_⟩ := Option.bind_eq_some_iff.mp here
  obtain ⟨rfl,bound⟩ := PageType.eq_ofLevel at_
  exact ⟨found,bound⟩

theorem Models.level_of {frame : Frame} {type : PageType} (here : s.typeOf frame = some type) :
    space.level frame = type.level := by
  rw [models.level,here]
  rfl

theorem Models.isPtp {frame : Frame} : s.IsPtp frame ↔ space.level frame ≠ none := by
  constructor
  · rintro ⟨type,here,ptp⟩
    rw [models.level_of here]
    exact (isPtp_iff type).mp ptp
  · intro there
    obtain ⟨level,found⟩ := Option.ne_none_iff_exists'.mp there
    obtain ⟨here,bound⟩ := models.level_ptp found
    refine ⟨_,here,(isPtp_iff _).mpr ?_⟩
    rw [level_ofLevel bound]
    exact Option.some_ne_none level

/-- A space of tables is level typed. -/
theorem Models.levelTyped : LevelTyped s where
  root := by
    rw [← models.root]
    exact (models.level_ptp space.rooted).1
  entries := by
    intro slot type here leads
    have fits := models.fits here slot.index
    rw [entryOf_table.mpr ⟨leads,rfl⟩] at fits
    obtain ⟨below,own,child⟩ := fits
    obtain ⟨own',bound⟩ := models.level_ptp own
    rw [(models.level_ptp child).1,← below_ofLevel bound]
    rw [here] at own'
    cases own'
    rfl

/-! Walks. -/

/-- What the space says of the entry that decides on an address. -/
def Located (s : State) (vaddr : Word) (result : Option (Nat × Frame)) : Prop :=
  (∃ level slot, result = some (level,slot.frame) ∧
    Walk.Ends s.mem (frameOf s.cr3) vaddr level slot ∧ slot.index = indices vaddr level) ∨
  result = none ∧ Walk.Stops s.mem (frameOf s.cr3) vaddr

theorem Models.find_located {vaddr : Word} {level : Nat} {slot : Slot}
    (reads : Walk.Reads s.mem (frameOf s.cr3) vaddr level slot)
    (place : slot.index = indices vaddr level) :
    Located s vaddr (space.find (indices vaddr) level slot.frame) := by
  induction level generalizing slot with
  | zero => exact .inl ⟨0,slot,rfl,⟨reads,.inl rfl⟩,place⟩
  | succ level ih =>
    have type := reads_typed models.levelTyped reads
    have entry := models.entry _ _ type (indices vaddr (level + 1))
    rw [← place] at entry
    have bound := reads.level_le
    rw [AddressSpace.find,← place]
    split
    · rename_i empty
      have ptp : (PageType.ofLevel (level + 1)).isPtp = true :=
        (isPtp_iff _).mpr (by rw [level_ofLevel bound]; exact Option.some_ne_none _)
      have absent := entryOf_empty ptp (entry.symm.trans empty)
      rw [present_iff,Bool.not_eq_true] at absent
      exact .inr ⟨rfl,level,slot,reads,absent⟩
    · rename_i page leaf
      obtain ⟨leaf,_⟩ := entryOf_leaf.mp (entry.symm.trans leaf)
      exact .inl ⟨level + 1,slot,rfl,⟨reads,.inr (leaf_large bound leaf)⟩,place⟩
    · rename_i child table
      obtain ⟨leads,rfl⟩ := entryOf_table.mp (entry.symm.trans table)
      exact ih (.entry reads ((present_iff _).mp leads.present) (nonLeaf_small leads)) rfl

theorem Models.locate_located (vaddr : Word) : Located s vaddr (space.locate (indices vaddr)) := by
  rw [AddressSpace.locate,models.root]
  exact models.find_located .root rfl

/-- The space translates an address as the MMU does. -/
theorem Models.translate_iff (vaddr : Word) (level : Nat) (page : Frame) :
    space.translate (indices vaddr) = some (level,page) ↔ MapsTo s vaddr level page := by
  rcases models.locate_located vaddr with ⟨own,slot,found,ends,place⟩ | ⟨found,stops⟩
  · have type := reads_typed models.levelTyped ends.1
    rw [AddressSpace.translate_located found,← place,models.entry _ _ type,entryOf_leaf]
    constructor
    · rintro ⟨rfl,leaf,reached⟩
      exact ⟨slot,ends,leaf.present,reached⟩
    · rintro ⟨other,ends',present,reached⟩
      obtain ⟨rfl,rfl⟩ := ends.unique ends'
      exact ⟨rfl,isLeaf_ofLevel ends present,reached⟩
  · rw [AddressSpace.translate,found]
    refine iff_of_false (by simp) ?_
    rintro ⟨slot,ends,_⟩
    exact ends.not_stops stops

end

end Cki.Monitor
