import Cki.PageTable

/-! The processor's walk of four-level page tables, by quotients and remainders of the linear
address. A level is counted from the last one, which is 0. -/
namespace Cki.Walk

/-- The bytes that an entry of this level maps. -/
def size (level : Nat) : Nat := 2 ^ (12 + 9 * level)

def index (level : Nat) (vaddr : Word) : BitVec 9 := BitVec.ofNat 9 (vaddr.toNat / size level % 512)

/-- An entry of one of the two middle levels that maps memory by itself. -/
def Large (level : Nat) (entry : Word) : Prop :=
  (level = 1 ∨ level = 2) ∧ entry.getLsbD 7 = true

instance (level : Nat) (entry : Word) : Decidable (Large level entry) :=
  inferInstanceAs (Decidable (_ ∧ _))

section
variable (mem : Slot → Word) (root : Frame) (vaddr : Word)

/-- The entries that the walk reads. -/
inductive Reads : Nat → Slot → Prop where
  | root : Reads 3 ⟨root,index 3 vaddr⟩
  | entry {level : Nat} {slot : Slot} : Reads (level + 1) slot → (mem slot).getLsbD 0 = true →
      ¬ Large (level + 1) (mem slot) → Reads level ⟨frameOf (mem slot),index level vaddr⟩

/-- The walk gets as far as the entry that decides on the address. -/
def Ends (level : Nat) (slot : Slot) : Prop :=
  Reads mem root vaddr level slot ∧
    (level = 0 ∨ (mem slot).getLsbD 0 = true ∧ Large level (mem slot))

/-- The walk stops at an upper entry that is not present. -/
def Stops : Prop :=
  ∃ level slot, Reads mem root vaddr (level + 1) slot ∧ (mem slot).getLsbD 0 = false

/-- The address that an entry of this level maps the linear one to. -/
def target (level : Nat) (entry : Word) : Nat :=
  (frameOf entry).toNat * 4096 / size level * size level + vaddr.toNat % size level

/-- Bits 47 to 63 are the same. -/
def Canonical : Prop := vaddr.toNat < 2 ^ 47 ∨ 2 ^ 64 - 2 ^ 47 ≤ vaddr.toNat

/-- The address is mapped with PRESENT and RW set to this physical one. -/
structure MapsRw (paddr : Nat) : Prop where
  canonical : Canonical vaddr
  mapped : ∃ level slot, Ends mem root vaddr level slot ∧ (mem slot).getLsbD 0 = true ∧
    target vaddr level (mem slot) = paddr
  writable : ∀ level slot, Reads mem root vaddr level slot → (mem slot).getLsbD 1 = true

end

variable {mem mem' : Slot → Word} {root : Frame} {vaddr : Word} {level : Nat} {slot : Slot}

theorem Reads.level_le (reads : Reads mem root vaddr level slot) : level ≤ 3 := by
  induction reads with
  | root => exact Nat.le_refl 3
  | entry _ _ _ ih => exact Nat.le_of_succ_le ih

/-- A walk reads one entry of a level at most. -/
theorem Reads.unique (reads : Reads mem root vaddr level slot) {other : Slot}
    (reads' : Reads mem root vaddr level other) : other = slot := by
  induction reads generalizing other with
  | root =>
    cases reads' with
    | root => rfl
    | entry above _ _ => exact absurd above.level_le (by omega)
  | entry above _ _ ih =>
    cases reads' with
    | root => exact absurd above.level_le (by omega)
    | entry above' _ _ => rw [ih above']

/-- The walk goes on from every entry above one that it reads. -/
theorem Reads.passes {below : Nat} {other : Slot} (lower : Reads mem root vaddr below other)
    (reads : Reads mem root vaddr level slot) (above : below < level) :
    (mem slot).getLsbD 0 = true ∧ ¬ Large level (mem slot) := by
  induction lower with
  | root =>
    have bound := reads.level_le
    omega
  | @entry below upper reads' present small ih =>
    rcases Nat.eq_or_lt_of_le above with next | higher
    · subst next
      rw [reads'.unique reads]
      exact ⟨present,small⟩
    · exact ih higher

theorem Ends.least {below : Nat} {other : Slot} (ends : Ends mem root vaddr level slot)
    (reads : Reads mem root vaddr below other) : level ≤ below := by
  rcases Nat.lt_or_ge below level with lower | reached
  · obtain ⟨_,small⟩ := reads.passes ends.1 lower
    rcases ends.2 with last | ⟨_,large⟩
    · omega
    · exact absurd large small
  · exact reached

/-- A walk ends at one entry. -/
theorem Ends.unique {other : Slot} {level' : Nat} (ends : Ends mem root vaddr level slot)
    (ends' : Ends mem root vaddr level' other) : level' = level ∧ other = slot := by
  have same := Nat.le_antisymm (ends'.least ends.1) (ends.least ends'.1)
  subst same
  exact ⟨rfl,ends.1.unique ends'.1⟩

/-- A walk that stops does not end. -/
theorem Ends.not_stops (ends : Ends mem root vaddr level slot) : ¬ Stops mem root vaddr := by
  rintro ⟨below,other,reads,missing⟩
  rcases Nat.eq_or_lt_of_le (ends.least reads) with same | lower
  · subst same
    rw [ends.1.unique reads] at missing
    rcases ends.2 with last | ⟨present,_⟩
    · omega
    · rw [missing] at present
      cases present
  · obtain ⟨present,_⟩ := ends.1.passes reads lower
    rw [missing] at present
    cases present

/-! A table moved. -/

/-- The top tables have the same entry for an address, and the tables below it are the same. -/
structure Alike (mem : Slot → Word) (root : Frame) (mem' : Slot → Word) (root' : Frame) (vaddr : Word) :
    Prop where
  top : mem' ⟨root',index 3 vaddr⟩ = mem ⟨root,index 3 vaddr⟩
  below : ∀ level slot, level < 3 → Reads mem root vaddr level slot → mem' slot = mem slot

section
variable {root' : Frame} (alike : Alike mem root mem' root' vaddr)
include alike

theorem Alike.reads (reads : Reads mem root vaddr level slot) :
    ∃ slot', Reads mem' root' vaddr level slot' ∧ mem' slot' = mem slot := by
  induction reads with
  | root => exact ⟨_,.root,alike.top⟩
  | entry above present small ih =>
    obtain ⟨upper,reads',same⟩ := ih
    have bound := above.level_le
    have kept := alike.below _ _ (by omega) (.entry above present small)
    rw [← same] at present small kept ⊢
    exact ⟨_,.entry reads' present small,kept⟩

theorem Alike.reads_back {slot' : Slot} (reads' : Reads mem' root' vaddr level slot') :
    ∃ slot, Reads mem root vaddr level slot ∧ mem' slot' = mem slot ∧ (level < 3 → slot' = slot) := by
  induction reads' with
  | root => exact ⟨_,.root,alike.top,fun below => absurd below (by omega)⟩
  | entry above present small ih =>
    obtain ⟨upper,reads,same,_⟩ := ih
    have bound := reads.level_le
    rw [same] at present small ⊢
    have lower := Reads.entry reads present small
    exact ⟨_,lower,alike.below _ _ (by omega) lower,fun _ => rfl⟩

theorem Alike.symm : Alike mem' root' mem root vaddr where
  top := alike.top.symm
  below _ slot' lower reads' := by
    obtain ⟨slot,_,same,moved⟩ := alike.reads_back reads'
    rw [moved lower] at same ⊢
    exact same.symm

theorem Alike.ends (ends : Ends mem root vaddr level slot) :
    ∃ slot', Ends mem' root' vaddr level slot' ∧ mem' slot' = mem slot := by
  obtain ⟨reads,last⟩ := ends
  obtain ⟨slot',reads',same⟩ := alike.reads reads
  rw [← same] at last
  exact ⟨slot',⟨reads',last⟩,same⟩

theorem Alike.mapsRw {paddr : Nat} (maps : MapsRw mem root vaddr paddr) :
    MapsRw mem' root' vaddr paddr where
  canonical := maps.canonical
  mapped := by
    obtain ⟨level,slot,ends,present,reached⟩ := maps.mapped
    obtain ⟨slot',ends',same⟩ := alike.ends ends
    rw [← same] at present reached
    exact ⟨level,slot',ends',present,reached⟩
  writable := by
    intro level slot' reads'
    obtain ⟨slot,reads,same,_⟩ := alike.reads_back reads'
    rw [same]
    exact maps.writable level slot reads

theorem Alike.mapsRw_iff (paddr : Nat) : MapsRw mem root vaddr paddr ↔ MapsRw mem' root' vaddr paddr :=
  ⟨alike.mapsRw,alike.symm.mapsRw⟩

end

end Cki.Walk
