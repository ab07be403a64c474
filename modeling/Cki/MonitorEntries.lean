import Cki.MonitorFaults
import Cki.Walk

/-! `get_pgeVaddr` against the walk of the processor. -/
namespace Cki.Monitor

/-! Masks and shifts as bits, quotients and remainders. -/

theorem present_iff (value : Word) : Present value ↔ value.getLsbD 0 = true := by
  have bit : pgV = BitVec.twoPow 64 0 := by decide
  rw [Present,bit,BitVec.and_twoPow]
  cases value.getLsbD 0 <;> decide

theorem huge_iff (value : Word) : Huge value ↔ value.getLsbD 7 = true := by
  have bit : pgPS = BitVec.twoPow 64 7 := by decide
  rw [Huge,bit,BitVec.and_twoPow]
  cases value.getLsbD 7 <;> decide

theorem frameMask_bits (i : Nat) (low : i < 12) : (0x000ffffffffff000 : Word).getLsbD i = false := by
  have all : ∀ j : Fin 12, (0x000ffffffffff000 : Word).getLsbD j.val = false := by decide
  exact all ⟨i,low⟩

theorem vmask_bits (i : Nat) : vmask.getLsbD i = decide (3 ≤ i ∧ i < 12) := by
  by_cases small : i < 64
  · have all : ∀ j : Fin 64, vmask.getLsbD j.val = decide (3 ≤ j.val ∧ j.val < 12) := by decide
    exact all ⟨i,small⟩
  · rw [BitVec.getLsbD_of_ge _ _ (by omega)]
    exact (decide_eq_false (by omega)).symm

/-- An offset into a table does not reach its frame. -/
theorem frameOf_or_offset (base offset : Word) : frameOf (base ||| offset &&& vmask) = frameOf base := by
  apply BitVec.eq_of_getLsbD_eq
  intro i hi
  have outside : ¬ 12 + i < 12 := by omega
  simp [frameOf,vmask_bits,outside]

/-- The shift by three bits less and the mask select the index of a table's entry. -/
theorem indexOf_or_offset {base : Word} (aligned : ∀ i, i < 12 → base.getLsbD i = false)
    (vaddr : Word) {shift : Nat} (enough : 3 ≤ shift) :
    (base ||| vaddr >>> (shift - 3) &&& vmask).extractLsb' 3 9 =
      BitVec.ofNat 9 (vaddr.toNat / 2 ^ shift % 512) := by
  apply BitVec.eq_of_getLsbD_eq
  intro i hi
  have place : shift - 3 + (3 + i) = shift + i := by omega
  have selected : 3 + i < 12 := by omega
  have modulus : 512 = 2 ^ 9 := by decide
  simp only [BitVec.getLsbD_extractLsb',BitVec.getLsbD_or,BitVec.getLsbD_and,
    BitVec.getLsbD_ushiftRight,BitVec.getLsbD_ofNat,aligned (3 + i) selected,vmask_bits,place]
  rw [modulus,Nat.testBit_mod_two_pow,Nat.testBit_div_two_pow,BitVec.testBit_toNat]
  simp [hi,selected,Nat.add_comm i shift]

theorem slotOf_or_offset {base : Word} (aligned : ∀ i, i < 12 → base.getLsbD i = false)
    (vaddr : Word) (level : Nat) :
    slotOf (base ||| vaddr >>> (12 + 9 * level - 3) &&& vmask) =
      ⟨frameOf base,Walk.index level vaddr⟩ := by
  rw [slotOf,frameOf_or_offset,indexOf_or_offset aligned vaddr (by omega)]
  rfl

theorem masked_aligned (value : Word) : ∀ i, i < 12 →
    (value &&& 0x000ffffffffff000).getLsbD i = false := by
  intro i low
  rw [BitVec.getLsbD_and,frameMask_bits i low,Bool.and_false]

theorem frameOf_masked (value : Word) : frameOf (value &&& 0x000ffffffffff000) = frameOf value := by
  apply frameOf_congr
  rw [BitVec.and_assoc,BitVec.and_self]

/-! The pointers of the walk. -/

theorem getPml4eVaddr_eq (s : State) (vaddr : Word) :
    getPml4eVaddr (getPagetable s) vaddr = ⟨frameOf s.cr3,Walk.index 3 vaddr⟩ := by
  rw [← frameOf_masked s.cr3]
  exact slotOf_or_offset (masked_aligned s.cr3) vaddr 3

theorem getSubEntry_eq (entry vaddr : Word) (level : Nat) :
    getSubEntry entry vaddr (12 + 9 * level) = ⟨frameOf entry,Walk.index level vaddr⟩ := by
  rw [← frameOf_masked entry]
  exact slotOf_or_offset (masked_aligned entry) vaddr level

theorem getPagetable_frame {s : State} (root : frameOf s.cr3 ≠ 0) :
    getPagetable s &&& 0xfffffffffffff000 ≠ 0 := by
  intro none
  apply root
  have mask : (0x000ffffffffff000 : Word) = 0x000ffffffffff000 &&& 0xfffffffffffff000 := by decide
  rw [getPagetable,BitVec.and_assoc,← mask] at none
  rw [← frameOf_masked s.cr3,none]
  decide

section
variable {s : State} {vaddr : Word} {level : Nat} {slot : Slot} {result : Option Slot}

/-- A pointer is where the walk of the processor ends, and a null one says that it stops. -/
def Found (s : State) (vaddr : Word) (result : Option Slot) : Prop :=
  (∃ level slot, result = some slot ∧ Walk.Ends s.mem (frameOf s.cr3) vaddr level slot) ∨
    result = none ∧ Walk.Stops s.mem (frameOf s.cr3) vaddr

theorem found_present (reads : Walk.Reads s.mem (frameOf s.cr3) vaddr (level + 1) slot)
    (next : Present (s.mem slot) → Found s vaddr result) :
    Found s vaddr (if Present (s.mem slot) then result else none) := by
  by_cases present : Present (s.mem slot)
  · rw [if_pos present]
    exact next present
  · rw [if_neg present]
    rw [present_iff,Bool.not_eq_true] at present
    exact .inr ⟨rfl,level,slot,reads,present⟩

/-- In the two middle levels an entry may map by itself. -/
theorem found_huge (reads : Walk.Reads s.mem (frameOf s.cr3) vaddr level slot)
    (present : Present (s.mem slot)) (middle : level = 1 ∨ level = 2)
    (next : ¬ Walk.Large level (s.mem slot) → Found s vaddr result) :
    Found s vaddr (if Huge (s.mem slot) then some slot else result) := by
  by_cases huge : Huge (s.mem slot)
  · rw [if_pos huge]
    exact .inl ⟨level,slot,rfl,reads,.inr ⟨(present_iff _).mp present,middle,(huge_iff _).mp huge⟩⟩
  · rw [if_neg huge]
    exact next fun large => huge ((huge_iff _).mpr large.2)

theorem next_entry (reads : Walk.Reads s.mem (frameOf s.cr3) vaddr (level + 1) slot)
    (present : Present (s.mem slot)) (small : ¬ Walk.Large (level + 1) (s.mem slot)) :
    Walk.Reads s.mem (frameOf s.cr3) vaddr level (getSubEntry (s.mem slot) vaddr (12 + 9 * level)) := by
  rw [getSubEntry_eq]
  exact reads.entry ((present_iff _).mp present) small

end

theorem getPgeVaddr_found {s : State} (root : frameOf s.cr3 ≠ 0) (vaddr : Word) :
    Found s vaddr (getPgeVaddr vaddr s) := by
  rw [getPgeVaddr,if_neg (getPagetable_frame root)]
  have pml4e : Walk.Reads s.mem (frameOf s.cr3) vaddr 3 (getPml4eVaddr (getPagetable s) vaddr) := by
    rw [getPml4eVaddr_eq]
    exact .root
  refine found_present pml4e fun present => ?_
  have pdpte := next_entry pml4e present fun large => absurd large.1 (by omega)
  refine found_present pdpte fun present => found_huge pdpte present (.inr rfl) fun small => ?_
  have pde := next_entry pdpte present small
  refine found_present pde fun present => found_huge pde present (.inl rfl) fun small => ?_
  exact .inl ⟨0,_,rfl,next_entry pde present small,.inl rfl⟩

/-- `get_pgeVaddr` finds the entry at which the walk of the processor ends, and no entry
exactly where that walk stops before. -/
theorem getPgeVaddr_walk {s : State} (root : frameOf s.cr3 ≠ 0) (vaddr : Word) :
    (∀ slot, getPgeVaddr vaddr s = some slot ↔
      ∃ level, Walk.Ends s.mem (frameOf s.cr3) vaddr level slot) ∧
    (getPgeVaddr vaddr s = none ↔ Walk.Stops s.mem (frameOf s.cr3) vaddr) := by
  rcases getPgeVaddr_found root vaddr with ⟨level,found,result,ends⟩ | ⟨result,stops⟩
  · rw [result]
    refine ⟨fun slot => ⟨?_,?_⟩,iff_of_false nofun ends.not_stops⟩
    · rintro ⟨⟩
      exact ⟨level,ends⟩
    · rintro ⟨level',ends'⟩
      rw [(ends.unique ends').2]
  · rw [result]
    refine ⟨fun slot => iff_of_false nofun ?_,iff_of_true rfl stops⟩
    rintro ⟨level,ends⟩
    exact ends.not_stops stops

/-- An address under a huge entry of a second level table. -/
theorem getPgeVaddr_directMap :
    ∃ level, Walk.Ends directMap.mem (frameOf directMap.cr3) 0x9000 level ⟨3,0⟩ :=
  ((getPgeVaddr_walk (s := directMap) (by decide) 0x9000).1 ⟨3,0⟩).mp (by decide)

end Cki.Monitor
