import Mathlib.Data.List.TakeWhile
import Cki.PageTable

/-! Memory by bytes: ranges that may wrap around, and the bytes that printf reads and prints
for a string with a precision. -/
namespace Cki.Bytes

abbrev Byte := BitVec 8
abbrev Memory := Word → Byte

/-- The byte that lies `i` bytes after `start`. -/
def after (start : Word) (i : Nat) : Word := start + BitVec.ofNat 64 i

def Within (base : Word) (size : Nat) (addr : Word) : Prop :=
  base.toNat ≤ addr.toNat ∧ addr.toNat < base.toNat + size

instance (base : Word) (size : Nat) (addr : Word) : Decidable (Within base size addr) :=
  inferInstanceAs (Decidable (_ ∧ _))

/-- The bytes at these distances from `start` lie in the block. -/
def Inside (base : Word) (size : Nat) (start : Word) (touched : Nat → Prop) : Prop :=
  ∀ i, touched i → Within base size (after start i)

/-- What is touched from the offset on ends in a block of this size. -/
def EndsWithin (size offset : Nat) (touched : Nat → Prop) : Prop :=
  ¬ touched 0 ∨ offset < size ∧ ¬ touched (size - offset)

/-- Bytes are touched one after the other. -/
def InTurn (touched : Nat → Prop) : Prop := ∀ i j, touched i → j ≤ i → touched j

theorem inTurn_below (n : Nat) : InTurn (· < n) := fun _ _ below le => Nat.lt_of_le_of_lt le below

theorem within_iff {base : Word} {size : Nat} (fits : base.toNat + size ≤ 2 ^ 64) (addr : Word) :
    Within base size addr ↔ (addr - base).toNat < size := by
  have bound := addr.isLt
  rw [Within,BitVec.toNat_sub]
  omega

theorem after_sub_toNat (base start : Word) (i : Nat) :
    (after start i - base).toNat = ((start - base).toNat + i) % 2 ^ 64 := by
  simp only [after,BitVec.toNat_sub,BitVec.toNat_add,BitVec.toNat_ofNat]
  omega

/-- Whether what is touched lies in a block is decided by where it starts and whether it goes
on as far as the end. -/
theorem inside_iff {base : Word} {size : Nat} (fits : base.toNat + size ≤ 2 ^ 64)
    (small : size < 2 ^ 64) {touched : Nat → Prop} (inTurn : InTurn touched) (start : Word) :
    Inside base size start touched ↔ EndsWithin size (start - base).toNat touched := by
  simp only [Inside,EndsWithin,within_iff fits,after_sub_toNat]
  have bound := (start - base).isLt
  generalize (start - base).toNat = offset at bound ⊢
  constructor
  · intro inside
    by_cases starts : touched 0
    · have first := inside 0 starts
      rw [Nat.add_zero,Nat.mod_eq_of_lt bound] at first
      refine .inr ⟨first,fun beyond => ?_⟩
      have last := inside _ beyond
      rw [Nat.add_sub_cancel' (Nat.le_of_lt first),Nat.mod_eq_of_lt small] at last
      omega
    · exact .inl starts
  · rintro (none | ⟨first,ends⟩) i here
    · exact absurd (inTurn i 0 here (Nat.zero_le i)) none
    · have below : i < size - offset := Nat.lt_of_not_le fun beyond => ends (inTurn _ _ here beyond)
      rw [Nat.mod_eq_of_lt (by omega)]
      omega

/-! Strings. -/

def bytes (memory : Memory) (start : Word) (n : Nat) : List Byte :=
  (List.range n).map fun i => memory (after start i)

/-- The bytes of `text` from `start` on. -/
def copy (memory : Memory) (start : Word) (text : List Byte) : Memory := fun addr =>
  text.getD (addr - start).toNat (memory addr)

@[simp] theorem bytes_length (memory : Memory) (start : Word) (n : Nat) :
    (bytes memory start n).length = n := by
  rw [bytes,List.length_map,List.length_range]

theorem bytes_congr {memory memory' : Memory} {start start' : Word} {n : Nat}
    (same : ∀ i < n, memory (after start i) = memory' (after start' i)) :
    bytes memory start n = bytes memory' start' n :=
  List.map_congr_left fun i member => same i (List.mem_range.mp member)

theorem copy_after (memory : Memory) (start : Word) {text : List Byte} (fits : text.length ≤ 2 ^ 64)
    {i : Nat} (inside : i < text.length) : copy memory start text (after start i) = text[i] := by
  have distance : (after start i - start).toNat = i := by
    have zero : (start - start).toNat = 0 := by rw [BitVec.sub_self,BitVec.toNat_zero]
    rw [after_sub_toNat,zero]
    omega
  rw [copy,distance,List.getD_eq_getElem?_getD,List.getElem?_eq_getElem inside,Option.getD_some]

theorem bytes_copy (memory : Memory) (start : Word) {text : List Byte} (fits : text.length ≤ 2 ^ 64) :
    bytes (copy memory start text) start text.length = text := by
  refine List.ext_getElem (bytes_length _ _ _) fun i _ inside => ?_
  simp only [bytes,List.getElem_map,List.getElem_range]
  exact copy_after memory start fits inside

/-- A negative precision counts as none: only the address space bounds the string. -/
def precision (size : Int) : Nat := if size < 0 then 2 ^ 64 else size.toNat

/-- What `printf("%.*s", size, buf)` prints. -/
def printf (memory : Memory) (buf : Word) (size : Int) : List Byte :=
  (bytes memory buf (precision size)).takeWhile (· ≠ 0)

/-- It reads up to the precision, and no byte after the first zero. -/
def PrintfReads (memory : Memory) (buf : Word) (size : Int) (i : Nat) : Prop :=
  i < precision size ∧ ∀ j < i, memory (after buf j) ≠ 0

theorem printfReads_inTurn (memory : Memory) (buf : Word) (size : Int) :
    InTurn (PrintfReads memory buf size) :=
  fun _ _ reads le => ⟨Nat.lt_of_le_of_lt le reads.1,fun k below =>
    reads.2 k (Nat.lt_of_lt_of_le below le)⟩

/-- All of a list is printed where it has no zero, and nowhere else. -/
theorem takeWhile_eq_iff (text : List Byte) :
    text.takeWhile (· ≠ 0) = text ↔ ∀ byte ∈ text, byte ≠ 0 := by
  rw [List.takeWhile_eq_self_iff]
  simp

end Cki.Bytes
