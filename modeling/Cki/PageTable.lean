import Mathlib.Algebra.Group.Nat.Defs

/-! Words of physical memory as the page tables use them. A slot is one aligned
8-byte word, named by its frame and its index there, so that every slot is a
word of the 52-bit physical address space and no word has two names. -/
namespace Cki

abbrev Word := BitVec 64
abbrev Frame := BitVec 40

structure Slot where
  frame : Frame
  index : BitVec 9
  deriving DecidableEq, Repr

def Slot.addr (slot : Slot) : Word := 0#12 ++ slot.frame ++ slot.index ++ 0#3

/-- Bits 12 to 51: the frame of an address, and the frame an entry points to. -/
def frameOf (value : Word) : Frame := value.extractLsb' 12 40

def slotOf (paddr : Word) : Slot := ⟨frameOf paddr,paddr.extractLsb' 3 9⟩

@[simp] theorem frameOf_addr (slot : Slot) : frameOf slot.addr = slot.frame := by
  apply BitVec.eq_of_getElem_eq
  intro i hi
  simp only [frameOf,Slot.addr,BitVec.getElem_extractLsb',BitVec.getLsbD_append]
  grind

/-- The low twelve bits are attributes: they never select another frame. -/
theorem frameOf_congr {a b : Word} (same : a &&& 0x000ffffffffff000 = b &&& 0x000ffffffffff000) :
    frameOf a = frameOf b := by
  apply BitVec.eq_of_getElem_eq
  intro i hi
  have bit := congrArg (fun w : Word => w.getLsbD (12 + i)) same
  have mask : (0x000ffffffffff000 : Word).getLsbD (12 + i) = true := by
    have all : ∀ j : Fin 40, (0x000ffffffffff000 : Word).getLsbD (12 + j.val) = true := by decide
    exact all ⟨i,hi⟩
  simp only [BitVec.getLsbD_and,mask,Bool.and_true] at bit
  simpa only [frameOf,BitVec.getElem_extractLsb'] using bit

theorem frameOf_of_root {a b : Word} (same : a &&& ~~~0xfff = b &&& ~~~0xfff) :
    frameOf a = frameOf b := by
  have mask : (0x000ffffffffff000 : Word) = ~~~0xfff &&& 0x000ffffffffff000 := by decide
  apply frameOf_congr
  rw [mask,← BitVec.and_assoc,same,BitVec.and_assoc]

/-- Bit 63 of a value for CR3 asks for the TLB to be kept; the register never holds it. -/
def dropNoFlush (cr3 : Word) : Word := cr3 &&& ~~~(1#64 <<< 63)

@[simp] theorem frameOf_dropNoFlush (cr3 : Word) : frameOf (dropNoFlush cr3) = frameOf cr3 := by
  apply frameOf_congr
  rw [dropNoFlush,BitVec.and_assoc]
  congr 1

theorem dropNoFlush_or (value : Word) : dropNoFlush (value ||| 1#64 <<< 63) = dropNoFlush value := by
  simp only [dropNoFlush]
  generalize 1#64 <<< 63 = bit
  apply BitVec.eq_of_getElem_eq
  intro i hi
  simp only [BitVec.getElem_and,BitVec.getElem_or,BitVec.getElem_not]
  cases value[i] <;> cases bit[i] <;> rfl

/-- The PCID bits of a root replaced. -/
def withPcid (root pcid : Word) : Word := root &&& ~~~0xfff ||| pcid

theorem withPcid_root (root : Word) {pcid : Word} (small : pcid &&& ~~~0xfff = 0#64) :
    withPcid root pcid &&& ~~~0xfff = root &&& ~~~0xfff := by
  rw [withPcid,BitVec.and_or_distrib_right,small,BitVec.and_assoc,BitVec.and_self,BitVec.or_zero]

theorem and_not_eq_sub (x mask : Word) : x &&& ~~~mask = x - (x &&& mask) := by
  have disjoint : (x &&& ~~~mask) &&& (x &&& mask) = 0#64 := by
    apply BitVec.eq_of_getLsbD_eq
    intro i bound
    grind
  have whole : (x &&& ~~~mask) ||| (x &&& mask) = x := by
    apply BitVec.eq_of_getLsbD_eq
    intro i bound
    grind
  rw [← BitVec.add_eq_or_of_and_eq_zero _ _ disjoint] at whole
  calc x &&& ~~~mask
    _ = (x &&& ~~~mask) + (x &&& mask) - (x &&& mask) := (BitVec.add_sub_cancel ..).symm
    _ = x - (x &&& mask) := by rw [whole]

end Cki
