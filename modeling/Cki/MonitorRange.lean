import Cki.MonitorBlocks

/-! The range that `assert_page_in_range` admits against the frames that have a descriptor. -/
namespace Cki.Monitor

/-- The frames of a leaf are those of its multiple of the leaf's size. -/
theorem covers_iff (level : PageType) (value : Word) (frame : Frame) : Covers level value frame ↔
    frame.toNat / leafFrames level = (frameOf value).toNat / leafFrames level := by
  rw [Covers,← BitVec.toNat_inj,BitVec.toNat_ushiftRight,BitVec.toNat_ushiftRight,
    Nat.shiftRight_eq_div_pow,Nat.shiftRight_eq_div_pow,leafFrames]

theorem assertPageInRange_ret_iff (paddr size : Word) (s : State) :
    assertPageInRange paddr size s = .ret () s ↔ InRange paddr size := by
  rw [assertPageInRange,InRange,Call.bind_apply,Call.stopIf_apply]
  by_cases wraps : paddr + size < paddr
  · simp [wraps]
  · by_cases above : memSize ≤ paddr + size
    · simp [wraps,above]
    · simp [wraps,above,BitVec.not_le.mp above]

theorem getPageDescPtr_frame (frame : Frame) :
    getPageDescPtr (pageToPhys frame) ≠ none ↔ frame.toNat < pageDescLength := by
  have same : frameOf (pageToPhys frame) = frame := by
    apply BitVec.eq_of_getLsbD_eq
    intro i hi
    simp only [frameOf,pageToPhys,BitVec.getLsbD_extractLsb',BitVec.getLsbD_append]
    grind
  rw [getPageDescPtr_eq,same,descOf]
  split <;> simp [*]

/-- Every frame of a leaf has a descriptor where its multiple of the leaf's size lies below
the length of `page_desc`. -/
theorem described_iff (level : PageType) (value : Word) :
    (∀ frame, Covers level value frame → getPageDescPtr (pageToPhys frame) ≠ none) ↔
      (frameOf value).toNat / leafFrames level < pageDescLength / leafFrames level := by
  simp only [covers_iff,getPageDescPtr_frame]
  have bound := (frameOf value).isLt
  generalize (frameOf value).toNat = n at bound ⊢
  have frames : leafFrames level = 1 ∨ leafFrames level = 512 ∨ leafFrames level = 262144 := by
    cases level <;> simp [leafFrames,leafShift]
  have last : n / leafFrames level * leafFrames level + (leafFrames level - 1) < 2 ^ 40 := by
    rcases frames with one | one | one <;> rw [one] <;> omega
  constructor
  · intro all
    have described := all (BitVec.ofNat 40 (n / leafFrames level * leafFrames level + (leafFrames level - 1)))
    rw [BitVec.toNat_ofNat,Nat.mod_eq_of_lt last] at described
    simp only [pageDescLength] at described ⊢
    rcases frames with one | one | one <;> rw [one] at described ⊢ <;> omega
  · intro below frame same
    simp only [pageDescLength] at below ⊢
    rcases frames with one | one | one <;> rw [one] at below same <;> omega

/-- The leaf does not map the last memory that has descriptors. -/
def NotLast (level : PageType) (value : Word) : Prop :=
  (frameOf value).toNat / leafFrames level + 1 ≠ pageDescLength / leafFrames level

/-- The check passes exactly the leaves all of whose frames have a descriptor, apart from the
last leaf of each size, which has them and is refused. -/
theorem range_described_iff (level : PageType) (value : Word) (s : State) :
    (assertPageInRange (value &&& pgFrame) (leafBytes level) s = .ret () s ↔
      ∀ frame, Covers level value frame → getPageDescPtr (pageToPhys frame) ≠ none) ↔
    NotLast level value := by
  rw [assertPageInRange_ret_iff,inRange_iff,described_iff,NotLast]
  have frames : leafFrames level = 1 ∨ leafFrames level = 512 ∨ leafFrames level = 262144 := by
    cases level <;> simp [leafFrames,leafShift]
  simp only [pageDescLength]
  rcases frames with one | one | one <;> rw [one] <;> omega

/-- The last page of memory has a descriptor, and no last level entry may map it. -/
theorem last_page_refused : ¬ ∀ (s : State) (level : PageType) (value : Word), IsLeaf level value →
    (assertPageInRange (value &&& pgFrame) (leafBytes level) s = .ret () s ↔
      ∀ frame, Covers level value frame → getPageDescPtr (pageToPhys frame) ≠ none) := by
  intro claim
  have leaf : IsLeaf .l1 0x7fffff003 := by
    change Present _
    decide
  have refused : ¬ (frameOf 0x7fffff003).toNat + leafFrames .l1 < pageDescLength := by decide
  have described : (frameOf 0x7fffff003).toNat / leafFrames .l1 < pageDescLength / leafFrames .l1 := by
    decide
  have passes := (claim emptyTables .l1 _ leaf).mpr ((described_iff _ _).mpr described)
  rw [assertPageInRange_ret_iff,inRange_iff] at passes
  exact refused passes

end Cki.Monitor
