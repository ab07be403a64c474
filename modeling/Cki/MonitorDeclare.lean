import Cki.MonitorTyping

/-! What a page holds when it becomes a page-table page. `initDeclaredPage` copies the page
onto itself, so that its old contents are its first entries. -/
namespace Cki.Monitor

/-- Each word that reads as a present entry is one that the type would accept, and no word of
a last level table points to the table itself. -/
def Declarable (s : State) (level : PageType) (frame : Frame) : Prop :=
  ∀ index, Present (s.mem ⟨frame,index⟩) → EntryAccepted s level (s.mem ⟨frame,index⟩) ∧
    (level = .l1 → frameOf (s.mem ⟨frame,index⟩) ≠ frame)

/-- Each present entry of the page would pass as an update of it. -/
def EntriesValid (layout : Layout) (s : State) (frame : Frame) : Prop :=
  ∀ index, Present (s.mem ⟨frame,index⟩) →
    ptUpdateIsValid layout (.entry ⟨frame,index⟩) (s.mem ⟨frame,index⟩) s = .ret true s

theorem ptUpdateIsValid_iff (layout : Layout) (s : State) (ptr : Ptr) (value : Word) :
    ptUpdateIsValid layout ptr value s = .ret true s ↔ Accepted layout s ptr value := by
  have decides := ptUpdateIsValid_decides layout s ptr value
  constructor
  · intro valid
    refine Classical.byContradiction fun refused => ?_
    rcases decides.2 refused with stops | faults
    · rw [stops] at valid
      cases valid
    · rw [faults] at valid
      cases valid
  · exact decides.1

theorem entriesValid_iff (layout : Layout) {s : State} {frame : Frame} {level : PageType}
    (type : s.typeOf frame = some level) :
    EntriesValid layout s frame ↔
      ∀ index, Present (s.mem ⟨frame,index⟩) → EntryAccepted s level (s.mem ⟨frame,index⟩) := by
  refine forall_congr' fun index => forall_congr' fun present => ?_
  rw [ptUpdateIsValid_iff]
  refine accepted_iff ?_ present
  rwa [ptrFrame_entry]

section
variable {s : State} {desc : Fin pageDescLength} {frame : Frame}

/-- An unused frame becomes a page-table page, and no other frame changes its type. -/
theorem typeOf_declared_iff (describes : descOf frame = some desc)
    (unused : s.typeOf frame = some .unused) {level type : PageType} (other : Frame)
    (apart : type ≠ .unused) (below : type ≠ level) :
    (s.setType desc level).typeOf other = some type ↔ s.typeOf other = some type := by
  rw [setType_typeOf s describes]
  by_cases same : other = frame
  · rw [if_pos same,same,unused]
    exact iff_of_false (fun found => below (Option.some.inj found).symm)
      fun found => apart (Option.some.inj found).symm
  · rw [if_neg same]

/-- After the declaration the rules are those from before, but for a last level table which
now refuses entries for itself. -/
theorem entryAccepted_declared_iff (describes : descOf frame = some desc)
    (unused : s.typeOf frame = some .unused) {level : PageType} (ptp : level.isPtp = true)
    (value : Word) : EntryAccepted (s.setType desc level) level value ↔
      EntryAccepted s level value ∧ (level = .l1 → frameOf value ≠ frame) := by
  cases level with
  | l1 =>
    simp only [EntryAccepted,true_imp_iff,and_assoc]
    refine and_congr_right fun _ => ?_
    rw [setType_typeOf s describes]
    by_cases same : frameOf value = frame
    · rw [if_pos same]
      refine iff_of_false ?_ fun both => both.2 same
      rintro ⟨type,found,plain⟩
      cases found
      cases plain
    · rw [if_neg same]
      exact (and_iff_left same).symm
  | l2 =>
    rw [EntryAccepted,EntryAccepted,typeOf_declared_iff describes unused _ (by simp) (by simp)]
    simp
  | l3 =>
    rw [EntryAccepted,EntryAccepted,typeOf_declared_iff describes unused _ (by simp) (by simp)]
    simp
  | l4 =>
    rw [EntryAccepted,EntryAccepted,typeOf_declared_iff describes unused _ (by simp) (by simp)]
    simp
  | unused | other bits => cases ptp

end

/-- A declaration leaves legal entries exactly where the page held nothing else before. -/
theorem declare_entriesValid_iff {layout : Layout} {s t : State} {paddr : Word} {level : PageType}
    (ptp : level.isPtp = true) (unused : s.typeOf (frameOf paddr) = some .unused)
    (returns : svaDeclarePage layout paddr level s = .ret () t) :
    EntriesValid layout t (frameOf paddr) ↔ Declarable s level (frameOf paddr) := by
  obtain ⟨desc,describes,_,rfl⟩ := svaDeclarePage_ret returns
  have declared : (s.setType desc level).typeOf (frameOf paddr) = some level := by
    rw [setType_typeOf s describes,if_pos rfl]
  rw [entriesValid_iff layout declared]
  refine forall_congr' fun index => forall_congr' fun present => ?_
  rw [setType_mem]
  exact entryAccepted_declared_iff describes unused ptp _

/-- An empty page may be declared. -/
theorem declare_entriesValid_emptyTables :
    EntriesValid flatLayout (emptyTables.setType ⟨9,by decide⟩ .l1) 9 := by
  have declared : svaDeclarePage flatLayout 0x9000 .l1 emptyTables =
      .ret () (emptyTables.setType ⟨9,by decide⟩ .l1) :=
    alloc_step flatLayout .pte 9 rfl (.inl rfl)
  refine (declare_entriesValid_iff rfl rfl declared).mpr fun index present => ?_
  exact absurd present (by decide : ¬ Present 0)

/-- The first word of frame 9 reads as an entry for frame 3, a second level table. -/
def filledPage : State := emptyTables.setMem ⟨9,0⟩ 0x3003

theorem filledPage_declared : ¬ ∀ (layout : Layout) (s t : State) (paddr : Word) (level : PageType),
    s.mmuIsInitialized ≠ 0 → level.isPtp = true → s.typeOf (frameOf paddr) = some .unused →
    svaDeclarePage layout paddr level s = .ret () t → EntriesValid layout t (frameOf paddr) := by
  intro claim
  have declared : svaDeclarePage flatLayout 0x9000 .l1 filledPage =
      .ret () (filledPage.setType ⟨9,by decide⟩ .l1) :=
    alloc_step flatLayout .pte 9 rfl (.inl rfl)
  have valid := claim _ _ _ _ _ (by decide) rfl rfl declared
  rw [entriesValid_iff flatLayout rfl] at valid
  obtain ⟨_,type,found,plain⟩ := valid 0 (by decide)
  cases found
  cases plain

end Cki.Monitor
