import Cki.MonitorTyping

/-! What an update may write. The type check of the slot's own page comes after the
two early accepts, so a value that is not present, or a slot without a descriptor,
is stored wherever the pointer points. -/
namespace Cki.Monitor

/-- The word at `ptr` lies in a page-table page and nothing else differs. -/
structure WritesTableWord (layout : Layout) (ptr : Ptr) (s t : State) : Prop where
  table : s.IsPtp (ptrFrame layout ptr)
  mem : ∀ slot, ptr ≠ .entry slot → t.mem slot = s.mem slot
  pageDesc : t.pageDesc = s.pageDesc
  initialized : t.mmuIsInitialized = s.mmuIsInitialized
  cr3 : t.cr3 = s.cr3

/-- An update that returns wrote one word of a page-table page, and one that does not
return wrote nothing. -/
def WritesTablesOnly (layout : Layout) (kind : SetKind) (ptr : Ptr) (value : Word) (s : State) :
    Prop :=
  match pkmSet layout kind ptr value s with
  | .ret _ t => WritesTableWord layout ptr s t
  | .bug t | .fault t => t = s

/-- An ordinary word has to lie in a page-table page, unless the check is reached and
stops the call. One of the monitor's own words has to be refused, or already holds
the value. -/
def Confined (layout : Layout) (s : State) (ptr : Ptr) (value : Word) : Prop :=
  match ptr with
  | .entry slot => s.IsPtp slot.frame ∨ Present value ∧ s.typeOf slot.frame ≠ none
  | .own var =>
    (∃ level, Checked layout s (.own var) value level ∧ ¬ EntryAccepted s level value) ∨
    s.IsPtp (ptrFrame layout (.own var)) ∧ s.setOwn var value = s

theorem setOwn_mem (s : State) (var : Own) (value : Word) : (s.setOwn var value).mem = s.mem := by
  cases var <;> rfl

theorem setOwn_cr3 (s : State) (var : Own) (value : Word) : (s.setOwn var value).cr3 = s.cr3 := by
  cases var <;> rfl

/-- A refused update writes nothing. -/
theorem refused_writesTablesOnly {layout : Layout} {s : State} {ptr : Ptr} {value : Word}
    (initialized : s.mmuIsInitialized ≠ 0) (refused : ¬ Accepted layout s ptr value)
    (kind : SetKind) : WritesTablesOnly layout kind ptr value s := by
  rw [WritesTablesOnly,pkmSet_eq]
  rcases (updateMapping_spec layout initialized ptr value).2 refused with stops | faults
  · rw [stops]
  · rw [faults]

theorem accepted_writesTablesOnly {layout : Layout} {s : State} {ptr : Ptr} {value : Word}
    (initialized : s.mmuIsInitialized ≠ 0) (accepted : Accepted layout s ptr value)
    (kind : SetKind) : WritesTablesOnly layout kind ptr value s ↔
      WritesTableWord layout ptr s (s.store ptr value) := by
  rw [WritesTablesOnly,pkmSet_eq,(updateMapping_spec layout initialized ptr value).1 accepted]

theorem store_entry_writes (layout : Layout) (s : State) (slot : Slot) (value : Word) :
    WritesTableWord layout (.entry slot) s (s.store (.entry slot) value) ↔
      s.IsPtp slot.frame := by
  constructor
  · intro writes
    simpa using writes.table
  · intro table
    refine ⟨by simpa using table,?_,rfl,rfl,rfl⟩
    intro other apart
    rw [State.store,setMem_mem,if_neg]
    rintro rfl
    exact apart rfl

theorem store_own_writes (layout : Layout) (s : State) (var : Own) (value : Word) :
    WritesTableWord layout (.own var) s (s.store (.own var) value) ↔
      s.IsPtp (ptrFrame layout (.own var)) ∧ s.setOwn var value = s := by
  constructor
  · intro writes
    refine ⟨writes.table,?_⟩
    have pageDesc := writes.pageDesc
    have initialized := writes.initialized
    have mem := setOwn_mem s var value
    have cr3 := setOwn_cr3 s var value
    rw [State.store] at pageDesc initialized
    cases h : s.setOwn var value with
    | mk mem' pageDesc' initialized' cr3' => simp_all
  · rintro ⟨table,same⟩
    rw [State.store,same]
    exact ⟨table,fun _ _ => rfl,rfl,rfl,rfl⟩

/-- After initialization an update writes page tables only exactly when it is confined. -/
theorem set_writesTablesOnly_iff (layout : Layout) (s : State) (kind : SetKind) (ptr : Ptr)
    (value : Word) (initialized : s.mmuIsInitialized ≠ 0) :
    WritesTablesOnly layout kind ptr value s ↔ Confined layout s ptr value := by
  by_cases accepted : Accepted layout s ptr value
  · rw [accepted_writesTablesOnly initialized accepted]
    cases ptr with
    | entry slot =>
      rw [store_entry_writes,Confined]
      refine ⟨.inl,?_⟩
      rintro (table | ⟨present,described⟩)
      · exact table
      · obtain ⟨level,type⟩ := Option.ne_none_iff_exists'.mp described
        have checked : Checked layout s (.entry slot) value level := by
          refine ⟨present,?_⟩
          rwa [ptrFrame_entry]
        exact ⟨level,type,(accepted level checked).isPtp⟩
    | own var =>
      rw [store_own_writes,Confined]
      refine ⟨.inr,?_⟩
      rintro (⟨level,checked,refused⟩ | holds)
      · exact absurd (accepted level checked) refused
      · exact holds
  · apply iff_of_true (refused_writesTablesOnly initialized accepted kind)
    rw [Accepted,Classical.not_forall] at accepted
    obtain ⟨level,refused⟩ := accepted
    rw [Classical.not_imp] at refused
    cases ptr with
    | entry slot =>
      refine .inr ⟨refused.1.1,?_⟩
      rw [← ptrFrame_entry layout slot,refused.1.2]
      exact Option.some_ne_none level
    | own var => exact .inl ⟨level,refused⟩

theorem set_writesTablesOnly_emptyTables :
    WritesTablesOnly flatLayout .pte (.entry ⟨4,0⟩) 0x9003 emptyTables :=
  (set_writesTablesOnly_iff flatLayout emptyTables .pte (.entry ⟨4,0⟩) 0x9003 (by decide)).mpr
    (.inl ⟨.l1,rfl,rfl⟩)

/-- A value that is not present goes into the monitor's own flag and switches the
checks off. -/
theorem set_clears_initialized : ¬ ∀ (layout : Layout) (s : State) (kind : SetKind) (ptr : Ptr)
    (value : Word), s.mmuIsInitialized ≠ 0 → WritesTablesOnly layout kind ptr value s := by
  intro claim
  have writes := claim flatLayout emptyTables .pte (.own .mmuIsInitialized) 0 (by decide)
  have accepted : Accepted flatLayout emptyTables (.own .mmuIsInitialized) 0 := by
    rintro level ⟨present,_⟩
    exact absurd present (by decide)
  rw [accepted_writesTablesOnly (by decide) accepted] at writes
  exact absurd writes.initialized (by decide)

end Cki.Monitor
