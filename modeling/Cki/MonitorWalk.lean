import Cki.MonitorFaults

/-! The walk of initialisation over tables as the boot phase builds them: nothing declared
yet, no table at two levels, and everything a table refers to inside `page_desc`. -/
namespace Cki.Monitor

/-- What the walk has to find to look up every entry it meets. -/
structure WellBuilt (s : State) : Prop where
  unused : ∀ desc, s.pageDesc desc = .unused
  oneLevel : OneLevel s
  root : HasDesc (frameOf s.cr3)
  entries : ∀ level frame, AnyTable s level frame → level ≠ .l1 → EntriesDescribed s.mem frame

theorem TableAt.all {s : State} {through : Frame → Prop} {level : PageType} {frame : Frame}
    (table : TableAt s through level frame) : AnyTable s level frame := by
  induction table with
  | root => exact .root
  | entry index _ _ leads ih => exact ih.entry index trivial leads

theorem TableAt.isPtp {s : State} {through : Frame → Prop} {level : PageType} {frame : Frame}
    (table : TableAt s through level frame) : level.isPtp = true := by
  induction table with
  | root => rfl
  | @entry level _ _ _ _ leads ih =>
    cases level with
    | l4 | l3 | l2 => rfl
    | l1 | unused | other bits => exact leads.elim

theorem typeOf_unused {s : State} (unused : ∀ desc, s.pageDesc desc = .unused) (frame : Frame) :
    s.typeOf frame = some .unused ↔ HasDesc frame := by
  by_cases inside : HasDesc frame
  · simp [State.typeOf,descOf_of_hasDesc inside,unused,inside]
  · simp [State.typeOf,descOf_none_iff.mpr inside,inside]

namespace WellBuilt

variable {s t : State}

/-- Every table is described, so that the walk reaches it over unused ones. -/
theorem fresh (built : WellBuilt s) {level : PageType} {frame : Frame}
    (table : AnyTable s level frame) :
    HasDesc frame ∧ TableAt s (fun table => s.typeOf table = some .unused) level frame := by
  induction table with
  | root => exact ⟨built.root,.root⟩
  | @entry level frame index above _ leads ih =>
    have inner : level ≠ .l1 := by
      rintro rfl
      exact leads
    have unused := (typeOf_unused built.unused frame).mpr ih.1
    exact ⟨built.entries level frame above inner index leads.present,ih.2.entry index unused leads⟩

theorem returns (built : WellBuilt s) : ∃ t, svaMmuInit s = .ret () t := by
  refine (svaMmuInit_looks s).1 ⟨built.root,fun k frame member => ?_⟩
  have reached := (Layers.enters_reached 4 (frameOf s.cr3) s.typeOf .root
    (fun _ unmarked => unmarked) member).1
  have table := (TableAt.of_reaches reached (by omega)).all
  apply built.entries _ frame table
  have := reached.level_le
  match k with
  | 0 | 1 | 2 => simp [levelType]

/-- A frame has the type of a level exactly where it is a table of that level. -/
theorem types (built : WellBuilt s) (init : svaMmuInit s = .ret () t) {level : PageType}
    (ptp : level.isPtp = true) (frame : Frame) :
    t.typeOf frame = some level ↔ AnyTable s level frame := by
  constructor
  · intro typed
    rcases svaMmuInit_types init frame with same | ⟨other,table,mark⟩
    · rw [same,State.typeOf] at typed
      obtain ⟨desc,_,type⟩ := Option.map_eq_some_iff.mp typed
      rw [← type,built.unused desc] at ptp
      cases ptp
    · rw [typed] at mark
      cases mark
      exact table.all
  · have hidden : HiddenDeclared s := fun _ _ table => .inl (built.fresh table).2
    exact (svaMmuInit_levels_iff init).mpr ⟨built.oneLevel,hidden⟩ level frame

end WellBuilt

theorem svaMmuInit_others {s t : State} (init : svaMmuInit s = .ret () t) {frame : Frame}
    (none : ∀ level, ¬ AnyTable s level frame) : t.typeOf frame = s.typeOf frame := by
  rcases svaMmuInit_types init frame with same | ⟨level,table,_⟩
  · exact same
  · exact absurd table.all (none level)

/-- Initialisation types exactly the tables, each with its level, and leaves the rest. -/
theorem svaMmuInit_exact {s : State} (unused : ∀ desc, s.pageDesc desc = .unused)
    (oneLevel : OneLevel s) (root : HasDesc (frameOf s.cr3))
    (entries : ∀ level frame, AnyTable s level frame → level ≠ .l1 → EntriesDescribed s.mem frame) :
    ∃ t, svaMmuInit s = .ret () t ∧ t.mem = s.mem ∧ t.mmuIsInitialized = 1 ∧
      (∀ level, level.isPtp = true → ∀ frame,
        t.typeOf frame = some level ↔ AnyTable s level frame) ∧
      ∀ frame, HasDesc frame → (∀ level, ¬ AnyTable s level frame) →
        t.typeOf frame = some .unused := by
  have built : WellBuilt s := ⟨unused,oneLevel,root,entries⟩
  obtain ⟨t,init⟩ := built.returns
  obtain ⟨mem,_,initialized,_⟩ := svaMmuInit_ret init
  refine ⟨t,init,mem,initialized,fun level ptp frame => built.types init ptp frame,?_⟩
  intro frame inside none
  rw [svaMmuInit_others init none]
  exact (typeOf_unused unused frame).mpr inside

theorem directMap_wellBuilt : WellBuilt directMap where
  unused _ := rfl
  oneLevel := directMap_shape.oneLevel
  root := (by decide : 1 < pageDescLength)
  entries _ frame _ _ index present := directMap_described ⟨frame,index⟩ present

/-- The table with the huge entry gets its type, and what the entry maps gets none. -/
theorem directMap_exact : ∃ t, svaMmuInit directMap = .ret () t ∧
    t.typeOf 3 = some .l2 ∧ t.typeOf 5 = some .unused := by
  obtain ⟨unused,oneLevel,root,entries⟩ := directMap_wellBuilt
  obtain ⟨t,init,_,_,types,others⟩ := svaMmuInit_exact unused oneLevel root entries
  have table := (directMap_shape.path (fun _ => True) trivial trivial).2.2
  refine ⟨t,init,(types .l2 rfl 3).mpr table,others 5 (by unfold HasDesc; decide) fun level below => ?_⟩
  rcases directMap_shape.tables below with ⟨_,same⟩ | ⟨_,same⟩ | ⟨_,same,_⟩
  all_goals exact absurd same (by decide)

end Cki.Monitor
