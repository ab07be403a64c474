import Cki.MonitorLookups

/-! Initialisation after the boot phase. Tables that the boot phase has declared on its own
hide from the walk what lies below them. -/
namespace Cki.Monitor

/-- The calls the boot phase makes before the KSM checks anything. -/
def BootCall (s : State) (op : Op) : Prop := s.mmuIsInitialized = 0 ∧ ∀ value, op ≠ .writeCr3 value

/-- After initialisation every table below CR3 has the type of its level exactly where the
tables lie at one level each and no declared page hides one without its type. -/
theorem svaMmuInit_covered_iff {s t : State} (init : svaMmuInit s = .ret () t) :
    Covered t ↔ OneLevel s ∧ HiddenDeclared s := by
  obtain ⟨mem,cr3,_,_⟩ := svaMmuInit_ret init
  have levels := svaMmuInit_levels_iff init
  rw [forall_tables] at levels
  rw [Covered,forall_tables,mem,cr3]
  exact levels

/-- Frame 1 is the root, frame 2 the table below it and frame 3 the one below that. -/
def bootTables : State where
  mem slot := if slot = ⟨1,0⟩ then 0x2003 else if slot = ⟨2,0⟩ then 0x3003 else 0
  pageDesc _ := .unused
  mmuIsInitialized := 0
  cr3 := 0x1000

theorem bootTables_entry (slot : Slot) (present : Present (bootTables.mem slot)) :
    slot = ⟨1,0⟩ ∧ bootTables.mem slot = 0x2003 ∨ slot = ⟨2,0⟩ ∧ bootTables.mem slot = 0x3003 := by
  simp only [bootTables] at present ⊢
  split at present
  · rename_i first
    exact .inl ⟨first,if_pos first⟩
  · rename_i first
    split at present
    · rename_i second
      exact .inr ⟨second,by rw [if_neg first,if_pos second]⟩
    · exact absurd present (by decide)

theorem bootTables_described : Described bootTables.mem := by
  intro slot present
  rcases bootTables_entry slot present with ⟨_,value⟩ | ⟨_,value⟩
  · rw [value]
    decide
  · rw [value]
    decide

/-- These tables, but for what the last one holds, which leads nowhere. -/
structure BootShape (s : State) : Prop where
  upper : ∀ slot : Slot, slot.frame ≠ 3 → s.mem slot = bootTables.mem slot
  last : ∀ index, ¬ NonLeaf .l2 (s.mem ⟨3,index⟩)
  cr3 : s.cr3 = bootTables.cr3

theorem bootTables_shape {s : State} (mem : s.mem = bootTables.mem) (cr3 : s.cr3 = bootTables.cr3) :
    BootShape s where
  upper slot _ := by rw [mem]
  last index := by
    rw [mem]
    intro leads
    rcases bootTables_entry _ leads.present with ⟨slot,_⟩ | ⟨slot,_⟩
    · exact absurd (congrArg Slot.frame slot) (by simp)
    · exact absurd (congrArg Slot.frame slot) (by simp)
  cr3 := cr3

namespace BootShape

variable {s t : State} {through : Frame → Prop}

theorem tables (shape : BootShape s) {level : PageType} {frame : Frame}
    (table : TableAt s through level frame) : level = .l4 ∧ frame = 1 ∨
      level = .l3 ∧ frame = 2 ∨ level = .l2 ∧ frame = 3 ∧ through 2 := by
  induction table with
  | root =>
    rw [shape.cr3]
    exact .inl ⟨rfl,rfl⟩
  | entry index _ inner leads ih =>
    rcases ih with ⟨rfl,rfl⟩ | ⟨rfl,rfl⟩ | ⟨rfl,rfl,_⟩
    · rw [shape.upper _ (by simp)] at leads ⊢
      rcases bootTables_entry _ leads.present with ⟨_,value⟩ | ⟨slot,_⟩
      · rw [value]
        exact .inr (.inl ⟨rfl,rfl⟩)
      · exact absurd (congrArg Slot.frame slot) (by simp)
    · rw [shape.upper _ (by simp)] at leads ⊢
      rcases bootTables_entry _ leads.present with ⟨slot,_⟩ | ⟨_,value⟩
      · exact absurd (congrArg Slot.frame slot) (by simp)
      · rw [value]
        exact .inr (.inr ⟨rfl,rfl,inner⟩)
    · exact absurd leads (shape.last index)

theorem path (shape : BootShape s) (through : Frame → Prop) (first : through 1)
    (second : through 2) :
    TableAt s through .l4 1 ∧ TableAt s through .l3 2 ∧ TableAt s through .l2 3 := by
  have top : TableAt s through .l4 1 := by
    have table : TableAt s through .l4 (frameOf s.cr3) := .root
    rwa [shape.cr3] at table
  have mid : TableAt s through .l3 2 := by
    have entry : s.mem ⟨1,0⟩ = 0x2003 := shape.upper ⟨1,0⟩ (by decide)
    have table := top.entry 0 first (by rw [entry]; decide)
    rwa [entry] at table
  have low : TableAt s through .l2 3 := by
    have entry : s.mem ⟨2,0⟩ = 0x3003 := shape.upper ⟨2,0⟩ (by decide)
    have table := mid.entry 0 second (by rw [entry]; decide)
    rwa [entry] at table
  exact ⟨top,mid,low⟩

theorem oneLevel (shape : BootShape s) : OneLevel s := by
  intro level other frame first second
  rcases shape.tables first with ⟨rfl,rfl⟩ | ⟨rfl,rfl⟩ | ⟨rfl,rfl,_⟩
  all_goals
    rcases shape.tables second with ⟨rfl,same⟩ | ⟨rfl,same⟩ | ⟨rfl,same,_⟩
    all_goals first | rfl | exact absurd same (by decide)

theorem untouched (shape : BootShape s) (init : svaMmuInit s = .ret () t) {frame : Frame}
    (apart : frame ≠ 1 ∧ frame ≠ 2 ∧ frame ≠ 3) : t.typeOf frame = s.typeOf frame := by
  rcases svaMmuInit_types init frame with same | ⟨level,fresh,_⟩
  · exact same
  · rcases shape.tables fresh with ⟨_,same⟩ | ⟨_,same⟩ | ⟨_,same,_⟩
    · exact absurd same apart.1
    · exact absurd same apart.2.1
    · exact absurd same apart.2.2

end BootShape

/-- Nothing was declared before the walk, and all three tables get their types. -/
theorem bootTables_covered : ∃ t, svaMmuInit bootTables = .ret () t ∧ Covered t := by
  have shape : BootShape bootTables := bootTables_shape rfl rfl
  obtain ⟨t,init⟩ := svaMmuInit_returns bootTables_described (by decide)
  refine ⟨t,init,(svaMmuInit_covered_iff init).mpr ⟨shape.oneLevel,fun level frame table => ?_⟩⟩
  obtain ⟨top,mid,low⟩ := shape.path (fun table => bootTables.typeOf table = some .unused) rfl rfl
  rcases shape.tables table with ⟨rfl,rfl⟩ | ⟨rfl,rfl⟩ | ⟨rfl,rfl,_⟩
  · exact .inl top
  · exact .inl mid
  · exact .inl low

/-- Frame 2 declared as it was allocated. -/
def declaredTables : State := bootTables.setType ⟨2,by decide⟩ .l3

/-- The walk does not look below the declared frame, and frame 3 stays unused. -/
theorem declared_table_hides : ¬ ∀ (layout : Layout) (start s t : State) (ops : List Op),
    (∀ desc, start.pageDesc desc = .unused) → start.mmuIsInitialized = 0 →
    Run (Guarded BootCall (CallStep layout)) start ops s → svaMmuInit s = .ret () t →
    Covered t := by
  intro claim
  have declared : CallStep flatLayout bootTables (.alloc .pud 2) declaredTables :=
    alloc_step flatLayout .pud 2 rfl (.inl rfl)
  have boot : BootCall bootTables (.alloc .pud 2) := ⟨rfl,fun _ => by simp⟩
  obtain ⟨t,init⟩ := svaMmuInit_returns (s := declaredTables) bootTables_described (by decide)
  have covered := claim _ _ _ _ _ (fun _ => rfl) rfl (.single ⟨boot,declared⟩) init
  obtain ⟨mem,cr3,_,_⟩ := svaMmuInit_ret init
  have typed := covered _ _ ((bootTables_shape mem cr3).path (fun _ => True) trivial trivial).2.2
  rcases svaMmuInit_types init 3 with same | ⟨level,fresh,mark⟩
  · rw [same] at typed
    cases typed
  · rw [typed] at mark
    cases mark
    rcases (bootTables_shape (s := declaredTables) rfl rfl).tables fresh with ⟨level,_⟩ | ⟨level,_⟩ | through
    · cases level
    · cases level
    · cases through.2.2

end Cki.Monitor
