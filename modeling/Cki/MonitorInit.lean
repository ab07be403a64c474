import Cki.Marking
import Cki.MonitorTyping

/-! `sva_mmu_init`: the walk that declares the page tables the boot phase has built. A
page's type is both what the walk leaves and how it knows where it has been. -/
namespace Cki.Monitor

@[irreducible] def pageEntries : List (BitVec 9) := (List.range 512).map (BitVec.ofNat 9)

theorem mem_pageEntries (index : BitVec 9) : index ∈ pageEntries := by
  unfold pageEntries
  refine List.mem_map.mpr ⟨index.toNat,List.mem_range.mpr index.isLt,?_⟩
  exact BitVec.ofNat_toNat 9 index

/-- The type with the number `level`. -/
def levelType : Nat → PageType
  | 0 => .unused
  | 1 => .l1
  | 2 => .l2
  | 3 => .l3
  | 4 => .l4
  | level => .other (BitVec.ofNat 32 level)

/-- `pageMapping & PG_PS`, which the cases PG_L2 and PG_L1 test. -/
def Skipped (level : Nat) (pageMapping : Word) : Prop := level ≤ 2 ∧ Huge pageMapping

instance (level : Nat) (pageMapping : Word) : Decidable (Skipped level pageMapping) :=
  inferInstanceAs (Decidable (_ ∧ _))

/-- The loop over the entries of a page. -/
def walkEntries (walk : Word → Ksm Unit) (pageLevel : Nat) (page : Frame) :
    List (BitVec 9) → Ksm Unit
  | [] => pure ()
  | i :: rest => do
    let nextEntry ← Call.read (·.mem ⟨page,i⟩)
    (if Present nextEntry ∧ pageLevel ≠ 1 then walk nextEntry else pure ())
    walkEntries walk pageLevel page rest

/-- `pageLevel` is the number of the type, and an entry is passed by its value. -/
def declarePtpAndWalkPtEntries : Nat → Word → Ksm Unit
  | 0, pageMapping => do
    let _ ← typeAt (getPageDescPtr pageMapping)
    Call.stop
  | subLevel + 1, pageMapping => do
    let thisPg ← Call.follow (getPageDescPtr pageMapping)
    let type ← Call.read (·.pageDesc thisPg)
    Call.stopIf (4 < subLevel + 1)
    if Skipped (subLevel + 1) pageMapping then return ()
    Call.modify (·.setType thisPg (levelType (subLevel + 1)))
    if type ≠ .unused then return ()
    walkEntries (declarePtpAndWalkPtEntries subLevel) (subLevel + 1) (frameOf pageMapping) pageEntries

def svaMmuInit : Ksm Unit := do
  let root ← Call.read getPagetable
  declarePtpAndWalkPtEntries 4 (root &&& pgFrame)
  Call.modify fun s => { s with mmuIsInitialized := 1 }

def pkmInit : Ksm Unit := svaMmuInit

/-! The walk as a traversal. -/

/-- The tables that entries of a table at a level point to. -/
def subTables (mem : Slot → Word) (level : Nat) (frame : Frame) (indices : List (BitVec 9)) :
    List Frame :=
  indices.filterMap fun i =>
    let entry := mem ⟨frame,i⟩
    if NonLeaf (levelType level) entry then some (frameOf entry) else none

theorem subTables_cons {mem : Slot → Word} {level : Nat} {page : Frame} {i : BitVec 9}
    {rest : List (BitVec 9)} : subTables mem level page (i :: rest) =
      if NonLeaf (levelType level) (mem ⟨page,i⟩) then
        frameOf (mem ⟨page,i⟩) :: subTables mem level page rest
      else subTables mem level page rest := by
  by_cases leads : NonLeaf (levelType level) (mem ⟨page,i⟩)
  · simp [subTables,leads]
  · simp [subTables,leads]

theorem levelType_used (level : Nat) : levelType (level + 1) ≠ .unused := by
  match level with
  | 0 | 1 | 2 | 3 => simp [levelType]
  | _ + 4 => simp [levelType]

def tables (mem : Slot → Word) : Layers Frame (Option PageType) where
  below level frame := subTables mem level frame pageEntries
  mark level := some (levelType level)
  unmarked := some .unused
  marks level := fun same => levelType_used level (Option.some.inj same)

/-- Only the types are written. -/
structure Walked (s t : State) : Prop where
  mem : t.mem = s.mem
  cr3 : t.cr3 = s.cr3
  mmuIsInitialized : t.mmuIsInitialized = s.mmuIsInitialized

theorem Walked.refl (s : State) : Walked s s := ⟨rfl,rfl,rfl⟩

theorem Walked.trans {s t u : State} (head : Walked s t) (tail : Walked t u) : Walked s u :=
  ⟨tail.mem.trans head.mem,tail.cr3.trans head.cr3,
    tail.mmuIsInitialized.trans head.mmuIsInitialized⟩

theorem nonLeaf_iff {level : Nat} (bound : level + 1 ≤ 4) (entry : Word) :
    NonLeaf (levelType (level + 1)) entry ↔
      (Present entry ∧ level + 1 ≠ 1) ∧ ¬ Skipped level entry := by
  match level with
  | 0 => simp [NonLeaf,levelType]
  | 1 | 2 | 3 => simp [NonLeaf,levelType,Skipped]

/-- The types after a call, as the traversal leaves them. -/
def typesAfter (level : Nat) (pageMapping : Word) (s : State) : Frame → Option PageType :=
  if Skipped level pageMapping then s.typeOf
  else (tables s.mem).visit level (frameOf pageMapping) s.typeOf

/-- A call keeps to the traversal of the tables below its entry. -/
def Traverses (level : Nat) : Prop :=
  ∀ pageMapping s t, declarePtpAndWalkPtEntries level pageMapping s = .ret () t →
    Walked s t ∧ t.typeOf = typesAfter level pageMapping s

theorem walkEntries_ret {level : Nat} (bound : level + 1 ≤ 4) (each : Traverses level) (page : Frame)
    (indices : List (BitVec 9)) (s t : State)
    (returns : walkEntries (declarePtpAndWalkPtEntries level) (level + 1) page indices s = .ret () t) :
    Walked s t ∧ t.typeOf = (subTables s.mem (level + 1) page indices).foldl
      (fun types child => (tables s.mem).visit level child types) s.typeOf := by
  induction indices generalizing s with
  | nil =>
    cases returns
    exact ⟨.refl _,rfl⟩
  | cons i rest ih =>
    have leads := nonLeaf_iff bound (s.mem ⟨page,i⟩)
    obtain ⟨_,u,first,later⟩ := Call.bind_ret returns
    cases first
    obtain ⟨_,u,first,later⟩ := Call.bind_ret later
    have one : Walked s u ∧ u.typeOf =
        if NonLeaf (levelType (level + 1)) (s.mem ⟨page,i⟩) then
          (tables s.mem).visit level (frameOf (s.mem ⟨page,i⟩)) s.typeOf
        else s.typeOf := by
      by_cases enters : Present (s.mem ⟨page,i⟩) ∧ level + 1 ≠ 1
      · rw [if_pos enters] at first
        obtain ⟨walked,types⟩ := each _ _ _ first
        refine ⟨walked,?_⟩
        rw [types,typesAfter]
        by_cases skipped : Skipped level (s.mem ⟨page,i⟩)
        · rw [if_pos skipped,if_neg fun nonLeaf => (leads.mp nonLeaf).2 skipped]
        · rw [if_neg skipped,if_pos (leads.mpr ⟨enters,skipped⟩)]
      · rw [if_neg enters] at first
        cases first
        rw [if_neg fun nonLeaf => enters (leads.mp nonLeaf).1]
        exact ⟨.refl _,rfl⟩
    obtain ⟨walked,types⟩ := one
    obtain ⟨walked',types'⟩ := ih u later
    refine ⟨walked.trans walked',?_⟩
    rw [types',types,walked.mem,subTables_cons]
    split
    · rfl
    · rfl

theorem setType_put (s : State) {desc : Fin pageDescLength} {frame : Frame}
    (describes : descOf frame = some desc) (type : PageType) :
    (s.setType desc type).typeOf = Layers.put s.typeOf frame (some type) := by
  funext other
  exact setType_typeOf s describes type other

theorem declarePtpAndWalkPtEntries_ret (level : Nat) (bound : level ≤ 4) : Traverses level := by
  induction level with
  | zero =>
    intro pageMapping s t returns
    obtain ⟨_,_,_,stopped⟩ := Call.bind_ret returns
    cases stopped
  | succ level ih =>
    intro pageMapping s t returns
    rw [declarePtpAndWalkPtEntries,getPageDescPtr_eq] at returns
    obtain ⟨desc,_,found,later⟩ := Call.bind_ret returns
    obtain ⟨describes,rfl⟩ := Call.follow_ret found
    obtain ⟨type,_,read,later⟩ := Call.bind_ret later
    cases read
    obtain ⟨_,_,switch,later⟩ := Call.bind_ret later
    obtain ⟨_,rfl⟩ := Call.stopIf_ret switch
    have type : s.typeOf (frameOf pageMapping) = some (s.pageDesc desc) := by
      rw [State.typeOf,describes,Option.map_some]
    by_cases skipped : Skipped (level + 1) pageMapping
    · rw [if_pos skipped] at later
      cases later
      exact ⟨.refl _,(if_pos skipped).symm⟩
    · rw [if_neg skipped] at later
      obtain ⟨_,_,modified,later⟩ := Call.bind_ret later
      cases modified
      dsimp only at later
      have put := setType_put s describes (levelType (level + 1))
      rw [typesAfter,if_neg skipped,Layers.visit,type]
      by_cases traversed : s.pageDesc desc = .unused
      · have fresh : ¬ some (s.pageDesc desc) ≠ (tables s.mem).unmarked := by
          rw [traversed]
          exact fun apart => apart rfl
        rw [if_neg (not_not_intro traversed)] at later
        rw [if_neg fresh]
        obtain ⟨walked,types⟩ :=
          walkEntries_ret bound (ih (by omega)) (frameOf pageMapping) pageEntries _ _ later
        refine ⟨⟨walked.mem,walked.cr3,walked.mmuIsInitialized⟩,?_⟩
        rw [types,put,setType_mem]
        simp only [tables]
      · have seen : some (s.pageDesc desc) ≠ (tables s.mem).unmarked :=
          fun same => traversed (Option.some.inj same)
        rw [if_pos traversed] at later
        cases later
        rw [if_pos seen]
        exact ⟨⟨rfl,rfl,rfl⟩,put⟩

/-! What initialisation covers. -/

/-- The tables below CR3, each with its level, over tables that satisfy `through`. -/
inductive TableAt (s : State) (through : Frame → Prop) : PageType → Frame → Prop where
  | root : TableAt s through .l4 (frameOf s.cr3)
  | entry {level : PageType} {frame : Frame} (index : BitVec 9) : TableAt s through level frame →
      through frame → NonLeaf level (s.mem ⟨frame,index⟩) →
      TableAt s through level.below (frameOf (s.mem ⟨frame,index⟩))

abbrev AnyTable (s : State) : PageType → Frame → Prop := TableAt s fun _ => True

def Covered (s : State) : Prop := ∀ level frame, AnyTable s level frame → s.typeOf frame = some level

/-- No table is reached at two levels. -/
def OneLevel (s : State) : Prop :=
  ∀ level other frame, AnyTable s level frame → AnyTable s other frame → level = other

/-- What cannot be reached through unused pages alone has been declared with its level. -/
def HiddenDeclared (s : State) : Prop :=
  ∀ level frame, AnyTable s level frame →
    TableAt s (fun table => s.typeOf table = some .unused) level frame ∨
      s.typeOf frame = some level

theorem mem_subTables {mem : Slot → Word} {level : Nat} {page child : Frame} :
    child ∈ subTables mem level page pageEntries ↔
      ∃ i, NonLeaf (levelType level) (mem ⟨page,i⟩) ∧ frameOf (mem ⟨page,i⟩) = child := by
  simp only [subTables,List.mem_filterMap]
  constructor
  · rintro ⟨i,_,leads⟩
    split at leads
    · rename_i nonLeaf
      exact ⟨i,nonLeaf,Option.some.inj leads⟩
    · cases leads
  · rintro ⟨i,nonLeaf,rfl⟩
    exact ⟨i,mem_pageEntries i,if_pos nonLeaf⟩

theorem levelType_below {level : Nat} (bound : level + 2 ≤ 4) :
    (levelType (level + 2)).below = levelType (level + 1) := by
  match level with
  | 0 | 1 | 2 => rfl

theorem levelType_injective : ∀ j k, j < 4 → k < 4 →
    levelType (j + 1) = levelType (k + 1) → j = k := by
  intro j k small small' same
  match j,k with
  | 0,0 | 1,1 | 2,2 | 3,3 => rfl
  | 0,1 | 0,2 | 0,3 | 1,0 | 1,2 | 1,3 | 2,0 | 2,1 | 2,3 | 3,0 | 3,1 | 3,2 => cases same

theorem TableAt.of_reaches {s : State} {through : Frame → Prop} {level : Nat} {frame : Frame}
    (reached : (tables s.mem).Reaches through 4 (frameOf s.cr3) level frame) (entered : level ≠ 0) :
    TableAt s through (levelType level) frame := by
  induction reached with
  | root => exact .root
  | @step level _ _ above inner edge ih =>
    have bound := above.level_le
    obtain ⟨index,leads,rfl⟩ := mem_subTables.mp edge
    match level with
    | 0 => exact absurd rfl entered
    | level + 1 =>
      rw [← levelType_below bound]
      exact (ih (by omega)).entry index inner leads

theorem TableAt.reaches {s : State} {through : Frame → Prop} {type : PageType} {frame : Frame}
    (table : TableAt s through type frame) : ∃ level, level < 4 ∧ type = levelType (level + 1) ∧
      (tables s.mem).Reaches through 4 (frameOf s.cr3) (level + 1) frame := by
  induction table with
  | root => exact ⟨3,by omega,rfl,.root⟩
  | @entry _ frame index _ inner leads ih =>
    obtain ⟨level,bound,rfl,reached⟩ := ih
    match level with
    | 0 => exact leads.elim
    | level + 1 =>
      have edge := mem_subTables.mpr ⟨index,leads,rfl⟩
      exact ⟨level,by omega,levelType_below bound,reached.step inner edge⟩

theorem tableAt_iff {s : State} {through : Frame → Prop} {level : Nat} {frame : Frame} :
    TableAt s through (levelType (level + 1)) frame ∧ level < 4 ↔
      (tables s.mem).Reaches through 4 (frameOf s.cr3) (level + 1) frame := by
  constructor
  · rintro ⟨table,bound⟩
    obtain ⟨k,small,same,reached⟩ := table.reaches
    rwa [levelType_injective level k bound small same]
  · intro reached
    exact ⟨.of_reaches reached (by omega),reached.level_le⟩

theorem forall_tables {s : State} {p : PageType → Frame → Prop} :
    (∀ level frame, AnyTable s level frame → p level frame) ↔
      ∀ level frame, (tables s.mem).Reaches (fun _ => True) 4 (frameOf s.cr3) (level + 1) frame →
        p (levelType (level + 1)) frame := by
  constructor
  · intro all level frame reached
    exact all _ frame (tableAt_iff.mpr reached).1
  · intro all level frame table
    obtain ⟨k,_,rfl,reached⟩ := table.reaches
    exact all k frame reached

theorem oneLevel_iff {s : State} :
    OneLevel s ↔ (tables s.mem).Apart (fun _ => True) 4 (frameOf s.cr3) := by
  constructor
  · intro oneLevel j k frame first second
    obtain ⟨first,low⟩ := tableAt_iff.mpr first
    obtain ⟨second,high⟩ := tableAt_iff.mpr second
    exact levelType_injective j k low high (oneLevel _ _ frame first second)
  · intro apart level other frame first second
    obtain ⟨j,_,rfl,reached⟩ := first.reaches
    obtain ⟨k,_,rfl,reached'⟩ := second.reaches
    rw [apart j k frame reached reached']

theorem hiddenDeclared_iff {s : State} :
    HiddenDeclared s ↔ ∀ level frame,
      (tables s.mem).Reaches (fun _ => True) 4 (frameOf s.cr3) (level + 1) frame →
        (tables s.mem).Fresh s.typeOf 4 (frameOf s.cr3) (level + 1) frame ∨
          s.typeOf frame = some (levelType (level + 1)) := by
  rw [HiddenDeclared,forall_tables]
  constructor
  · intro hidden level frame reached
    rcases hidden level frame reached with fresh | declared
    · exact .inl (tableAt_iff.mp ⟨fresh,reached.level_le⟩)
    · exact .inr declared
  · intro hidden level frame reached
    rcases hidden level frame reached with fresh | declared
    · exact .inl (tableAt_iff.mpr fresh).1
    · exact .inr declared

theorem root_frame (s : State) : frameOf (getPagetable s &&& pgFrame) = frameOf s.cr3 := by
  apply frameOf_congr
  rw [getPagetable,pgFrame,BitVec.and_assoc,BitVec.and_assoc]
  rfl

/-- Initialisation leaves the types of the traversal and nothing else. -/
theorem svaMmuInit_ret {s t : State} (init : svaMmuInit s = .ret () t) :
    t.mem = s.mem ∧ t.cr3 = s.cr3 ∧ t.mmuIsInitialized = 1 ∧
      t.typeOf = (tables s.mem).visit 4 (frameOf s.cr3) s.typeOf := by
  obtain ⟨_,_,root,later⟩ := Call.bind_ret init
  cases root
  obtain ⟨_,u,walk,later⟩ := Call.bind_ret later
  cases later
  obtain ⟨walked,types⟩ := declarePtpAndWalkPtEntries_ret 4 (Nat.le_refl 4) _ _ _ walk
  have entered : ¬ Skipped 4 (getPagetable s &&& pgFrame) := fun skipped => by
    have := skipped.1
    omega
  rw [typesAfter,if_neg entered,root_frame] at types
  exact ⟨walked.mem,walked.cr3,rfl,types⟩

/-- A frame keeps its type unless the walk reaches it through unused tables. -/
theorem svaMmuInit_types {s t : State} (init : svaMmuInit s = .ret () t) (frame : Frame) :
    t.typeOf frame = s.typeOf frame ∨ ∃ level,
      TableAt s (fun table => s.typeOf table = some .unused) level frame ∧
        t.typeOf frame = some level := by
  obtain ⟨_,_,_,types⟩ := svaMmuInit_ret init
  rw [types]
  rcases (tables s.mem).visit_marks_start s.typeOf 4 (frameOf s.cr3) frame with
    same | ⟨level,_,fresh,mark⟩
  · exact .inl same
  · exact .inr ⟨_,(tableAt_iff.mpr fresh).1,mark⟩

/-- No chain of entries leads from the root through unused tables back to it. -/
def RootOnce (s : State) : Prop :=
  ∀ level, TableAt s (fun table => s.typeOf table = some .unused) level (frameOf s.cr3) → level = .l4

theorem svaMmuInit_root {s t : State} (init : svaMmuInit s = .ret () t) (once : RootOnce s) :
    t.typeOf (frameOf t.cr3) = some .l4 := by
  obtain ⟨_,cr3,_,types⟩ := svaMmuInit_ret init
  rw [types,cr3]
  refine (tables s.mem).visit_root s.typeOf fun level small reached => ?_
  have same := once _ (tableAt_iff.mpr reached).1
  have := levelType_injective level 3 (by omega) (by omega) same
  omega

/-- The walk types the tables with their levels exactly where they lie at one level each and
none is hidden. -/
theorem svaMmuInit_levels_iff {s t : State} (init : svaMmuInit s = .ret () t) :
    (∀ level frame, AnyTable s level frame → t.typeOf frame = some level) ↔
      OneLevel s ∧ HiddenDeclared s := by
  obtain ⟨_,_,_,types⟩ := svaMmuInit_ret init
  have covers := (tables s.mem).visit_covers_iff (frameOf s.cr3) s.typeOf
    fun j k small small' same => levelType_injective j k small small' (Option.some.inj same)
  rw [forall_tables,oneLevel_iff,hiddenDeclared_iff,types]
  exact covers

end Cki.Monitor
