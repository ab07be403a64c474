import Cki.MonitorInit

/-! What initialisation looks up. The walk follows the descriptor of each entry it meets, so
that it returns exactly where all of them lie in `page_desc`. -/
namespace Cki.Monitor

def HasDesc (frame : Frame) : Prop := frame.toNat < pageDescLength

/-- In a table that is walked each present entry is looked up, huge or not. -/
def EntriesDescribed (mem : Slot → Word) (frame : Frame) : Prop :=
  ∀ index, Present (mem ⟨frame,index⟩) → HasDesc (frameOf (mem ⟨frame,index⟩))

/-- The tables that a walk goes through, those of the last level apart. -/
def WalkDescribed (mem : Slot → Word) (level : Nat) (entry : Frame)
    (types : Frame → Option PageType) : Prop :=
  ∀ k frame, (k + 2,frame) ∈ (tables mem).enters level entry types → EntriesDescribed mem frame

theorem descOf_of_hasDesc {frame : Frame} (inside : HasDesc frame) :
    descOf frame = some ⟨frame.toNat,inside⟩ := dif_pos inside

theorem descOf_none_iff {frame : Frame} : descOf frame = none ↔ ¬ HasDesc frame := by
  by_cases inside : HasDesc frame
  · simp [descOf_of_hasDesc inside,inside]
  · exact iff_of_true (dif_neg inside) inside

/-- What the call for an entry looks up. -/
def EntryDescribed (mem : Slot → Word) (level : Nat) (pageMapping : Word)
    (types : Frame → Option PageType) : Prop :=
  HasDesc (frameOf pageMapping) ∧
    (¬ Skipped level pageMapping → WalkDescribed mem level (frameOf pageMapping) types)

/-- What the loop over some entries of a table looks up. -/
def LoopDescribed (mem : Slot → Word) (level : Nat) (page : Frame) (indices : List (BitVec 9))
    (types : Frame → Option PageType) : Prop :=
  (level ≠ 0 → ∀ i ∈ indices, Present (mem ⟨page,i⟩) → HasDesc (frameOf (mem ⟨page,i⟩))) ∧
    ∀ k frame, (k + 2,frame) ∈ Layers.gather ((tables mem).enters level) ((tables mem).visit level)
      (subTables mem (level + 1) page indices) types → EntriesDescribed mem frame

/-- A call returns where something holds and faults elsewhere. -/
def ReturnsIff (p : Prop) (outcome : Outcome State Unit) : Prop :=
  (p → ∃ t, outcome = .ret () t) ∧ (¬ p → ∃ t, outcome = .fault t)

theorem ReturnsIff.bind {p q : Prop} {c : Ksm Unit} {f : Unit → Ksm Unit} {s : State}
    (first : ReturnsIff p (c s)) (later : ∀ t, c s = .ret () t → ReturnsIff q (f () t)) :
    ReturnsIff (p ∧ q) ((c >>= f) s) := by
  by_cases holds : p
  · obtain ⟨t,returns⟩ := first.1 holds
    rw [and_iff_right holds,Call.ret_bind returns]
    exact later t returns
  · obtain ⟨t,faults⟩ := first.2 holds
    rw [Call.bind_apply,faults]
    exact ⟨fun both => absurd both.1 holds,fun _ => ⟨t,rfl⟩⟩

section
variable {mem : Slot → Word} {level : Nat} {page : Frame} {i : BitVec 9} {rest : List (BitVec 9)}
  {types : Frame → Option PageType}

theorem loopDescribed_skip (passed : ¬ (Present (mem ⟨page,i⟩) ∧ level + 1 ≠ 1))
    (bound : level + 1 ≤ 4) :
    LoopDescribed mem level page (i :: rest) types ↔ LoopDescribed mem level page rest types := by
  have no : ¬ NonLeaf (levelType (level + 1)) (mem ⟨page,i⟩) := fun leads =>
    passed ((nonLeaf_iff bound _).mp leads).1
  rw [LoopDescribed,LoopDescribed,subTables_cons,if_neg no]
  refine and_congr_left fun _ => forall_congr' fun deeper => ?_
  rw [List.forall_mem_cons]
  exact and_iff_right fun present => absurd ⟨present,by omega⟩ passed

theorem loopDescribed_enter (entered : Present (mem ⟨page,i⟩) ∧ level + 1 ≠ 1)
    (bound : level + 1 ≤ 4) :
    LoopDescribed mem level page (i :: rest) types ↔
      EntryDescribed mem level (mem ⟨page,i⟩) types ∧ LoopDescribed mem level page rest
        (if Skipped level (mem ⟨page,i⟩) then types
          else (tables mem).visit level (frameOf (mem ⟨page,i⟩)) types) := by
  have deeper : level ≠ 0 := fun zero => entered.2 (by omega)
  have leads := nonLeaf_iff bound (mem ⟨page,i⟩)
  rw [LoopDescribed,LoopDescribed,EntryDescribed,subTables_cons,List.forall_mem_cons]
  by_cases skipped : Skipped level (mem ⟨page,i⟩)
  · rw [if_neg fun nonLeaf => (leads.mp nonLeaf).2 skipped,if_pos skipped]
    simp [deeper,entered.1,skipped,and_assoc]
  · rw [if_pos (leads.mpr ⟨entered,skipped⟩),if_neg skipped]
    simp only [Layers.gather,List.mem_append,or_imp,forall_and,WalkDescribed]
    simp only [ne_eq,deeper,not_false_eq_true,true_imp_iff,entered.1,skipped]
    exact ⟨fun all => ⟨⟨all.1.1,all.2.1⟩,all.1.2,all.2.2⟩,fun all => ⟨⟨all.1.1,all.2.1⟩,all.1.2,all.2.2⟩⟩

end

theorem walkDescribed_succ {mem : Slot → Word} {level : Nat} {page : Frame}
    {types : Frame → Option PageType} : WalkDescribed mem (level + 1) page types ↔
      (types page = some .unused → LoopDescribed mem level page pageEntries
        (Layers.put types page (some (levelType (level + 1))))) := by
  have unmarked : (tables mem).unmarked = some .unused := rfl
  by_cases fresh : types page = some .unused
  · rw [WalkDescribed,Layers.enters,unmarked,if_neg (not_not_intro fresh),LoopDescribed]
    simp only [fresh,true_imp_iff,List.mem_cons,or_imp,forall_and,Prod.mk.injEq,and_imp]
    refine and_congr ⟨fun own deeper i _ present => ?_,fun own k frame same found => ?_⟩ Iff.rfl
    · obtain ⟨k,rfl⟩ := Nat.exists_eq_add_one_of_ne_zero deeper
      exact own k page rfl rfl i present
    · subst found
      exact fun i present => own (by omega) i (mem_pageEntries i) present
  · rw [WalkDescribed,Layers.enters,unmarked,if_pos fresh]
    exact iff_of_true (by simp) fun unused => absurd unused fresh

/-- Each call of the walk returns exactly where what it looks up has a descriptor. -/
def Looks (level : Nat) : Prop := ∀ pageMapping s,
  ReturnsIff (EntryDescribed s.mem level pageMapping s.typeOf)
    (declarePtpAndWalkPtEntries level pageMapping s)

theorem walkEntries_looks {level : Nat} (bound : level + 1 ≤ 4) (each : level ≠ 0 → Looks level)
    (page : Frame) (indices : List (BitVec 9)) (s : State) :
    ReturnsIff (LoopDescribed s.mem level page indices s.typeOf)
      (walkEntries (declarePtpAndWalkPtEntries level) (level + 1) page indices s) := by
  induction indices generalizing s with
  | nil =>
    refine ⟨fun _ => ⟨s,rfl⟩,fun missing => (missing ⟨fun _ i member => ?_,fun k frame member => ?_⟩).elim⟩
    · cases member
    · cases member
  | cons i rest ih =>
    by_cases entered : Present (s.mem ⟨page,i⟩) ∧ level + 1 ≠ 1
    · have deeper : level ≠ 0 := fun zero => entered.2 (by omega)
      rw [loopDescribed_enter entered bound,walkEntries,Call.ret_bind (Call.read_apply _ s),
        if_pos entered]
      refine (each deeper _ s).bind fun t returns => ?_
      obtain ⟨walked,types⟩ := declarePtpAndWalkPtEntries_ret level (by omega) _ _ _ returns
      rw [typesAfter] at types
      rw [← types,← walked.mem]
      exact ih t
    · rw [loopDescribed_skip entered bound,walkEntries,Call.ret_bind (Call.read_apply _ s),
        if_neg entered,Call.ret_bind (Call.pure_apply _ s)]
      exact ih s

theorem declarePtpAndWalkPtEntries_looks (level : Nat) (bound : level ≤ 4) (entered : level ≠ 0) :
    Looks level := by
  induction level with
  | zero => exact absurd rfl entered
  | succ level ih =>
    intro pageMapping s
    have within : ¬ 4 < level + 1 := by omega
    rw [EntryDescribed,declarePtpAndWalkPtEntries,getPageDescPtr_eq]
    by_cases inside : HasDesc (frameOf pageMapping)
    · have describes := descOf_of_hasDesc inside
      simp only [describes,Call.bind_apply,Call.follow_some,Call.read_apply,Call.stopIf_apply,
        if_neg within]
      rw [and_iff_right inside]
      by_cases skipped : Skipped (level + 1) pageMapping
      · rw [if_pos skipped]
        exact ⟨fun _ => ⟨s,rfl⟩,fun missing => (missing fun enters => absurd skipped enters).elim⟩
      · have type : s.typeOf (frameOf pageMapping) = some .unused ↔
            s.pageDesc ⟨_,inside⟩ = .unused := by
          simp [State.typeOf,describes]
        rw [if_neg skipped,imp_iff_right skipped,walkDescribed_succ,type]
        by_cases traversed : s.pageDesc ⟨_,inside⟩ = .unused
        · rw [imp_iff_right traversed,if_neg (not_not_intro traversed),← setType_put s describes]
          exact walkEntries_looks bound (fun deeper => ih (by omega) deeper) (frameOf pageMapping)
            pageEntries (s.setType _ _)
        · rw [if_pos traversed]
          exact ⟨fun _ => ⟨_,rfl⟩,fun missing => (missing fun unused => absurd unused traversed).elim⟩
    · simp only [descOf_none_iff.mpr inside,Call.bind_apply,Call.follow_none]
      exact ⟨fun both => absurd both.1 inside,fun _ => ⟨s,rfl⟩⟩

theorem svaMmuInit_looks (s : State) : ReturnsIff
    (HasDesc (frameOf s.cr3) ∧ WalkDescribed s.mem 4 (frameOf s.cr3) s.typeOf) (svaMmuInit s) := by
  have entered : ¬ Skipped 4 (getPagetable s &&& pgFrame) := fun skipped => by
    have := skipped.1
    omega
  have walk := declarePtpAndWalkPtEntries_looks 4 (Nat.le_refl 4) (by decide) (getPagetable s &&& pgFrame) s
  rw [EntryDescribed,root_frame,imp_iff_right entered] at walk
  have rest := walk.bind (q := True) (f := fun _ => Call.modify fun s => { s with mmuIsInitialized := 1 })
    fun t _ => ⟨fun _ => ⟨_,rfl⟩,fun never => absurd trivial never⟩
  rw [and_true] at rest
  exact rest

def Described (mem : Slot → Word) : Prop :=
  ∀ slot, Present (mem slot) → (frameOf (mem slot)).toNat < pageDescLength

theorem svaMmuInit_returns {s : State} (described : Described s.mem)
    (inside : (frameOf s.cr3).toNat < pageDescLength) : ∃ t, svaMmuInit s = .ret () t :=
  (svaMmuInit_looks s).1 ⟨inside,fun _ frame _ index present => described ⟨frame,index⟩ present⟩

end Cki.Monitor
