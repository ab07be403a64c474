import Cki.MonitorBlocks

/-! The null pointers the KSM can follow. `getPageDescPtr` finds no descriptor for a frame
beyond `page_desc`, and `get_pgeVaddr` no entry for an address that is not mapped; some of
the places that use them test for that, and some do not. -/
namespace Cki.Monitor

/-- A call that returns or stops at an assertion. -/
def Unfaulted {α : Type} : Outcome State α → Prop
  | .ret _ _ | .bug _ => True
  | .fault _ => False

/-- The calls into the KSM. -/
inductive EntryCall where
  | init
  | call (op : Op)
  | flushTlbUser
  | emptyCall
  deriving DecidableEq, Repr

def EntryCall.run (layout : Layout) : EntryCall → Ksm Unit
  | .init => pkmInit
  | .call op => op.call layout
  | .flushTlbUser | .emptyCall => pure ()

/-! Which lookups have to find something. -/

/-- A value whose frame is looked up without a test in a table of this level. The one of a
last table has passed the check of its range. -/
def LooksUp (level : PageType) (value : Word) : Prop :=
  match level with
  | .l2 | .l3 | .l4 => Present value ∧ ¬ Huge value
  | _ => False

/-- What the call looks up and does not test is there. -/
def LookupsFound (layout : Layout) (s : State) : EntryCall → Prop
  | .init => HasDesc (frameOf s.cr3) ∧ WalkDescribed s.mem 4 (frameOf s.cr3) s.typeOf
  | .call (.set _ ptr value) => s.mmuIsInitialized ≠ 0 →
      ∀ level, s.typeOf (ptrFrame layout ptr) = some level → LooksUp level value →
        HasDesc (frameOf value)
  | .call (.alloc _ _) => True
  | .call (.release _ pfn) =>
    HasDesc (pfnFrame pfn) ∧ getPgeVaddr (layout.physToVirt (pfn <<< 12)) s ≠ none
  | .call (.writeCr3 value) => s.mmuIsInitialized ≠ 0 → HasDesc (frameOf value)
  | .flushTlbUser | .emptyCall => True

/-! The rules. -/

section
variable {α β : Type} {s t : State}

theorem unfaulted_bind {c : Ksm α} {a : α} (returns : c s = .ret a t) (f : α → Ksm β) :
    Unfaulted ((c >>= f) s) ↔ Unfaulted (f a t) := by
  rw [Call.ret_bind returns]

theorem unfaulted_stopIf {p : Prop} [Decidable p] {next : Ksm α} :
    Unfaulted ((Call.stopIf p >>= fun (_ : PUnit) => next) s) ↔ (¬ p → Unfaulted (next s)) := by
  rw [Call.bind_apply,Call.stopIf_apply]
  by_cases stops : p
  · rw [if_pos stops]
    exact iff_of_true trivial fun passes => absurd stops passes
  · rw [if_neg stops]
    exact ⟨fun unfaulted _ => unfaulted,fun unfaulted => unfaulted stops⟩

/-- The type of a frame is read and tested. -/
theorem unfaulted_type {next : Ksm α} {p : PageType → Prop} [DecidablePred p] (value : Word)
    (rest : Unfaulted (next s)) :
    Unfaulted ((typeAt (getPageDescPtr value) >>= fun type =>
      Call.stopIf (p type) >>= fun (_ : PUnit) => next) s) ↔ HasDesc (frameOf value) := by
  rw [getPageDescPtr_eq]
  by_cases inside : HasDesc (frameOf value)
  · rw [descOf_of_hasDesc inside]
    exact iff_of_true (unfaulted_stopIf.mpr fun _ => rest) inside
  · rw [descOf_none_iff.mpr inside]
    exact iff_of_false id inside

theorem unfaulted_range {next : Ksm α} (paddr size : Word) :
    Unfaulted ((assertPageInRange paddr size >>= fun _ => next) s) ↔
      (InRange paddr size → Unfaulted (next s)) := by
  rw [assertPageInRange,Call.bind_assoc,unfaulted_stopIf,unfaulted_stopIf,InRange,Std.not_le,and_imp]

end

/-! The check of an update. -/

theorem ptUpdateSwitch_unfaulted_iff (s : State) (level : PageType) {value : Word}
    (present : Present value) : Unfaulted (ptUpdateSwitch level value s) ↔
      (LooksUp level value → HasDesc (frameOf value)) := by
  cases level with
  | l1 =>
    refine iff_of_true ((unfaulted_range _ _).mpr fun inRange => ?_) (by simp [LooksUp])
    refine (unfaulted_type value ?_).mpr (inRange_frame inRange)
    exact trivial
  | l2 | l3 =>
    simp only [ptUpdateSwitch,LooksUp]
    by_cases huge : Huge value
    · simp only [huge,if_true,not_true,and_false]
      exact iff_of_true ((unfaulted_range _ _).mpr fun _ => trivial) (by simp)
    · simp only [huge,if_false]
      rw [unfaulted_type value]
      · exact ⟨fun found _ => found,fun found => found ⟨present,id⟩⟩
      · trivial
  | l4 =>
    simp only [ptUpdateSwitch,LooksUp]
    rw [unfaulted_stopIf,unfaulted_type value]
    · exact ⟨fun found looks => found looks.2,fun found small => found ⟨present,small⟩⟩
    · trivial
  | unused | other bits => exact iff_of_true trivial (by simp [LooksUp])

theorem ptUpdateIsValid_unfaulted_iff (layout : Layout) (s : State) (ptr : Ptr) (value : Word) :
    Unfaulted (ptUpdateIsValid layout ptr value s) ↔
      ∀ level, s.typeOf (ptrFrame layout ptr) = some level → LooksUp level value →
        HasDesc (frameOf value) := by
  by_cases present : Present value
  · simp only [ptUpdateIsValid,present,not_true,if_false]
    rw [getPageDescPtr_eq]
    simp only [State.typeOf,ptrFrame]
    cases desc : descOf (frameOf (getPhysicalAddr layout ptr)) with
    | none => exact iff_of_true trivial (by simp)
    | some d =>
      apply (ptUpdateSwitch_unfaulted_iff s (s.pageDesc d) present).trans
      simp
  · simp only [ptUpdateIsValid,present,not_false_iff,if_true]
    refine iff_of_true trivial fun level _ looks => ?_
    cases level with
    | l2 | l3 | l4 => exact absurd looks.1 present
    | _ => exact looks.elim

theorem updateMapping_unfaulted_iff (layout : Layout) (s : State) (ptr : Ptr) (value : Word) :
    Unfaulted (updateMapping layout ptr value s) ↔ (s.mmuIsInitialized ≠ 0 →
      Unfaulted (ptUpdateIsValid layout ptr value s)) := by
  by_cases initialized : s.mmuIsInitialized ≠ 0
  · rw [updateMapping_initialized layout initialized,Call.bind_apply]
    cases check : ptUpdateIsValid layout ptr value s with
    | ret valid t => exact iff_of_true (unfaulted_stopIf.mpr fun _ => trivial) fun _ => trivial
    | bug t => exact iff_of_true trivial fun _ => trivial
    | fault t => exact iff_of_false id fun all => all initialized
  · refine iff_of_true ?_ fun checks => absurd checks initialized
    simp only [updateMapping,Call.bind_apply,Call.read_apply,if_neg initialized]
    trivial

/-! The other calls. -/

theorem svaDeclarePage_unfaulted (layout : Layout) (s : State) (paddr : Word) (type : PageType) :
    Unfaulted (svaDeclarePage layout paddr type s) := by
  rw [svaDeclarePage]
  cases getPageDescPtr paddr with
  | none => trivial
  | some desc =>
    dsimp only
    rw [unfaulted_bind (Call.read_apply _ s),unfaulted_stopIf]
    intro _
    rw [unfaulted_bind (Call.modify_apply _ s),initDeclaredPage_apply]
    trivial

theorem svaRemovePage_unfaulted_iff (layout : Layout) (s : State) (paddr : Word) :
    Unfaulted (svaRemovePage layout paddr s) ↔
      HasDesc (frameOf paddr) ∧ getPgeVaddr (layout.physToVirt paddr) s ≠ none := by
  simp only [svaRemovePage,getPageDescPtr_eq]
  rw [unfaulted_bind (Call.read_apply _ s)]
  by_cases inside : HasDesc (frameOf paddr)
  · rw [descOf_of_hasDesc inside]
    cases getPgeVaddr (layout.physToVirt paddr) s with
    | none => exact iff_of_false id fun both => both.2 rfl
    | some slot => exact iff_of_true trivial ⟨inside,Option.some_ne_none slot⟩
  · rw [descOf_none_iff.mpr inside]
    exact iff_of_false id fun both => inside both.1

theorem svaMmLoadPgtable_unfaulted_iff (s : State) (cr3 : Word) :
    Unfaulted (svaMmLoadPgtable cr3 s) ↔ (s.mmuIsInitialized ≠ 0 → HasDesc (frameOf cr3)) := by
  rw [svaMmLoadPgtable,unfaulted_bind (Call.read_apply _ s)]
  by_cases initialized : s.mmuIsInitialized ≠ 0
  · rw [if_pos initialized]
    have loads : Unfaulted (loadCr3 cr3 s) := trivial
    apply (unfaulted_type (dropNoFlush cr3) loads).trans
    rw [frameOf_dropNoFlush]
    exact ⟨fun found _ => found,fun found => found initialized⟩
  · rw [if_neg initialized]
    exact iff_of_true trivial fun checks => absurd checks initialized

theorem ReturnsIff.unfaulted_iff {p : Prop} {outcome : Outcome State Unit}
    (ends : ReturnsIff p outcome) : Unfaulted outcome ↔ p := by
  by_cases holds : p
  · obtain ⟨t,returns⟩ := ends.1 holds
    rw [returns]
    exact iff_of_true trivial holds
  · obtain ⟨t,faults⟩ := ends.2 holds
    rw [faults]
    exact iff_of_false id holds

/-- A call into the KSM follows no null pointer exactly where what it looks up without a
test is there. -/
theorem entryCall_unfaulted_iff (layout : Layout) (s : State) (call : EntryCall) :
    Unfaulted (call.run layout s) ↔ LookupsFound layout s call := by
  cases call with
  | init => exact (svaMmuInit_looks s).unfaulted_iff
  | flushTlbUser | emptyCall => exact iff_of_true trivial trivial
  | call op =>
    cases op with
    | set kind ptr value =>
      simp only [EntryCall.run,Op.call,pkmSet_eq,updateMapping_unfaulted_iff,
        ptUpdateIsValid_unfaulted_iff]
      exact Iff.rfl
    | alloc kind pfn =>
      simp only [EntryCall.run,Op.call,pkmAlloc_eq]
      exact iff_of_true (svaDeclarePage_unfaulted layout s _ _) trivial
    | release kind pfn =>
      simp only [EntryCall.run,Op.call,pkmRelease_eq]
      exact svaRemovePage_unfaulted_iff layout s _
    | writeCr3 value => exact svaMmLoadPgtable_unfaulted_iff s value

/-- Below the boot tables one entry maps the first 2 MiB. -/
def directMap : State := bootTables.setMem ⟨3,0⟩ 0x83

theorem directMap_described : Described directMap.mem := by
  intro slot present
  rw [directMap,setMem_mem] at present ⊢
  split
  · decide
  · rename_i other
    rw [if_neg other] at present
    exact bootTables_described slot present

theorem directMap_shape : BootShape directMap where
  upper slot apart := by
    rw [directMap,setMem_mem,if_neg]
    rintro rfl
    exact apart rfl
  last index := by
    rw [directMap,setMem_mem]
    split
    · exact fun leads => leads.2 (by decide)
    · exact (bootTables_shape rfl rfl).last index
  cr3 := rfl

/-- The frame at 2 MiB is declared, and its release finds no entry that maps it. -/
theorem release_faults : (¬ ∀ (layout : Layout) (s : State) (call : EntryCall),
      Unfaulted (call.run layout s)) ∧
    ¬ ∀ (layout : Layout) (start s t : State) (kind : AllocKind) (pfn : Word),
      svaMmuInit start = .ret () s → CallStep layout s (.alloc kind pfn) t →
      Unfaulted ((Op.release kind pfn).call layout t) := by
  obtain ⟨s,init⟩ := svaMmuInit_returns directMap_described (by decide)
  obtain ⟨mem,cr3,_,_⟩ := svaMmuInit_ret init
  have described : descOf (pfnFrame 512) = some ⟨512,by decide⟩ := rfl
  have unused : s.typeOf (pfnFrame 512) = some .unused :=
    directMap_shape.untouched init (by decide)
  have old : s.pageDesc ⟨512,by decide⟩ = .unused := by
    rw [State.typeOf,described] at unused
    exact Option.some.inj unused
  have declared := alloc_step flatLayout .pte 512 described (.inl old)
  have faults : ¬ Unfaulted ((Op.release .pte 512).call flatLayout (s.setType ⟨512,by decide⟩ .l1)) := by
    have unmapped : getPgeVaddr 0x200000 directMap = none := by decide
    rw [Op.call,pkmRelease_eq,svaRemovePage_unfaulted_iff]
    exact fun mapped => mapped.2 ((getPgeVaddr_congr mem cr3 _).trans unmapped)
  exact ⟨fun claim => faults (claim flatLayout _ (.call (.release .pte 512))),
    fun claim => faults (claim flatLayout directMap s _ .pte 512 init declared)⟩

end Cki.Monitor
