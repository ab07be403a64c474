import Cki.MonitorWalk

/-! Releasing page-table pages. `sva_remove_page` neither counts the users of a page nor
looks for them: whether a released page is still in use is up to the calls before. -/
namespace Cki.Monitor

/-- Some present non-leaf entry of another typed frame points to the frame. -/
def LinkedFrom (s : State) (frame : Frame) : Prop :=
  ∃ slot level, slot.frame ≠ frame ∧ s.typeOf slot.frame = some level ∧
    NonLeaf level (s.mem slot) ∧ frameOf (s.mem slot) = frame

def InUse (s : State) (frame : Frame) : Prop := LinkedFrom s frame ∨ frame = frameOf s.cr3

/-- A page-table page that the call has turned into an unused one is in no use. -/
def DropsUnused (s : State) (op : Op) (t : State) : Prop :=
  ∀ kind pfn, op = .release kind pfn → s.IsPtp (pfnFrame pfn) →
    t.typeOf (pfnFrame pfn) = some .unused → ¬ InUse t (pfnFrame pfn)

/-! What the calls ask for, as a record of its own. -/

def State.retype (s : State) (frame : Frame) (type : PageType) : State :=
  match descOf frame with
  | some desc => s.setType desc type
  | none => s

/-- A call entered into the record, whatever the monitor would say to it. -/
def State.enter (s : State) : Op → State
  | .set _ ptr value => s.store ptr value
  | .alloc kind pfn => s.retype (pfnFrame pfn) kind.level
  | .release _ pfn => s.retype (pfnFrame pfn) .unused
  | .writeCr3 value => { s with cr3 := dropNoFlush value }

def record (start : State) (ops : List Op) : State := ops.foldl State.enter start

/-- By the record the released page is in no use. -/
def ReleaseFits (s : State) : Op → Prop
  | .release _ pfn => s.IsPtp (pfnFrame pfn) → ¬ InUse s (pfnFrame pfn)
  | _ => True

variable {layout : Layout}

theorem updateMapping_stores {s t : State} {ptr : Ptr} {value : Word}
    (returns : updateMapping layout ptr value s = .ret () t) : t = s.store ptr value := by
  by_cases initialized : s.mmuIsInitialized ≠ 0
  · exact (updateMapping_ret initialized returns).2
  · obtain ⟨_,_,read,later⟩ := Call.bind_ret returns
    cases read
    rw [if_neg initialized] at later
    cases later
    rfl

theorem svaMmLoadPgtable_loads {s t : State} {cr3 : Word}
    (returns : svaMmLoadPgtable cr3 s = .ret () t) : t = { s with cr3 := dropNoFlush cr3 } := by
  by_cases initialized : s.mmuIsInitialized ≠ 0
  · exact (svaMmLoadPgtable_ret initialized returns).2
  · obtain ⟨_,_,read,later⟩ := Call.bind_ret returns
    cases read
    rw [if_neg initialized] at later
    cases later
    rfl

/-- A call that returns has done what it was asked for. -/
theorem callStep_enter (s : State) (op : Op) (t : State) (step : CallStep layout s op t) :
    t = s.enter op := by
  cases op with
  | set kind ptr value =>
    rw [CallStep,Op.call,pkmSet_eq] at step
    exact updateMapping_stores step
  | alloc kind pfn =>
    rw [CallStep,Op.call,pkmAlloc_eq] at step
    obtain ⟨desc,describes,_,rfl⟩ := svaDeclarePage_ret step
    rw [State.enter,State.retype,pfnFrame,describes]
  | release kind pfn =>
    rw [CallStep,Op.call,pkmRelease_eq] at step
    obtain ⟨desc,describes,rfl⟩ := svaRemovePage_ret step
    rw [State.enter,State.retype,pfnFrame,describes]
  | writeCr3 value => exact svaMmLoadPgtable_loads step

/-- Its own type has no part in whether a frame is in use. -/
theorem inUse_setType {s : State} {desc : Fin pageDescLength} {frame : Frame}
    (describes : descOf frame = some desc) (type : PageType) :
    InUse (s.setType desc type) frame ↔ InUse s frame := by
  refine or_congr_left (exists_congr fun slot => exists_congr fun level => ?_)
  refine and_congr_right fun apart => ?_
  rw [setType_typeOf s describes,if_neg apart]
  rfl

/-- One call drops nothing that is in use exactly where the page it releases is in none. -/
theorem callStep_drops_iff (s : State) (op : Op) (t : State) (step : CallStep layout s op t) :
    ReleaseFits s op ↔ DropsUnused s op t := by
  cases op with
  | set | alloc | writeCr3 => exact iff_of_true trivial nofun
  | release kind pfn =>
    rw [CallStep,Op.call,pkmRelease_eq] at step
    obtain ⟨desc,found,rfl⟩ := svaRemovePage_ret step
    have describes : descOf (pfnFrame pfn) = some desc := found
    have dropped : (s.setType desc .unused).typeOf (pfnFrame pfn) = some .unused := by
      rw [setType_typeOf s describes,if_pos rfl]
    have uses : InUse (s.setType desc .unused) (pfnFrame pfn) ↔ InUse s (pfnFrame pfn) :=
      inUse_setType describes .unused
    constructor
    · rintro fits _ _ ⟨⟩ ptp _
      rw [uses]
      exact fits ptp
    · intro drops ptp
      rw [← uses]
      exact drops kind pfn rfl ptp dropped

/-- In a run no page-table page that is in use is dropped exactly where, by the record of
the calls before it, each release is of a page that is in no use. -/
theorem run_drops_iff {start t : State} {ops : List Op} (run : Run (CallStep layout) start ops t) :
    Run (fun s op t => CallStep layout s op t ∧ DropsUnused s op t) start ops t ↔
      ∀ before op after, ops = before ++ op :: after → ReleaseFits (record start before) op := by
  rw [Iff.comm]
  apply (run.replay_iff State.enter callStep_enter ReleaseFits).trans
  constructor
  · refine Run.weaken fun s op t guarded => ⟨guarded.2,?_⟩
    exact (callStep_drops_iff s op t guarded.2).mp guarded.1
  · refine Run.weaken fun s op t step => ⟨?_,step.1⟩
    exact (callStep_drops_iff s op t step.1).mpr step.2

theorem release_step (layout : Layout) {s : State} (kind : AllocKind) (pfn : Word)
    {desc : Fin pageDescLength} {slot : Slot} (found : descOf (pfnFrame pfn) = some desc)
    (mapped : getPgeVaddr (layout.physToVirt (pfn <<< 12)) s = some slot) :
    CallStep layout s (.release kind pfn) (s.setType desc .unused) := by
  rw [CallStep,Op.call,pkmRelease_eq]
  rw [pfnFrame] at found
  simp only [svaRemovePage,getPageDescPtr_eq,Call.bind_apply,Call.read_apply,found,mapped,
    Call.follow_some,Call.modify_apply,pageEntryStore,State.store,setMappingReadWrite,setMem_same]

/-! The tables of a guest which has just booted. -/

/-- Frame 9 becomes a last level table. -/
def State.withPage (s : State) : State := s.setType ⟨9,by decide⟩ .l1

/-- The second level table in frame 3 points to it. -/
def State.withLink (s : State) : State := s.setMem ⟨3,1⟩ 0x9003

theorem directMap_alloc {s : State} (init : svaMmuInit directMap = .ret () s) :
    CallStep flatLayout s (.alloc .pte 9) s.withPage := by
  have describes : descOf (pfnFrame 9) = some ⟨9,by decide⟩ := rfl
  have unused : s.typeOf (pfnFrame 9) = some .unused := directMap_shape.untouched init (by decide)
  rw [State.typeOf,describes] at unused
  exact alloc_step flatLayout .pte 9 describes (.inl (Option.some.inj unused))

theorem directMap_apart {slot : Slot} (present : Present (directMap.mem slot)) :
    frameOf (directMap.mem slot) ≠ 9 := by
  rw [directMap,setMem_mem] at present ⊢
  split
  · decide
  · rename_i other
    rw [if_neg other] at present
    rcases bootTables_entry slot present with ⟨_,value⟩ | ⟨_,value⟩
    · rw [value]
      decide
    · rw [value]
      decide

/-- Frame 9 is declared, and released before anything points to it. -/
theorem directMap_drops : ∃ s t, svaMmuInit directMap = .ret () s ∧
    Run (fun s op t => CallStep flatLayout s op t ∧ DropsUnused s op t) s
      [.alloc .pte 9,.release .pte 9] t := by
  obtain ⟨s,init⟩ := directMap_wellBuilt.returns
  obtain ⟨mem,cr3,_,_⟩ := svaMmuInit_ret init
  have declared := directMap_alloc init
  have mapped : getPgeVaddr 0x9000 s.withPage = some ⟨3,0⟩ :=
    (getPgeVaddr_congr (s := directMap) mem cr3 _).trans (by decide)
  have released := release_step flatLayout .pte 9 rfl mapped
  refine ⟨s,_,init,(run_drops_iff (.cons declared (.single released))).mpr ?_⟩
  rintro (_ | ⟨first,_ | ⟨second,rest⟩⟩) op after split
  · cases split
    trivial
  · cases split
    rintro _ (⟨slot,level,_,_,leads,points⟩ | root)
    · have present := leads.present
      change frameOf (s.mem slot) = 9 at points
      change Present (s.mem slot) at present
      rw [mem] at points present
      exact directMap_apart present points
    · change 9 = frameOf s.cr3 at root
      rw [cr3] at root
      exact absurd root (by decide)
  · cases rest with
    | nil => cases split
    | cons third rest => cases split

/-- Frame 9 is declared twice and linked, and dropped by the first release. -/
theorem linked_page_dropped : ¬ ∀ (layout : Layout) (boot start s t : State) (ops : List Op) (op : Op),
    svaMmuInit boot = .ret () start → Run (CallStep layout) start ops s → CallStep layout s op t →
    DropsUnused s op t := by
  intro claim
  obtain ⟨s,init⟩ := directMap_wellBuilt.returns
  obtain ⟨mem,cr3,initialized,_⟩ := svaMmuInit_ret init
  have upper : s.typeOf 3 = some .l2 := (directMap_wellBuilt.types init rfl 3).mpr
    (directMap_shape.path (fun _ => True) trivial trivial).2.2
  have declared := directMap_alloc init
  have again : CallStep flatLayout s.withPage (.alloc .pte 9) s.withPage.withPage :=
    alloc_step flatLayout .pte 9 rfl (.inr rfl)
  have accepted : Accepted flatLayout s.withPage.withPage (.entry ⟨3,1⟩) 0x9003 := by
    rintro level ⟨_,type⟩
    rw [ptrFrame_entry] at type
    cases upper.symm.trans type
    exact rfl
  have checks : s.withPage.withPage.mmuIsInitialized ≠ 0 := by
    change s.mmuIsInitialized ≠ 0
    rw [initialized]
    decide
  have set := set_step flatLayout checks .pmd accepted
  have same : s.withPage.withPage.withLink.mem = directMap.withLink.mem := by
    funext slot
    rw [State.withLink,State.withLink,setMem_mem,setMem_mem,← mem]
    rfl
  have mapped : getPgeVaddr 0x9000 s.withPage.withPage.withLink = some ⟨3,0⟩ :=
    (getPgeVaddr_congr same cr3 _).trans (by decide)
  have released := release_step flatLayout .pte 9 rfl mapped
  have drops := claim _ _ _ _ _ _ _ init (.cons declared (.cons again (.single set))) released
  have leads : NonLeaf .l2 0x9003 := by decide
  have points : frameOf 0x9003 = 9 := by decide
  have linked : LinkedFrom s.withPage.withPage.withLink 9 :=
    ⟨⟨3,1⟩,.l2,by decide,upper,leads,points⟩
  exact drops .pte 9 rfl ⟨.l1,rfl,rfl⟩ rfl ((inUse_setType rfl .unused).mpr (.inl linked))

end Cki.Monitor
