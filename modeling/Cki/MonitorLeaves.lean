import Cki.MonitorTyping

/-! Leaves over page-table pages. The checks keep a 4 KiB leaf off them, but not a
2 MiB or 1 GiB one, and declaring a page looks neither at the leaves that map it
nor at what it holds. -/
namespace Cki.Monitor

/-- A present entry that maps memory at this level. -/
def IsLeaf (level : PageType) (value : Word) : Prop :=
  match level with
  | .l1 => Present value
  | .l2 | .l3 => Present value ∧ Huge value
  | _ => False

/-- A leaf covers the frames that agree with its own above this many bits. -/
def leafShift : PageType → Nat
  | .l2 => 9
  | .l3 => 18
  | _ => 0

def Covers (level : PageType) (value : Word) (frame : Frame) : Prop :=
  frame >>> leafShift level = frameOf value >>> leafShift level

def CoversPtp (s : State) (level : PageType) (value : Word) : Prop :=
  ∃ frame, Covers level value frame ∧ s.IsPtp frame

/-- A leaf of a typed page covers the frame. -/
def Mapped (s : State) (frame : Frame) : Prop :=
  ∃ slot level, s.typeOf slot.frame = some level ∧ IsLeaf level (s.mem slot) ∧
    Covers level (s.mem slot) frame

/-- No page-table page is mapped by a leaf. -/
def LeavesApart (s : State) : Prop := ∀ frame, s.IsPtp frame → ¬ Mapped s frame

/-- The monitor checks its updates and no page-table page is mapped by a leaf. -/
structure Isolated (s : State) : Prop where
  initialized : s.mmuIsInitialized ≠ 0
  apart : LeavesApart s

/-- A store makes a new leaf over a page-table page: a present huge entry into a page
of level 2 or 3. -/
def StoresHugeOverPtp (s : State) (slot : Slot) (value : Word) : Prop :=
  ∃ level, s.typeOf slot.frame = some level ∧ level ≠ .l1 ∧ IsLeaf level value ∧
    CoversPtp s level value

/-- Declaring the frame makes a leaf over a page-table page: a leaf covers it already,
or what it holds reads as a leaf over a page-table page or over itself. -/
def DeclaresMapped (s : State) (level : PageType) (frame : Frame) : Prop :=
  Mapped s frame ∨ ∃ index, IsLeaf level (s.mem ⟨frame,index⟩) ∧
    (CoversPtp s level (s.mem ⟨frame,index⟩) ∨ Covers level (s.mem ⟨frame,index⟩) frame)

/-- What is stored is, in the page that the word lies in, no leaf over a page-table page. -/
def StoresApart (s : State) (slot : Slot) (value : Word) : Prop :=
  ∀ level, s.typeOf slot.frame = some level → IsLeaf level value → ¬ CoversPtp s level value

/-- The word of the descriptor with a type written into it. -/
def State.writeType (layout : Layout) (s : State) (desc : Fin pageDescLength) (type : PageType) :
    State :=
  s.setMem (layout.descSlot desc) (s.typeWord layout desc type)

/-- The calls that make no leaf over a page-table page, by their arguments and the state before
them. The word of `page_desc` that an alloc or a release writes may itself lie in a page-table
page. -/
def KeepsApart (layout : Layout) (s : State) : Op → Prop
  | .set _ ptr value => (layout.IsOwn (ptrSlot layout ptr) → ¬ Accepted layout s ptr value) ∧
      ¬ StoresHugeOverPtp s (ptrSlot layout ptr) value
  | .alloc kind pfn => ∀ desc, descOf (pfnFrame pfn) = some desc →
      StoresApart s (layout.descSlot desc) (s.typeWord layout desc kind.level) ∧
        (s.typeOf (pfnFrame pfn) = some .unused →
          ¬ DeclaresMapped (s.writeType layout desc kind.level) kind.level (pfnFrame pfn))
  | .release _ pfn => ∀ desc, descOf (pfnFrame pfn) = some desc →
      StoresApart (s.setType desc .unused) (layout.descSlot desc) (s.typeWord layout desc .unused)
  | .writeCr3 _ => True

theorem IsLeaf.isPtp {level : PageType} {value : Word} (leaf : IsLeaf level value) :
    level.isPtp = true := by
  cases level with
  | l1 | l2 | l3 => rfl
  | l4 | unused | other bits => exact leaf.elim

theorem AllocKind.level_isPtp (kind : AllocKind) : kind.level.isPtp = true := by
  cases kind <;> rfl

/-- The 4 KiB check does keep a leaf off the page-table pages. -/
theorem EntryAccepted.apart {s : State} {value : Word} (accepted : EntryAccepted s .l1 value) :
    ¬ CoversPtp s .l1 value := by
  rintro ⟨frame,covers,type,found,ptp⟩
  obtain ⟨_,target,known,plain⟩ := accepted
  have same : frame = frameOf value := by simpa [Covers,leafShift] using covers
  rw [same,known] at found
  cases found
  rw [plain] at ptp
  contradiction

/-- A store keeps the leaves apart exactly when the stored value is no leaf over a
page-table page. -/
theorem leavesApart_setMem {s : State} (apart : LeavesApart s) (slot : Slot) (value : Word) :
    LeavesApart (s.setMem slot value) ↔ StoresApart s slot value := by
  constructor
  · intro after level type leaf ⟨frame,covers,ptp⟩
    refine after frame ptp ⟨slot,level,type,?_⟩
    rw [setMem_mem,if_pos rfl]
    exact ⟨leaf,covers⟩
  · intro fits frame ptp ⟨other,level,type,leaf,covers⟩
    rw [setMem_mem] at leaf covers
    split at leaf
    · rename_i same
      subst same
      rw [if_pos rfl] at covers
      exact fits level type leaf ⟨frame,covers,ptp⟩
    · rename_i distinct
      rw [if_neg distinct] at covers
      exact apart frame ptp ⟨other,level,type,leaf,covers⟩

/-- The same for declaring an unused page. -/
theorem leavesApart_declare {s : State} (apart : LeavesApart s) {desc : Fin pageDescLength}
    {frame : Frame} (describes : descOf frame = some desc)
    (unused : s.typeOf frame = some .unused) {level : PageType} (ptp : level.isPtp = true) :
    LeavesApart (s.setType desc level) ↔ ¬ DeclaresMapped s level frame := by
  have here : (s.setType desc level).typeOf frame = some level := by
    rw [setType_typeOf s describes,if_pos rfl]
  have there : ∀ {other}, other ≠ frame → (s.setType desc level).typeOf other = s.typeOf other := by
    intro other distinct
    rw [setType_typeOf s describes,if_neg distinct]
  have typed : ∀ {slot : Slot} {type}, s.typeOf slot.frame = some type → IsLeaf type (s.mem slot) →
      slot.frame ≠ frame := by
    rintro slot type found leaf same
    rw [same,unused] at found
    cases found
    exact leaf
  constructor
  · rintro after (⟨slot,type,found,leaf,covers⟩ | ⟨index,leaf,hits⟩)
    · refine after frame ⟨level,here,ptp⟩ ⟨slot,type,?_,leaf,covers⟩
      rw [there (typed found leaf)]
      exact found
    · rcases hits with ⟨other,covers,type,found,otherPtp⟩ | self
      · have distinct : other ≠ frame := by
          rintro rfl
          rw [unused] at found
          cases found
          contradiction
        refine after other ⟨type,?_,otherPtp⟩ ⟨⟨frame,index⟩,level,here,leaf,covers⟩
        rw [there distinct]
        exact found
      · exact after frame ⟨level,here,ptp⟩ ⟨⟨frame,index⟩,level,here,leaf,self⟩
  · intro clean other ⟨type,found,otherPtp⟩ ⟨slot,source,slotType,leaf,covers⟩
    rw [setType_mem] at leaf covers
    by_cases own : slot.frame = frame
    · rw [own,here] at slotType
      cases slotType
      have slotEq : slot = ⟨frame,slot.index⟩ := by rw [← own]
      rw [slotEq] at leaf covers
      refine clean (.inr ⟨slot.index,leaf,?_⟩)
      by_cases same : other = frame
      · exact .inr (same ▸ covers)
      · rw [there same] at found
        exact .inl ⟨other,covers,type,found,otherPtp⟩
    · rw [there own] at slotType
      by_cases same : other = frame
      · exact clean (.inl ⟨slot,source,slotType,leaf,same ▸ covers⟩)
      · rw [there same] at found
        exact apart other ⟨type,found,otherPtp⟩ ⟨slot,source,slotType,leaf,covers⟩

theorem leavesApart_remove {s : State} (apart : LeavesApart s) {desc : Fin pageDescLength}
    {frame : Frame} (describes : descOf frame = some desc) :
    LeavesApart (s.setType desc .unused) := by
  have kept : ∀ {other type}, (s.setType desc .unused).typeOf other = some type →
      type.isPtp = true → s.typeOf other = some type := by
    intro other type found ptp
    rw [setType_typeOf s describes] at found
    split at found
    · cases found
      contradiction
    · exact found
  intro other ⟨type,found,ptp⟩ ⟨slot,level,slotType,leaf,covers⟩
  exact apart other ⟨type,kept found ptp,ptp⟩ ⟨slot,level,kept slotType leaf.isPtp,leaf,covers⟩

theorem setType_same {s : State} {desc : Fin pageDescLength} {frame : Frame}
    (describes : descOf frame = some desc) {type : PageType} (same : s.typeOf frame = some type) :
    s.setType desc type = s := by
  have current : s.pageDesc desc = type := by simpa [State.typeOf,describes] using same
  cases s with
  | mk mem pageDesc initialized cr3 =>
    simp only [State.setType,State.mk.injEq,and_true,true_and]
    funext other
    split <;> simp_all

/-- What a declaration makes no leaf over was none before. -/
theorem leavesApart_of_declare {s : State} {desc : Fin pageDescLength} {frame : Frame}
    (describes : descOf frame = some desc) (unused : s.typeOf frame = some .unused)
    {level : PageType} (after : LeavesApart (s.setType desc level)) : LeavesApart s := by
  have kept : ∀ {other type}, s.typeOf other = some type → type.isPtp = true →
      (s.setType desc level).typeOf other = some type := by
    intro other type found ptp
    rw [setType_typeOf s describes]
    split
    · rename_i same
      rw [same,unused] at found
      cases found
      cases ptp
    · exact found
  intro other ⟨type,found,ptp⟩ ⟨slot,source,slotType,leaf,covers⟩
  exact after other ⟨type,kept found ptp,ptp⟩ ⟨slot,source,kept slotType leaf.isPtp,leaf,covers⟩

/-- A returning call which does not store through a pointer to the monitor's own words. -/
def OrdinaryStep (layout : Layout) (r : Ram) (op : Op) (r' : Ram) : Prop :=
  (∀ kind ptr value, op = .set kind ptr value → ¬ layout.IsOwn (ptrSlot layout ptr)) ∧
    Ram.Step layout r op r'

section
variable {layout : Layout} {r r' : Ram} {op : Op}

theorem ptrSlot_frame (layout : Layout) (ptr : Ptr) :
    (ptrSlot layout ptr).frame = ptrFrame layout ptr := by
  cases ptr with
  | entry slot => exact (ptrFrame_entry layout slot).symm
  | own var => rfl

/-- Declaring a page writes its descriptor, and so may make leaves in two ways. -/
theorem leavesApart_alloc (layout : Layout) {s : State} (apart : LeavesApart s)
    {desc : Fin pageDescLength} {frame : Frame} (describes : descOf frame = some desc) {level : PageType}
    (ptp : level.isPtp = true)
    (old : s.typeOf frame = some .unused ∨ s.typeOf frame = some level) :
    LeavesApart ((s.setType desc level).writeType layout desc level) ↔
      StoresApart s (layout.descSlot desc) (s.typeWord layout desc level) ∧
        (s.typeOf frame = some .unused →
          ¬ DeclaresMapped (s.writeType layout desc level) level frame) := by
  have written := leavesApart_setMem apart (layout.descSlot desc) (s.typeWord layout desc level)
  have order : (s.setType desc level).writeType layout desc level =
      (s.writeType layout desc level).setType desc level := rfl
  rw [← written]
  rcases old with unused | same
  · rw [order]
    have declared := fun before : LeavesApart (s.writeType layout desc level) =>
      leavesApart_declare before describes unused ptp
    constructor
    · intro after
      have before := leavesApart_of_declare (s := s.writeType layout desc level) describes unused after
      exact ⟨before,fun _ => (declared before).mp after⟩
    · rintro ⟨before,clean⟩
      exact (declared before).mpr (clean unused)
  · rw [setType_same describes same]
    refine (and_iff_left ?_).symm
    intro unused
    rw [same] at unused
    rw [Option.some.inj unused] at ptp
    contradiction

theorem ordinaryStep_initialized (apart : layout.Apart)
    (initialized : r.mmuIsInitialized layout ≠ 0) (step : OrdinaryStep layout r op r') :
    (r'.state layout).mmuIsInitialized ≠ 0 := by
  obtain ⟨plain,step⟩ := step
  cases op with
  | set kind ptr value =>
    obtain ⟨_,rfl⟩ := step.set initialized
    rw [Ram.state_setMem (plain kind ptr value rfl)]
    exact initialized
  | alloc kind pfn =>
    obtain ⟨desc,_,_,rfl⟩ := step.alloc apart initialized
    rw [Ram.state_setType apart desc kind.level_named]
    exact initialized
  | release kind pfn =>
    obtain ⟨desc,_,rfl⟩ := step.release
    rw [Ram.state_setType apart desc (by simp)]
    exact initialized
  | writeCr3 value =>
    obtain ⟨_,rfl⟩ := step.writeCr3 apart initialized
    exact initialized

/-- Over ordinary words a returning call keeps the leaves apart exactly under its
condition. -/
theorem ordinaryStep_isolated (apart : layout.Apart) (isolated : Isolated (r.state layout))
    (step : OrdinaryStep layout r op r') :
    KeepsApart layout (r.state layout) op ↔ Isolated (r'.state layout) := by
  have after := ordinaryStep_initialized apart isolated.initialized step
  have reduce : Isolated (r'.state layout) ↔ LeavesApart (r'.state layout) :=
    ⟨(·.apart),fun leaves => ⟨after,leaves⟩⟩
  rw [reduce]
  obtain ⟨plain,step⟩ := step
  cases op with
  | set kind ptr value =>
    have spared := plain kind ptr value rfl
    obtain ⟨accepted,rfl⟩ := step.set isolated.initialized
    rw [Ram.state_setMem spared,leavesApart_setMem isolated.apart,KeepsApart,StoresHugeOverPtp,
      and_iff_right fun own => absurd own spared]
    constructor
    · intro small level type leaf covers
      by_cases first : level = .l1
      · subst first
        rw [ptrSlot_frame] at type
        exact (accepted .l1 ⟨leaf,type⟩).apart covers
      · exact small ⟨level,type,first,leaf,covers⟩
    · rintro fits ⟨level,type,_,leaf,covers⟩
      exact fits level type leaf covers
  | alloc kind pfn =>
    obtain ⟨desc,describes,old,rfl⟩ := step.alloc apart isolated.initialized
    have retyped := leavesApart_alloc layout isolated.apart describes kind.level_isPtp old
    rw [Ram.state_setType apart desc kind.level_named]
    simp only [KeepsApart,describes,Option.some.injEq,forall_eq']
    exact retyped.symm
  | release kind pfn =>
    obtain ⟨desc,describes,rfl⟩ := step.release
    have removed := leavesApart_remove isolated.apart describes
    rw [Ram.state_setType apart desc (by simp),leavesApart_setMem removed]
    simp only [KeepsApart,describes,Option.some.injEq,forall_eq']
  | writeCr3 value =>
    obtain ⟨_,rfl⟩ := step.writeCr3 apart isolated.initialized
    exact iff_of_true trivial isolated.apart

theorem KeepsApart.ordinary (keeps : KeepsApart layout (r.state layout) op)
    (initialized : r.mmuIsInitialized layout ≠ 0) (step : Ram.Step layout r op r') :
    OrdinaryStep layout r op r' := by
  refine ⟨?_,step⟩
  rintro kind ptr value rfl own
  exact keeps.1 own (step.set initialized).1

end

/-- A call that meets its condition. -/
def ApartStep (layout : Layout) (step : Ram → Op → Ram → Prop) : Ram → Op → Ram → Prop :=
  Guarded (fun r op => KeepsApart layout (r.state layout) op) step

/-- In every run whose calls meet their condition no leaf covers a page-table page.
Over ordinary words these are all the runs in which none ever does. -/
theorem run_leavesApart (layout : Layout) (apart : layout.Apart) {r : Ram}
    (isolated : Isolated (r.state layout)) (ops : List Op) (r' : Ram) :
    (Run (ApartStep layout (Ram.Step layout)) r ops r' → LeavesApart (r'.state layout)) ∧
    (Run (ApartStep layout (OrdinaryStep layout)) r ops r' ↔
      Run (fun u op v => OrdinaryStep layout u op v ∧ Isolated (v.state layout)) r ops r') := by
  constructor
  · intro run
    refine (run.invariant (fun u => Isolated (u.state layout)) ?_ isolated).apart
    intro u op v isolated step
    have ordinary := step.1.ordinary isolated.initialized step.2
    exact (ordinaryStep_isolated apart isolated ordinary).mp step.1
  · exact Run.guarded_iff (fun u : Ram => Isolated (u.state layout)) _
      (fun u op v isolated step => ordinaryStep_isolated apart isolated step) isolated

theorem emptyRam_isolated : Isolated (emptyRam.state bssLayout) where
  initialized := emptyRam_initialized
  apart := by
    rintro frame _ ⟨slot,level,type,leaf,_⟩
    have low := emptyTables_low ⟨level,(emptyRam_typeOf _).symm.trans type,leaf.isPtp⟩
    have blank : (emptyRam.state bssLayout).mem slot = 0 := emptyRam_low (by omega)
    rw [blank] at leaf
    cases level with
    | l1 => exact absurd leaf (by decide : ¬ Present 0)
    | l2 | l3 => exact absurd leaf.1 (by decide : ¬ Present 0)
    | l4 | unused | other bits => exact leaf

/-- A 4 KiB leaf over an unused frame keeps the condition. -/
theorem run_leavesApart_emptyTables :
    LeavesApart ((emptyRam.setMem ⟨4,0⟩ 0x9003).state bssLayout) := by
  have accepted : Accepted bssLayout (emptyRam.state bssLayout) (.entry ⟨4,0⟩) 0x9003 := by
    rintro level ⟨_,type⟩
    rw [ptrFrame_entry,emptyRam_typeOf] at type
    cases type
    exact ⟨⟨by decide,by decide⟩,.unused,emptyRam_typeOf _,rfl⟩
  have step := Ram.set_step bssLayout emptyRam_initialized .pte accepted
  refine (run_leavesApart bssLayout bssLayout_apart emptyRam_isolated
    [.set .pte (.entry ⟨4,0⟩) 0x9003] _).1 (.single ⟨⟨?_,?_⟩,step⟩)
  · exact fun own => absurd own (bssLayout_plain (by decide))
  · rintro ⟨level,type,notFirst,_⟩
    rw [emptyRam_typeOf] at type
    cases type
    exact notFirst rfl

/-- A 2 MiB leaf at address 0 is accepted over the tables in frames 1 to 4. -/
theorem huge_leaf_over_tables : ¬ ∀ (layout : Layout) (r r' : Ram) (ops : List Op), layout.Apart →
    Isolated (r.state layout) → Run (Ram.Step layout) r ops r' → LeavesApart (r'.state layout) := by
  intro claim
  have accepted : Accepted bssLayout (emptyRam.state bssLayout) (.entry ⟨3,0⟩) 0x81 := by
    rintro level ⟨_,type⟩
    rw [ptrFrame_entry,emptyRam_typeOf] at type
    cases type
    exact ⟨by decide,by decide⟩
  have step := Ram.set_step bssLayout emptyRam_initialized .pmd accepted
  have apart := claim bssLayout emptyRam _ _ bssLayout_apart emptyRam_isolated (.single step)
  rw [Ram.state_setMem (bssLayout_plain (by decide))] at apart
  refine apart 4 ⟨.l1,emptyRam_typeOf _,rfl⟩ ⟨⟨3,0⟩,.l2,emptyRam_typeOf _,?_,?_⟩
  · exact ⟨by decide,by decide⟩
  · exact (by decide : (4 : Frame) >>> 9 = frameOf 0x81 >>> 9)

end Cki.Monitor
