import Cki.MonitorRun

/-! The monitor's calls over memory that holds its own variables. `page_desc` and
`mmuIsInitialized` are words like any other here: writing a type changes the word that holds the
descriptor, and a store to such a word changes a type. The stack and the lock of a call are left
out. -/
namespace Cki.Monitor

structure Ram where
  mem : Slot → Word
  cr3 : Word

/-- The value of a type in a descriptor. -/
def PageType.bits : PageType → BitVec 32
  | .unused => 0
  | .l1 => 1
  | .l2 => 2
  | .l3 => 3
  | .l4 => 4
  | .other bits => bits

def Layout.ownSlot (layout : Layout) (var : Own) : Slot := slotOf (layout.ownAddr var)

/-- No two of the monitor's own words are one. -/
def Layout.Apart (layout : Layout) : Prop := Function.Injective layout.ownSlot

def Layout.IsOwn (layout : Layout) (slot : Slot) : Prop := ∃ var, layout.ownSlot var = slot

/-- The frame holds some of the monitor's own words. -/
def Layout.OwnFrame (layout : Layout) (frame : Frame) : Prop :=
  ∃ var, (layout.ownSlot var).frame = frame

/-- The word of `page_desc` that holds a descriptor. -/
def pairOf (desc : Fin pageDescLength) : Own :=
  .pageDesc ⟨desc.val / 2,by
    have := desc.isLt
    simp only [pageDescLength] at this
    omega⟩

def Layout.descSlot (layout : Layout) (desc : Fin pageDescLength) : Slot :=
  layout.ownSlot (pairOf desc)

/-- The half of a word that a descriptor takes up. -/
def descBits (word : Word) (desc : Fin pageDescLength) : BitVec 32 :=
  if desc.val % 2 = 0 then word.extractLsb' 0 32 else word.extractLsb' 32 32

def withDescBits (word : Word) (desc : Fin pageDescLength) (bits : BitVec 32) : Word :=
  if desc.val % 2 = 0 then word.extractLsb' 32 32 ++ bits else bits ++ word.extractLsb' 0 32

section
variable (layout : Layout)

def Ram.pageDesc (r : Ram) (desc : Fin pageDescLength) : PageType :=
  .ofBits (descBits (r.mem (layout.descSlot desc)) desc)

def Ram.mmuIsInitialized (r : Ram) : BitVec 32 :=
  (r.mem (layout.ownSlot .mmuIsInitialized)).extractLsb' 0 32

/-- What the calls read of memory. -/
def Ram.state (r : Ram) : State where
  mem := r.mem
  pageDesc := r.pageDesc layout
  mmuIsInitialized := r.mmuIsInitialized layout
  cr3 := r.cr3

def Ram.setMem (r : Ram) (slot : Slot) (value : Word) : Ram :=
  { r with mem := fun other => if other = slot then value else r.mem other }

/-- The word of a descriptor once a type is written into it. -/
def State.typeWord (s : State) (desc : Fin pageDescLength) (type : PageType) : Word :=
  withDescBits (s.mem (layout.descSlot desc)) desc type.bits

def Ram.setType (r : Ram) (desc : Fin pageDescLength) (type : PageType) : Ram :=
  r.setMem (layout.descSlot desc) ((r.state layout).typeWord layout desc type)

def ptrSlot : Ptr → Slot
  | .entry slot => slot
  | .own var => layout.ownSlot var

/-! The calls. -/

namespace Ram

/-- A part of a call that stores nothing. -/
def looks {α : Type} (look : Ksm α) : Call Ram α := fun r =>
  match look (r.state layout) with
  | .ret a _ => .ret a r
  | .bug _ => .bug r
  | .fault _ => .fault r

def pageEntryStore (pageEntry : Slot) (newVal : Word) : Call Ram Unit :=
  Call.modify (·.setMem pageEntry newVal)

def initDeclaredPage (frameAddr : Word) : Call Ram Unit := do
  let pageEntry ← looks layout (Call.read (getPgeVaddr (layout.physToVirt frameAddr)))
  match pageEntry with
  | some pageEntry =>
    let mapping ← Call.read (·.mem pageEntry)
    pageEntryStore pageEntry (setMappingReadOnly mapping)
  | none => pure ()

def svaMmLoadPgtable (cr3 : Word) : Call Ram Unit := do
  let initialized ← Call.read (·.mmuIsInitialized layout)
  if initialized ≠ 0 then
    let type ← looks layout (typeAt (getPageDescPtr (dropNoFlush cr3)))
    Call.stopIf (type ≠ .l4)
  Call.modify fun r => { r with cr3 := dropNoFlush cr3 }

def svaDeclarePage (paddr : Word) (type : PageType) : Call Ram Unit := do
  match getPageDescPtr paddr with
  | none => Call.stop
  | some pgDesc =>
    let old ← Call.read (·.pageDesc layout pgDesc)
    Call.stopIf (old ≠ .unused ∧ old ≠ type)
    Call.modify (·.setType layout pgDesc type)
    initDeclaredPage layout paddr

def svaRemovePage (paddr : Word) : Call Ram Unit := do
  let pte ← looks layout (Call.read (getPgeVaddr (layout.physToVirt paddr)))
  let pgDesc ← Call.follow (getPageDescPtr paddr)
  Call.modify (·.setType layout pgDesc .unused)
  let pte ← Call.follow pte
  let mapping ← Call.read (·.mem pte)
  pageEntryStore pte (setMappingReadWrite mapping)

def updateMapping (pageEntryPtr : Ptr) (val : Word) : Call Ram Unit := do
  let initialized ← Call.read (·.mmuIsInitialized layout)
  if initialized ≠ 0 then
    let valid ← looks layout (ptUpdateIsValid layout pageEntryPtr val)
    Call.stopIf (valid = false)
  pageEntryStore (ptrSlot layout pageEntryPtr) val

def call : Op → Call Ram Unit
  | .set _ ptr value => updateMapping layout ptr value
  | .alloc kind pfn => svaDeclarePage layout (pfn <<< 12) kind.level
  | .release _ pfn => svaRemovePage layout (pfn <<< 12)
  | .writeCr3 value => svaMmLoadPgtable layout value

def Step (r : Ram) (op : Op) (r' : Ram) : Prop := call layout op r = .ret () r'

end Ram
end

/-! Stores to words of memory. -/

theorem PageType.ofBits_bits {type : PageType} (named : ∀ bits, type ≠ .other bits) :
    PageType.ofBits type.bits = type := by
  cases type with
  | unused | l1 | l2 | l3 | l4 => rfl
  | other bits => exact absurd rfl (named bits)

@[simp] theorem descBits_same (word : Word) (desc : Fin pageDescLength) (bits : BitVec 32) :
    descBits (withDescBits word desc bits) desc = bits := by
  rw [descBits,withDescBits]
  split
  · exact BitVec.extractLsb'_append_eq_right
  · exact BitVec.extractLsb'_append_eq_left

/-- The other descriptor of the word stays. -/
theorem descBits_other (word : Word) {desc other : Fin pageDescLength} (bits : BitVec 32)
    (pair : pairOf other = pairOf desc) (apart : other ≠ desc) :
    descBits (withDescBits word desc bits) other = descBits word other := by
  have halves : other.val / 2 = desc.val / 2 := by
    simp only [pairOf,Own.pageDesc.injEq,Fin.mk.injEq] at pair
    exact pair
  have distinct : other.val ≠ desc.val := fun same => apart (Fin.ext same)
  rw [descBits,descBits,withDescBits]
  by_cases low : desc.val % 2 = 0
  · rw [if_pos low,if_neg (by omega),if_neg (by omega)]
    exact BitVec.extractLsb'_append_eq_left
  · rw [if_neg low,if_pos (by omega),if_pos (by omega)]
    exact BitVec.extractLsb'_append_eq_right

section
variable {layout : Layout} {r : Ram}

@[simp] theorem Ram.state_mem (slot : Slot) : (r.state layout).mem slot = r.mem slot := rfl

theorem pairOf_ne {desc : Fin pageDescLength} : pairOf desc ≠ .mmuIsInitialized := by
  simp [pairOf]

/-- A store to an ordinary word leaves the descriptors and the flag. -/
theorem Ram.state_setMem {slot : Slot} (plain : ¬ layout.IsOwn slot) (value : Word) :
    (r.setMem slot value).state layout = (r.state layout).setMem slot value := by
  have kept : ∀ var, (r.setMem slot value).mem (layout.ownSlot var) = r.mem (layout.ownSlot var) :=
    fun var => if_neg fun same => plain ⟨var,same⟩
  simp only [Ram.state,State.setMem,State.mk.injEq]
  refine ⟨rfl,?_,?_,rfl⟩
  · funext desc
    rw [Ram.pageDesc,Layout.descSlot,kept,Ram.pageDesc,Layout.descSlot]
  · rw [Ram.mmuIsInitialized,kept,Ram.mmuIsInitialized]

/-- A store to a word of `page_desc` writes the descriptors in it. -/
theorem setOwn_pageDesc (s : State) (pair : Fin 4194304) (value : Word) :
    s.setOwn (.pageDesc pair) value =
      { s with pageDesc := fun desc =>
          if pairOf desc = .pageDesc pair then .ofBits (descBits value desc) else s.pageDesc desc } := by
  simp only [State.setOwn,State.mk.injEq,and_true,true_and]
  funext desc
  have place : pairOf desc = .pageDesc pair ↔ desc.val / 2 = pair.val := by simp [pairOf,Fin.ext_iff]
  simp only [place,descBits]
  grind

/-- A store to one of the monitor's own words changes the variable too. -/
theorem Ram.state_setMem_own (apart : layout.Apart) (var : Own) (value : Word) :
    (r.setMem (layout.ownSlot var) value).state layout =
      ((r.state layout).setOwn var value).setMem (layout.ownSlot var) value := by
  have here : (r.setMem (layout.ownSlot var) value).mem (layout.ownSlot var) = value := if_pos rfl
  have kept : ∀ other, other ≠ var →
      (r.setMem (layout.ownSlot var) value).mem (layout.ownSlot other) = r.mem (layout.ownSlot other) :=
    fun other distinct => if_neg fun same => distinct (apart same)
  cases var with
  | mmuIsInitialized =>
    simp only [Ram.state,State.setOwn,State.setMem,State.mk.injEq]
    refine ⟨rfl,?_,?_,rfl⟩
    · funext desc
      rw [Ram.pageDesc,Layout.descSlot,kept _ pairOf_ne,Ram.pageDesc,Layout.descSlot]
    · rw [Ram.mmuIsInitialized,here]
  | pageDesc pair =>
    rw [setOwn_pageDesc]
    simp only [Ram.state,State.setMem,State.mk.injEq]
    refine ⟨rfl,?_,?_,rfl⟩
    · funext desc
      rw [Ram.pageDesc,Layout.descSlot]
      by_cases same : pairOf desc = .pageDesc pair
      · rw [if_pos same,same,here]
      · rw [if_neg same,kept _ same]
        rfl
    · rw [Ram.mmuIsInitialized,kept _ (by simp)]
      rfl

/-- The word of a descriptor with a type in it differs in that descriptor alone. -/
theorem setOwn_typeWord (desc : Fin pageDescLength) {type : PageType}
    (named : ∀ bits, type ≠ .other bits) :
    (r.state layout).setOwn (pairOf desc) ((r.state layout).typeWord layout desc type) =
      (r.state layout).setType desc type := by
  have own : pairOf desc = .pageDesc ⟨desc.val / 2,_⟩ := rfl
  rw [own,setOwn_pageDesc,← own,State.setType]
  congr 1
  funext other
  by_cases same : other = desc
  · subst same
    rw [if_pos rfl,if_pos rfl,State.typeWord,descBits_same,PageType.ofBits_bits named]
  · rw [if_neg same]
    split
    · rename_i pair
      rw [State.typeWord,descBits_other _ _ pair same,Layout.descSlot,← pair]
      rfl
    · rfl

theorem Ram.state_setType (apart : layout.Apart) (desc : Fin pageDescLength) {type : PageType}
    (named : ∀ bits, type ≠ .other bits) : (r.setType layout desc type).state layout =
      ((r.state layout).setType desc type).setMem (layout.descSlot desc)
        ((r.state layout).typeWord layout desc type) := by
  rw [Ram.setType,Layout.descSlot,Ram.state_setMem_own apart,setOwn_typeWord desc named]

@[simp] theorem Ram.setMem_same (slot : Slot) : r.setMem slot (r.mem slot) = r := by
  cases r with
  | mk mem cr3 =>
    simp only [Ram.setMem,Ram.mk.injEq,and_true]
    funext other
    split <;> simp_all

end

/-! Each call does to memory what it does to the state that it reads, and to the monitor's own
words besides. -/

/-- The same but for a word of the monitor's own. -/
def Mirrors (layout : Layout) (t u : State) : Prop :=
  ∃ var value, u = t.setMem (layout.ownSlot var) value

/-- The same outcome, in states of which the one mirrors the other. -/
def Follows (layout : Layout) : Outcome Ram Unit → Outcome State Unit → Prop
  | .ret _ r, .ret _ t | .bug r, .bug t | .fault r, .fault t => Mirrors layout t (r.state layout)
  | _, _ => False

/-- No ordinary pointer points to one of the monitor's own words. -/
def Op.Plain (layout : Layout) : Op → Prop
  | .set _ (.entry slot) _ => ¬ layout.IsOwn slot
  | .set _ (.own _) _ | .alloc _ _ | .release _ _ | .writeCr3 _ => True

theorem Mirrors.refl (layout : Layout) (t : State) : Mirrors layout t t :=
  ⟨.mmuIsInitialized,t.mem _,(setMem_same t _).symm⟩

section
variable {layout : Layout} {r r' : Ram}

theorem store_mirrors (apart : layout.Apart) (kind : SetKind) {ptr : Ptr} {value : Word}
    (plain : Op.Plain layout (.set kind ptr value)) :
    Mirrors layout ((r.state layout).store ptr value)
      ((r.setMem (ptrSlot layout ptr) value).state layout) := by
  cases ptr with
  | entry slot =>
    rw [ptrSlot,Ram.state_setMem plain]
    exact .refl layout _
  | own var => exact ⟨var,value,Ram.state_setMem_own apart var value⟩

theorem setType_mirrors (apart : layout.Apart) (desc : Fin pageDescLength) {type : PageType}
    (named : ∀ bits, type ≠ .other bits) :
    Mirrors layout ((r.state layout).setType desc type) ((r.setType layout desc type).state layout) :=
  ⟨pairOf desc,_,Ram.state_setType apart desc named⟩

theorem updateMapping_follows (apart : layout.Apart) (kind : SetKind) {ptr : Ptr} {value : Word}
    (plain : Op.Plain layout (.set kind ptr value)) :
    Follows layout (Ram.updateMapping layout ptr value r)
      (updateMapping layout ptr value (r.state layout)) := by
  have stored : Mirrors layout ((r.state layout).store ptr value)
      ((r.setMem (ptrSlot layout ptr) value).state layout) := store_mirrors apart kind plain
  have same : (r.state layout).mmuIsInitialized = r.mmuIsInitialized layout := rfl
  simp only [Ram.updateMapping,updateMapping,Call.bind_apply,Call.read_apply,same]
  by_cases initialized : r.mmuIsInitialized layout ≠ 0
  · have decides := ptUpdateIsValid_decides layout (r.state layout) ptr value
    simp only [if_pos initialized,Call.bind_apply,Ram.looks]
    by_cases accepted : Accepted layout (r.state layout) ptr value
    · rw [decides.1 accepted]
      exact stored
    · rcases decides.2 accepted with stops | faults
      · rw [stops]
        exact .refl layout _
      · rw [faults]
        exact .refl layout _
  · simp only [if_neg initialized]
    exact stored

theorem Ram.initDeclaredPage_apply (layout : Layout) (frameAddr : Word) (r : Ram) :
    Ram.initDeclaredPage layout frameAddr r = .ret () r := by
  simp only [Ram.initDeclaredPage,Call.bind_apply,Ram.looks,Call.read_apply]
  cases getPgeVaddr (layout.physToVirt frameAddr) (r.state layout) with
  | none => rfl
  | some slot =>
    simp only [Call.bind_apply,Call.read_apply,Ram.pageEntryStore,Call.modify_apply,
      setMappingReadOnly,Ram.setMem_same]

theorem svaDeclarePage_follows (apart : layout.Apart) (paddr : Word) {type : PageType}
    (named : ∀ bits, type ≠ .other bits) :
    Follows layout (Ram.svaDeclarePage layout paddr type r)
      (svaDeclarePage layout paddr type (r.state layout)) := by
  rw [Ram.svaDeclarePage,svaDeclarePage]
  cases getPageDescPtr paddr with
  | none => exact .refl layout _
  | some desc =>
    have same : (r.state layout).pageDesc desc = r.pageDesc layout desc := rfl
    simp only [Call.bind_apply,Call.read_apply,Call.stopIf_apply,same]
    by_cases bad : r.pageDesc layout desc ≠ .unused ∧ r.pageDesc layout desc ≠ type
    · simp only [if_pos bad]
      exact .refl layout _
    · simp only [if_neg bad,Call.modify_apply,initDeclaredPage_apply,Ram.initDeclaredPage_apply]
      exact setType_mirrors apart desc named

theorem svaRemovePage_follows (apart : layout.Apart) (paddr : Word) :
    Follows layout (Ram.svaRemovePage layout paddr r)
      (svaRemovePage layout paddr (r.state layout)) := by
  simp only [Ram.svaRemovePage,svaRemovePage,Call.bind_apply,Call.read_apply,Ram.looks]
  cases getPageDescPtr paddr with
  | none => exact .refl layout _
  | some desc =>
    have retyped : Mirrors layout ((r.state layout).setType desc .unused)
        ((r.setType layout desc .unused).state layout) := setType_mirrors apart desc (by simp)
    simp only [Call.follow_some,Call.modify_apply]
    cases getPgeVaddr (layout.physToVirt paddr) (r.state layout) with
    | none => exact retyped
    | some slot =>
      simp only [Call.follow_some,Ram.pageEntryStore,pageEntryStore,Call.modify_apply,
        State.store,setMappingReadWrite,setMem_same,Ram.setMem_same]
      exact retyped

theorem svaMmLoadPgtable_follows (cr3 : Word) :
    Follows layout (Ram.svaMmLoadPgtable layout cr3 r) (svaMmLoadPgtable cr3 (r.state layout)) := by
  have same : (r.state layout).mmuIsInitialized = r.mmuIsInitialized layout := rfl
  simp only [Ram.svaMmLoadPgtable,svaMmLoadPgtable,Call.bind_apply,Call.read_apply,same]
  by_cases initialized : r.mmuIsInitialized layout ≠ 0
  · simp only [if_pos initialized,Call.bind_apply,Ram.looks]
    cases getPageDescPtr (dropNoFlush cr3) with
    | none => exact .refl layout _
    | some desc =>
      simp only [typeAt,Call.bind_apply,Call.follow_some,Call.read_apply,Call.stopIf_apply]
      by_cases bad : (r.state layout).pageDesc desc ≠ .l4
      · simp only [if_pos bad]
        exact .refl layout _
      · simp only [if_neg bad]
        exact .refl layout _
  · simp only [if_neg initialized]
    exact .refl layout _

theorem AllocKind.level_named (kind : AllocKind) (bits : BitVec 32) : kind.level ≠ .other bits := by
  cases kind <;> simp [AllocKind.level]

theorem call_follows (apart : layout.Apart) {op : Op} (plain : op.Plain layout) :
    Follows layout (Ram.call layout op r) (op.call layout (r.state layout)) := by
  cases op with
  | set kind ptr value =>
    rw [Op.call,pkmSet_eq]
    exact updateMapping_follows apart kind plain
  | alloc kind pfn =>
    rw [Op.call,pkmAlloc_eq]
    exact svaDeclarePage_follows apart _ kind.level_named
  | release kind pfn =>
    rw [Op.call,pkmRelease_eq]
    exact svaRemovePage_follows apart _
  | writeCr3 value => exact svaMmLoadPgtable_follows value

theorem Ram.set_step (layout : Layout) (initialized : r.mmuIsInitialized layout ≠ 0) (kind : SetKind)
    {ptr : Ptr} {value : Word} (accepted : Accepted layout (r.state layout) ptr value) :
    Ram.Step layout r (.set kind ptr value) (r.setMem (ptrSlot layout ptr) value) := by
  have valid := (ptUpdateIsValid_decides layout (r.state layout) ptr value).1 accepted
  simp only [Ram.Step,Ram.call,Ram.updateMapping,Call.bind_apply,Call.read_apply,
    if_pos initialized,Ram.looks,valid]
  rfl

theorem Ram.alloc_step (layout : Layout) (kind : AllocKind) {pfn : Word} {desc : Fin pageDescLength}
    (found : descOf (pfnFrame pfn) = some desc)
    (old : r.pageDesc layout desc = .unused ∨ r.pageDesc layout desc = kind.level) :
    Ram.Step layout r (.alloc kind pfn) (r.setType layout desc kind.level) := by
  rw [pfnFrame] at found
  have passes : ¬ (r.pageDesc layout desc ≠ .unused ∧ r.pageDesc layout desc ≠ kind.level) :=
    fun refused => old.elim refused.1 refused.2
  simp only [Ram.Step,Ram.call,Ram.svaDeclarePage,getPageDescPtr_eq,found,Call.bind_apply,
    Call.read_apply,Call.stopIf_apply,if_neg passes,Call.modify_apply,Ram.initDeclaredPage_apply]

theorem Ram.Step.same {op : Op} (step : Ram.Step layout r op r') {r'' : Ram}
    (step' : Ram.Step layout r op r'') : r' = r'' := by
  rw [Ram.Step] at step step'
  rw [step] at step'
  exact Outcome.ret.inj step' |>.2

/-- A call that returns does so on the state that it reads. -/
theorem Ram.Step.seen (apart : layout.Apart) {op : Op} (plain : op.Plain layout)
    (step : Ram.Step layout r op r') :
    ∃ t, CallStep layout (r.state layout) op t ∧ Mirrors layout t (r'.state layout) := by
  have follows := call_follows (r := r) apart plain
  rw [step] at follows
  cases after : op.call layout (r.state layout) with
  | ret _ t =>
    rw [after] at follows
    exact ⟨t,after,follows⟩
  | bug t | fault t =>
    rw [after] at follows
    exact follows.elim

theorem Ram.Step.set {kind : SetKind} {ptr : Ptr} {value : Word}
    (initialized : r.mmuIsInitialized layout ≠ 0) (step : Ram.Step layout r (.set kind ptr value) r') :
    Accepted layout (r.state layout) ptr value ∧ r' = r.setMem (ptrSlot layout ptr) value := by
  have accepted : Accepted layout (r.state layout) ptr value := by
    refine Classical.byContradiction fun refused => ?_
    have decides := (ptUpdateIsValid_decides layout (r.state layout) ptr value).2 refused
    simp only [Ram.Step,Ram.call,Ram.updateMapping,Call.bind_apply,Call.read_apply,
      if_pos initialized,Ram.looks] at step
    rcases decides with stops | faults
    · rw [stops] at step
      cases step
    · rw [faults] at step
      cases step
  exact ⟨accepted,step.same (Ram.set_step layout initialized kind accepted)⟩

theorem Ram.Step.alloc (apart : layout.Apart) {kind : AllocKind} {pfn : Word}
    (initialized : r.mmuIsInitialized layout ≠ 0) (step : Ram.Step layout r (.alloc kind pfn) r') :
    ∃ desc, descOf (pfnFrame pfn) = some desc ∧
      ((r.state layout).typeOf (pfnFrame pfn) = some .unused ∨
        (r.state layout).typeOf (pfnFrame pfn) = some kind.level) ∧
      r' = r.setType layout desc kind.level := by
  have plain : Op.Plain layout (.alloc kind pfn) := trivial
  obtain ⟨t,call,_⟩ := step.seen apart plain
  obtain ⟨desc,found,old,_⟩ := callStep_effect (s := r.state layout) initialized call
  refine ⟨desc,found,old,step.same (Ram.alloc_step layout kind found ?_)⟩
  simp only [State.typeOf,found,Option.map_some,Option.some.injEq] at old
  exact old

theorem Ram.Step.release {kind : AllocKind} {pfn : Word}
    (step : Ram.Step layout r (.release kind pfn) r') :
    ∃ desc, descOf (pfnFrame pfn) = some desc ∧ r' = r.setType layout desc .unused := by
  simp only [Ram.Step,Ram.call,Ram.svaRemovePage,Call.bind_apply,Call.read_apply,Ram.looks,
    getPageDescPtr_eq] at step
  cases found : descOf (frameOf (pfn <<< 12)) with
  | none =>
    rw [found] at step
    cases step
  | some desc =>
    rw [found] at step
    simp only [Call.follow_some,Call.modify_apply] at step
    cases entry : getPgeVaddr (layout.physToVirt (pfn <<< 12)) (r.state layout) with
    | none =>
      rw [entry] at step
      cases step
    | some slot =>
      rw [entry] at step
      simp only [Call.follow_some,Ram.pageEntryStore,Call.modify_apply,setMappingReadWrite,
        Ram.setMem_same] at step
      cases step
      exact ⟨desc,found,rfl⟩

theorem Ram.Step.writeCr3 (apart : layout.Apart) {value : Word}
    (initialized : r.mmuIsInitialized layout ≠ 0) (step : Ram.Step layout r (.writeCr3 value) r') :
    (r.state layout).typeOf (frameOf value) = some .l4 ∧ r' = { r with cr3 := dropNoFlush value } := by
  have plain : Op.Plain layout (.writeCr3 value) := trivial
  obtain ⟨t,call,_⟩ := step.seen apart plain
  obtain ⟨type,_⟩ := callStep_effect (s := r.state layout) initialized call
  refine ⟨type,?_⟩
  obtain ⟨desc,found,root⟩ := Option.map_eq_some_iff.mp type
  have loads : Ram.Step layout r (.writeCr3 value) { r with cr3 := dropNoFlush value } := by
    simp only [Ram.Step,Ram.call,Ram.svaMmLoadPgtable,Call.bind_apply,Call.read_apply,
      if_pos initialized,Ram.looks,getPageDescPtr_eq,frameOf_dropNoFlush,found,typeAt,
      Call.follow_some,root,Call.stopIf_apply,ne_eq,not_true,if_false,Call.modify_apply]
  exact step.same loads

theorem CallStep.ram (apart : layout.Apart) {op : Op} (plain : op.Plain layout) {t : State}
    (step : CallStep layout (r.state layout) op t) :
    ∃ r', Ram.Step layout r op r' ∧ Mirrors layout t (r'.state layout) := by
  have follows := call_follows (r := r) apart plain
  rw [step] at follows
  cases after : Ram.call layout op r with
  | ret _ r' =>
    rw [after] at follows
    exact ⟨r',after,follows⟩
  | bug r' | fault r' =>
    rw [after] at follows
    exact follows.elim

end
end Cki.Monitor
