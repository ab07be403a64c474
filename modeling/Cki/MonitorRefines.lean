import Cki.MonitorTables

/-! The calls against the operations of a space of tables, in both directions: a run of the calls
is one of the space, and whatever a kernel does to its space it can do by calls. -/
namespace Cki.Monitor

section
variable {level : Nat} {value : Word}

theorem leaf_of_present (bound : level ≤ 3) (present : Present value)
    (small : ¬ NonLeaf (.ofLevel level) value) : IsLeaf (.ofLevel level) value := by
  obtain rfl | rfl | rfl | rfl : level = 0 ∨ level = 1 ∨ level = 2 ∨ level = 3 := by omega
  · exact present
  · exact ⟨present,Classical.not_not.mp fun plain => small ⟨present,plain⟩⟩
  · exact ⟨present,Classical.not_not.mp fun plain => small ⟨present,plain⟩⟩
  · exact absurd present small

theorem leaf_lt (leaf : IsLeaf (.ofLevel level) value) : level < 3 := by
  rcases Nat.lt_or_ge level 3 with lower | above
  · exact lower
  · obtain ⟨more,rfl⟩ := Nat.exists_eq_add_of_le' above
    cases more <;> exact leaf.elim

end

theorem getPagetable_zero {s : State} (root : frameOf s.cr3 = 0) :
    getPagetable s &&& 0xfffffffffffff000 = 0 := by
  have index := frameIndex_toNat s.cr3
  have aligned : (s.cr3 &&& pgFrame).toNat % 4096 = 0 := by
    rw [← Nat.and_two_pow_sub_one_eq_mod _ 12,BitVec.toNat_and,Nat.and_assoc]
    exact Nat.and_zero _
  have zero : s.cr3 &&& pgFrame = 0 := by
    apply BitVec.eq_of_toNat_eq
    rw [root,BitVec.toNat_udiv] at index
    change (s.cr3 &&& pgFrame).toNat / 4096 = 0 at index
    change _ = 0
    omega
  rw [getPagetable]
  change s.cr3 &&& pgFrame &&& _ = 0
  rw [zero]
  rfl

theorem release_walks {layout : Layout} {s t : State} {kind : AllocKind} {pfn : Word}
    (step : CallStep layout s (.release kind pfn) t) :
    getPgeVaddr (layout.physToVirt (pfn <<< 12)) s ≠ none := by
  intro missing
  rw [CallStep,Op.call,pkmRelease_eq] at step
  simp only [svaRemovePage,Call.bind_apply,Call.read_apply,missing] at step
  cases found : getPageDescPtr (pfn <<< 12) with
  | none =>
    rw [found] at step
    cases step
  | some desc =>
    rw [found] at step
    cases step

/-- The space goes on to one that models the state. -/
def Goes (layout : Layout) (space : Space) (t : State) : Prop :=
  ∃ ops space', Run (SpaceStep layout) space ops space' ∧ Models space' t

theorem Models.stay {layout : Layout} {space : Space} {t : State} (same : Models space t) :
    Goes layout space t :=
  ⟨[],space,.nil space,same⟩

theorem Models.act {layout : Layout} {space : Space} {t : State} (op : SpaceOp)
    (takes : Takes layout space op) (legal : space.Legal op)
    (after : Models (space.perform op legal) t) : Goes layout space t :=
  ⟨[op],_,.single ⟨takes,legal,rfl⟩,after⟩

section
variable {layout : Layout} {space : Space} {s : State} (models : Models space s)
include models

/-! What the monitor accepts. -/

theorem Models.table_iff {frame : Frame} (level : Nat) (bound : level ≤ 3) :
    s.typeOf frame = some (.ofLevel level) ↔ space.level frame = some level := by
  constructor
  · intro here
    rw [models.level_of here,level_ofLevel bound]
  · exact fun here => (models.level_ptp here).1

/-- A root entry with the bit of a large page is refused. -/
def RootSmall (level : Nat) (value : Word) : Prop := level = 3 → ¬ Huge value

theorem Models.accepted_table {frame : Frame} {level : Nat} {value : Word}
    (here : space.level frame = some level) (leads : NonLeaf (.ofLevel level) value) :
    EntryAccepted s (.ofLevel level) value ↔
      RootSmall level value ∧ AddressSpace.Fits space.level 3 frame (.table (frameOf value)) := by
  have bound := (models.level_ptp here).2
  have fits : AddressSpace.Fits space.level 3 frame (.table (frameOf value)) ↔
      ∃ below, level = below + 1 ∧ space.level (frameOf value) = some below := by
    simp only [AddressSpace.Fits,here,Option.some.injEq]
  have child : ∀ below ≤ 3, s.typeOf (frameOf value) = some (.ofLevel below) ↔
      space.level (frameOf value) = some below := fun below bound =>
    models.table_iff below bound
  rw [fits,RootSmall]
  obtain rfl | rfl | rfl | rfl : level = 0 ∨ level = 1 ∨ level = 2 ∨ level = 3 := by omega
  · exact leads.elim
  · simp [PageType.ofLevel,EntryAccepted,leads.2,← child]
  · simp [PageType.ofLevel,EntryAccepted,leads.2,← child]
  · simp [PageType.ofLevel,EntryAccepted,← child]

theorem Models.accepted_leaf {frame : Frame} {index : BitVec 9} {level : Nat} {value : Word}
    (here : space.level frame = some level) (leaf : IsLeaf (.ofLevel level) value) :
    EntryAccepted s (.ofLevel level) value ↔
      Takes layout space (.set frame index (.leaf (frameOf value))) := by
  have bound := (models.level_ptp here).2
  have takes : Takes layout space (.set frame index (.leaf (frameOf value))) ↔
      (frameOf value).toNat + 2 ^ (9 * level) < pageDescLength ∧
        (level = 0 → space.level (frameOf value) = none) := by
    simp only [Takes,here,Option.some.injEq,forall_eq']
  have accepted : EntryAccepted s (.ofLevel level) value ↔ ¬ LeafRefused s (.ofLevel level) value :=
    leaf_accepted_iff leaf
  rw [takes]
  obtain rfl | rfl | rfl | rfl : level = 0 ∨ level = 1 ∨ level = 2 ∨ level = 3 := by omega
  · have range := inRange_iff value .l1
    have plain : ¬ s.IsPtp (frameOf value) ↔ space.level (frameOf value) = none := by
      rw [models.isPtp,Classical.not_not]
    rw [accepted,← plain]
    exact not_or.trans (and_congr (Classical.not_not.trans range) (by simp))
  · have range := inRange_iff value .l2
    simp only [PageType.ofLevel,EntryAccepted,if_pos leaf.2]
    exact range.trans (by simp [leafFrames,leafShift])
  · have range := inRange_iff value .l3
    simp only [PageType.ofLevel,EntryAccepted,if_pos leaf.2]
    exact range.trans (by simp [leafFrames,leafShift])
  · exact leaf.elim

/-- In a page of tables the monitor accepts what the space takes. -/
theorem Models.accepted_iff (slot : Slot) {level : Nat} (here : space.level slot.frame = some level)
    {value : Word} (present : Present value) : Accepted layout s (.entry slot) value ↔
      RootSmall level value ∧
        AddressSpace.Fits space.level 3 slot.frame (entryOf (.ofLevel level) value) ∧
        Takes layout space (.set slot.frame slot.index (entryOf (.ofLevel level) value)) := by
  obtain ⟨type,bound⟩ := models.level_ptp here
  rw [← ptrFrame_entry layout slot] at type
  rw [Monitor.accepted_iff type present]
  by_cases leads : NonLeaf (.ofLevel level) value
  · rw [entryOf_table.mpr ⟨leads,rfl⟩,models.accepted_table here leads]
    simp only [Takes,and_true]
  · have leaf := leaf_of_present bound present leads
    have fits : AddressSpace.Fits space.level 3 slot.frame (.leaf (frameOf value)) :=
      ⟨level,here,leaf_lt leaf⟩
    have small : RootSmall level value := by
      rintro rfl
      exact leaf.elim
    rw [entryOf_leaf.mpr ⟨leaf,rfl⟩,models.accepted_leaf here leaf,and_iff_right small,
      and_iff_right fits]

/-! What an operation does. -/

theorem Models.set (slot : Slot) {level : Nat} (here : space.level slot.frame = some level)
    (value : Word)
    (legal : space.Legal (.set slot.frame slot.index (entryOf (.ofLevel level) value))) :
    Models (space.perform _ legal) (s.setMem slot value) where
  initialized := models.initialized
  named := models.named
  level := models.level
  root := models.root
  entry := by
    intro frame type found index
    simp only [AddressSpace.perform,setMem_mem]
    rw [setMem_typeOf] at found
    by_cases same : frame = slot.frame
    · subst same
      rw [(models.level_ptp here).1] at found
      cases found
      rw [Function.update_self]
      by_cases place : index = slot.index
      · subst place
        rw [Function.update_self,if_pos rfl]
      · have apart : (⟨slot.frame,index⟩ : Slot) ≠ slot := fun eq => place (congrArg Slot.index eq)
        rw [Function.update_of_ne place,if_neg apart]
        exact models.entry _ _ (models.level_ptp here).1 index
    · have apart : (⟨frame,index⟩ : Slot) ≠ slot := fun eq => same (congrArg Slot.frame eq)
      rw [Function.update_of_ne same,if_neg apart]
      exact models.entry frame type found index

/-- A store beside the tables. -/
theorem Models.store (slot : Slot) (plain : space.level slot.frame = none) (value : Word) :
    Models space (s.setMem slot value) where
  initialized := models.initialized
  named := models.named
  level := models.level
  root := models.root
  entry := by
    intro frame type found index
    rw [setMem_typeOf] at found
    rw [setMem_mem]
    split
    · rename_i here
      subst here
      have none := models.level_of found
      rw [plain] at none
      have notPtp : type.isPtp = false := by
        rw [← Bool.not_eq_true,isPtp_iff,← none]
        simp
      rw [space.entry_empty plain,entryOf_plain notPtp]
    · exact models.entry frame type found index

/-- A descriptor that gets the type of a level, or none, and the tables as the space has them. -/
theorem Models.retype {space' : Space} {desc : Fin pageDescLength} {frame : Frame}
    (describes : descOf frame = some desc) {type : PageType} (named : ∀ bits, type ≠ .other bits)
    (level : space'.level = Function.update space.level frame type.level)
    (own : ∀ index, space'.entry frame index = entryOf type (s.mem ⟨frame,index⟩))
    (others : ∀ other, other ≠ frame → space'.entry other = space.entry other)
    (root : space'.root = space.root) : Models space' (s.setType desc type) where
  initialized := models.initialized
  root := root.trans models.root
  named := by
    intro other bits
    rw [setType_typeOf s describes]
    split
    · exact fun eq => named bits (Option.some.inj eq)
    · exact models.named other bits
  level := by
    intro other
    rw [level,setType_typeOf s describes]
    by_cases same : other = frame
    · rw [same,Function.update_self,if_pos rfl]
      rfl
    · rw [Function.update_of_ne same,if_neg same,models.level]
  entry := by
    intro other type' found index
    rw [setType_typeOf s describes] at found
    rw [setType_mem]
    by_cases same : other = frame
    · subst same
      rw [if_pos rfl] at found
      cases found
      exact own index
    · rw [if_neg same] at found
      rw [others other same]
      exact models.entry other type' found index

/-- A page without entries that gets the type of a level. -/
theorem Models.declare {desc : Fin pageDescLength} {frame : Frame} (describes : descOf frame = some desc)
    {type : PageType} {level : Nat} (own : type.level = some level)
    (blank : ∀ index, ¬ Present (s.mem ⟨frame,index⟩)) (legal : space.Legal (.declare frame level)) :
    Models (space.perform _ legal) (s.setType desc type) := by
  refine models.retype describes ?_ ?_ ?_ (fun _ _ => rfl) rfl
  · rintro bits rfl
    cases own
  · rw [own]
    rfl
  · intro index
    rw [entryOf_absent (blank index)]
    exact space.entry_empty legal.1 index

theorem Models.remove {desc : Fin pageDescLength} {frame : Frame} (describes : descOf frame = some desc)
    (legal : space.Legal (.remove frame)) :
    Models (space.perform _ legal) (s.setType desc .unused) := by
  refine models.retype describes (by simp) rfl ?_ ?_ rfl
  · intro index
    simp only [AddressSpace.perform,Function.update_self]
    rfl
  · exact fun other distinct => Function.update_of_ne distinct _ _

theorem Models.switch (value : Word) (legal : space.Legal (.switch (frameOf value))) :
    Models (space.perform _ legal) { s with cr3 := dropNoFlush value } where
  initialized := models.initialized
  named := models.named
  level := models.level
  entry := models.entry
  root := (frameOf_dropNoFlush value).symm

/-! The direct map of a page that is released. -/

theorem Models.walk_iff (vaddr : Word) : getPgeVaddr vaddr s ≠ none ↔
    space.root ≠ 0 ∧ space.locate (indices vaddr) ≠ none := by
  rw [models.root]
  by_cases root : frameOf s.cr3 = 0
  · rw [getPgeVaddr,if_pos (getPagetable_zero root)]
    simp [root]
  · rw [and_iff_right root]
    rcases getPgeVaddr_found root vaddr with ⟨level,slot,result,ends⟩ | ⟨result,stops⟩ <;>
      rcases models.locate_located vaddr with ⟨level',slot',found,ends',_⟩ | ⟨found,stops'⟩ <;>
      rw [result,found]
    · simp
    · exact absurd stops' ends.not_stops
    · exact absurd stops ends'.not_stops
    · simp

/-! The calls seen as operations. -/

theorem Models.follow_set {slot : Slot} {value : Word}
    (accepted : Accepted layout s (.entry slot) value) :
    Goes layout space (s.setMem slot value) := by
  cases here : space.level slot.frame with
  | none => exact Models.stay (models.store slot here value)
  | some level =>
    have there : space.level slot.frame ≠ none := by
      rw [here]
      exact Option.some_ne_none level
    by_cases present : Present value
    · obtain ⟨_,fits,takes⟩ := (models.accepted_iff slot here present).mp accepted
      exact Models.act _ takes ⟨there,fits⟩ (models.set slot here value ⟨there,fits⟩)
    · have legal : space.Legal (.set slot.frame slot.index (entryOf (.ofLevel level) value)) := by
        rw [entryOf_absent present]
        exact ⟨there,trivial⟩
      refine Models.act _ ?_ legal (models.set slot here value legal)
      rw [entryOf_absent present]
      trivial

theorem Models.follow_alloc {kind : AllocKind} {desc : Fin pageDescLength} {frame : Frame}
    (describes : descOf frame = some desc)
    (old : s.typeOf frame = some .unused ∨ s.typeOf frame = some kind.level) (blank : Blank s frame)
    (spared : ¬ layout.OwnFrame frame) : Goes layout space (s.setType desc kind.level) := by
  rcases old with unused | same
  · have missing : space.level frame = none := models.level_of unused
    obtain ⟨level,at_,bound⟩ : ∃ level, kind.level.level = some level ∧ level ≤ 3 := by
      cases kind <;> exact ⟨_,rfl,by decide⟩
    have range : frame.toNat < pageDescLength := by
      rw [descOf] at describes
      split at describes
      · assumption
      · cases describes
    have legal : space.Legal (.declare frame level) := ⟨missing,bound⟩
    exact Models.act (.declare frame level) ⟨range,spared⟩ legal (models.declare describes at_ blank legal)
  · rw [setType_same describes same]
    exact Models.stay models

theorem Models.follow_release {pfn : Word} {desc : Fin pageDescLength}
    (describes : descOf (pfnFrame pfn) = some desc)
    (walks : getPgeVaddr (layout.physToVirt (pfn <<< 12)) s ≠ none)
    (apart : pfnFrame pfn ≠ frameOf s.cr3) (free : ¬ Referenced s (pfnFrame pfn)) :
    Goes layout space (s.setType desc .unused) := by
  cases here : space.level (pfnFrame pfn) with
  | none =>
    refine Models.stay (models.retype describes (by simp) ?_ ?_ (fun _ _ => rfl) rfl)
    · exact (Function.update_eq_self_iff.mpr here.symm).symm
    · exact space.entry_empty here
  | some level =>
    have takes : Takes layout space (.remove (pfnFrame pfn)) := by
      obtain ⟨root,located⟩ := (models.walk_iff _).mp walks
      exact ⟨root,pfn,rfl,located⟩
    have legal : space.Legal (.remove (pfnFrame pfn)) := by
      refine ⟨by rw [here]; exact Option.some_ne_none level,by rwa [models.root],?_⟩
      intro other index found
      have fits := space.fits other index
      rw [found] at fits
      obtain ⟨below,own,_⟩ := fits
      have type := (models.level_ptp own).1
      rw [models.entry other _ type index] at found
      obtain ⟨leads,reached⟩ := entryOf_table.mp found
      exact free ⟨⟨other,index⟩,_,type,leads,reached⟩
    exact Models.act _ takes legal (models.remove describes legal)

/-- Each step of the monitor is an operation of the space, or none. -/
theorem Models.follow {event : Event} {t : State} (allowed : Allowed layout s event)
    (step : EventStep layout s event t) : Goes layout space t := by
  obtain ⟨permitted,spared⟩ := allowed
  cases event with
  | call op =>
    have effect := callStep_effect models.initialized step
    cases op with
    | set kind ptr value =>
      obtain ⟨slot,rfl,_⟩ := permitted
      obtain ⟨accepted,rfl⟩ := effect
      exact models.follow_set accepted
    | alloc kind pfn =>
      obtain ⟨desc,describes,old,rfl⟩ := effect
      exact models.follow_alloc describes old permitted spared
    | release kind pfn =>
      obtain ⟨desc,describes,rfl⟩ := effect
      exact models.follow_release describes (release_walks step) permitted.1 permitted.2
    | writeCr3 value =>
      obtain ⟨root,rfl⟩ := effect
      have legal : space.Legal (.switch (frameOf value)) :=
        (models.table_iff 3 (by decide)).mp root
      exact Models.act (.switch (frameOf value)) trivial legal (models.switch value legal)
  | guestStore slot value =>
    cases step
    refine Models.stay (models.store slot ?_ value)
    rcases permitted with unused | beyond
    · exact models.level_of unused
    · rw [models.level,beyond]
      rfl

/-- A word of the monitor's own lies in no table of the space. -/
theorem Models.mirror (untyped : OwnUntyped layout s) {u : State} (mirrors : Mirrors layout s u) :
    Models space u := by
  obtain ⟨slot,value,plain,rfl⟩ := untyped.mirrored mirrors
  exact models.store slot (Classical.not_not.mp fun table => plain (models.isPtp.mpr table)) value

end

/-- The space that memory makes up, where the monitor's own words lie in none of its tables. -/
structure Represents (layout : Layout) (space : Space) (r : Ram) : Prop where
  models : Models space (r.state layout)
  own : OwnUntyped layout (r.state layout)

section
variable {layout : Layout} {space : Space} {r r' : Ram}

theorem Represents.follow (apart : layout.Apart) (represents : Represents layout space r) {event : Event}
    (step : AllowedStep layout r event r') :
    ∃ ops space', Run (SpaceStep layout) space ops space' ∧ Represents layout space' r' := by
  obtain ⟨allowed,step⟩ := step
  obtain ⟨t,seen,mirrors⟩ := Ram.EventStep.seen apart allowed step
  have untyped := eventStep_ownUntyped represents.models.initialized represents.own allowed seen
  obtain ⟨ops,space',run,models⟩ := represents.models.follow allowed seen
  exact ⟨ops,space',run,models.mirror untyped mirrors,untyped.mirror mirrors⟩

/-- What the kernel may do to the state, it does to memory. -/
theorem Represents.carry (apart : layout.Apart) (represents : Represents layout space r)
    {event : Event} {t : State} {space' : Space} (allowed : Allowed layout (r.state layout) event)
    (step : EventStep layout (r.state layout) event t) (models : Models space' t) :
    ∃ r', AllowedStep layout r event r' ∧ Represents layout space' r' := by
  have untyped := eventStep_ownUntyped represents.models.initialized represents.own allowed step
  obtain ⟨r',step',mirrors⟩ := step.ram apart allowed
  exact ⟨r',⟨allowed,step'⟩,models.mirror untyped mirrors,untyped.mirror mirrors⟩

end

/-! Operations carried out by calls. -/

/-- An entry to this frame with these attributes. -/
def link (frame : Frame) (attributes : BitVec 12) : Word := 0#12 ++ frame ++ attributes

def entryValue (level : Nat) : AddressSpace.Entry Frame → Word
  | .empty => 0
  | .table child => link child 3
  | .leaf page => link page (if level = 0 then 3 else 0x83)

theorem frameOf_link (frame : Frame) (attributes : BitVec 12) :
    frameOf (link frame attributes) = frame := by
  apply BitVec.eq_of_getLsbD_eq
  intro i inside
  have above : ¬ 12 + i < 12 := by omega
  simp only [frameOf,link,BitVec.getLsbD_extractLsb',BitVec.getLsbD_append,inside,above,decide_true,
    Bool.true_and,if_false,if_true,Nat.add_sub_cancel_left]

theorem link_bit (frame : Frame) (attributes : BitVec 12) {i : Nat} (low : i < 12) :
    (link frame attributes).getLsbD i = attributes.getLsbD i := by
  simp only [link,BitVec.getLsbD_append,low,if_true]

theorem link_present (frame : Frame) {attributes : BitVec 12} (set : attributes.getLsbD 0 = true) :
    Present (link frame attributes) := by
  rw [present_iff,link_bit frame attributes (by decide),set]

theorem link_huge (frame : Frame) (attributes : BitVec 12) :
    Huge (link frame attributes) ↔ attributes.getLsbD 7 = true := by
  rw [huge_iff,link_bit frame attributes (by decide)]

theorem entryOf_entryValue {levels : Frame → Option Nat} {table : Frame} {level : Nat}
    {entry : AddressSpace.Entry Frame} (own : levels table = some level) (bound : level ≤ 3)
    (fits : AddressSpace.Fits levels 3 table entry) :
    entryOf (.ofLevel level) (entryValue level entry) = entry := by
  cases entry with
  | empty => exact entryOf_absent (by decide : ¬ Present 0)
  | table child =>
    obtain ⟨below,own',_⟩ := fits
    rw [own] at own'
    cases own'
    refine entryOf_table.mpr ⟨nonLeaf_ofLevel bound (link_present child (by decide)) ?_,
      frameOf_link child 3⟩
    rintro ⟨_,large⟩
    rw [entryValue,link_bit child 3 (by decide)] at large
    exact absurd large (by decide)
  | leaf page =>
    obtain ⟨_,own',lower⟩ := fits
    rw [own] at own'
    cases own'
    obtain rfl | rfl | rfl : level = 0 ∨ level = 1 ∨ level = 2 := by omega
    · exact entryOf_leaf.mpr ⟨link_present page (by decide),frameOf_link page _⟩
    · exact entryOf_leaf.mpr ⟨⟨link_present page (by decide),(link_huge page _).mpr (by decide)⟩,
        frameOf_link page _⟩
    · exact entryOf_leaf.mpr ⟨⟨link_present page (by decide),(link_huge page _).mpr (by decide)⟩,
        frameOf_link page _⟩

theorem entryValue_rootSmall {levels : Frame → Option Nat} {table : Frame} {level : Nat}
    {entry : AddressSpace.Entry Frame} (own : levels table = some level)
    (fits : AddressSpace.Fits levels 3 table entry) : RootSmall level (entryValue level entry) := by
  rintro rfl
  cases entry with
  | empty => exact (by decide : ¬ Huge 0)
  | table child =>
    rw [entryValue,link_huge]
    decide
  | leaf page =>
    obtain ⟨_,own',lower⟩ := fits
    rw [own] at own'
    cases own'
    exact absurd lower (by decide)

/-- The number of a frame, as the hooks of the kernel pass it. -/
def pfnOf (frame : Frame) : Word := 0#24 ++ frame

theorem pfnFrame_pfnOf (frame : Frame) : pfnFrame (pfnOf frame) = frame := by
  apply BitVec.eq_of_getLsbD_eq
  intro i inside
  have above : ¬ 12 + i < 12 := by omega
  have fits : 12 + i < 64 := by omega
  simp only [pfnFrame,pfnOf,frameOf,BitVec.getLsbD_extractLsb',BitVec.getLsbD_append,
    BitVec.getLsbD_shiftLeft,inside,above,fits,Nat.add_sub_cancel_left,decide_true,decide_false,
    Bool.not_false,Bool.true_and,if_true]

/-- The kernel clears a page before it declares it. -/
def clearing (frame : Frame) (places : List (BitVec 9)) : List Event :=
  places.map fun index => .guestStore ⟨frame,index⟩ 0

def places : List (BitVec 9) := (List.finRange 512).map BitVec.ofFin

theorem mem_places (index : BitVec 9) : index ∈ places :=
  List.mem_map.mpr ⟨index.toFin,List.mem_finRange _,rfl⟩

theorem clear_run {layout : Layout} {space : Space} {frame : Frame}
    (plain : space.level frame = none) (spared : ¬ layout.OwnFrame frame)
    (cleared : List (BitVec 9)) {r : Ram} (represents : Represents layout space r)
    (unused : (r.state layout).typeOf frame = some .unused) :
    ∃ r', Run (AllowedStep layout) r (clearing frame cleared) r' ∧ Represents layout space r' ∧
      (r'.state layout).typeOf frame = some .unused ∧
      ∀ index, index ∈ cleared ∨ r.mem ⟨frame,index⟩ = 0 → r'.mem ⟨frame,index⟩ = 0 := by
  induction cleared generalizing r with
  | nil => exact ⟨r,.nil r,represents,unused,by simp⟩
  | cons index cleared ih =>
    have ordinary : ¬ layout.IsOwn ⟨frame,index⟩ := fun own => spared own.frame
    have state := Ram.state_setMem (r := r) ordinary 0
    have step : AllowedStep layout r (.guestStore ⟨frame,index⟩ 0) (r.setMem ⟨frame,index⟩ 0) :=
      ⟨⟨.inl unused,ordinary⟩,rfl⟩
    have after : Represents layout space (r.setMem ⟨frame,index⟩ 0) := by
      constructor
      · rw [state]
        exact represents.models.store ⟨frame,index⟩ plain 0
      · rw [state]
        exact represents.own
    have unused' : ((r.setMem ⟨frame,index⟩ 0).state layout).typeOf frame = some .unused := by
      rw [state]
      exact unused
    obtain ⟨r',run,represents',still,zero⟩ := ih after unused'
    refine ⟨r',.cons step run,represents',still,?_⟩
    intro other either
    apply zero other
    simp only [Ram.setMem]
    split
    · exact .inr rfl
    · rename_i apart
      rcases either with member | before
      · rcases List.mem_cons.mp member with rfl | later
        · exact absurd rfl apart
        · exact .inl later
      · exact .inr before

def kindOf : Nat → AllocKind
  | 0 => .pte
  | 1 => .pmd
  | 2 => .pud
  | _ => .pgd

theorem kindOf_level {level : Nat} (bound : level ≤ 3) : (kindOf level).level = .ofLevel level := by
  obtain rfl | rfl | rfl | rfl : level = 0 ∨ level = 1 ∨ level = 2 ∨ level = 3 := by omega
  all_goals rfl

/-- The kernel gets to a state that this space models. -/
def Realised (layout : Layout) (r : Ram) (space' : Space) : Prop :=
  ∃ events r', Run (AllowedStep layout) r events r' ∧ Represents layout space' r'

theorem Models.unused {space : Space} {s : State} (models : Models space s) {frame : Frame}
    (missing : space.level frame = none) (range : frame.toNat < pageDescLength) :
    s.typeOf frame = some .unused := by
  have described : descOf frame = some ⟨frame.toNat,range⟩ := dif_pos range
  have type : s.typeOf frame = some (s.pageDesc ⟨frame.toNat,range⟩) := by
    simp [State.typeOf,described]
  rw [models.level_of type] at missing
  cases found : s.pageDesc ⟨frame.toNat,range⟩ with
  | unused => rw [type,found]
  | l1 | l2 | l3 | l4 =>
    rw [found] at missing
    cases missing
  | other bits =>
    rw [found] at type
    exact absurd type (models.named frame bits)

/-- A table that may be removed is neither the root nor linked. -/
theorem Models.releasable {space : Space} {s : State} (models : Models space s) {frame : Frame}
    (legal : space.Legal (.remove frame)) : frame ≠ frameOf s.cr3 ∧ ¬ Referenced s frame := by
  constructor
  · rw [← models.root]
    exact legal.2.1
  · rintro ⟨other,type,found,leads,reached⟩
    apply legal.2.2 other.frame other.index
    rw [models.entry _ _ found,entryOf_table]
    exact ⟨leads,reached⟩

section
variable {layout : Layout} (apart : layout.Apart) {space : Space} {r : Ram}
  (represents : Represents layout space r)
include apart represents

theorem Represents.realise {event : Event} {t : State} {space' : Space}
    (allowed : Allowed layout (r.state layout) event)
    (step : EventStep layout (r.state layout) event t) (models : Models space' t) :
    Realised layout r space' := by
  obtain ⟨r',step',represents'⟩ := represents.carry apart allowed step models
  exact ⟨[event],r',.single step',represents'⟩

theorem Represents.realise_declare {table : Frame} {level : Nat}
    (takes : Takes layout space (.declare table level)) (legal : space.Legal (.declare table level)) :
    Realised layout r (space.perform _ legal) := by
  obtain ⟨range,spared⟩ := takes
  have describes : descOf table = some ⟨table.toNat,range⟩ := dif_pos range
  obtain ⟨r',run,represents',unused,zero⟩ := clear_run legal.1 spared places represents
    (represents.models.unused legal.1 range)
  have old : (r'.state layout).pageDesc ⟨table.toNat,range⟩ = .unused := by
    simpa [State.typeOf,describes] using unused
  have blank : Blank (r'.state layout) table := by
    intro index
    rw [Ram.state_mem,zero index (.inl (mem_places index))]
    exact (by decide : ¬ Present 0)
  have declare := alloc_step layout (kindOf level) (pfnOf table)
    ((congrArg descOf (pfnFrame_pfnOf table)).trans describes) (.inl old)
  rw [kindOf_level legal.2] at declare
  have allowed : Allowed layout (r'.state layout) (.call (.alloc (kindOf level) (pfnOf table))) := by
    refine ⟨?_,?_⟩
    · change Blank _ _
      rwa [pfnFrame_pfnOf]
    · change ¬ layout.OwnFrame _
      rwa [pfnFrame_pfnOf]
  obtain ⟨events,r'',run',after⟩ := represents'.realise apart allowed declare
    (represents'.models.declare describes (level_ofLevel legal.2) blank legal)
  exact ⟨_,r'',run.append run',after⟩

theorem Represents.realise_remove {table : Frame} (takes : Takes layout space (.remove table))
    (legal : space.Legal (.remove table)) : Realised layout r (space.perform _ legal) := by
  have models := represents.models
  obtain ⟨root,pfn,rfl,located⟩ := takes
  obtain ⟨slot,walks⟩ := Option.ne_none_iff_exists'.mp ((models.walk_iff _).mpr ⟨root,located⟩)
  obtain ⟨level,here⟩ := Option.ne_none_iff_exists'.mp legal.1
  obtain ⟨desc,describes,_⟩ := Option.map_eq_some_iff.mp (models.level_ptp here).1
  have allowed : Allowed layout (r.state layout) (.call (.release (kindOf level) pfn)) :=
    ⟨models.releasable legal,trivial⟩
  exact represents.realise apart allowed (release_step layout _ pfn describes walks)
    (models.remove describes legal)

theorem Represents.realise_set {table : Frame} {index : BitVec 9} {entry : AddressSpace.Entry Frame}
    (takes : Takes layout space (.set table index entry))
    (legal : space.Legal (.set table index entry)) :
    Realised layout r (space.perform _ legal) := by
  have models := represents.models
  obtain ⟨level,here⟩ := Option.ne_none_iff_exists'.mp legal.1
  have bound := (models.level_ptp here).2
  have same := entryOf_entryValue here bound legal.2
  have accepted : Accepted layout (r.state layout) (.entry ⟨table,index⟩) (entryValue level entry) := by
    rintro other ⟨present,type⟩
    have decides : Accepted layout (r.state layout) (.entry ⟨table,index⟩) (entryValue level entry) ↔ _ :=
      models.accepted_iff ⟨table,index⟩ here present
    rw [same] at decides
    exact decides.mpr ⟨entryValue_rootSmall here legal.2,legal.2,takes⟩ other ⟨present,type⟩
  have plain := represents.own.ptp (models.isPtp.mpr legal.1) index
  have allowed : Allowed layout (r.state layout)
      (.call (.set .pte (.entry ⟨table,index⟩) (entryValue level entry))) := ⟨⟨_,rfl,plain⟩,trivial⟩
  have after := models.set ⟨table,index⟩ here (entryValue level entry)
  simp only [same] at after
  exact represents.realise apart allowed (set_step layout models.initialized .pte accepted)
    (after legal)

theorem Represents.realise_switch {root : Frame} (legal : space.Legal (.switch root)) :
    Realised layout r (space.perform _ legal) := by
  have models := represents.models
  have type := (models.level_ptp legal).1
  obtain ⟨desc,describes,l4⟩ := Option.map_eq_some_iff.mp type
  have same := frameOf_link root 0
  have step : CallStep layout (r.state layout) (.writeCr3 (link root 0))
      { r.state layout with cr3 := dropNoFlush (link root 0) } := by
    rw [CallStep,Op.call]
    simp only [pkmWriteCr3,svaMmLoadPgtable,Call.bind_apply,Call.read_apply,ne_eq,
      models.initialized,not_false_eq_true,if_true,getPageDescPtr_eq,frameOf_dropNoFlush,same,
      describes,typeAt,Call.follow_some,l4]
    rfl
  have allowed : Allowed layout (r.state layout) (.call (.writeCr3 (link root 0))) :=
    ⟨trivial,trivial⟩
  have after := models.switch (link root 0)
  simp only [same] at after
  exact represents.realise apart allowed step (after legal)

/-- Whatever the space takes, the kernel can do by calls that all return. -/
theorem Represents.realises {op : SpaceOp} {space' : Space} (step : SpaceStep layout space op space') :
    Realised layout r space' := by
  obtain ⟨takes,legal,rfl⟩ := step
  cases op with
  | declare table level => exact represents.realise_declare apart takes legal
  | remove table => exact represents.realise_remove apart takes legal
  | set table index entry => exact represents.realise_set apart takes legal
  | switch root => exact represents.realise_switch apart legal

/-- Every run of the calls, with what the guest stores beside them, is one of the space, and the
MMU translates as the space does. -/
theorem run_refines {events : List Event} {r' : Ram} (run : Run (AllowedStep layout) r events r') :
    ∃ ops space', Run (SpaceStep layout) space ops space' ∧ Represents layout space' r' ∧
      ∀ vaddr level page, space'.translate (indices vaddr) = some (level,page) ↔
        MapsTo (r'.state layout) vaddr level page := by
  obtain ⟨ops,space',run',represents'⟩ := run.simulate (fun u space => Represents layout space u)
    (fun _ _ _ _ represents step => represents.follow apart step) represents
  exact ⟨ops,space',run',represents',represents'.models.translate_iff⟩

/-- Every run of the space is carried out by calls of which none stops or faults. -/
theorem run_realised {ops : List SpaceOp} {space' : Space}
    (run : Run (SpaceStep layout) space ops space') :
    ∃ events r', Run (AllowedStep layout) r events r' ∧ Represents layout space' r' ∧
      ∀ vaddr level page, space'.translate (indices vaddr) = some (level,page) ↔
        MapsTo (r'.state layout) vaddr level page := by
  obtain ⟨events,r',run',represents'⟩ := run.simulate (fun space u => Represents layout space u)
    (fun _ _ _ _ represents step => represents.realises apart step) represents
  exact ⟨events,r',run',represents',represents'.models.translate_iff⟩

end

/-! The space of a state. -/

def State.level (s : State) (frame : Frame) : Option Nat := (s.typeOf frame).bind PageType.level

def State.entry (s : State) (frame : Frame) (index : BitVec 9) : AddressSpace.Entry Frame :=
  (s.typeOf frame).elim .empty fun type => entryOf type (s.mem ⟨frame,index⟩)

section
variable {s : State}

theorem State.level_of {frame : Frame} {type : PageType} (here : s.typeOf frame = some type) :
    s.level frame = type.level := by
  rw [State.level,here]
  rfl

theorem State.entry_of {frame : Frame} {type : PageType} (here : s.typeOf frame = some type)
    (index : BitVec 9) : s.entry frame index = entryOf type (s.mem ⟨frame,index⟩) := by
  rw [State.entry,here]
  rfl

theorem LevelTyped.table_fits (typed : LevelTyped s) {frame : Frame} {index : BitVec 9}
    {type : PageType} (here : s.typeOf frame = some type)
    (leads : NonLeaf type (s.mem ⟨frame,index⟩)) :
    AddressSpace.Fits s.level 3 frame (.table (frameOf (s.mem ⟨frame,index⟩))) := by
  have own := State.level_of here
  have below := State.level_of (typed.entries ⟨frame,index⟩ type here leads)
  cases type with
  | l2 => exact ⟨0,own,below⟩
  | l3 => exact ⟨1,own,below⟩
  | l4 => exact ⟨2,own,below⟩
  | l1 | unused | other bits => exact leads.elim

theorem leaf_fits {frame : Frame} {index : BitVec 9} {type : PageType}
    (here : s.typeOf frame = some type) (leaf : IsLeaf type (s.mem ⟨frame,index⟩)) :
    AddressSpace.Fits s.level 3 frame (.leaf (frameOf (s.mem ⟨frame,index⟩))) := by
  have own := State.level_of here
  cases type with
  | l1 => exact ⟨0,own,by decide⟩
  | l2 => exact ⟨1,own,by decide⟩
  | l3 => exact ⟨2,own,by decide⟩
  | l4 | unused | other bits => exact leaf.elim

theorem LevelTyped.fits (typed : LevelTyped s) (frame : Frame) (index : BitVec 9) :
    AddressSpace.Fits s.level 3 frame (s.entry frame index) := by
  cases here : s.typeOf frame with
  | none =>
    rw [State.entry,here]
    trivial
  | some type =>
    rw [State.entry_of here,entryOf]
    split
    · rename_i leads
      exact typed.table_fits here leads
    · split
      · rename_i leaf
        exact leaf_fits here leaf
      · trivial

def view (typed : LevelTyped s) : Space where
  level := s.level
  entry := s.entry
  root := frameOf s.cr3
  rooted := State.level_of typed.root
  fits := typed.fits

theorem view_models (typed : LevelTyped s) (initialized : s.mmuIsInitialized ≠ 0)
    (named : ∀ frame bits, s.typeOf frame ≠ some (.other bits)) : Models (view typed) s where
  initialized := initialized
  named := named
  level _ := rfl
  root := rfl
  entry _ _ here := State.entry_of here

end

def emptySpace : Space := view emptyRam_ordered.typed

theorem emptyRam_represents : Represents bssLayout emptySpace emptyRam where
  models := by
    refine view_models _ emptyRam_initialized ?_
    intro frame bits found
    rw [emptyRam_typeOf] at found
    obtain ⟨desc,_,other⟩ := Option.map_eq_some_iff.mp found
    simp only [emptyTables] at other
    repeat' split at other
    all_goals cases other
  own := emptyRam_ordered.own

theorem calls_run {layout : Layout} {r r' : Ram} {ops : List Op}
    (run : Run (MetStep layout) r (ops.map .call) r') :
    Run (AllowedStep layout) r (ops.map .call) r' := by
  induction ops generalizing r with
  | nil =>
    cases run
    exact .nil _
  | cons op ops ih =>
    cases run with
    | cons head tail => exact .cons ⟨head.1.1,head.2⟩ (ih tail)

/-- The tables linked and frame 9 mapped, as the space sees it. -/
theorem run_refines_linked : ∃ ops space',
    Run (SpaceStep bssLayout) emptySpace ops space' ∧
      space'.translate (indices 40) = some (0,9) := by
  obtain ⟨ops,space',run,_,translates⟩ :=
    run_refines bssLayout_apart emptyRam_represents (calls_run linking_run)
  have present : Present (linked.mem ⟨4,0⟩) := by decide
  have frame : frameOf (linked.mem ⟨4,0⟩) = 9 := by decide
  exact ⟨ops,space',run,(translates 40 0 9).mpr ⟨_,linked_ends,present,frame⟩⟩

def linkingSpace : List SpaceOp := [.set 1 0 (.table 2),.set 2 0 (.table 3),.declare 9 0,
  .set 3 0 (.table 9),.set 9 0 (.leaf 8),.switch 1]

theorem linkingSpace_run : ∃ space',
    Run (SpaceStep bssLayout) emptySpace linkingSpace space' ∧
      space'.translate (indices 40) = some (0,8) := by
  have described : (9 : Frame).toNat < pageDescLength ∧ ¬ bssLayout.OwnFrame 9 :=
    ⟨by decide,fun own => absurd (bssLayout_high own) (by decide)⟩
  refine ⟨_,.cons ⟨trivial,⟨by decide,⟨2,rfl,rfl⟩⟩,rfl⟩ (.cons ⟨trivial,⟨by decide,⟨1,rfl,rfl⟩⟩,rfl⟩
    (.cons ⟨described,⟨rfl,by decide⟩,rfl⟩
    (.cons ⟨trivial,⟨by decide,⟨0,rfl,rfl⟩⟩,rfl⟩ (.cons ⟨?_,⟨by decide,⟨0,rfl,by decide⟩⟩,rfl⟩
    (.single ⟨trivial,rfl,rfl⟩))))),rfl⟩
  intro level here
  have last : level = 0 := (Option.some.inj here).symm
  subst last
  exact ⟨by decide,fun _ => rfl⟩

/-- The operations of the space carried out on the empty tables. -/
theorem run_realised_linking : ∃ events r',
    Run (AllowedStep bssLayout) emptyRam events r' ∧ MapsTo (r'.state bssLayout) 40 0 8 := by
  obtain ⟨space',run,translates⟩ := linkingSpace_run
  obtain ⟨events,r',run',_,same⟩ := run_realised bssLayout_apart emptyRam_represents run
  exact ⟨events,r',run',(same 40 0 8).mp translates⟩

end Cki.Monitor
