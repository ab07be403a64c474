import Cki.MonitorMemory

/-! Level typing. In every run the entries of a typed page point to pages of the
level below, so the hardware walk reads a page of each level in turn. -/
namespace Cki.Monitor

/-- The type a non-leaf entry of a page of this type points to. -/
def PageType.below : PageType → PageType
  | .l4 => .l3
  | .l3 => .l2
  | .l2 => .l1
  | level => level

/-- A present entry that leads the walk to another table. -/
def NonLeaf (level : PageType) (value : Word) : Prop :=
  match level with
  | .l4 => Present value
  | .l3 | .l2 => Present value ∧ ¬ Huge value
  | _ => False

instance (value : Word) : (level : PageType) → Decidable (NonLeaf level value)
  | .l4 => inferInstanceAs (Decidable (Present value))
  | .l3 | .l2 => inferInstanceAs (Decidable (Present value ∧ ¬ Huge value))
  | .l1 | .unused | .other _ => inferInstanceAs (Decidable False)

structure LevelTyped (s : State) : Prop where
  root : s.typeOf (frameOf s.cr3) = some .l4
  entries : ∀ slot level, s.typeOf slot.frame = some level → NonLeaf level (s.mem slot) →
    s.typeOf (frameOf (s.mem slot)) = some level.below

theorem NonLeaf.present {level : PageType} {value : Word} (leads : NonLeaf level value) :
    Present value := by
  cases level with
  | l4 => exact leads
  | l3 | l2 => exact leads.1
  | l1 | unused | other bits => exact leads.elim

theorem NonLeaf.below_used {level : PageType} {value : Word} (leads : NonLeaf level value) :
    level.below ≠ .unused := by
  cases level with
  | l4 | l3 | l2 => simp [PageType.below]
  | l1 | unused | other bits => exact leads.elim

/-- The checks of an update put a non-leaf entry over the level below. -/
theorem EntryAccepted.below {s : State} {level : PageType} {value : Word}
    (accepted : EntryAccepted s level value) (leads : NonLeaf level value) :
    s.typeOf (frameOf value) = some level.below := by
  cases level with
  | l4 => exact accepted.2
  | l3 | l2 => simpa [EntryAccepted,PageType.below,leads.2] using accepted
  | l1 | unused | other bits => exact leads.elim

/-! The runs. -/

/-- Besides the monitor's calls the guest stores where it may write itself. -/
inductive Event where
  | call (op : Op)
  | guestStore (slot : Slot) (value : Word)
  deriving DecidableEq, Repr

def EventStep (layout : Layout) (s : State) (event : Event) (t : State) : Prop :=
  match event with
  | .call op => CallStep layout s op t
  | .guestStore slot value => t = s.setMem slot value

def Ram.EventStep (layout : Layout) (r : Ram) (event : Event) (r' : Ram) : Prop :=
  match event with
  | .call op => Ram.Step layout r op r'
  | .guestStore slot value => r' = r.setMem slot value

/-- No entry of the frame is present. -/
def Blank (s : State) (frame : Frame) : Prop := ∀ index, ¬ Present (s.mem ⟨frame,index⟩)

/-- Some present non-leaf entry of a typed frame points to the frame. -/
def Referenced (s : State) (frame : Frame) : Prop :=
  ∃ slot level, s.typeOf slot.frame = some level ∧ NonLeaf level (s.mem slot) ∧
    frameOf (s.mem slot) = frame

/-- The calls and stores that the typing is to survive. -/
def Permitted (layout : Layout) (s : State) : Event → Prop
  | .call (.set _ ptr _) => ∃ slot, ptr = .entry slot ∧ ¬ layout.IsOwn slot
  | .call (.alloc _ pfn) => Blank s (pfnFrame pfn)
  | .call (.release _ pfn) => pfnFrame pfn ≠ frameOf s.cr3 ∧ ¬ Referenced s (pfnFrame pfn)
  | .call (.writeCr3 _) => True
  | .guestStore slot _ => s.typeOf slot.frame = some .unused ∨ s.typeOf slot.frame = none

/-- The guest declares no frame in which the monitor's own words lie and stores to none of
them. -/
def Event.SparesOwn (layout : Layout) : Event → Prop
  | .call (.alloc _ pfn) => ¬ layout.OwnFrame (pfnFrame pfn)
  | .call (.set _ _ _) | .call (.release _ _) | .call (.writeCr3 _) => True
  | .guestStore slot _ => ¬ layout.IsOwn slot

def Allowed (layout : Layout) (s : State) (event : Event) : Prop :=
  Permitted layout s event ∧ event.SparesOwn layout

/-- The monitor's own words lie in no page-table page. -/
def OwnUntyped (layout : Layout) (s : State) : Prop :=
  ∀ frame, layout.OwnFrame frame → ¬ s.IsPtp frame

/-- A store keeps the typing when the stored value fits the type of its own page. -/
theorem LevelTyped.setMem {s : State} (typed : LevelTyped s) {slot : Slot} {value : Word}
    (fits : ∀ level, s.typeOf slot.frame = some level → NonLeaf level value →
      s.typeOf (frameOf value) = some level.below) : LevelTyped (s.setMem slot value) where
  root := typed.root
  entries := by
    intro other level type leads
    rw [setMem_mem] at leads ⊢
    split at leads
    · rename_i same
      subst same
      rw [if_pos rfl]
      exact fits level type leads
    · rename_i apart
      rw [if_neg apart]
      exact typed.entries other level type leads

/-- Declaring a page keeps the typing: the page was of the type already, or it was
unused and has no entry that could lead anywhere. -/
theorem LevelTyped.declare {s : State} (typed : LevelTyped s) {desc : Fin pageDescLength}
    {frame : Frame} (describes : descOf frame = some desc) {type : PageType}
    (old : s.typeOf frame = some .unused ∨ s.typeOf frame = some type) (blank : Blank s frame) :
    LevelTyped (s.setType desc type) where
  root := by
    rw [setType_typeOf s describes,setType_cr3]
    split
    · rename_i same
      have root := typed.root
      rw [same] at root
      rcases old with unused | same
      · simp [root] at unused
      · rwa [same] at root
    · exact typed.root
  entries := by
    intro slot level found leads
    rw [setType_typeOf s describes] at found ⊢
    rw [setType_mem] at leads ⊢
    split at found
    · rename_i same
      subst same
      exact absurd leads.present (blank slot.index)
    · have target := typed.entries slot level found leads
      split
      · rename_i same
        rw [same] at target
        rcases old with unused | same
        · rw [unused] at target
          exact absurd (Option.some.inj target).symm leads.below_used
        · rwa [same] at target
      · exact target

theorem LevelTyped.remove {s : State} (typed : LevelTyped s) {desc : Fin pageDescLength}
    {frame : Frame} (describes : descOf frame = some desc) (notRoot : frame ≠ frameOf s.cr3)
    (free : ¬ Referenced s frame) : LevelTyped (s.setType desc .unused) where
  root := by
    rw [setType_typeOf s describes,setType_cr3,if_neg notRoot.symm]
    exact typed.root
  entries := by
    intro slot level found leads
    rw [setType_typeOf s describes] at found ⊢
    rw [setType_mem] at leads ⊢
    split at found
    · cases found
      exact leads.elim
    · split
      · rename_i same
        exact absurd ⟨slot,level,found,leads,same⟩ free
      · exact typed.entries slot level found leads

theorem LevelTyped.loadCr3 {s : State} (typed : LevelTyped s) {value : Word}
    (root : s.typeOf (frameOf value) = some .l4) :
    LevelTyped { s with cr3 := dropNoFlush value } where
  root := by
    rw [frameOf_dropNoFlush]
    exact root
  entries := typed.entries

theorem NonLeaf.isPtp {level : PageType} {value : Word} (leads : NonLeaf level value) :
    level.isPtp = true := by
  cases level with
  | l4 | l3 | l2 => rfl
  | l1 | unused | other bits => exact leads.elim

/-- Beside the page-table pages a store keeps the typing. -/
theorem LevelTyped.store {s : State} (typed : LevelTyped s) {slot : Slot}
    (plain : ¬ s.IsPtp slot.frame) (value : Word) : LevelTyped (s.setMem slot value) :=
  typed.setMem fun level type leads => absurd ⟨level,type,leads.isPtp⟩ plain

section
variable {layout : Layout} {s t : State} {event : Event}

theorem eventStep_levelTyped (initialized : s.mmuIsInitialized ≠ 0) (typed : LevelTyped s)
    (permitted : Permitted layout s event) (step : EventStep layout s event t) :
    t.mmuIsInitialized ≠ 0 ∧ LevelTyped t := by
  cases event with
  | call op =>
    have effect := callStep_effect initialized step
    cases op with
    | set kind ptr value =>
      obtain ⟨slot,rfl,_⟩ := permitted
      obtain ⟨accepted,rfl⟩ := effect
      refine ⟨initialized,typed.setMem ?_⟩
      intro level type leads
      rw [← ptrFrame_entry layout slot] at type
      exact (accepted level ⟨leads.present,type⟩).below leads
    | alloc kind pfn =>
      obtain ⟨desc,describes,old,rfl⟩ := effect
      exact ⟨initialized,typed.declare describes old permitted⟩
    | release kind pfn =>
      obtain ⟨desc,describes,rfl⟩ := effect
      exact ⟨initialized,typed.remove describes permitted.1 permitted.2⟩
    | writeCr3 value =>
      obtain ⟨root,rfl⟩ := effect
      exact ⟨initialized,typed.loadCr3 root⟩
  | guestStore slot value =>
    cases step
    refine ⟨initialized,typed.store ?_ value⟩
    rintro ⟨level,type,ptp⟩
    rcases permitted with unused | beyond
    · rw [unused] at type
      cases type
      cases ptp
    · simp [beyond] at type

/-! The monitor's own words beside the page-table pages. -/

theorem Layout.IsOwn.frame {slot : Slot} (own : layout.IsOwn slot) : layout.OwnFrame slot.frame := by
  obtain ⟨var,rfl⟩ := own
  exact ⟨var,rfl⟩

theorem OwnUntyped.ptp {frame : Frame} (untyped : OwnUntyped layout s) (ptp : s.IsPtp frame)
    (index : BitVec 9) : ¬ layout.IsOwn ⟨frame,index⟩ :=
  fun own => untyped frame own.frame ptp

theorem OwnUntyped.retype (untyped : OwnUntyped layout s) {desc : Fin pageDescLength} {frame : Frame}
    (describes : descOf frame = some desc) {type : PageType}
    (spared : type.isPtp = true → ¬ layout.OwnFrame frame) :
    OwnUntyped layout (s.setType desc type) := by
  rintro other own ⟨type',found,ptp⟩
  rw [setType_typeOf s describes] at found
  split at found
  · rename_i same
    cases found
    exact spared ptp (same ▸ own)
  · exact untyped other own ⟨type',found,ptp⟩

theorem eventStep_ownUntyped (initialized : s.mmuIsInitialized ≠ 0) (untyped : OwnUntyped layout s)
    (allowed : Allowed layout s event) (step : EventStep layout s event t) :
    OwnUntyped layout t := by
  obtain ⟨permitted,spared⟩ := allowed
  cases event with
  | call op =>
    have effect := callStep_effect initialized step
    cases op with
    | set kind ptr value =>
      obtain ⟨slot,rfl,_⟩ := permitted
      obtain ⟨_,rfl⟩ := effect
      exact untyped
    | alloc kind pfn =>
      obtain ⟨desc,describes,_,rfl⟩ := effect
      exact untyped.retype describes fun _ => spared
    | release kind pfn =>
      obtain ⟨desc,describes,rfl⟩ := effect
      exact untyped.retype describes (by simp [PageType.isPtp])
    | writeCr3 value =>
      obtain ⟨_,rfl⟩ := effect
      exact untyped
  | guestStore slot value =>
    cases step
    exact untyped

theorem Permitted.plain {op : Op} (permitted : Permitted layout s (.call op)) : op.Plain layout := by
  cases op with
  | set kind ptr value =>
    obtain ⟨slot,rfl,plain⟩ := permitted
    exact plain
  | alloc kind pfn | release kind pfn | writeCr3 value => trivial

/-- What is stored to one of the monitor's own words is stored beside the page-table pages. -/
theorem OwnUntyped.mirrored (untyped : OwnUntyped layout s) (mirrors : Mirrors layout s t) :
    ∃ slot value, ¬ s.IsPtp slot.frame ∧ t = s.setMem slot value := by
  obtain ⟨var,value,rfl⟩ := mirrors
  exact ⟨_,value,untyped _ ⟨var,rfl⟩,rfl⟩

theorem OwnUntyped.mirror (untyped : OwnUntyped layout s) (mirrors : Mirrors layout s t) :
    OwnUntyped layout t := by
  obtain ⟨var,value,rfl⟩ := mirrors
  exact untyped

end

section
variable {layout : Layout} {r r' : Ram} {event : Event}

/-- An allowed event does to memory what it does to the state that is read of it. -/
theorem Ram.EventStep.seen (apart : layout.Apart) (allowed : Allowed layout (r.state layout) event)
    (step : Ram.EventStep layout r event r') :
    ∃ t, Monitor.EventStep layout (r.state layout) event t ∧ Mirrors layout t (r'.state layout) := by
  cases event with
  | call op => exact Ram.Step.seen apart allowed.1.plain step
  | guestStore slot value =>
    cases step
    refine ⟨_,rfl,?_⟩
    rw [Ram.state_setMem allowed.2]
    exact .refl layout _

theorem EventStep.ram (apart : layout.Apart) (allowed : Allowed layout (r.state layout) event)
    {t : State} (step : EventStep layout (r.state layout) event t) :
    ∃ r', Ram.EventStep layout r event r' ∧ Mirrors layout t (r'.state layout) := by
  cases event with
  | call op => exact CallStep.ram apart allowed.1.plain step
  | guestStore slot value =>
    cases step
    refine ⟨_,rfl,?_⟩
    rw [Ram.state_setMem allowed.2]
    exact .refl layout _

/-- The steps that the typing survives. -/
def AllowedStep (layout : Layout) : Ram → Event → Ram → Prop :=
  Guarded (fun r event => Allowed layout (r.state layout) event) (Ram.EventStep layout)

/-- What an allowed event keeps. -/
structure Ordered (layout : Layout) (s : State) : Prop where
  initialized : s.mmuIsInitialized ≠ 0
  typed : LevelTyped s
  own : OwnUntyped layout s

theorem allowedStep_ordered (apart : layout.Apart) (ordered : Ordered layout (r.state layout))
    (step : AllowedStep layout r event r') : Ordered layout (r'.state layout) := by
  obtain ⟨allowed,step⟩ := step
  obtain ⟨t,seen,mirrors⟩ := Ram.EventStep.seen apart allowed step
  have untyped := eventStep_ownUntyped ordered.initialized ordered.own allowed seen
  obtain ⟨initialized,typed⟩ :=
    eventStep_levelTyped ordered.initialized ordered.typed allowed.1 seen
  obtain ⟨slot,value,plain,same⟩ := untyped.mirrored mirrors
  refine ⟨?_,?_,untyped.mirror mirrors⟩
  · rw [same]
    exact initialized
  · rw [same]
    exact typed.store plain value

end

/-! The hardware walk. -/

def tableIndex (vaddr : Word) : PageType → BitVec 9
  | .l4 => vaddr.extractLsb' 39 9
  | .l3 => vaddr.extractLsb' 30 9
  | .l2 => vaddr.extractLsb' 21 9
  | _ => vaddr.extractLsb' 12 9

/-- The tables the MMU reads from `frame` on, one for each of the remaining levels
until an entry is missing or a leaf. -/
def walkFrom (s : State) (vaddr : Word) (frame : Frame) : List PageType → List Frame
  | [] => []
  | level :: levels =>
    let entry := s.mem ⟨frame,tableIndex vaddr level⟩
    frame :: if NonLeaf level entry then walkFrom s vaddr (frameOf entry) levels else []

def walk (s : State) (vaddr : Word) : List Frame :=
  walkFrom s vaddr (frameOf s.cr3) [.l4,.l3,.l2,.l1]

/-- One level of the walk: what is read next has the type below. -/
theorem walkFrom_cons {s : State} (typed : LevelTyped s) {vaddr : Word} {level : PageType}
    {levels rest : List PageType}
    (next : ∀ frame, s.typeOf frame = some level.below →
      (walkFrom s vaddr frame levels).map s.typeOf <+: rest.map some)
    (frame : Frame) (type : s.typeOf frame = some level) :
    (walkFrom s vaddr frame (level :: levels)).map s.typeOf <+: (level :: rest).map some := by
  simp only [walkFrom,List.map_cons,type,List.cons_prefix_cons,true_and]
  split
  · rename_i leads
    exact next _ (typed.entries ⟨frame,_⟩ level type leads)
  · exact List.nil_prefix

theorem walk_types {s : State} (typed : LevelTyped s) (vaddr : Word) :
    (walk s vaddr).map s.typeOf <+: [PageType.l4,.l3,.l2,.l1].map some := by
  refine walkFrom_cons typed ?_ _ typed.root
  apply walkFrom_cons typed
  apply walkFrom_cons typed
  apply walkFrom_cons typed
  intro frame _
  exact List.nil_prefix

/-- Level typing holds in every state of every run, and with it the order in which
a walk from CR3 meets the levels. -/
theorem run_levelTyped (layout : Layout) (apart : layout.Apart) {r r' : Ram} {events : List Event}
    (ordered : Ordered layout (r.state layout)) (run : Run (AllowedStep layout) r events r') :
    LevelTyped (r'.state layout) ∧ ∀ vaddr, (walk (r'.state layout) vaddr).map
      (r'.state layout).typeOf <+: [some .l4,some .l3,some .l2,some .l1] := by
  have kept := run.invariant (fun u => Ordered layout (u.state layout))
    (fun u event v ordered step => allowedStep_ordered apart ordered step) ordered
  exact ⟨kept.typed,walk_types kept.typed⟩

/-- Frames 1 to 4 hold an empty table of each level. -/
def emptyTables : State where
  mem _ := 0
  pageDesc desc :=
    if desc.val = 1 then .l4 else if desc.val = 2 then .l3
    else if desc.val = 3 then .l2 else if desc.val = 4 then .l1 else .unused
  mmuIsInitialized := 1
  cr3 := 0x1000

def flatLayout : Layout where
  physToVirt paddr := paddr
  ownAddr _ := 0

/-- The number of the word in physical memory. -/
def slotNumber (slot : Slot) : Nat := 512 * slot.frame.toNat + slot.index.toNat

theorem slotOf_number {n : Nat} (small : n < 2 ^ 49) :
    slotNumber (slotOf (BitVec.ofNat 64 (8 * n))) = n := by
  simp only [slotNumber,slotOf,frameOf,BitVec.extractLsb'_toNat,BitVec.toNat_ofNat,
    Nat.shiftRight_eq_div_pow]
  omega

def bssNumber : Own → Nat
  | .pageDesc pair => 0x200000 + pair.val
  | .mmuIsInitialized => 0x600000

/-- `page_desc` lies from 16 MiB on, and the flag behind it. -/
def bssLayout : Layout where
  physToVirt paddr := paddr
  ownAddr var := BitVec.ofNat 64 (8 * bssNumber var)

theorem bssLayout_number (var : Own) : slotNumber (bssLayout.ownSlot var) = bssNumber var := by
  apply slotOf_number
  cases var with
  | pageDesc pair =>
    have := pair.isLt
    simp only [bssNumber]
    omega
  | mmuIsInitialized => decide

theorem bssLayout_apart : bssLayout.Apart := by
  intro var other same
  have numbers : bssNumber var = bssNumber other := by
    rw [← bssLayout_number,same,bssLayout_number]
  cases var <;> cases other <;> simp only [bssNumber] at numbers
  · congr 1
    exact Fin.ext (by omega)
  · omega
  · omega
  · rfl

def emptyWord (number : Nat) : Word :=
  if number = 0x200000 then 0x400000000
  else if number = 0x200001 then 0x200000003
  else if number = 0x200002 then 1
  else if number = 0x600000 then 1
  else 0

/-- The tables of `emptyTables`, with the words that declare them. -/
def emptyRam : Ram where
  mem slot := emptyWord (slotNumber slot)
  cr3 := 0x1000

theorem emptyRam_pageDesc (desc : Fin pageDescLength) :
    emptyRam.pageDesc bssLayout desc = emptyTables.pageDesc desc := by
  have number : slotNumber (bssLayout.descSlot desc) = 0x200000 + desc.val / 2 :=
    bssLayout_number (pairOf desc)
  have bound := desc.isLt
  simp only [pageDescLength] at bound
  simp only [Ram.pageDesc,emptyRam,number]
  obtain first | later : desc.val < 6 ∨ 6 ≤ desc.val := by omega
  · have all : ∀ k : Fin 6, PageType.ofBits (descBits (emptyWord (0x200000 + k.val / 2))
        ⟨k.val,Nat.lt_trans k.isLt (by decide)⟩) = emptyTables.pageDesc ⟨k.val,Nat.lt_trans k.isLt (by decide)⟩ := by
      decide
    exact all ⟨desc.val,first⟩
  · have blank : emptyWord (0x200000 + desc.val / 2) = 0 := by
      simp only [emptyWord]
      grind
    have unused : emptyTables.pageDesc desc = .unused := by
      simp only [emptyTables]
      grind
    rw [blank,unused,descBits]
    split <;> rfl

theorem emptyRam_low {slot : Slot} (low : slot.frame.toNat < 0x1000) : emptyRam.mem slot = 0 := by
  have index := slot.index.isLt
  simp only [emptyRam,emptyWord,slotNumber]
  grind

theorem emptyRam_typeOf (frame : Frame) :
    (emptyRam.state bssLayout).typeOf frame = emptyTables.typeOf frame := by
  have same : emptyRam.pageDesc bssLayout = emptyTables.pageDesc := funext emptyRam_pageDesc
  simp only [State.typeOf,Ram.state,same]

theorem emptyTables_low {frame : Frame} (ptp : emptyTables.IsPtp frame) : frame.toNat < 5 := by
  obtain ⟨type,found,ptp⟩ := ptp
  obtain ⟨desc,describes,rfl⟩ := Option.map_eq_some_iff.mp found
  have number : desc.val = frame.toNat := by
    rw [descOf] at describes
    split at describes
    · cases describes
      rfl
    · cases describes
  rw [← number]
  simp only [emptyTables] at ptp
  grind [PageType.isPtp]

theorem bssLayout_high {frame : Frame} (own : bssLayout.OwnFrame frame) : 0x1000 ≤ frame.toNat := by
  obtain ⟨var,rfl⟩ := own
  have number := bssLayout_number var
  have index := (bssLayout.ownSlot var).index.isLt
  have above : 0x200000 ≤ bssNumber var := by
    cases var <;> simp only [bssNumber] <;> omega
  simp only [slotNumber] at number
  omega

theorem bssLayout_plain {slot : Slot} (low : slot.frame.toNat < 0x1000) : ¬ bssLayout.IsOwn slot :=
  fun own => absurd (bssLayout_high own.frame) (by omega)

theorem emptyRam_initialized : emptyRam.mmuIsInitialized bssLayout ≠ 0 := by
  have word : emptyRam.mem (bssLayout.ownSlot .mmuIsInitialized) = emptyWord 0x600000 :=
    congrArg emptyWord (bssLayout_number .mmuIsInitialized)
  rw [Ram.mmuIsInitialized,word]
  decide

theorem emptyRam_ordered : Ordered bssLayout (emptyRam.state bssLayout) where
  initialized := emptyRam_initialized
  typed := by
    refine ⟨emptyRam_typeOf _,?_⟩
    intro slot level found leads
    rw [emptyRam_typeOf] at found
    have low := emptyTables_low ⟨level,found,leads.isPtp⟩
    have blank : (emptyRam.state bssLayout).mem slot = 0 := emptyRam_low (by omega)
    rw [blank] at leads
    exact absurd leads.present (by decide)
  own := by
    rintro frame own ⟨type,found,ptp⟩
    rw [emptyRam_typeOf] at found
    have low := emptyTables_low ⟨type,found,ptp⟩
    have high := bssLayout_high own
    omega

/-- The guest links frame 2 under the root and writes a word of its own. -/
theorem run_levelTyped_emptyTables :
    LevelTyped (((emptyRam.setMem ⟨1,0⟩ 0x2003).setMem ⟨9,5⟩ 7).state bssLayout) := by
  have accepted : Accepted bssLayout (emptyRam.state bssLayout) (.entry ⟨1,0⟩) 0x2003 := by
    rintro level ⟨_,type⟩
    rw [ptrFrame_entry,emptyRam_typeOf] at type
    cases type
    exact ⟨by decide,emptyRam_typeOf _⟩
  have linked : ¬ bssLayout.IsOwn ⟨1,0⟩ := bssLayout_plain (by decide)
  have unused : ((emptyRam.setMem ⟨1,0⟩ 0x2003).state bssLayout).typeOf 9 = some .unused := by
    rw [Ram.state_setMem linked,setMem_typeOf,emptyRam_typeOf]
    rfl
  have set : AllowedStep bssLayout emptyRam (.call (.set .p4d (.entry ⟨1,0⟩) 0x2003))
      (emptyRam.setMem ⟨1,0⟩ 0x2003) :=
    ⟨⟨⟨_,rfl,linked⟩,trivial⟩,Ram.set_step bssLayout emptyRam_initialized .p4d accepted⟩
  have store : AllowedStep bssLayout (emptyRam.setMem ⟨1,0⟩ 0x2003) (.guestStore ⟨9,5⟩ 7)
      ((emptyRam.setMem ⟨1,0⟩ 0x2003).setMem ⟨9,5⟩ 7) :=
    ⟨⟨.inl unused,bssLayout_plain (by decide)⟩,rfl⟩
  exact (run_levelTyped bssLayout bssLayout_apart emptyRam_ordered (.cons set (.single store))).1

def pairedDesc : Fin pageDescLength := ⟨0x1014,by decide⟩
def firstDesc : Fin pageDescLength := ⟨0x5000,by decide⟩

theorem pairedDesc_slot : bssLayout.descSlot pairedDesc = ⟨0x1004,0xa⟩ := by decide
theorem firstDesc_slot : bssLayout.descSlot firstDesc = ⟨0x1014,0⟩ := by decide

theorem emptyRam_blank {frame : Frame} (above : 0x1001 ≤ frame.toNat) (apart : frame.toNat ≠ 0x3000)
    (index : BitVec 9) : emptyRam.mem ⟨frame,index⟩ = 0 := by
  have bound := index.isLt
  simp only [emptyRam,emptyWord,slotNumber]
  grind

/-- Frame 0x1014, which holds descriptors, as a table of the second level. -/
def pairedTable : Ram := emptyRam.setType bssLayout pairedDesc .l2

theorem pairedTable_state : pairedTable.state bssLayout =
    ((emptyRam.state bssLayout).setType pairedDesc .l2).setMem ⟨0x1004,0xa⟩
      ((emptyRam.state bssLayout).typeWord bssLayout pairedDesc .l2) := by
  rw [pairedTable,Ram.state_setType bssLayout_apart pairedDesc (by simp),pairedDesc_slot]

theorem pairedTable_step : Ram.Step bssLayout emptyRam (.alloc .pmd 0x1014) pairedTable :=
  Ram.alloc_step bssLayout .pmd rfl (.inl (emptyRam_pageDesc pairedDesc))

theorem pairedTable_typeOf (frame : Frame) : (pairedTable.state bssLayout).typeOf frame =
    if frame = 0x1014 then some .l2 else emptyTables.typeOf frame := by
  have describes : descOf 0x1014 = some pairedDesc := rfl
  rw [pairedTable_state,setMem_typeOf,setType_typeOf _ describes,emptyRam_typeOf]

theorem pairedTable_mem {slot : Slot} (apart : slot ≠ ⟨0x1004,0xa⟩) :
    pairedTable.mem slot = emptyRam.mem slot := by
  have same := congrArg (fun s : State => s.mem slot) pairedTable_state
  rw [setMem_mem,if_neg apart] at same
  exact same

/-- The page with the descriptor of frame 0x5000, once that is declared. -/
def pairedEntry : Ram := pairedTable.setType bssLayout firstDesc .l1

theorem pairedEntry_step : Ram.Step bssLayout pairedTable (.alloc .pte 0x5000) pairedEntry := by
  refine Ram.alloc_step bssLayout .pte rfl (.inl ?_)
  have type := congrArg (fun s : State => s.pageDesc firstDesc) pairedTable_state
  exact type.trans (emptyRam_pageDesc firstDesc)

theorem pairedEntry_state : pairedEntry.state bssLayout =
    ((pairedTable.state bssLayout).setType firstDesc .l1).setMem ⟨0x1014,0⟩ 1 := by
  have blank : pairedTable.mem ⟨0x1014,0⟩ = 0 :=
    (pairedTable_mem (by decide)).trans (emptyRam_blank (by decide) (by decide) _)
  have word : (pairedTable.state bssLayout).typeWord bssLayout firstDesc .l1 = 1 := by
    rw [State.typeWord,firstDesc_slot,Ram.state_mem,blank]
    rfl
  rw [pairedEntry,Ram.state_setType bssLayout_apart firstDesc (by simp),firstDesc_slot,word]

theorem pairedEntry_untyped : ¬ LevelTyped (pairedEntry.state bssLayout) := by
  intro typed
  have describes : descOf 0x5000 = some firstDesc := rfl
  have types (frame : Frame) : (pairedEntry.state bssLayout).typeOf frame =
      if frame = 0x5000 then some .l1 else (pairedTable.state bssLayout).typeOf frame := by
    rw [pairedEntry_state,setMem_typeOf,setType_typeOf _ describes]
  have word : (pairedEntry.state bssLayout).mem ⟨0x1014,0⟩ = 1 := by
    rw [pairedEntry_state,setMem_mem,if_pos rfl]
  have table : (pairedEntry.state bssLayout).typeOf 0x1014 = some .l2 := by
    rw [types,if_neg (by decide),pairedTable_typeOf,if_pos rfl]
  have target := typed.entries ⟨0x1014,0⟩ .l2 table (by rw [word]; decide)
  rw [word,types,if_neg (by decide),pairedTable_typeOf,if_neg (by decide)] at target
  cases target

/-- The guest stores over the descriptor of its root. -/
theorem rootWord_untyped : ¬ LevelTyped ((emptyRam.setMem ⟨0x1000,0⟩ 0).state bssLayout) := by
  intro typed
  have own : bssLayout.ownSlot (.pageDesc 0) = ⟨0x1000,0⟩ := by decide
  have root := typed.root
  rw [← own,Ram.state_setMem_own bssLayout_apart] at root
  cases root

/-- The steps without regard to where the monitor's own words lie. -/
def PermittedStep (layout : Layout) : Ram → Event → Ram → Prop :=
  Guarded (fun r event => Permitted layout (r.state layout) event) (Ram.EventStep layout)

/-- A page of descriptors is declared as a table, and the declaration of another page writes an
entry into it; and a store of the guest to a descriptor takes the root its type. -/
theorem own_words_break :
    (¬ ∀ (layout : Layout) (r r' : Ram) (ops : List Op), layout.Apart →
      Ordered layout (r.state layout) → Run (PermittedStep layout) r (ops.map .call) r' →
      LevelTyped (r'.state layout)) ∧
    ¬ ∀ (layout : Layout) (r r' : Ram) (stores : List (Slot × Word)), layout.Apart →
      Ordered layout (r.state layout) →
      Run (PermittedStep layout) r (stores.map fun store => .guestStore store.1 store.2) r' →
      LevelTyped (r'.state layout) := by
  constructor
  · intro claim
    have first : Permitted bssLayout (emptyRam.state bssLayout) (.call (.alloc .pmd 0x1014)) := by
      intro index
      have frame : pfnFrame 0x1014 = 0x1014 := by decide
      rw [frame,Ram.state_mem,emptyRam_blank (by decide) (by decide)]
      decide
    have second : Permitted bssLayout (pairedTable.state bssLayout) (.call (.alloc .pte 0x5000)) := by
      intro index
      have frame : pfnFrame 0x5000 = 0x5000 := by decide
      rw [frame,Ram.state_mem,pairedTable_mem (by simp),emptyRam_blank (by decide) (by decide)]
      decide
    exact pairedEntry_untyped (claim bssLayout emptyRam _ [.alloc .pmd 0x1014,.alloc .pte 0x5000]
      bssLayout_apart emptyRam_ordered
      (.cons ⟨first,pairedTable_step⟩ (.single ⟨second,pairedEntry_step⟩)))
  · intro claim
    have unused : Permitted bssLayout (emptyRam.state bssLayout) (.guestStore ⟨0x1000,0⟩ 0) :=
      .inl (emptyRam_typeOf _)
    exact rootWord_untyped (claim bssLayout emptyRam _ [(⟨0x1000,0⟩,0)] bssLayout_apart
      emptyRam_ordered (.single ⟨unused,rfl⟩))

end Cki.Monitor
