import Cki.MonitorEntries
import Cki.MonitorLeaves

/-! The guest beside the monitor. It stores wherever its page tables lead, through mappings for
writing or not, and the monitor sees none of it. What the calls keep is enough: no address
leads to a page-table page, so the tables change by the calls alone. -/
namespace Cki.Monitor

inductive Act where
  | call (op : Op)
  | store (vaddr value : Word)
  deriving DecidableEq, Repr

/-- The MMU takes the address to this word. -/
def Reaches (s : State) (vaddr : Word) (slot : Slot) : Prop :=
  ∃ level entry, Walk.Ends s.mem (frameOf s.cr3) vaddr level entry ∧ Present (s.mem entry) ∧
    slot = slotOf (BitVec.ofNat 64 (Walk.target vaddr level (s.mem entry)))

def ActStep (layout : Layout) (r : Ram) (act : Act) (r' : Ram) : Prop :=
  match act with
  | .call op => Ram.Step layout r op r'
  | .store vaddr value => ∃ slot, Reaches (r.state layout) vaddr slot ∧ r' = r.setMem slot value

/-- The calls meet the conditions of both invariants; a store meets none but to leave the
monitor's own words alone. -/
def Meets (layout : Layout) (s : State) : Act → Prop
  | .call op => Allowed layout s (.call op) ∧ KeepsApart layout s op
  | .store vaddr _ => ∀ slot, Reaches s vaddr slot → ¬ layout.IsOwn slot

def MetStep (layout : Layout) : Ram → Act → Ram → Prop :=
  Guarded (fun r act => Meets layout (r.state layout) act) (ActStep layout)

/-! The walk over typed tables. -/

/-- The type of the pages that the walk reads at a level. -/
def PageType.ofLevel : Nat → PageType
  | 0 => .l1
  | 1 => .l2
  | 2 => .l3
  | 3 => .l4
  | _ => .unused

section
variable {s : State} {vaddr : Word} {level : Nat} {slot : Slot}

theorem nonLeaf_ofLevel {value : Word} (bound : level + 1 ≤ 3) (present : Present value)
    (small : ¬ Walk.Large (level + 1) value) : NonLeaf (.ofLevel (level + 1)) value := by
  have notHuge : level + 1 ≠ 3 → ¬ Huge value := by
    intro middle huge
    exact small ⟨by omega,(huge_iff _).mp huge⟩
  obtain rfl | rfl | rfl : level = 0 ∨ level = 1 ∨ level = 2 := by omega
  · exact ⟨present,notHuge (by decide)⟩
  · exact ⟨present,notHuge (by decide)⟩
  · exact present

theorem below_ofLevel (bound : level + 1 ≤ 3) :
    (PageType.ofLevel (level + 1)).below = .ofLevel level := by
  obtain rfl | rfl | rfl : level = 0 ∨ level = 1 ∨ level = 2 := by omega
  all_goals rfl

/-- Each entry that the walk reads lies in a page of its level. -/
theorem reads_typed (typed : LevelTyped s)
    (reads : Walk.Reads s.mem (frameOf s.cr3) vaddr level slot) :
    s.typeOf slot.frame = some (.ofLevel level) := by
  induction reads with
  | root => exact typed.root
  | @entry level slot above present small ih =>
    have bound := above.level_le
    have leads := nonLeaf_ofLevel bound ((present_iff _).mpr present) small
    rw [← below_ofLevel bound]
    exact typed.entries slot _ ih leads

theorem isLeaf_ofLevel (ends : Walk.Ends s.mem (frameOf s.cr3) vaddr level slot)
    (present : Present (s.mem slot)) : IsLeaf (.ofLevel level) (s.mem slot) := by
  rcases ends.2 with rfl | ⟨_,rfl | rfl,large⟩
  · exact present
  · exact ⟨present,(huge_iff _).mpr large⟩
  · exact ⟨present,(huge_iff _).mpr large⟩

theorem ends_level_le (ends : Walk.Ends s.mem (frameOf s.cr3) vaddr level slot) : level ≤ 2 := by
  rcases ends.2 with rfl | ⟨_,rfl | rfl,_⟩ <;> decide

theorem leafShift_ofLevel (bound : level ≤ 2) : leafShift (.ofLevel level) = 9 * level := by
  obtain rfl | rfl | rfl : level = 0 ∨ level = 1 ∨ level = 2 := by omega
  all_goals rfl

end

theorem frameOf_ofNat {addr : Nat} (small : addr < 2 ^ 52) :
    (frameOf (BitVec.ofNat 64 addr)).toNat = addr / 4096 := by
  rw [frameOf,BitVec.extractLsb'_toNat,BitVec.toNat_ofNat,Nat.shiftRight_eq_div_pow]
  omega

theorem size_eq (level : Nat) : Walk.size level = 4096 * 2 ^ (9 * level) := by
  rw [Walk.size,Nat.pow_add]

/-- The target lies in the memory that the entry covers. -/
theorem target_covered (vaddr value : Word) {level : Nat} (bound : level ≤ 2) :
    Covers (.ofLevel level) value (frameOf (BitVec.ofNat 64 (Walk.target vaddr level value))) := by
  have large : 0 < 2 ^ (9 * level) := Nat.two_pow_pos _
  have offset : vaddr.toNat % Walk.size level < Walk.size level :=
    Nat.mod_lt _ (size_eq level ▸ Nat.mul_pos (by decide) large)
  have unit : (frameOf value).toNat * 4096 / Walk.size level =
      (frameOf value).toNat / 2 ^ (9 * level) := by
    rw [size_eq,Nat.mul_comm 4096,Nat.mul_div_mul_right _ _ (by decide)]
  have inside : Walk.target vaddr level value / Walk.size level =
      (frameOf value).toNat / 2 ^ (9 * level) := by
    rw [Walk.target,unit,Nat.mul_comm,Nat.mul_add_div (Nat.zero_lt_of_lt offset),
      Nat.div_eq_of_lt offset,Nat.add_zero]
  have small : Walk.target vaddr level value < 2 ^ 52 := by
    have frame : (frameOf value).toNat < 2 ^ 40 := (frameOf value).isLt
    obtain rfl | rfl | rfl : level = 0 ∨ level = 1 ∨ level = 2 := by omega
    all_goals
      simp only [Walk.size] at inside
      omega
  apply BitVec.eq_of_toNat_eq
  rw [leafShift_ofLevel bound,BitVec.toNat_ushiftRight,BitVec.toNat_ushiftRight,
    frameOf_ofNat small,Nat.shiftRight_eq_div_pow,Nat.shiftRight_eq_div_pow,← inside,size_eq,
    Nat.div_div_eq_div_mul]

section
variable {layout : Layout} {s : State}

/-- What the calls keep, as far as the guest depends on it. -/
structure Closed (layout : Layout) (s : State) : Prop where
  isolated : Isolated s
  ordered : Ordered layout s

theorem Closed.ends_mapped (closed : Closed layout s) {vaddr : Word} {level : Nat} {slot : Slot}
    (ends : Walk.Ends s.mem (frameOf s.cr3) vaddr level slot) (present : Present (s.mem slot)) :
    Mapped s (frameOf (BitVec.ofNat 64 (Walk.target vaddr level (s.mem slot)))) := by
  have type := reads_typed closed.ordered.typed ends.1
  have leaf := isLeaf_ofLevel ends present
  exact ⟨slot,_,type,leaf,target_covered vaddr _ (ends_level_le ends)⟩

/-- No address leads to a page-table page. -/
theorem Closed.reaches (closed : Closed layout s) {vaddr : Word} {slot : Slot}
    (reaches : Reaches s vaddr slot) : ¬ s.IsPtp slot.frame := by
  obtain ⟨level,entry,ends,present,rfl⟩ := reaches
  intro ptp
  exact closed.isolated.apart _ ptp (closed.ends_mapped ends present)

theorem Closed.store (closed : Closed layout s) {slot : Slot} (plain : ¬ s.IsPtp slot.frame)
    (value : Word) : Closed layout (s.setMem slot value) where
  isolated := by
    refine ⟨closed.isolated.initialized,(leavesApart_setMem closed.isolated.apart slot value).mpr ?_⟩
    intro level type leaf
    exact absurd ⟨level,type,leaf.isPtp⟩ plain
  ordered := ⟨closed.ordered.initialized,closed.ordered.typed.store plain value,closed.ordered.own⟩

variable {r r' : Ram} {act : Act}

/-- A step of either kind keeps both invariants. -/
theorem Closed.step (apart : layout.Apart) (closed : Closed layout (r.state layout))
    (step : MetStep layout r act r') : Closed layout (r'.state layout) := by
  obtain ⟨meets,step⟩ := step
  cases act with
  | call op =>
    have ordinary := meets.2.ordinary closed.isolated.initialized step
    have event : AllowedStep layout r (.call op) r' := ⟨meets.1,step⟩
    exact {
      isolated := (ordinaryStep_isolated apart closed.isolated ordinary).mp meets.2
      ordered := allowedStep_ordered apart closed.ordered event }
  | store vaddr value =>
    obtain ⟨slot,reaches,rfl⟩ := step
    rw [Ram.state_setMem (meets slot reaches)]
    exact closed.store (closed.reaches reaches) value

/-- The words of page-table pages change by the calls that set them, and to values that the
monitor accepts. -/
def TablesKept (layout : Layout) (r : Ram) (act : Act) (r' : Ram) : Prop :=
  ∀ slot, (r.state layout).IsPtp slot.frame → r'.mem slot ≠ r.mem slot → ∃ kind value,
    act = .call (.set kind (.entry slot) value) ∧ Accepted layout (r.state layout) (.entry slot) value ∧
      r'.mem slot = value

/-- Writing a type changes no word of a page-table page. -/
theorem Closed.retype (closed : Closed layout (r.state layout)) {slot : Slot}
    (ptp : (r.state layout).IsPtp slot.frame) (desc : Fin pageDescLength) (type : PageType) :
    (r.setType layout desc type).mem slot = r.mem slot := by
  refine if_neg fun same => ?_
  rw [same] at ptp
  exact closed.ordered.own _ ⟨_,rfl⟩ ptp

theorem Closed.tablesKept (apart : layout.Apart) (closed : Closed layout (r.state layout))
    (step : MetStep layout r act r') : TablesKept layout r act r' := by
  intro slot ptp changed
  obtain ⟨meets,step⟩ := step
  have initialized : r.mmuIsInitialized layout ≠ 0 := closed.isolated.initialized
  cases act with
  | call op =>
    cases op with
    | set kind ptr value =>
      obtain ⟨other,rfl,_⟩ := meets.1.1
      obtain ⟨accepted,rfl⟩ := Ram.Step.set initialized step
      by_cases same : slot = other
      · subst same
        exact ⟨kind,value,rfl,accepted,if_pos rfl⟩
      · exact absurd (if_neg same) changed
    | alloc kind pfn =>
      obtain ⟨desc,_,_,rfl⟩ := Ram.Step.alloc apart initialized step
      exact absurd (closed.retype ptp desc kind.level) changed
    | release kind pfn =>
      obtain ⟨desc,_,rfl⟩ := Ram.Step.release step
      exact absurd (closed.retype ptp desc .unused) changed
    | writeCr3 value =>
      obtain ⟨_,rfl⟩ := Ram.Step.writeCr3 apart initialized step
      exact absurd rfl changed
  | store vaddr value =>
    obtain ⟨other,reaches,rfl⟩ := step
    have distinct : slot ≠ other := by
      rintro rfl
      exact closed.reaches reaches ptp
    exact absurd (if_neg distinct) changed

/-- Whatever the guest stores between the calls, the tables change by the calls alone, and in
no state of the run does an address lead to a page-table page. -/
theorem run_sealed (layout : Layout) (apart : layout.Apart) (closed : Closed layout (r.state layout))
    {acts : List Act} (run : Run (MetStep layout) r acts r') :
    Run (fun u act v => ActStep layout u act v ∧ TablesKept layout u act v ∧
      LevelTyped (v.state layout) ∧
      ∀ vaddr slot, Reaches (v.state layout) vaddr slot → ¬ (v.state layout).IsPtp slot.frame)
      r acts r' := by
  refine run.strengthen (fun u : Ram => Closed layout (u.state layout))
    (fun u act v holds step => holds.step apart step) ?_ closed
  intro u act v holds step
  have after := holds.step apart step
  exact ⟨step.2,holds.tablesKept apart step,after.ordered.typed,fun _ _ => after.reaches⟩

end

theorem Reaches.unique {s : State} {vaddr : Word} {slot other : Slot} (reaches : Reaches s vaddr slot)
    (reaches' : Reaches s vaddr other) : other = slot := by
  obtain ⟨level,entry,ends,_,rfl⟩ := reaches
  obtain ⟨level',entry',ends',_,rfl⟩ := reaches'
  obtain ⟨rfl,rfl⟩ := ends.unique ends'
  rfl

/-- The pages have the types that they have in `emptyTables`. -/
structure EmptyTyped (r : Ram) : Prop where
  initialized : r.mmuIsInitialized bssLayout ≠ 0
  types : ∀ frame, (r.state bssLayout).typeOf frame = emptyTables.typeOf frame

theorem emptyRam_typed : EmptyTyped emptyRam := ⟨emptyRam_initialized,emptyRam_typeOf⟩

theorem EmptyTyped.setMem {r : Ram} (typed : EmptyTyped r) {slot : Slot}
    (low : slot.frame.toNat < 0x1000) (value : Word) : EmptyTyped (r.setMem slot value) := by
  have state := Ram.state_setMem (r := r) (bssLayout_plain low) value
  constructor
  · change ((r.setMem slot value).state bssLayout).mmuIsInitialized ≠ 0
    rw [state]
    exact typed.initialized
  · intro frame
    rw [state,setMem_typeOf,typed.types]

theorem EmptyTyped.set {r : Ram} (typed : EmptyTyped r) {slot : Slot} {value : Word} (kind : SetKind)
    {level : PageType} (low : slot.frame.toNat < 0x1000)
    (type : emptyTables.typeOf slot.frame = some level)
    (accepted : EntryAccepted (r.state bssLayout) level value) (small : ¬ Huge value) :
    MetStep bssLayout r (.call (.set kind (.entry slot) value)) (r.setMem slot value) := by
  have plain := bssLayout_plain low
  refine ⟨⟨⟨⟨slot,rfl,plain⟩,trivial⟩,fun own => absurd own plain,?_⟩,
    Ram.set_step bssLayout typed.initialized kind ?_⟩
  · rintro ⟨other,_,notFirst,leaf,_⟩
    cases other with
    | l1 => exact notFirst rfl
    | l2 | l3 => exact small leaf.2
    | l4 | unused | other bits => exact leaf
  · rintro other ⟨_,found⟩
    rw [ptrFrame_entry,typed.types,type] at found
    cases found
    exact accepted

def rootLinked : Ram := emptyRam.setMem ⟨1,0⟩ 0x2003
def twoLinked : Ram := rootLinked.setMem ⟨2,0⟩ 0x3003
def threeLinked : Ram := twoLinked.setMem ⟨3,0⟩ 0x4003

/-- The tables in frames 1 to 4 linked, and frame 9 mapped at address 0. -/
def linked : Ram := threeLinked.setMem ⟨4,0⟩ 0x9003

theorem rootLinked_typed : EmptyTyped rootLinked := emptyRam_typed.setMem (by decide) _
theorem twoLinked_typed : EmptyTyped twoLinked := rootLinked_typed.setMem (by decide) _
theorem threeLinked_typed : EmptyTyped threeLinked := twoLinked_typed.setMem (by decide) _

theorem linked_ends : Walk.Ends linked.mem (frameOf linked.cr3) 40 0 ⟨4,0⟩ := by
  have fourth : Walk.Reads linked.mem (frameOf linked.cr3) 40 3 ⟨1,0⟩ := .root
  have third : Walk.Reads linked.mem (frameOf linked.cr3) 40 2 ⟨2,0⟩ :=
    .entry fourth (by decide) (by decide)
  have second : Walk.Reads linked.mem (frameOf linked.cr3) 40 1 ⟨3,0⟩ :=
    .entry third (by decide) (by decide)
  exact ⟨.entry second (by decide) (by decide),.inl rfl⟩

theorem linked_reaches : Reaches (linked.state bssLayout) 40 ⟨9,5⟩ := by
  have present : Present (linked.mem ⟨4,0⟩) := by decide
  have target : (⟨9,5⟩ : Slot) = slotOf (BitVec.ofNat 64 (Walk.target 40 0 (linked.mem ⟨4,0⟩))) := by
    decide
  exact ⟨0,⟨4,0⟩,linked_ends,present,target⟩

def linking : List Op := [.set .p4d (.entry ⟨1,0⟩) 0x2003,.set .pud (.entry ⟨2,0⟩) 0x3003,
  .set .pmd (.entry ⟨3,0⟩) 0x4003,.set .pte (.entry ⟨4,0⟩) 0x9003]

theorem linking_run : Run (MetStep bssLayout) emptyRam (linking.map .call) linked :=
  .cons (emptyRam_typed.set .p4d (by decide) rfl ⟨by decide,emptyRam_typed.types _⟩ (by decide))
    (.cons (rootLinked_typed.set .pud (by decide) rfl (rootLinked_typed.types _) (by decide))
      (.cons (twoLinked_typed.set .pmd (by decide) rfl (twoLinked_typed.types _) (by decide))
        (.single (threeLinked_typed.set .pte (by decide) rfl
          ⟨⟨by decide,by decide⟩,.unused,threeLinked_typed.types _,rfl⟩ (by decide)))))

/-- The guest links its tables, maps frame 9 and stores through the mapping. -/
theorem run_sealed_linked :
    Run (fun u act v => ActStep bssLayout u act v ∧ TablesKept bssLayout u act v ∧
      LevelTyped (v.state bssLayout) ∧
      ∀ vaddr slot, Reaches (v.state bssLayout) vaddr slot → ¬ (v.state bssLayout).IsPtp slot.frame)
      emptyRam (linking.map .call ++ [.store 40 7]) (linked.setMem ⟨9,5⟩ 7) := by
  have spared : ∀ slot, Reaches (linked.state bssLayout) 40 slot → ¬ bssLayout.IsOwn slot := by
    intro slot reaches
    rw [linked_reaches.unique reaches]
    exact bssLayout_plain (by decide)
  have store : MetStep bssLayout linked (.store 40 7) (linked.setMem ⟨9,5⟩ 7) :=
    ⟨spared,⟨9,5⟩,linked_reaches,rfl⟩
  exact run_sealed bssLayout bssLayout_apart ⟨emptyRam_isolated,emptyRam_ordered⟩
    (linking_run.append (.single store))

end Cki.Monitor
