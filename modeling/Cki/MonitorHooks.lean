import Cki.CreateWhole
import Cki.MonitorBlocks

/-! The guest's hook for page-table entries, over the blocks that a creation has pinned. The
creation knows no limit for them, the hook drops what lies below 4 GiB and the KSM refuses
what does not end below 32 GiB. -/
namespace Cki.Monitor

open Create

/-- `ISA_END_ADDRESS`, an address, with which the hook compares a frame number. -/
def isaEndAddress : Word := 0x100000

/-- `pte_pfn` of a present entry. Of others the kernel's inverts the frame. -/
def ptePfn (pte : Word) : Word := (frameOf pte).setWidth 64

/-- The guest's `pkm_set_pte`, for an entry that is present or 0. -/
def Guest.pkmSetPte (layout : Layout) (ptep : Ptr) (pte : Word) : Ksm Unit :=
  let pte := if pte ≠ 0 ∧ ptePfn pte < isaEndAddress then 0 else pte
  Monitor.pkmSetPte layout ptep pte

/-- The hook returns, and the slot holds the entry it was given. -/
def Stored (layout : Layout) (s : State) (slot : Slot) (pte : Word) : Prop :=
  ∃ t, Guest.pkmSetPte layout (.entry slot) pte s = .ret () t ∧ t.mem slot = pte

/-- The frames that both checks let through: from 4 GiB to one page short of 32 GiB. -/
def Mappable (frame : Frame) : Prop := 0x100000 ≤ frame.toNat ∧ frame.toNat < 0x7fffff

/-- The frame lies in the block of this size that starts at this page. -/
def InHpage (npages : Nat) (hpage frame : Frame) : Prop :=
  hpage.toNat ≤ frame.toNat ∧ frame.toNat < hpage.toNat + npages

/-- The frame is memory of the container. -/
def Owns (cntr : Cntr) (frame : Frame) : Prop :=
  InHpage pkmCntrMemNpages cntr.memHpage frame ∨ InHpage pkmCntrMemNpages cntr.mem2Hpage frame ∨
    InHpage pkmCntrInitrdNpages cntr.initrdHpage frame

/-- The whole block lies where entries can be made for it. -/
def HpageMappable (npages : Nat) (hpage : Frame) : Prop :=
  0x100000 ≤ hpage.toNat ∧ hpage.toNat + npages ≤ 0x7fffff

/-- An entry of a last level table for a frame that is no page-table page. -/
structure PlainEntry (s : State) (slot : Slot) (pte : Word) : Prop where
  initialized : s.mmuIsInitialized ≠ 0
  table : s.typeOf slot.frame = some .l1
  present : Present pte
  plain : ¬ s.IsPtp (frameOf pte)

theorem ptePfn_below_iff (pte : Word) :
    ptePfn pte < isaEndAddress ↔ (frameOf pte).toNat < 0x100000 := by
  have bound := (frameOf pte).isLt
  have small : (frameOf pte).toNat % 2 ^ 64 = (frameOf pte).toNat := Nat.mod_eq_of_lt (by omega)
  rw [BitVec.lt_def,ptePfn,BitVec.toNat_setWidth,small]
  exact Iff.rfl

theorem Present.ne_zero {value : Word} (present : Present value) : value ≠ 0 := by
  rintro rfl
  exact present (by decide)

/-- An entry for a plain frame is stored exactly where both checks let the frame through. -/
theorem plainEntry_stored_iff (layout : Layout) {s : State} {slot : Slot} {pte : Word}
    (entry : PlainEntry s slot pte) : Stored layout s slot pte ↔ Mappable (frameOf pte) := by
  obtain ⟨initialized,table,present,plain⟩ := entry
  have spec := updateMapping_spec layout initialized (.entry slot)
  rw [Mappable,← Nat.not_lt,← ptePfn_below_iff,Stored]
  by_cases below : ptePfn pte < isaEndAddress
  · refine iff_of_false ?_ fun both => both.1 below
    rintro ⟨t,returns,holds⟩
    have dropped : Accepted layout s (.entry slot) 0 := fun level checked => absurd checked.1 (by decide)
    rw [Guest.pkmSetPte,if_pos ⟨present.ne_zero,below⟩,pkmSetPte,(spec 0).1 dropped] at returns
    cases returns
    rw [State.store,setMem_mem,if_pos rfl] at holds
    exact present.ne_zero holds.symm
  · have type : s.typeOf (ptrFrame layout (.entry slot)) = some .l1 := by rwa [ptrFrame_entry]
    have leaf : IsLeaf .l1 pte := present
    have range : InRange (pte &&& pgFrame) bytes4K ↔ (frameOf pte).toNat + 1 < pageDescLength :=
      inRange_iff pte .l1
    have accepted : Accepted layout s (.entry slot) pte ↔ (frameOf pte).toNat < 0x7fffff := by
      rw [accepted_iff type present,leaf_accepted_iff leaf,LeafRefused,not_or,Classical.not_not,
        and_iff_left plain,range,pageDescLength]
      omega
    rw [Guest.pkmSetPte,if_neg fun both => below both.2,pkmSetPte,← accepted,and_iff_right below]
    constructor
    · rintro ⟨t,returns,_⟩
      exact (updateMapping_ret initialized returns).1
    · intro holds
      refine ⟨_,(spec pte).1 holds,?_⟩
      rw [State.store,setMem_mem,if_pos rfl]

theorem hpage_mappable_iff {npages : Nat} (positive : 0 < npages) (hpage : Frame) :
    (∀ frame, InHpage npages hpage frame → Mappable frame) ↔ HpageMappable npages hpage := by
  rw [HpageMappable]
  constructor
  · intro all
    obtain ⟨low,high⟩ := all hpage ⟨by omega,by omega⟩
    refine ⟨low,Nat.not_lt.mp fun beyond => ?_⟩
    have number : (0x7fffff : Frame).toNat = 0x7fffff := rfl
    have last := all 0x7fffff ⟨by omega,by omega⟩
    exact absurd last.2 (by decide)
  · rintro ⟨low,high⟩ frame ⟨above,below⟩
    exact ⟨by omega,by omega⟩

/-- The entry for a frame, present and otherwise blank. -/
def plainPte (frame : Frame) : Word := Slot.addr ⟨frame,0⟩ ||| pgV

theorem plainPte_frame (frame : Frame) : frameOf (plainPte frame) = frame := by
  have blank : pgV &&& 0x000ffffffffff000 = 0 := by decide
  have same : frameOf (plainPte frame) = frameOf (Slot.addr ⟨frame,0⟩) := by
    apply frameOf_congr
    rw [plainPte,BitVec.and_or_distrib_right,blank]
    exact BitVec.or_zero
  rw [same,frameOf_addr]

theorem plainPte_present (frame : Frame) : Present (plainPte frame) := by
  intro missing
  have bit := congrArg (fun value : Word => value.getLsbD 0) missing
  simp [plainPte,pgV] at bit

/-- One frame is a last level table, and there is no other table. -/
def oneTable (table : Frame) : State where
  mem _ := 0
  pageDesc desc := if descOf table = some desc then .l1 else .unused
  mmuIsInitialized := 1
  cr3 := 0

theorem oneTable_plain (table frame : Frame) {desc : Fin pageDescLength}
    (describes : descOf table = some desc) (apart : frame ≠ table) :
    PlainEntry (oneTable table) ⟨table,0⟩ (plainPte frame) where
  initialized := by simp [oneTable]
  table := by simp [State.typeOf,oneTable,describes]
  present := plainPte_present frame
  plain := by
    rw [plainPte_frame]
    rintro ⟨type,found,ptp⟩
    obtain ⟨other,known,rfl⟩ := Option.map_eq_some_iff.mp found
    have distinct : descOf table ≠ some other := fun same => apart (descOf_injective known same)
    simp [oneTable,distinct,PageType.isPtp] at ptp

/-- Over the container of a creation: the hook stores the entry of a plain frame exactly
where both checks let the frame through, and so it does for all memory of the container
exactly where each of the three blocks lies between the limits. -/
theorem pkmSetPte_maps_iff {env : Env} {memory cntr : Cntr} {r : Int} {k k' : Kmod}
    (made : pkmDevIoctlCreateCntr env memory k = .ret (r,some cntr) k') (layout : Layout) :
    (∀ s slot pte, PlainEntry s slot pte →
      (Stored layout s slot pte ↔ Mappable (frameOf pte))) ∧
    ((∀ s slot pte, PlainEntry s slot pte → Owns cntr (frameOf pte) → Stored layout s slot pte) ↔
      HpageMappable pkmCntrMemNpages env.mem.page ∧ HpageMappable pkmCntrMemNpages env.mem2.page ∧
        HpageMappable pkmCntrInitrdNpages env.initrd.page) := by
  obtain ⟨_,mem,mem2,initrd⟩ := create_made made
  have positive : 0 < pkmCntrMemNpages ∧ 0 < pkmCntrInitrdNpages := by decide
  refine ⟨fun s slot pte entry => plainEntry_stored_iff layout entry,?_⟩
  rw [← hpage_mappable_iff positive.1,← hpage_mappable_iff positive.1,← hpage_mappable_iff positive.2,← mem,
    ← mem2,← initrd]
  constructor
  · intro all
    have mappable : ∀ frame, Owns cntr frame → Mappable frame := by
      intro frame owned
      by_cases same : frame = 0x200000
      · rw [same]
        exact ⟨by decide,by decide⟩
      · have entry := oneTable_plain 0x200000 frame rfl same
        rw [← plainPte_frame frame] at owned ⊢
        exact (plainEntry_stored_iff layout entry).mp (all _ _ _ entry owned)
    exact ⟨fun frame inside => mappable frame (.inl inside),
      fun frame inside => mappable frame (.inr (.inl inside)),
      fun frame inside => mappable frame (.inr (.inr inside))⟩
  · rintro ⟨first,second,third⟩ s slot pte entry (inside | inside | inside)
    · exact (plainEntry_stored_iff layout entry).mpr (first _ inside)
    · exact (plainEntry_stored_iff layout entry).mpr (second _ inside)
    · exact (plainEntry_stored_iff layout entry).mpr (third _ inside)

/-- Three blocks from 4 GiB on. -/
def highBlocks : Env :=
  { grants with
    mem := ⟨1,0x100000,pkmCntrMemNpages⟩
    mem2 := ⟨1,0x140000,pkmCntrMemNpages⟩
    initrd := ⟨1,0x180000,pkmCntrInitrdNpages⟩ }

theorem highBlocks_maps : ∃ (cntr : Cntr) (k : Kmod),
    pkmDevIoctlCreateCntr highBlocks blankCntr ⟨[],pkmCntrMinPcid⟩ = .ret (3,some cntr) k ∧
    ∀ s slot pte, PlainEntry s slot pte → Owns cntr (frameOf pte) → Stored flatLayout s slot pte := by
  obtain ⟨cntr,k,made⟩ : ∃ cntr k, pkmDevIoctlCreateCntr highBlocks blankCntr ⟨[],pkmCntrMinPcid⟩ =
    .ret (3,some cntr) k := ⟨_,_,rfl⟩
  refine ⟨cntr,k,made,(pkmSetPte_maps_iff made flatLayout).2.mpr ?_⟩
  refine ⟨⟨?_,?_⟩,⟨?_,?_⟩,?_,?_⟩ <;> decide

/-- The first block lies at 1 GiB, and the hook stores 0 for its first page. -/
theorem low_block_unmapped : ¬ ∀ (env : Env) (memory cntr : Cntr) (r : Int) (k k' : Kmod)
    (layout : Layout) (s : State) (slot : Slot) (pte : Word),
    pkmDevIoctlCreateCntr env memory k = .ret (r,some cntr) k' →
    PlainEntry s slot pte → Owns cntr (frameOf pte) → Stored layout s slot pte := by
  intro claim
  obtain ⟨cntr,k,made⟩ : ∃ cntr k, pkmDevIoctlCreateCntr grants blankCntr ⟨[],pkmCntrMinPcid⟩ =
    .ret (3,some cntr) k := ⟨_,_,rfl⟩
  have block : cntr.memHpage = 0x40000 := (create_made made).memHpage
  have entry := oneTable_plain 0x80000 0x40000 rfl (by decide)
  have frame := plainPte_frame 0x40000
  have owned : Owns cntr (frameOf (plainPte 0x40000)) := by
    rw [frame,Owns,block]
    exact .inl ⟨by decide,by decide⟩
  have stored := claim _ _ _ _ _ _ flatLayout _ _ _ made entry owned
  rw [plainEntry_stored_iff flatLayout entry,frame] at stored
  exact absurd stored.1 (by decide)

end Cki.Monitor
