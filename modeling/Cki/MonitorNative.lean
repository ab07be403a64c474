import Cki.MonitorHooks
import Cki.MonitorRefines
import Cki.MonitorRoots

/-! The guest's page-table hooks beside the operations of a native kernel that they stand in for.
Where the hooks return, the MMU translates as after the native operations, and they return
wherever the kernel keeps a space of tables that the monitor takes. -/
namespace Cki.Monitor

/-! The hooks, each a call of the monitor through the gate, over memory. The lower levels are
all released by the last level's call. -/

section
variable (layout : Layout)

def Hook.pkmSetPte (ptep : Ptr) (pte : Word) : Call Ram Unit :=
  let pte := if pte ≠ 0 ∧ ptePfn pte < isaEndAddress then 0 else pte
  Ram.call layout (.set .pte ptep pte)

def Hook.pkmSetPmd (pmdp : Ptr) (pmd : Word) : Call Ram Unit := Ram.call layout (.set .pmd pmdp pmd)
def Hook.pkmSetPud (pudp : Ptr) (pud : Word) : Call Ram Unit := Ram.call layout (.set .pud pudp pud)
def Hook.pkmSetP4d (p4dp : Ptr) (p4d : Word) : Call Ram Unit := Ram.call layout (.set .p4d p4dp p4d)

def Hook.pkmAllocPte (pfn : Word) : Call Ram Unit := Ram.call layout (.alloc .pte pfn)
def Hook.pkmAllocPmd (pfn : Word) : Call Ram Unit := Ram.call layout (.alloc .pmd pfn)
def Hook.pkmAllocPud (pfn : Word) : Call Ram Unit := Ram.call layout (.alloc .pud pfn)
def Hook.pkmPgdAlloc (pfn : Word) : Call Ram Unit := Ram.call layout (.alloc .pgd pfn)

def Hook.pkmReleasePte (pfn : Word) : Call Ram Unit := Ram.call layout (.release .pte pfn)
def Hook.pkmReleasePmd (pfn : Word) : Call Ram Unit := Ram.call layout (.release .pte pfn)
def Hook.pkmReleasePud (pfn : Word) : Call Ram Unit := Ram.call layout (.release .pte pfn)
def Hook.pkmPgdFree (pfn : Word) : Call Ram Unit := Ram.call layout (.release .pgd pfn)

end

def Hook.pkmWriteCr3 (pcid : Pcid) (val : Word) : Call Ram Unit :=
  let val := val &&& ~~~x86Cr3PcidMask
  let val := val ||| pcid.value
  Call.modify fun r => { r with cr3 := dropNoFlush val }

def Hook.pkmFlushTlbUser : Call Ram Unit := pure ()

/-- What a kernel does to its page tables, and its other stores. -/
inductive MmOp where
  | set (kind : SetKind) (slot : Slot) (value : Word)
  | alloc (kind : AllocKind) (pfn : Word)
  | release (kind : AllocKind) (pfn : Word)
  | writeCr3 (val : Word)
  | flushTlbUser
  | store (slot : Slot) (value : Word)
  deriving DecidableEq, Repr

/-- `pv_ops.mmu` -/
def MmOp.hook (layout : Layout) (pcid : Pcid) : MmOp → Call Ram Unit
  | .set .pte slot value => Hook.pkmSetPte layout (.entry slot) value
  | .set .pmd slot value => Hook.pkmSetPmd layout (.entry slot) value
  | .set .pud slot value => Hook.pkmSetPud layout (.entry slot) value
  | .set .p4d slot value => Hook.pkmSetP4d layout (.entry slot) value
  | .alloc .pte pfn => Hook.pkmAllocPte layout pfn
  | .alloc .pmd pfn => Hook.pkmAllocPmd layout pfn
  | .alloc .pud pfn => Hook.pkmAllocPud layout pfn
  | .alloc .pgd pfn => Hook.pkmPgdAlloc layout pfn
  | .release .pte pfn => Hook.pkmReleasePte layout pfn
  | .release .pmd pfn => Hook.pkmReleasePmd layout pfn
  | .release .pud pfn => Hook.pkmReleasePud layout pfn
  | .release .pgd pfn => Hook.pkmPgdFree layout pfn
  | .writeCr3 val => Hook.pkmWriteCr3 pcid val
  | .flushTlbUser => Hook.pkmFlushTlbUser
  | .store slot value => Call.modify (·.setMem slot value)

def HookStep (layout : Layout) (pcid : Pcid) (r : Ram) (op : MmOp) (r' : Ram) : Prop :=
  op.hook layout pcid r = .ret () r'

/-- The last level's entries are present or zero. -/
def Settled : SetKind → Word → Prop
  | .pte, value => Present value ∨ value = 0
  | .pmd, _ | .pud, _ | .p4d, _ => True

/-- The operation stores to none of the monitor's own words. -/
def MmOp.Ordinary (layout : Layout) : MmOp → Prop
  | .set kind slot value => ¬ layout.IsOwn slot ∧ Settled kind value
  | .store slot _ => ¬ layout.IsOwn slot
  | .alloc _ _ | .release _ _ | .writeCr3 _ | .flushTlbUser => True

def OrdinaryHook (layout : Layout) (pcid : Pcid) : Ram → MmOp → Ram → Prop :=
  Guarded (fun _ op => op.Ordinary layout) (HookStep layout pcid)

/-! The native operations. -/

structure Mmu where
  mem : Slot → Word
  cr3 : Word

def Mmu.store (m : Mmu) (slot : Slot) (value : Word) : Mmu :=
  { m with mem := fun other => if other = slot then value else m.mem other }

def MmOp.native (m : Mmu) : MmOp → Mmu
  | .set _ slot value | .store slot value => m.store slot value
  | .writeCr3 val => { m with cr3 := dropNoFlush val }
  | .alloc _ _ | .release _ _ | .flushTlbUser => m

/-- The MMU maps the address to memory at this frame by an entry of this level. -/
def Mmu.MapsTo (m : Mmu) (vaddr : Word) (level : Nat) (page : Frame) : Prop :=
  ∃ slot, Walk.Ends m.mem (frameOf m.cr3) vaddr level slot ∧ Present (m.mem slot) ∧
    frameOf (m.mem slot) = page

/-- An entry of the last level for a frame below 4 GiB is cleared. -/
def MmOp.masked : MmOp → MmOp
  | .set .pte slot value =>
    .set .pte slot (if value ≠ 0 ∧ ptePfn value < isaEndAddress then 0 else value)
  | op => op

/-- The guest's memory is the native one but for the monitor's own words, and its root the native
root. -/
structure Alike (layout : Layout) (m : Mmu) (r : Ram) : Prop where
  mem : ∀ slot, ¬ layout.IsOwn slot → r.mem slot = m.mem slot
  root : frameOf r.cr3 = frameOf m.cr3

/-- The native walk for the address comes by none of the monitor's own words. -/
def Mmu.Spares (m : Mmu) (layout : Layout) (vaddr : Word) : Prop :=
  ∀ level slot, Walk.Reads m.mem (frameOf m.cr3) vaddr level slot → ¬ layout.IsOwn slot

section
variable {layout : Layout} {pcid : Pcid} {r r' : Ram} {op : MmOp} {m : Mmu}

theorem MapsTo.of_alike {vaddr : Word}
    (alike : Walk.Alike m.mem (frameOf m.cr3) r.mem (frameOf r.cr3) vaddr) (level : Nat)
    (page : Frame) : MapsTo (r.state layout) vaddr level page ↔ m.MapsTo vaddr level page := by
  constructor
  · rintro ⟨slot,ends,present,reached⟩
    obtain ⟨slot',ends',same⟩ := alike.symm.ends ends
    rw [Ram.state_mem,← same] at present reached
    exact ⟨slot',ends',present,reached⟩
  · rintro ⟨slot,ends,present,reached⟩
    obtain ⟨slot',ends',same⟩ := alike.ends ends
    rw [← same] at present reached
    exact ⟨slot',ends',present,reached⟩

theorem Alike.mapsTo_iff (alike : Alike layout m r) {vaddr : Word} (spares : m.Spares layout vaddr)
    (level : Nat) (page : Frame) :
    MapsTo (r.state layout) vaddr level page ↔ m.MapsTo vaddr level page := by
  refine MapsTo.of_alike ⟨?_,?_⟩ level page
  · rw [alike.root]
    exact alike.mem _ (spares _ _ .root)
  · exact fun level slot _ reads => alike.mem slot (spares level slot reads)

theorem Alike.store (alike : Alike layout m r) (slot : Slot) (value : Word) :
    Alike layout (m.store slot value) (r.setMem slot value) where
  mem := by
    intro other plain
    simp only [Ram.setMem,Mmu.store]
    rw [alike.mem other plain]
  root := alike.root

/-- A call that writes nothing but the monitor's own words. -/
theorem Alike.call (apart : layout.Apart) (alike : Alike layout m r) {call : Op}
    (plain : call.Plain layout) (step : Ram.Step layout r call r')
    (kept : ∀ t, CallStep layout (r.state layout) call t → t.mem = r.mem ∧ t.cr3 = r.cr3) :
    Alike layout m r' := by
  obtain ⟨t,seen,var,value,same⟩ := step.seen apart plain
  obtain ⟨mem,cr3⟩ := kept t seen
  constructor
  · intro slot plain
    have word := congrArg (fun s : State => s.mem slot) same
    simp only [Ram.state_mem,setMem_mem,mem] at word
    rw [word,if_neg fun own => plain ⟨var,own.symm⟩,alike.mem slot plain]
  · have root := congrArg State.cr3 same
    rw [setMem_cr3,cr3] at root
    exact (congrArg frameOf root).trans alike.root

/-- A set of any level stores the masked value. -/
theorem hook_set (layout : Layout) (pcid : Pcid) (kind : SetKind) (slot : Slot) (value : Word) :
    ∃ stored, (MmOp.set kind slot value).masked = .set kind slot stored ∧
      (MmOp.set kind slot value).hook layout pcid = Ram.call layout (.set kind (.entry slot) stored) := by
  cases kind <;> exact ⟨_,rfl,rfl⟩

theorem hook_alloc (layout : Layout) (pcid : Pcid) (kind : AllocKind) (pfn : Word) :
    (MmOp.alloc kind pfn).hook layout pcid = Ram.call layout (.alloc kind pfn) := by
  cases kind <;> rfl

/-- The call for the last level does what those for the others would. -/
theorem hook_release (layout : Layout) (pcid : Pcid) (kind : AllocKind) (pfn : Word) :
    (MmOp.release kind pfn).hook layout pcid = Ram.call layout (.release kind pfn) := by
  cases kind <;> rfl

theorem Ram.Step.stores {kind : SetKind} {ptr : Ptr} {value : Word}
    (step : Ram.Step layout r (.set kind ptr value) r') : r' = r.setMem (ptrSlot layout ptr) value := by
  by_cases initialized : r.mmuIsInitialized layout ≠ 0
  · exact (step.set initialized).2
  · simp only [Ram.Step,Ram.call,Ram.updateMapping,Call.bind_apply,Call.read_apply,
      if_neg initialized] at step
    cases step
    rfl

theorem HookStep.native (apart : layout.Apart) (alike : Alike layout m r)
    (step : OrdinaryHook layout pcid r op r') : Alike layout (op.masked.native m) r' := by
  obtain ⟨ordinary,step⟩ := step
  rw [HookStep] at step
  cases op with
  | set kind slot value =>
    obtain ⟨stored,masked,hook⟩ := hook_set layout pcid kind slot value
    rw [hook] at step
    rw [masked,Ram.Step.stores step]
    exact alike.store slot stored
  | alloc kind pfn =>
    rw [hook_alloc] at step
    have plain : Op.Plain layout (.alloc kind pfn) := trivial
    refine alike.call apart plain step fun t seen => ?_
    rw [CallStep,Op.call,pkmAlloc_eq] at seen
    obtain ⟨desc,_,_,rfl⟩ := svaDeclarePage_ret seen
    exact ⟨rfl,rfl⟩
  | release kind pfn =>
    rw [hook_release] at step
    have plain : Op.Plain layout (.release kind pfn) := trivial
    refine alike.call apart plain step fun t seen => ?_
    rw [CallStep,Op.call,pkmRelease_eq] at seen
    obtain ⟨desc,_,rfl⟩ := svaRemovePage_ret seen
    exact ⟨rfl,rfl⟩
  | writeCr3 val =>
    cases step
    refine ⟨alike.mem,?_⟩
    exact (withPcid_frame val).trans (frameOf_dropNoFlush val).symm
  | flushTlbUser =>
    cases step
    exact alike
  | store slot value =>
    cases step
    exact alike.store slot value

/-- Hooks that return have done what the native operations do. -/
theorem run_native (apart : layout.Apart) {ops : List MmOp} (alike : Alike layout m r)
    (run : Run (OrdinaryHook layout pcid) r ops r') :
    Alike layout ((ops.map MmOp.masked).foldl MmOp.native m) r' := by
  induction run generalizing m with
  | nil => exact alike
  | cons step _ ih => exact ih (HookStep.native apart alike step)

end

/-! A kernel that keeps its page tables in order. -/

/-- A native kernel, with a record of which frames it uses as tables. -/
structure Kernel where
  mmu : Mmu
  space : Space

/-- What the kernel does fits its tables, and the monitor takes it. A frame is declared when it
holds no entry; what is stored past the hooks is in no table and none of the monitor's own
words. -/
inductive KernelStep (layout : Layout) (k : Kernel) : MmOp → Kernel → Prop where
  | set {kind : SetKind} {slot : Slot} {level : Nat} {value : Word} {space : Space}
      (here : k.space.level slot.frame = some level) (small : RootSmall level value)
      (settled : Settled kind value)
      (kept : (MmOp.set kind slot value).masked = .set kind slot value)
      (step : SpaceStep layout k.space
        (.set slot.frame slot.index (entryOf (.ofLevel level) value)) space) :
      KernelStep layout k (.set kind slot value) ⟨k.mmu.store slot value,space⟩
  | alloc {kind : AllocKind} {pfn : Word} {level : Nat} {space : Space}
      (own : kind.level.level = some level)
      (blank : ∀ index, ¬ Present (k.mmu.mem ⟨pfnFrame pfn,index⟩))
      (step : SpaceStep layout k.space (.declare (pfnFrame pfn) level) space) :
      KernelStep layout k (.alloc kind pfn) ⟨k.mmu,space⟩
  | release {kind : AllocKind} {pfn : Word} {space : Space}
      (mapped : k.space.locate (indices (layout.physToVirt (pfn <<< 12))) ≠ none)
      (step : SpaceStep layout k.space (.remove (pfnFrame pfn)) space) :
      KernelStep layout k (.release kind pfn) ⟨k.mmu,space⟩
  | writeCr3 {val : Word} {space : Space}
      (step : SpaceStep layout k.space (.switch (frameOf val)) space) :
      KernelStep layout k (.writeCr3 val) ⟨{ k.mmu with cr3 := dropNoFlush val },space⟩
  | flushTlbUser : KernelStep layout k .flushTlbUser k
  | store {slot : Slot} {value : Word} (plain : k.space.level slot.frame = none)
      (spared : ¬ layout.IsOwn slot) :
      KernelStep layout k (.store slot value) ⟨k.mmu.store slot value,k.space⟩

/-- The guest has the kernel's memory, and the monitor knows its tables. -/
structure Hosts (layout : Layout) (k : Kernel) (r : Ram) : Prop where
  represents : Represents layout k.space r
  alike : Alike layout k.mmu r

section
variable {layout : Layout} {k k' : Kernel} {r : Ram} {op : MmOp}

/-- Every walk stays in tables, which hold none of the monitor's own words. -/
theorem Hosts.mapsTo_iff (hosts : Hosts layout k r) (vaddr : Word) (level : Nat) (page : Frame) :
    MapsTo (r.state layout) vaddr level page ↔ k.mmu.MapsTo vaddr level page := by
  have typed := hosts.represents.models.levelTyped
  have same : ∀ level slot, Walk.Reads r.mem (frameOf r.cr3) vaddr level slot →
      k.mmu.mem slot = r.mem slot := by
    intro level slot reads
    have type := reads_typed (s := r.state layout) typed reads
    have ptp : (r.state layout).IsPtp slot.frame := by
      refine ⟨_,type,(isPtp_iff _).mpr ?_⟩
      rw [level_ofLevel reads.level_le]
      exact Option.some_ne_none level
    exact (hosts.alike.mem slot (hosts.represents.own.ptp ptp slot.index)).symm
  have alike : Walk.Alike r.mem (frameOf r.cr3) k.mmu.mem (frameOf k.mmu.cr3) vaddr := by
    refine ⟨?_,fun level slot _ => same level slot⟩
    rw [← hosts.alike.root]
    exact same _ _ .root
  exact MapsTo.of_alike alike.symm level page

/-- Natively the kernel does just the operation. -/
theorem KernelStep.native (step : KernelStep layout k op k') :
    op.masked = op ∧ k'.mmu = op.native k.mmu := by
  cases step with
  | set here small settled kept step => exact ⟨kept,rfl⟩
  | _ => exact ⟨rfl,rfl⟩

/-- The monitor carries out a call that its state does. -/
theorem Hosts.carry (apart : layout.Apart) (hosts : Hosts layout k r) {call : Op} {t : State}
    {space : Space} (allowed : Allowed layout (r.state layout) (.call call))
    (step : CallStep layout (r.state layout) call t) (models : Models space t) :
    ∃ r', Ram.call layout call r = .ret () r' ∧ Represents layout space r' := by
  have event : EventStep layout (r.state layout) (.call call) t := step
  obtain ⟨r',step',represents⟩ := hosts.represents.carry apart allowed event models
  exact ⟨r',step'.2,represents⟩

theorem KernelStep.hooked (apart : layout.Apart) (pcid : Pcid) (hosts : Hosts layout k r)
    (step : KernelStep layout k op k') :
    ∃ r', OrdinaryHook layout pcid r op r' ∧ Represents layout k'.space r' := by
  have models := hosts.represents.models
  have own := hosts.represents.own
  cases step with
  | @set kind slot level value space here small settled kept step =>
    obtain ⟨takes,legal,rfl⟩ := step
    obtain ⟨stored,masked,hook⟩ := hook_set layout pcid kind slot value
    rw [kept] at masked
    cases masked
    have accepted : Accepted layout (r.state layout) (.entry slot) value := by
      rintro other ⟨present,type⟩
      exact (models.accepted_iff slot here present).mpr ⟨small,legal.2,takes⟩ other ⟨present,type⟩
    have plain := own.ptp (models.isPtp.mpr legal.1) slot.index
    have allowed : Allowed layout (r.state layout) (.call (.set kind (.entry slot) value)) :=
      ⟨⟨slot,rfl,plain⟩,trivial⟩
    obtain ⟨r',returns,represents⟩ := hosts.carry apart allowed
      (set_step layout models.initialized kind accepted) (models.set slot here value legal)
    exact ⟨r',⟨⟨plain,settled⟩,by rwa [HookStep,hook]⟩,represents⟩
  | @alloc kind pfn level space declared blank step =>
    obtain ⟨⟨range,spared⟩,legal,rfl⟩ := step
    have unused := models.unused legal.1 range
    have describes : descOf (pfnFrame pfn) = some ⟨(pfnFrame pfn).toNat,range⟩ := dif_pos range
    have old : (r.state layout).pageDesc ⟨(pfnFrame pfn).toNat,range⟩ = .unused := by
      simpa [State.typeOf,describes] using unused
    have empty : Blank (r.state layout) (pfnFrame pfn) := by
      intro index
      have plain : ¬ layout.IsOwn ⟨pfnFrame pfn,index⟩ := fun own => spared own.frame
      rw [Ram.state_mem,hosts.alike.mem _ plain]
      exact blank index
    have allowed : Allowed layout (r.state layout) (.call (.alloc kind pfn)) := ⟨empty,spared⟩
    obtain ⟨r',returns,represents⟩ := hosts.carry apart allowed
      (alloc_step layout kind pfn describes (.inl old)) (models.declare describes declared empty legal)
    exact ⟨r',⟨trivial,by rwa [HookStep,hook_alloc]⟩,represents⟩
  | @release kind pfn space mapped step =>
    obtain ⟨⟨root,_⟩,legal,rfl⟩ := step
    obtain ⟨slot,walks⟩ := Option.ne_none_iff_exists'.mp ((models.walk_iff _).mpr ⟨root,mapped⟩)
    obtain ⟨level,here⟩ := Option.ne_none_iff_exists'.mp legal.1
    obtain ⟨desc,describes,_⟩ := Option.map_eq_some_iff.mp (models.level_ptp here).1
    have allowed : Allowed layout (r.state layout) (.call (.release kind pfn)) :=
      ⟨models.releasable legal,trivial⟩
    obtain ⟨r',returns,represents⟩ := hosts.carry apart allowed
      (release_step layout kind pfn describes walks) (models.remove describes legal)
    exact ⟨r',⟨trivial,by rwa [HookStep,hook_release]⟩,represents⟩
  | @writeCr3 val space step =>
    obtain ⟨_,legal,rfl⟩ := step
    have frame : frameOf (withPcid val pcid.value) = frameOf val :=
      (frameOf_dropNoFlush _).symm.trans (withPcid_frame val)
    have after := models.switch (withPcid val pcid.value)
    simp only [frame] at after
    exact ⟨_,⟨trivial,rfl⟩,after legal,own⟩
  | flushTlbUser => exact ⟨r,⟨trivial,rfl⟩,hosts.represents⟩
  | @store slot value plain spared =>
    have state := Ram.state_setMem (r := r) spared value
    refine ⟨_,⟨spared,rfl⟩,?_,?_⟩
    · rw [state]
      exact models.store slot plain value
    · rw [state]
      exact own

/-- An orderly kernel runs on the hooks as it runs natively. -/
theorem run_hooked (apart : layout.Apart) (pcid : Pcid) {ops : List MmOp} (hosts : Hosts layout k r)
    (run : Run (KernelStep layout) k ops k') :
    ∃ r', Run (OrdinaryHook layout pcid) r ops r' ∧ Hosts layout k' r' := by
  induction run generalizing r with
  | nil => exact ⟨r,.nil r,hosts⟩
  | cons step _ ih =>
    obtain ⟨u,hook,represents⟩ := step.hooked apart pcid hosts
    obtain ⟨masked,mmu⟩ := step.native
    have alike := HookStep.native apart hosts.alike hook
    rw [masked,← mmu] at alike
    obtain ⟨r',run,hosts⟩ := ih ⟨represents,alike⟩
    exact ⟨r',.cons hook run,hosts⟩

/-- The hooks stand for the native operations. Whatever hooks return, the MMU translates as after
the native operations without the entries that are cleared, and an orderly kernel's hooks all
return. -/
theorem hooks_native (layout : Layout) (apart : layout.Apart) (pcid : Pcid)
    (hosts : Hosts layout k r) :
    (∀ ops r', Run (OrdinaryHook layout pcid) r ops r' →
      ∀ vaddr, ((ops.map MmOp.masked).foldl MmOp.native k.mmu).Spares layout vaddr →
        ∀ level page, MapsTo (r'.state layout) vaddr level page ↔
          ((ops.map MmOp.masked).foldl MmOp.native k.mmu).MapsTo vaddr level page) ∧
    ∀ ops k', Run (KernelStep layout) k ops k' →
      ∃ r', Run (OrdinaryHook layout pcid) r ops r' ∧ Hosts layout k' r' ∧ ∀ vaddr level page,
        MapsTo (r'.state layout) vaddr level page ↔ k'.mmu.MapsTo vaddr level page := by
  constructor
  · intro ops r' run vaddr spares
    exact (run_native apart hosts.alike run).mapsTo_iff spares
  · intro ops k' run
    obtain ⟨r',hooks,hosts'⟩ := run_hooked apart pcid hosts run
    exact ⟨r',hooks,hosts',hosts'.mapsTo_iff⟩

end

/-- The kernel of `emptyRam`. -/
def emptyKernel : Kernel := ⟨⟨emptyRam.mem,emptyRam.cr3⟩,emptySpace⟩

theorem emptyKernel_hosts : Hosts bssLayout emptyKernel emptyRam :=
  ⟨emptyRam_represents,⟨fun _ _ => rfl,rfl⟩⟩

/-- The first table comes to lead to the second. -/
theorem hooks_native_linking : ∃ r',
    Run (OrdinaryHook bssLayout ⟨10,by decide⟩) emptyRam [.set .p4d ⟨1,0⟩ 0x2003] r' ∧
    ∀ vaddr level page, MapsTo (r'.state bssLayout) vaddr level page ↔
      (emptyKernel.mmu.store ⟨1,0⟩ 0x2003).MapsTo vaddr level page := by
  have leads : entryOf (.ofLevel 3) 0x2003 = .table 2 := by decide
  have legal : emptyKernel.space.Legal (.set 1 0 (entryOf (.ofLevel 3) 0x2003)) := by
    rw [leads]
    exact ⟨by decide,2,by decide,by decide⟩
  have step : KernelStep bssLayout emptyKernel (.set .p4d ⟨1,0⟩ 0x2003)
      ⟨emptyKernel.mmu.store ⟨1,0⟩ 0x2003,_⟩ :=
    .set (by decide : emptyKernel.space.level 1 = some 3) (fun _ => by decide) trivial rfl
      ⟨by rw [leads]; trivial,legal,rfl⟩
  obtain ⟨r',run,_,maps⟩ :=
    (hooks_native bssLayout bssLayout_apart ⟨10,by decide⟩ emptyKernel_hosts).2 _ _ (.single step)
  exact ⟨r',run,maps⟩

end Cki.Monitor
