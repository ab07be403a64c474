import Cki.CreateEnds

/-! The launcher's view of guest memory (cki_launcher/main.c), next to the one the guest gets
in its e820 table: the two physical bases, `phys2virt` and the memory table for vhost. -/
namespace Cki.Launcher

open Create Virtio

/-- The launcher's globals once a container is created. -/
structure Globals where
  virtBase : Word
  virtBase2 : Word
  physBase : Word
  physBase2 : Word
  deriving DecidableEq, Repr

/-- PKM_CNTR_GET_PHYS_BASE and PKM_CNTR_GET_PHYS_BASE2, where the result can be copied out. -/
def pkmCntrIoctlGetPhysBase (cntr : Cntr) : Word := pageToPhys cntr.memHpage
def pkmCntrIoctlGetPhysBase2 (cntr : Cntr) : Word := pageToPhys cntr.mem2Hpage

/-- `create_cntr`, once the container is there: the blocks lie at `virtBase` and `virtBase2`. -/
def createCntr (cntr : Cntr) (virtBase virtBase2 : Word) : Globals :=
  ⟨virtBase,virtBase2,pkmCntrIoctlGetPhysBase cntr,pkmCntrIoctlGetPhysBase2 cntr⟩

variable (g : Globals)

def phys2virt1 (phys : Word) : Word := phys - g.physBase + g.virtBase
def phys2virt2 (phys : Word) : Word := phys - g.physBase2 + g.virtBase2

def phys2virt (phys : Word) : Word :=
  if phys ≥ g.physBase ∧ phys < g.physBase + pkmCntrMemSize then phys2virt1 g phys
  else phys2virt2 g phys

structure VhostMemoryRegion where
  guestPhysAddr : Word
  memorySize : Word
  userspaceAddr : Word
  deriving DecidableEq, Repr

/-- The table that `init_vhost_net` sets. -/
def initVhostNet : List VhostMemoryRegion := [⟨g.physBase,pkmCntrMemSize,g.virtBase⟩]

def VhostMemoryRegion.Covers (region : VhostMemoryRegion) (addr : Word) : Prop :=
  region.guestPhysAddr ≤ addr ∧ addr < region.guestPhysAddr + region.memorySize

def VhostMemoryRegion.translate (region : VhostMemoryRegion) (addr : Word) : Word :=
  addr - region.guestPhysAddr + region.userspaceAddr

/-- vhost finds the address, where the launcher does. -/
def Seen (addr : Word) : Prop :=
  ∃ region ∈ initVhostNet g, region.Covers addr ∧ region.translate addr = phys2virt g addr

/-- The address lies in a RAM range of the table that the guest is given. -/
def InRam (bootParams : BootParams) (addr : Word) : Prop :=
  ∃ entry ∈ bootParams.e820Table, entry.type = e820TypeRam ∧ entry.addr ≤ addr ∧
    addr < entry.addr + entry.size

/-- The address lies in the block that starts at this page. -/
def InBlock (hpage : Frame) (addr : Word) : Prop :=
  pageToPhys hpage ≤ addr ∧ addr < pageToPhys hpage + pkmCntrMemSize

/-! The e820 table of a created container. -/

def Described (cntr : Cntr) : Prop :=
  ∃ bootParams, cntr.bootParams = some bootParams ∧ bootParams.e820Table = e820Table cntr

/-- A container that the call leaves has been given its own blocks. -/
def Describes (outcome : Outcome Kmod Result) : Prop :=
  ∀ fd cntr k, outcome = .ret (fd,some cntr) k → Described cntr

theorem failed_describes {outcome : Outcome Kmod Result} {r : Int} {k : Kmod}
    (failed : outcome = .ret (r,none) k) : Describes outcome := by
  intro fd cntr k' created
  rw [failed] at created
  cases created

theorem ends_describes {outcome : Outcome Kmod Result} {r : Int} {next : BitVec 32}
    (ends : Ends outcome r next) : Describes outcome := by
  rcases ends with ⟨k,failed,_⟩ | ⟨k,faults,_⟩
  · exact failed_describes failed
  · intro fd cntr k' created
    rw [faults] at created
    cases created

theorem installFd_describes (env : Env) (cntr : Cntr) (k : Kmod) (described : Described cntr) :
    Describes (installFd env cntr k) := by
  rw [installFd]
  split
  · exact ends_describes (outFreeBootParams_ends cntr _ k)
  · cases file : env.file with
    | some error => exact ends_describes (outFreeCpus_ends cntr error _)
    | none =>
      intro fd cntr' k' created
      cases created
      exact described

theorem createBootParams_table {env : Env} {cntr : Cntr} {bootParams : BootParams} {k k' : Kmod}
    (built : createBootParams env cntr k = .ret (some bootParams) k') :
    bootParams.e820Table = e820Table cntr := by
  cases first : env.bootParams with
  | none =>
    simp only [createBootParams,first] at built
    cases built
  | some frame =>
    cases second : env.cmdline with
    | none =>
      simp only [createBootParams,first,second] at built
      cases built
    | some cmdline =>
      simp only [createBootParams,first,second] at built
      cases built
      rfl

theorem fillBootParams_describes (env : Env) (cntr : Cntr) (k : Kmod) :
    Describes (fillBootParams env cntr k) := by
  intro fd created k' ends
  obtain ⟨bootParams,k'',built,rest⟩ := Call.bind_ret ends
  cases bootParams with
  | none => exact ends_describes (outFreeCpus_ends _ _ k'') _ _ _ rest
  | some bootParams =>
    rw [if_neg nofun] at rest
    exact installFd_describes env { cntr with
      bootParams := bootParams, virtioNet := initVirtioNet cntr.virtioNet } k''
      ⟨bootParams,rfl,createBootParams_table built⟩ _ _ _ rest

theorem fillCpus_describes (env : Env) (cntr : Cntr) (k : Kmod) : Describes (fillCpus env cntr k) := by
  intro fd created k' ends
  obtain ⟨cpus,k'',_,rest⟩ := Call.bind_ret ends
  cases cpus with
  | none => exact ends_describes (outFreeBootPgtbl_ends _ _ k'') _ _ _ rest
  | some cpus =>
    rw [if_neg nofun] at rest
    exact fillBootParams_describes env _ k'' _ _ _ rest

theorem takePcid_describes (env : Env) (cntr : Cntr) (k : Kmod) : Describes (takePcid env cntr k) := by
  intro fd created k' ends
  obtain ⟨pcid,k'',_,rest⟩ := Call.bind_ret ends
  dsimp only at rest
  split at rest
  · exact ends_describes (outFreeBootPgtbl_ends _ _ k'') _ _ _ rest
  · exact fillCpus_describes env _ k'' _ _ _ rest

theorem fillBootPgtbl_describes (env : Env) (cntr : Cntr) (k : Kmod) :
    Describes (fillBootPgtbl env cntr k) := by
  intro fd created k' ends
  obtain ⟨bootPgtbl,k'',_,rest⟩ := Call.bind_ret ends
  dsimp only at rest
  split at rest
  · cases rest
  · exact takePcid_describes env _ k'' _ _ _ rest

theorem pin_describes {pin : Pin} {npages : Nat} {k : Kmod} {unpinned wrong next : Call Kmod Result}
    (failed : Describes (unpinned k)) (small : ∀ k', Describes (wrong k'))
    (accepted : ∀ k', Describes (next k')) :
    Describes ((if pin.result ≠ 1 then unpinned
      else do
        acquire (.hpage pin.page)
        if pin.compoundNr ≠ npages then wrong else next) k) := by
  rcases pin_cases pin npages unpinned wrong next k with
    ⟨_,outcome⟩ | ⟨_,_,outcome⟩ | ⟨_,outcome⟩
  · rw [outcome]
    exact failed
  · rw [outcome]
    exact small _
  · rw [outcome]
    exact accepted _

theorem create_describes (env : Env) (memory : Cntr) (k : Kmod) :
    Describes (pkmDevIoctlCreateCntr env memory k) := by
  rw [pkmDevIoctlCreateCntr]
  split
  · exact failed_describes rfl
  · cases env.cntr with
    | none => exact failed_describes rfl
    | some addr =>
      refine pin_describes (failed_describes rfl) (fun _ => failed_describes rfl) fun _ => ?_
      refine pin_describes (failed_describes rfl) (fun _ => failed_describes rfl) fun _ => ?_
      refine pin_describes (failed_describes rfl) (fun _ => failed_describes rfl) fun k' => ?_
      exact fillBootPgtbl_describes env _ k'

/-! The two views. -/

theorem pageToPhys_toNat (page : Frame) : (pageToPhys page).toNat = page.toNat * 4096 := by
  have bound := page.isLt
  simp only [pageToPhys,BitVec.toNat_shiftLeft,BitVec.toNat_setWidth,Nat.shiftLeft_eq]
  omega

theorem bounds_iff {base size addr : Word} (small : base.toNat + size.toNat < 2 ^ 64) :
    base ≤ addr ∧ addr < base + size ↔
      base.toNat ≤ addr.toNat ∧ addr.toNat < base.toNat + size.toNat := by
  rw [BitVec.le_def,BitVec.lt_def,BitVec.toNat_add,Nat.mod_eq_of_lt small]

/-- A block lies in the 52-bit physical address space. -/
theorem inBlock_iff (hpage : Frame) (addr : Word) : InBlock hpage addr ↔
    hpage.toNat * 4096 ≤ addr.toNat ∧ addr.toNat < hpage.toNat * 4096 + 2 ^ 30 := by
  have bound := hpage.isLt
  have size : pkmCntrMemSize.toNat = 2 ^ 30 := by decide
  rw [InBlock,bounds_iff]
  · rw [pageToPhys_toNat,size]
  · rw [pageToPhys_toNat,size]
    omega

/-- The table for vhost has the first block, and translates as the launcher does there. -/
theorem seen_iff (cntr : Cntr) (virtBase virtBase2 addr : Word) :
    Seen (createCntr cntr virtBase virtBase2) addr ↔ InBlock cntr.memHpage addr := by
  constructor
  · rintro ⟨region,member,covers,_⟩
    rw [List.mem_singleton.mp member] at covers
    exact covers
  · intro within
    refine ⟨_,List.mem_singleton.mpr rfl,within,?_⟩
    have covered : addr ≥ (createCntr cntr virtBase virtBase2).physBase ∧
        addr < (createCntr cntr virtBase virtBase2).physBase + pkmCntrMemSize := within
    rw [phys2virt,if_pos covered]
    rfl

theorem inRam_iff {cntr : Cntr} {bootParams : BootParams} {addr : Word}
    (table : bootParams.e820Table = e820Table cntr) :
    InRam bootParams addr ↔ InBlock cntr.memHpage addr ∨ InBlock cntr.mem2Hpage addr := by
  rw [InRam,table]
  simp [e820Table,InBlock,e820TypeReserved,e820TypeRam]

/-- The view of vhost covers an address of guest RAM if it lies in the first block, and all of
guest RAM only if the second block is the first. -/
theorem vhost_view_iff {env : Env} {memory cntr : Cntr} {k k' : Kmod} {fd : Int}
    {bootParams : BootParams}
    (created : pkmDevIoctlCreateCntr env memory k = .ret (fd,some cntr) k')
    (given : cntr.bootParams = some bootParams) (virtBase virtBase2 : Word) :
    (∀ addr, InRam bootParams addr →
      (Seen (createCntr cntr virtBase virtBase2) addr ↔ InBlock cntr.memHpage addr)) ∧
    ((∀ addr, InRam bootParams addr → Seen (createCntr cntr virtBase virtBase2) addr) ↔
      cntr.mem2Hpage = cntr.memHpage) := by
  obtain ⟨_,same,table⟩ := create_describes env memory k fd cntr k' created
  rw [given] at same
  cases same
  refine ⟨fun addr _ => seen_iff cntr virtBase virtBase2 addr,?_⟩
  simp only [seen_iff,inRam_iff table,inBlock_iff]
  constructor
  · intro all
    have bound := cntr.mem2Hpage.isLt
    have value : ∀ n, n < 2 ^ 53 → (BitVec.ofNat 64 n).toNat = n := by
      intro n small
      rw [BitVec.toNat_ofNat]
      omega
    have first := all (BitVec.ofNat 64 (cntr.mem2Hpage.toNat * 4096))
    have last := all (BitVec.ofNat 64 (cntr.mem2Hpage.toNat * 4096 + (2 ^ 30 - 1)))
    rw [value _ (by omega)] at first last
    have least := first (.inr ⟨Nat.le_refl _,by omega⟩)
    have most := last (.inr ⟨by omega,by omega⟩)
    apply BitVec.eq_of_toNat_eq
    omega
  · intro same addr ram
    rw [same,or_self] at ram
    exact ram

/-- A container whose blocks start at 1 GiB and at 2 GiB. -/
theorem grants_created : ∃ (fd : Int) (cntr : Cntr) (k : Kmod) (bootParams : BootParams),
    pkmDevIoctlCreateCntr grants blankCntr ⟨[],pkmCntrMinPcid⟩ = .ret (fd,some cntr) k ∧
      cntr.bootParams = some bootParams ∧ bootParams.e820Table = e820Table cntr ∧
      cntr.memHpage = 0x40000 ∧ cntr.mem2Hpage = 0x80000 :=
  ⟨_,_,_,_,rfl,rfl,rfl,rfl,rfl⟩

theorem grants_seen : ∃ (fd : Int) (cntr : Cntr) (k : Kmod),
    pkmDevIoctlCreateCntr grants blankCntr ⟨[],pkmCntrMinPcid⟩ = .ret (fd,some cntr) k ∧
      Seen (createCntr cntr 0x7f0000000000 0x7f8000000000) 0x40001000 := by
  obtain ⟨fd,cntr,k,bootParams,created,given,table,mem,mem2⟩ := grants_created
  have within : InBlock cntr.memHpage 0x40001000 := by
    rw [mem]
    exact ⟨by decide,by decide⟩
  have ram : InRam bootParams 0x40001000 := (inRam_iff table).mpr (.inl within)
  exact ⟨fd,cntr,k,created,((vhost_view_iff created given _ _).1 _ ram).mpr within⟩

/-- The first page of the second block is RAM, and vhost does not find it. -/
theorem mem2_unseen : ¬ ∀ (env : Env) (memory cntr : Cntr) (k k' : Kmod) (fd : Int)
    (bootParams : BootParams) (virtBase virtBase2 addr : Word),
    pkmDevIoctlCreateCntr env memory k = .ret (fd,some cntr) k' →
    cntr.bootParams = some bootParams → InRam bootParams addr →
    Seen (createCntr cntr virtBase virtBase2) addr := by
  intro claim
  obtain ⟨fd,cntr,k,bootParams,created,given,table,mem,mem2⟩ := grants_created
  have within : InBlock cntr.mem2Hpage 0x80000000 := by
    rw [mem2]
    exact ⟨by decide,by decide⟩
  have ram : InRam bootParams 0x80000000 := (inRam_iff table).mpr (.inr within)
  have seen := claim _ _ _ _ _ _ _ 0x7f0000000000 0x7f8000000000 _ created given ram
  have inFirst := (seen_iff _ _ _ _).mp seen
  rw [mem] at inFirst
  exact absurd inFirst.2 (by decide)

end Cki.Launcher
