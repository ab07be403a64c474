import Mathlib.Logic.Function.Basic
import Cki.Bytes
import Cki.CreateAtomic
import Cki.CreateWhole
import Cki.Walk

/-! The tables that the primary vCPU starts with. `create_boot_pgtbl` copies the top table that
the host runs with and puts 512 pages of 1 GiB behind its first entry. -/
namespace Cki.Create

open Bytes Virtio Walk

def pagePse : Word := 0x80
/-- The patch has `_PAGE_GLOBAL` be 0. -/
def pageGlobal : Word := 0
def linuxBootOffset : Word := 0x1000080
def pageBytes : Nat := 4096
def blockBytes : Nat := 2 ^ 30

/-! What `create_boot_pgtbl` writes. -/

def copyPage (mem : Slot → Word) (page source : Frame) : Slot → Word := fun slot =>
  if slot.frame = page then mem ⟨source,slot.index⟩ else mem slot

def bootPudEntry (i : Nat) : Word :=
  pagePresent ||| pageRw ||| pagePse ||| pageGlobal ||| BitVec.ofNat 64 i <<< 30

/-- The loop over the first `n` entries. -/
def fillBootPud (mem : Slot → Word) (bootPud : Frame) (n : Nat) : Slot → Word :=
  (List.range n).foldl
    (fun mem i => Function.update mem ⟨bootPud,BitVec.ofNat 9 i⟩ (bootPudEntry i)) mem

/-- The memory after `create_boot_pgtbl`, with the frame of `read_cr3_pa` and the two pages. -/
def bootTables (mem : Slot → Word) (current : Frame) (bootPgtbl : BootPgtbl) : Slot → Word :=
  let copied := copyPage mem (frameOf bootPgtbl.addr) current
  let filled := fillBootPud copied (frameOf bootPgtbl.entry0) 512
  Function.update filled ⟨frameOf bootPgtbl.addr,0⟩ bootPgtbl.entry0

/-! The primary vCPU. -/

structure PkCtx where
  rsi : Word
  rip : Word
  cr3 : Word
  deriving DecidableEq, Repr

/-- `init_ctx` -/
def initCtx (cntr : Cntr) (bootPgtbl : BootPgtbl) (bootParams : BootParams) : PkCtx where
  rsi := bootParams.addr
  rip := pageToPhys cntr.memHpage + linuxBootOffset
  cr3 := bootPgtbl.addr

def BootParams.cmdline (bootParams : BootParams) : Word :=
  bootParams.extCmdLinePtr.setWidth 64 <<< 32 + bootParams.cmdLinePtr.setWidth 64

/-- Where the guest starts and what it is given. -/
def firstRanges (cntr : Cntr) (bootParams : BootParams) (ctx : PkCtx) : List (Word × Nat) :=
  [(ctx.rip,1),(ctx.rsi,1),(bootParams.cmdline,pageBytes),
    (pageToPhys cntr.memHpage,blockBytes),(pageToPhys cntr.mem2Hpage,blockBytes),
    (pageToPhys cntr.initrdHpage,blockBytes)]

/-- Tables map a range to itself. -/
def MapsSelf (mem : Slot → Word) (root : Frame) (range : Word × Nat) : Prop :=
  ∀ i < range.2, MapsRw mem root (after range.1 i) (after range.1 i).toNat

/-- The first 512 GiB. -/
def Low (addr : Word) : Prop := addr.toNat < 2 ^ 39

/-- Each address of the range is among the first 512 GiB or is mapped to itself by the tables
that the host runs with. -/
def Reached (mem : Slot → Word) (current : Frame) (range : Word × Nat) : Prop :=
  ∀ i < range.2, Low (after range.1 i) ∨
    MapsRw mem current (after range.1 i) (after range.1 i).toNat

/-- The two pages come from `__get_free_page`: they are not the same, and no table that the host
runs with lies in them. -/
structure Free (mem : Slot → Word) (current bootPgtbl bootPud : Frame) : Prop where
  apart : bootPgtbl ≠ bootPud
  unused : ∀ vaddr level slot, Reads mem current vaddr level slot →
    slot.frame ≠ bootPgtbl ∧ slot.frame ≠ bootPud

/-! The entries. -/

theorem frameOf_pageToPhys (frame : Frame) : frameOf (pageToPhys frame) = frame := by
  apply BitVec.eq_of_toNat_eq
  have bound := frame.isLt
  simp only [frameOf,pageToPhys,BitVec.extractLsb'_toNat,BitVec.toNat_shiftLeft,BitVec.toNat_setWidth,
    Nat.shiftLeft_eq,Nat.shiftRight_eq_div_pow]
  omega

theorem frameOf_entry0 (frame : Frame) :
    frameOf (pagePresent ||| pageRw ||| pageToPhys frame) = frame := by
  have mask : (0x000ffffffffff000 : Word) = ~~~(pagePresent ||| pageRw) &&& 0x000ffffffffff000 := by
    decide
  have same : frameOf (pagePresent ||| pageRw ||| pageToPhys frame) = frameOf (pageToPhys frame) := by
    apply frameOf_congr
    rw [mask,← BitVec.and_assoc,entry0_page,← BitVec.and_assoc,pageToPhys_noFlags]
  rw [same,frameOf_pageToPhys]

theorem entry0_bits (frame : Frame) :
    (pagePresent ||| pageRw ||| pageToPhys frame).getLsbD 0 = true ∧
      (pagePresent ||| pageRw ||| pageToPhys frame).getLsbD 1 = true := by
  have present : (pagePresent ||| pageRw).getLsbD 0 = true := by decide
  have writable : (pagePresent ||| pageRw).getLsbD 1 = true := by decide
  simp only [BitVec.getLsbD_or (x := pagePresent ||| pageRw),present,writable,Bool.true_or,and_self]

theorem bootPudEntry_toNat {i : Nat} (bound : i < 512) : (bootPudEntry i).toNat = i * 2 ^ 30 + 0x83 := by
  have flags : pagePresent ||| pageRw ||| pagePse ||| pageGlobal = 0x83 := by decide
  have apart : (0x83 : Nat) < 2 ^ 30 := by decide
  have shifted : (BitVec.ofNat 64 i <<< 30).toNat = i <<< 30 := by
    rw [BitVec.toNat_shiftLeft,BitVec.toNat_ofNat,Nat.shiftLeft_eq,Nat.shiftLeft_eq]
    omega
  rw [bootPudEntry,flags,BitVec.toNat_or,shifted,Nat.or_comm,← Nat.shiftLeft_eq]
  exact (Nat.shiftLeft_add_eq_or_of_lt apart i).symm

theorem bootPudEntry_frame {i : Nat} (bound : i < 512) : (frameOf (bootPudEntry i)).toNat = i * 2 ^ 18 := by
  rw [frameOf,BitVec.extractLsb'_toNat,bootPudEntry_toNat bound,Nat.shiftRight_eq_div_pow]
  omega

theorem bootPudEntry_bits (i : Nat) : (bootPudEntry i).getLsbD 0 = true ∧
    (bootPudEntry i).getLsbD 1 = true ∧ (bootPudEntry i).getLsbD 7 = true := by
  have flags : pagePresent ||| pageRw ||| pagePse ||| pageGlobal = 0x83 := by decide
  rw [bootPudEntry,flags]
  simp only [BitVec.getLsbD_or]
  exact ⟨rfl,rfl,rfl⟩

/-- What the loop leaves. -/
theorem fillBootPud_apply (mem : Slot → Word) (bootPud : Frame) {n : Nat} (bound : n ≤ 512)
    (slot : Slot) : fillBootPud mem bootPud n slot =
      if slot.frame = bootPud ∧ slot.index.toNat < n then bootPudEntry slot.index.toNat
      else mem slot := by
  induction n with
  | zero =>
    rw [if_neg (by omega)]
    rfl
  | succ n ih =>
    obtain ⟨frame,index⟩ := slot
    have same : (⟨frame,index⟩ : Slot) = ⟨bootPud,BitVec.ofNat 9 n⟩ ↔
        frame = bootPud ∧ index.toNat = n := by
      rw [Slot.mk.injEq,← BitVec.toNat_inj (x := index),BitVec.toNat_ofNat,Nat.mod_eq_of_lt (by omega)]
    rw [fillBootPud,List.range_succ,List.foldl_append]
    rw [fillBootPud] at ih
    simp only [List.foldl_cons,List.foldl_nil,Function.update_apply,same,ih (by omega)]
    by_cases own : frame = bootPud
    · by_cases last : index.toNat = n
      · rw [if_pos ⟨own,last⟩,if_pos ⟨own,by omega⟩,last]
      · rw [if_neg fun both => last both.2]
        have below : index.toNat < n ↔ index.toNat < n + 1 := by omega
        simp only [below]
    · rw [if_neg fun both => own both.1,if_neg fun both => own both.1,if_neg fun both => own both.1]

section
variable (mem : Slot → Word) (current : Frame) {bootPgtbl : BootPgtbl}

theorem bootTables_entry0 :
    bootTables mem current bootPgtbl ⟨frameOf bootPgtbl.addr,0⟩ = bootPgtbl.entry0 :=
  Function.update_self _ _ _

variable (apart : frameOf bootPgtbl.addr ≠ frameOf bootPgtbl.entry0)
include apart

theorem bootTables_top {index : BitVec 9} (other : index ≠ 0) :
    bootTables mem current bootPgtbl ⟨frameOf bootPgtbl.addr,index⟩ = mem ⟨current,index⟩ := by
  have slot : (⟨frameOf bootPgtbl.addr,index⟩ : Slot) ≠ ⟨frameOf bootPgtbl.addr,0⟩ := by
    rintro ⟨⟩
    exact other rfl
  rw [bootTables,Function.update_of_ne slot,fillBootPud_apply _ _ (Nat.le_refl 512),
    if_neg fun both => apart both.1]
  exact if_pos rfl

theorem bootTables_pud (index : BitVec 9) :
    bootTables mem current bootPgtbl ⟨frameOf bootPgtbl.entry0,index⟩ = bootPudEntry index.toNat := by
  have slot : (⟨frameOf bootPgtbl.entry0,index⟩ : Slot) ≠ ⟨frameOf bootPgtbl.addr,0⟩ :=
    fun same => apart (congrArg Slot.frame same).symm
  rw [bootTables,Function.update_of_ne slot,fillBootPud_apply _ _ (Nat.le_refl 512)]
  exact if_pos ⟨rfl,index.isLt⟩

omit apart in
theorem bootTables_other {slot : Slot} (first : slot.frame ≠ frameOf bootPgtbl.addr)
    (second : slot.frame ≠ frameOf bootPgtbl.entry0) :
    bootTables mem current bootPgtbl slot = mem slot := by
  have apart : slot ≠ ⟨frameOf bootPgtbl.addr,0⟩ := fun same => first (congrArg Slot.frame same)
  rw [bootTables,Function.update_of_ne apart,fillBootPud_apply _ _ (Nat.le_refl 512),
    if_neg fun both => second both.1]
  exact if_neg first

end

/-! The walk. -/

section
variable {mem : Slot → Word} {current : Frame} {bootPgtbl : BootPgtbl} {addr : Word}
  (free : Free mem current (frameOf bootPgtbl.addr) (frameOf bootPgtbl.entry0))

include free in
/-- Behind the other entries there is what the host runs with. -/
theorem alike_host (other : index 3 addr ≠ 0) :
    Alike mem current (bootTables mem current bootPgtbl) (frameOf bootPgtbl.addr) addr where
  top := bootTables_top mem current free.apart other
  below level slot _ reads := by
    obtain ⟨first,second⟩ := free.unused addr level slot reads
    exact bootTables_other mem current first second

theorem low_index (low : Low addr) : index 3 addr = 0 ∧ (index 2 addr).toNat = addr.toNat / 2 ^ 30 := by
  have bound : addr.toNat < 2 ^ 39 := low
  have top : size 3 = 2 ^ 39 := rfl
  have next : size 2 = 2 ^ 30 := rfl
  rw [index,index,top,next,BitVec.toNat_ofNat]
  constructor
  · rw [Nat.div_eq_of_lt bound]
    rfl
  · omega

theorem high_index (canonical : Canonical addr) (high : ¬ Low addr) : index 3 addr ≠ 0 := by
  have size : size 3 = 2 ^ 39 := rfl
  have bound := addr.isLt
  rw [Low] at high
  rw [Canonical] at canonical
  have zero : (0 : BitVec 9).toNat = 0 := rfl
  rw [index,size,Ne,← BitVec.toNat_inj,BitVec.toNat_ofNat,zero]
  omega

include free in
/-- The entries of 1 GiB. -/
theorem low_mapsRw (present : bootPgtbl.entry0.getLsbD 0 = true)
    (writable : bootPgtbl.entry0.getLsbD 1 = true) (low : Low addr) :
    MapsRw (bootTables mem current bootPgtbl) (frameOf bootPgtbl.addr) addr addr.toNat := by
  have bound : addr.toNat < 2 ^ 39 := low
  obtain ⟨top,next⟩ := low_index low
  have root : bootTables mem current bootPgtbl ⟨frameOf bootPgtbl.addr,0⟩ = bootPgtbl.entry0 :=
    bootTables_entry0 mem current
  have first : Reads (bootTables mem current bootPgtbl) (frameOf bootPgtbl.addr) addr 3
      ⟨frameOf bootPgtbl.addr,0⟩ := by
    rw [← top]
    exact .root
  have second : Reads (bootTables mem current bootPgtbl) (frameOf bootPgtbl.addr) addr 2
      ⟨frameOf bootPgtbl.entry0,index 2 addr⟩ := by
    have entry := Reads.entry first (by rw [root]; exact present) (by simp [Large])
    rwa [root] at entry
  have huge := bootTables_pud mem current free.apart (index 2 addr)
  obtain ⟨present',writable',large⟩ := bootPudEntry_bits (index 2 addr).toNat
  rw [← huge] at present' writable' large
  have ends : Walk.Ends (bootTables mem current bootPgtbl) (frameOf bootPgtbl.addr) addr 2
      ⟨frameOf bootPgtbl.entry0,index 2 addr⟩ := ⟨second,.inr ⟨present',.inr rfl,large⟩⟩
  refine ⟨.inl (by omega),⟨2,_,ends,present',?_⟩,fun level slot reads => ?_⟩
  · have size : size 2 = 2 ^ 30 := rfl
    rw [target,huge,bootPudEntry_frame (index 2 addr).isLt,next,size]
    omega
  · have least := ends.least reads
    have most := reads.level_le
    obtain rfl | rfl : level = 2 ∨ level = 3 := by omega
    · rw [second.unique reads]
      exact writable'
    · rw [first.unique reads,root]
      exact writable

include free in
theorem mapsRw_iff (present : bootPgtbl.entry0.getLsbD 0 = true)
    (writable : bootPgtbl.entry0.getLsbD 1 = true) :
    MapsRw (bootTables mem current bootPgtbl) (frameOf bootPgtbl.addr) addr addr.toNat ↔
      Low addr ∨ MapsRw mem current addr addr.toNat := by
  by_cases low : Low addr
  · exact iff_of_true (low_mapsRw free present writable low) (.inl low)
  · rw [or_iff_right low]
    constructor
    · intro maps
      exact ((alike_host free (high_index maps.canonical low)).mapsRw_iff _).mpr maps
    · intro maps
      exact ((alike_host free (high_index maps.canonical low)).mapsRw_iff _).mp maps

end

/-! The container that a creation returns. -/

/-- Its top table is a page, and the first entry of that leads to a page. -/
def Linked (cntr : Cntr) : Prop := ∃ bootPgtbl bootPud,
  cntr.bootPgtbl = some ⟨pageToPhys bootPgtbl,pagePresent ||| pageRw ||| pageToPhys bootPud⟩

section
variable (env : Env) (cntr : Cntr)

theorem fillCpus_linked (linked : Linked cntr) : Yields Linked (fillCpus env cntr) := by
  refine yields_bind fun cpus => yields_ite (outFreeBootPgtbl_yields _ _) fun _ => ?_
  refine yields_bind fun bootParams => yields_ite (outFreeCpus_yields _ _) fun _ => ?_
  exact installFd_yields env _ linked

theorem takePcid_linked (linked : Linked cntr) : Yields Linked (takePcid env cntr) :=
  yields_bind fun _ => yields_ite (outFreeBootPgtbl_yields _ _) fun _ =>
    fillCpus_linked env _ linked

theorem createBootPgtbl_linked {env : Env} {bootPgtbl : BootPgtbl} {k k' : Kmod}
    (built : createBootPgtbl env k = .ret (some bootPgtbl) k') :
    Linked { cntr with bootPgtbl := some bootPgtbl } := by
  cases first : env.bootPgtbl with
  | none =>
    simp only [createBootPgtbl,first] at built
    cases built
  | some frame =>
    cases second : env.bootPud with
    | none =>
      simp only [createBootPgtbl,first,second] at built
      cases built
    | some bootPud =>
      simp only [createBootPgtbl,first,second] at built
      cases built
      exact ⟨frame,bootPud,rfl⟩

theorem fillBootPgtbl_linked : Yields Linked (fillBootPgtbl env cntr) := by
  intro k r made k' returns
  obtain ⟨bootPgtbl,k'',built,rest⟩ := Call.bind_ret returns
  cases bootPgtbl with
  | none => exact outPutInitrdHpage_yields _ _ k'' r made k' rest
  | some bootPgtbl =>
    rw [if_neg nofun] at rest
    exact takePcid_linked env _ (createBootPgtbl_linked cntr built) k'' r made k' rest

end

theorem create_linked {env : Env} {memory cntr : Cntr} {r : Int} {k k' : Kmod}
    (made : pkmDevIoctlCreateCntr env memory k = .ret (r,some cntr) k') : Linked cntr := by
  have yields : Yields Linked (pkmDevIoctlCreateCntr env memory) := by
    refine yields_ite (yields_none _) fun _ => ?_
    cases env.cntr with
    | none => exact yields_none _
    | some addr =>
      refine yields_bind fun _ => ?_
      refine pin_yields (outFreeCntr_yields _ _) (outPutMemHpage_yields _ _) ?_
      refine pin_yields (outPutMemHpage_yields _ _) (outPutMem2Hpage_yields _ _) ?_
      refine pin_yields (outPutMem2Hpage_yields _ _) (outPutInitrdHpage_yields _ _) ?_
      exact fillBootPgtbl_linked env _
  exact yields k r cntr k' made

/-- The tables map what the guest starts with to itself exactly if it lies among the first
512 GiB or the host's tables do so. -/
theorem firstStep_iff {env : Env} {memory cntr : Cntr} {r : Int} {k k' : Kmod}
    (made : pkmDevIoctlCreateCntr env memory k = .ret (r,some cntr) k') {bootPgtbl : BootPgtbl}
    {bootParams : BootParams} (table : cntr.bootPgtbl = some bootPgtbl)
    (_params : cntr.bootParams = some bootParams) {mem : Slot → Word} {current : Frame}
    (free : Free mem current (frameOf bootPgtbl.addr) (frameOf bootPgtbl.entry0)) :
    let ctx := initCtx cntr bootPgtbl bootParams
    (∀ range ∈ firstRanges cntr bootParams ctx,
      MapsSelf (bootTables mem current bootPgtbl) (frameOf ctx.cr3) range) ↔
    ∀ range ∈ firstRanges cntr bootParams ctx, Reached mem current range := by
  obtain ⟨page,pud,linked⟩ := create_linked made
  rw [linked] at table
  cases table
  obtain ⟨present,writable⟩ := entry0_bits pud
  refine forall_congr' fun range => forall_congr' fun _ => ?_
  exact forall_congr' fun i => forall_congr' fun _ => mapsRw_iff free present writable

/-- Tables of a host with its memory from one entry of the top table on. -/
def hostTables : Slot → Word := fun slot =>
  if slot = ⟨1,273⟩ then 0x7003
  else if slot.frame = 7 then bootPudEntry slot.index.toNat
  else 0

theorem hostTables_reads {vaddr : Word} {level : Nat} {slot : Slot}
    (reads : Reads hostTables 1 vaddr level slot) :
    level = 3 ∧ slot.frame = 1 ∨ level = 2 ∧ slot.frame = 7 := by
  induction reads with
  | root => exact .inl ⟨rfl,rfl⟩
  | @entry level upper above present small ih =>
    rcases ih with ⟨three,frame⟩ | ⟨two,frame⟩
    · have other : ¬ upper.frame = 7 := by
        rw [frame]
        decide
      refine .inr ⟨by omega,?_⟩
      rw [hostTables,if_neg other] at present ⊢
      split at present
      · rename_i same
        rw [if_pos same]
        change frameOf 0x7003 = 7
        decide
      · cases present
    · have other : upper ≠ ⟨1,273⟩ := by
        rintro rfl
        exact absurd frame (by decide)
      rw [hostTables,if_neg other,if_pos frame] at small
      exact absurd ⟨.inr two,(bootPudEntry_bits _).2.2⟩ small

theorem hostTables_free : Free hostTables 1 2 3 where
  apart := by decide
  unused vaddr level slot reads := by
    rcases hostTables_reads reads with ⟨_,frame⟩ | ⟨_,frame⟩
    · rw [frame]
      decide
    · rw [frame]
      decide

/-- The table in the pages 2 and 3. -/
def grantedPgtbl : BootPgtbl := ⟨pageToPhys 2,pagePresent ||| pageRw ||| pageToPhys 3⟩

theorem grantedPgtbl_free :
    Free hostTables 1 (frameOf grantedPgtbl.addr) (frameOf grantedPgtbl.entry0) := by
  rw [grantedPgtbl,frameOf_pageToPhys,frameOf_entry0]
  exact hostTables_free

/-- The first block at this frame, and the rest as before. -/
def placing (page : Frame) : Env := { grants with mem := ⟨1,page,pkmCntrMemNpages⟩ }

theorem placing_made (page : Frame) : ∃ (cntr : Cntr) (bootParams : BootParams) (k : Kmod),
    pkmDevIoctlCreateCntr (placing page) blankCntr ⟨[],pkmCntrMinPcid⟩ = .ret (3,some cntr) k ∧
      cntr.bootPgtbl = some grantedPgtbl ∧
      cntr.bootParams = some bootParams ∧ bootParams.addr = pageToPhys 5 ∧
      bootParams.cmdline = pageToPhys 6 ∧ cntr.memHpage = page ∧ cntr.mem2Hpage = 0x80000 ∧
      cntr.initrdHpage = 0xc0000 :=
  ⟨_,_,_,rfl,rfl,rfl,rfl,cmdline_page _,rfl,rfl,rfl⟩

theorem low_reached {mem : Slot → Word} {current : Frame} {start : Word} {n : Nat}
    (below : start.toNat + n ≤ 2 ^ 39) : Reached mem current (start,n) := by
  intro i inside
  left
  have small : i < n := inside
  dsimp only
  rw [Low,after,BitVec.toNat_add,BitVec.toNat_ofNat]
  omega

/-- All three blocks below 4 GiB. -/
theorem firstStep_low : ∃ (cntr : Cntr) (bootParams : BootParams) (k : Kmod),
    pkmDevIoctlCreateCntr (placing 0x40000) blankCntr ⟨[],pkmCntrMinPcid⟩ = .ret (3,some cntr) k ∧
    cntr.bootPgtbl = some grantedPgtbl ∧
    let ctx := initCtx cntr grantedPgtbl bootParams
    ∀ range ∈ firstRanges cntr bootParams ctx,
      MapsSelf (bootTables hostTables 1 grantedPgtbl) (frameOf ctx.cr3) range := by
  obtain ⟨cntr,bootParams,k,made,table,params,addr,cmdline,mem,mem2,initrd⟩ := placing_made 0x40000
  refine ⟨cntr,bootParams,k,made,table,(firstStep_iff made table params grantedPgtbl_free).mpr ?_⟩
  simp only [firstRanges,initCtx,addr,cmdline,mem,mem2,initrd,List.forall_mem_cons]
  refine ⟨low_reached ?_,low_reached ?_,low_reached ?_,low_reached ?_,low_reached ?_,low_reached ?_,
    nofun⟩
  all_goals decide

/-- The first block at 512 GiB. -/
theorem far_block_unmapped : ¬ ∀ (env : Env) (memory cntr : Cntr) (r : Int) (k k' : Kmod)
    (bootPgtbl : BootPgtbl) (bootParams : BootParams) (mem : Slot → Word) (current : Frame),
    pkmDevIoctlCreateCntr env memory k = .ret (r,some cntr) k' → cntr.bootPgtbl = some bootPgtbl →
    cntr.bootParams = some bootParams →
    Free mem current (frameOf bootPgtbl.addr) (frameOf bootPgtbl.entry0) →
    let ctx := initCtx cntr bootPgtbl bootParams
    ∀ range ∈ firstRanges cntr bootParams ctx,
      MapsSelf (bootTables mem current bootPgtbl) (frameOf ctx.cr3) range := by
  intro claim
  obtain ⟨cntr,bootParams,k,made,table,params,_,_,mem,_⟩ := placing_made 0x8000000
  have ranges := claim _ _ _ _ _ _ _ _ _ _ made table params grantedPgtbl_free
  have maps := ranges (pageToPhys cntr.memHpage + linuxBootOffset,1) List.mem_cons_self 0 Nat.one_pos
  have start : after (pageToPhys 0x8000000 + linuxBootOffset) 0 = 0x8001000080 := by decide
  rw [mem,start] at maps
  obtain ⟨present,writable⟩ := entry0_bits 3
  rcases (mapsRw_iff grantedPgtbl_free present writable).mp maps with low | ⟨_,⟨level,slot,ends,_⟩,_⟩
  · exact absurd low (by unfold Low; decide)
  · exact ends.not_stops ⟨2,_,.root,by decide⟩

end Cki.Create
