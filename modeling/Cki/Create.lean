import Cki.Ledger
import Cki.Outcome
import Cki.VirtioRun

/-! `pkm_dev_ioctl_create_cntr`: a container is built resource by resource, and its error
path is a chain of labels each of which falls through to the next. What the kernel answers
to the host module is given; each acquisition and release is logged. -/
namespace Cki.Create

open Ledger Virtio

/-- A page by its physical address, a huge page by its frame, an object of `kmalloc` by its
address, a file descriptor. -/
inductive Resource where
  | page (addr : Word)
  | hpage (frame : Frame)
  | kmem (addr : Word)
  | fd (fd : Int)
  | eventfd (ctx : Eventfd)
  deriving DecidableEq, Repr

/-- The log and `next_cntr_pcid`. -/
structure Kmod where
  log : List (Action Resource)
  nextCntrPcid : BitVec 32

def acquire (resource : Resource) : Call Kmod Unit :=
  Call.modify fun k => { k with log := k.log ++ [.acquire resource] }

def release (resource : Resource) : Call Kmod Unit :=
  Call.modify fun k => { k with log := k.log ++ [.release resource] }

/-! The data. -/

def e820TypeRam : BitVec 32 := 1
def e820TypeReserved : BitVec 32 := 2
def pkmCntrMemSize : Word := 1 <<< 30
def pkmCntrMemNpages : Nat := 1 <<< 18
def pkmCntrInitrdNpages : Nat := 1 <<< 18
def pkmCntrMinPcid : BitVec 32 := 10
def pkmCntrMaxPcid : Word := 100
def pagePresent : Word := 1
def pageRw : Word := 2

def enomem : Int := 12
def einval : Int := 22
def eoverflow : Int := 75

structure E820Entry where
  addr : Word
  size : Word
  type : BitVec 32
  deriving DecidableEq, Repr

/-- The page of boot parameters, by its address and what is written to it. -/
structure BootParams where
  addr : Word
  cmdLinePtr : BitVec 32
  extCmdLinePtr : BitVec 32
  e820Table : List E820Entry
  pcid : Word
  nCpus : Word
  deriving DecidableEq, Repr

/-- The boot page table, by its address and its first entry. -/
structure BootPgtbl where
  addr : Word
  entry0 : Word
  deriving DecidableEq, Repr

structure Cntr where
  addr : Word
  nCpus : Word
  pcid : Word
  memHpage : Frame
  mem2Hpage : Frame
  initrdHpage : Frame
  bootPgtbl : Option BootPgtbl
  bootParams : Option BootParams
  cpus : Option Word
  virtioNet : VirtioNet

def pageToPhys (page : Frame) : Word := page.setWidth 64 <<< 12

/-- What `get_user_pages_fast` answers for one page, and `compound_nr` of that page. -/
structure Pin where
  result : Int
  page : Frame
  compoundNr : Nat
  deriving DecidableEq, Repr

/-- What the kernel answers to the calls, in the order of the calls. `file` is the error of
`anon_inode_getfile`, if there is one. -/
structure Env where
  notCopied : Nat
  cntr : Option Word
  numOnlineCpus : Word
  mem : Pin
  mem2 : Pin
  initrd : Pin
  bootPgtbl : Option Frame
  bootPud : Option Frame
  cpus : Option Word
  bootParams : Option Frame
  cmdline : Option Frame
  fd : Int
  file : Option Int
  deriving DecidableEq, Repr

variable (env : Env)

/-- The page is pinned, and is the head of a huge page. -/
def Pin.Accepted (pin : Pin) (npages : Nat) : Prop := pin.result = 1 ∧ pin.compoundNr = npages

/-- The call gets as far as the PCID. -/
structure Env.ReachesPcid : Prop where
  copied : env.notCopied = 0
  cntr : env.cntr ≠ none
  mem : env.mem.Accepted pkmCntrMemNpages
  mem2 : env.mem2.Accepted pkmCntrMemNpages
  initrd : env.initrd.Accepted pkmCntrInitrdNpages
  bootPgtbl : env.bootPgtbl ≠ none
  bootPud : env.bootPud ≠ none

/-- The call gets as far as the boot parameters. -/
structure Env.ReachesBootParams (nextCntrPcid : BitVec 32) : Prop extends env.ReachesPcid where
  pcid : nextCntrPcid.setWidth 64 ≤ pkmCntrMaxPcid
  cpus : env.cpus ≠ none

/-- The kernel grants what comes after the PCID. -/
structure Env.Finishes : Prop where
  cpus : env.cpus ≠ none
  bootParams : env.bootParams ≠ none
  cmdline : env.cmdline ≠ none
  fd : 0 ≤ env.fd
  file : env.file = none

/-! The parts. -/

/-- `__get_free_page` -/
def getFreePage (page : Option Frame) : Call Kmod (Option Word) :=
  match page with
  | none => pure none
  | some frame => do
    acquire (.page (pageToPhys frame))
    return some (pageToPhys frame)

def createBootPgtbl : Call Kmod (Option BootPgtbl) := do
  match ← getFreePage env.bootPgtbl with
  | none => return none
  | some bootPgtbl =>
    match ← getFreePage env.bootPud with
    | none =>
      release (.page bootPgtbl)
      return none
    | some bootPud => return some ⟨bootPgtbl,pagePresent ||| pageRw ||| bootPud⟩

/-- A null pointer is followed like any other. -/
def freeBootPgtbl (bootPgtbl : Option BootPgtbl) : Call Kmod Unit := do
  let bootPgtbl ← Call.follow bootPgtbl
  release (.page (bootPgtbl.entry0 &&& ~~~(pagePresent ||| pageRw)))
  release (.page bootPgtbl.addr)

def e820Table (cntr : Cntr) : List E820Entry :=
  [⟨0,0x1000,e820TypeReserved⟩,⟨pageToPhys cntr.memHpage,pkmCntrMemSize,e820TypeRam⟩,
    ⟨pageToPhys cntr.mem2Hpage,pkmCntrMemSize,e820TypeRam⟩]

def createBootParams (cntr : Cntr) : Call Kmod (Option BootParams) := do
  match ← getFreePage env.bootParams with
  | none => return none
  | some bootParams =>
    match ← getFreePage env.cmdline with
    | none =>
      release (.page bootParams)
      return none
    | some cmdline =>
      return some
        { addr := bootParams
          cmdLinePtr := cmdline.setWidth 32
          extCmdLinePtr := (cmdline >>> 32).setWidth 32
          e820Table := e820Table cntr
          pcid := cntr.pcid
          nCpus := cntr.nCpus }

def freeBootParams (bootParams : Option BootParams) : Call Kmod Unit := do
  let bootParams ← Call.follow bootParams
  release (.page (bootParams.extCmdLinePtr.setWidth 64 <<< 32 + bootParams.cmdLinePtr.setWidth 64))
  release (.page bootParams.addr)

def createCpus : Call Kmod (Option Word) :=
  match env.cpus with
  | none => pure none
  | some cpus => do
    acquire (.kmem cpus)
    return some cpus

theorem createCpus_none {env : Env} (missing : env.cpus = none) (k : Kmod) :
    createCpus env k = .ret none k := by
  rw [createCpus,missing]
  rfl

theorem createCpus_some {env : Env} {cpus : Word} (granted : env.cpus = some cpus) (k : Kmod) :
    createCpus env k = .ret (some cpus) { k with log := k.log ++ [.acquire (.kmem cpus)] } := by
  rw [createCpus,granted]
  rfl

/-- `kfree` of a null pointer does nothing. -/
def freeCpus (cpus : Option Word) : Call Kmod Unit :=
  match cpus with
  | none => pure ()
  | some cpus => release (.kmem cpus)

/-- `__sync_fetch_and_add(&next_cntr_pcid, 1)` -/
def nextPcid : Call Kmod (BitVec 32) := fun k =>
  .ret k.nextCntrPcid { k with nextCntrPcid := k.nextCntrPcid + 1 }

theorem nextPcid_apply (k : Kmod) :
    nextPcid k = .ret k.nextCntrPcid { k with nextCntrPcid := k.nextCntrPcid + 1 } := rfl

/-! The labels. The result is what the call returns and the container it leaves, if any. -/

abbrev Result := Int × Option Cntr

def outFreeCntr (cntr : Cntr) (r : Int) : Call Kmod Result := do
  release (.kmem cntr.addr)
  return (r,none)

def outPutMemHpage (cntr : Cntr) (r : Int) : Call Kmod Result := do
  release (.hpage cntr.memHpage)
  outFreeCntr cntr r

def outPutMem2Hpage (cntr : Cntr) (r : Int) : Call Kmod Result := do
  release (.hpage cntr.mem2Hpage)
  outPutMemHpage cntr r

def outPutInitrdHpage (cntr : Cntr) (r : Int) : Call Kmod Result := do
  release (.hpage cntr.initrdHpage)
  outPutMem2Hpage cntr r

def outFreeBootPgtbl (cntr : Cntr) (r : Int) : Call Kmod Result := do
  freeBootPgtbl cntr.bootPgtbl
  outPutInitrdHpage cntr r

def outFreeBootParams (cntr : Cntr) (r : Int) : Call Kmod Result := do
  freeBootParams cntr.bootParams
  outFreeBootPgtbl cntr r

def outFreeCpus (cntr : Cntr) (r : Int) : Call Kmod Result := do
  freeCpus cntr.cpus
  outFreeBootParams cntr r

def outPutFd (cntr : Cntr) (fd r : Int) : Call Kmod Result := do
  release (.fd fd)
  outFreeCpus cntr r

/-! The call, in pieces each of which ends with the next. -/

/-- From `get_unused_fd_flags` on. -/
def installFd (cntr : Cntr) : Call Kmod Result :=
  if env.fd < 0 then outFreeBootParams cntr env.fd
  else do
    acquire (.fd env.fd)
    match env.file with
    | some error => outPutFd cntr env.fd error
    | none => return (env.fd,some cntr)

/-- From `create_boot_params` on. -/
def fillBootParams (cntr : Cntr) : Call Kmod Result := do
  let bootParams ← createBootParams env cntr
  let cntr := { cntr with bootParams := bootParams }
  if bootParams = none then outFreeCpus cntr (-enomem)
  else installFd env { cntr with virtioNet := initVirtioNet cntr.virtioNet }

/-- From `create_cpus` on. -/
def fillCpus (cntr : Cntr) : Call Kmod Result := do
  let cpus ← createCpus env
  let cntr := { cntr with cpus := cpus }
  if cpus = none then outFreeBootPgtbl cntr (-enomem) else fillBootParams env cntr

/-- From the increment of `next_cntr_pcid` on. -/
def takePcid (cntr : Cntr) : Call Kmod Result := do
  let pcid ← nextPcid
  let cntr := { cntr with pcid := pcid.setWidth 64 }
  if cntr.pcid > pkmCntrMaxPcid then outFreeBootPgtbl cntr (-eoverflow) else fillCpus env cntr

/-- From `create_boot_pgtbl` on. -/
def fillBootPgtbl (cntr : Cntr) : Call Kmod Result := do
  let bootPgtbl ← createBootPgtbl env
  let cntr := { cntr with bootPgtbl := bootPgtbl }
  if bootPgtbl = none then outPutInitrdHpage cntr (-enomem) else takePcid env cntr

/-- From the third `get_user_pages_fast` on. -/
def pinInitrd (cntr : Cntr) : Call Kmod Result :=
  if env.initrd.result ≠ 1 then outPutMem2Hpage cntr env.initrd.result
  else do
    acquire (.hpage env.initrd.page)
    let cntr := { cntr with initrdHpage := env.initrd.page }
    if env.initrd.compoundNr ≠ pkmCntrInitrdNpages then outPutInitrdHpage cntr (-einval)
    else fillBootPgtbl env cntr

/-- From the second `get_user_pages_fast` on. -/
def pinMem2 (cntr : Cntr) : Call Kmod Result :=
  if env.mem2.result ≠ 1 then outPutMemHpage cntr env.mem2.result
  else do
    acquire (.hpage env.mem2.page)
    let cntr := { cntr with mem2Hpage := env.mem2.page }
    if env.mem2.compoundNr ≠ pkmCntrMemNpages then outPutMem2Hpage cntr (-einval)
    else pinInitrd env cntr

/-- From the first `get_user_pages_fast` on. -/
def pinMem (cntr : Cntr) : Call Kmod Result :=
  if env.mem.result ≠ 1 then outFreeCntr cntr env.mem.result
  else do
    acquire (.hpage env.mem.page)
    let cntr := { cntr with memHpage := env.mem.page }
    if env.mem.compoundNr ≠ pkmCntrMemNpages then outPutMemHpage cntr (-einval)
    else pinMem2 env cntr

/-- The fields keep what the memory from `kmalloc` held until they are written. -/
def pkmDevIoctlCreateCntr (memory : Cntr) : Call Kmod Result :=
  if env.notCopied ≠ 0 then pure (env.notCopied,none)
  else
    match env.cntr with
    | none => pure (-enomem,none)
    | some addr => do
      acquire (.kmem addr)
      pinMem env { memory with addr := addr, nCpus := env.numOnlineCpus }

/-- A page is not pinned, or is pinned with a wrong number of pages, or is accepted. -/
theorem pin_cases (pin : Pin) (npages : Nat) (unpinned wrong next : Call Kmod Result) (k : Kmod) :
    let pinned : Kmod := { k with log := k.log ++ [.acquire (.hpage pin.page)] }
    let outcome := (if pin.result ≠ 1 then unpinned
      else do
        acquire (.hpage pin.page)
        if pin.compoundNr ≠ npages then wrong else next) k
    (pin.result ≠ 1 ∧ outcome = unpinned k) ∨
    (pin.result = 1 ∧ pin.compoundNr ≠ npages ∧ outcome = wrong pinned) ∨
    (pin.Accepted npages ∧ outcome = next pinned) := by
  intro pinned outcome
  by_cases result : pin.result ≠ 1
  · exact .inl ⟨result,congrFun (if_pos result) k⟩
  · have one := Classical.not_not.mp result
    have goesOn : outcome = (if pin.compoundNr ≠ npages then wrong else next) pinned :=
      congrFun (if_neg result) k
    by_cases number : pin.compoundNr ≠ npages
    · rw [if_pos number] at goesOn
      exact .inr (.inl ⟨one,number,goesOn⟩)
    · rw [if_neg number] at goesOn
      exact .inr (.inr ⟨⟨one,Classical.not_not.mp number⟩,goesOn⟩)

/-- A kernel that grants everything. -/
def grants : Env where
  notCopied := 0
  cntr := some 0x1000
  numOnlineCpus := 4
  mem := ⟨1,0x40000,pkmCntrMemNpages⟩
  mem2 := ⟨1,0x80000,pkmCntrMemNpages⟩
  initrd := ⟨1,0xc0000,pkmCntrInitrdNpages⟩
  bootPgtbl := some 2
  bootPud := some 3
  cpus := some 0x4000
  bootParams := some 5
  cmdline := some 6
  fd := 3
  file := none

/-- Zeroed memory for a container. -/
def blankCntr : Cntr := ⟨0,0,0,0,0,0,none,none,none,blankDevice⟩

/-! The end of a container. -/

def putEventfd (ctx : Option Eventfd) : Call Kmod Unit :=
  match ctx with
  | none => pure ()
  | some ctx => release (.eventfd ctx)

def deinitVirtioNet (virtio : VirtioNet) : Call Kmod Unit := do
  putEventfd (virtio.queues ⟨0,by decide⟩).kick
  putEventfd (virtio.queues ⟨0,by decide⟩).call
  putEventfd (virtio.queues ⟨1,by decide⟩).kick
  putEventfd (virtio.queues ⟨1,by decide⟩).call

def pkmCntrRelease (cntr : Cntr) : Call Kmod Unit := do
  release (.hpage cntr.memHpage)
  release (.hpage cntr.mem2Hpage)
  release (.hpage cntr.initrdHpage)
  freeBootPgtbl cntr.bootPgtbl
  freeBootParams cntr.bootParams
  freeCpus cntr.cpus
  deinitVirtioNet cntr.virtioNet
  release (.kmem cntr.addr)

end Cki.Create
