import Cki.Outcome
import Cki.PageTable

/-! The KSM's page-table monitor (pkernel-monitor.c): the page descriptors, the
walk to the entry that maps an address, and the entry calls which declare, remove
and update page-table pages. `MMULock` serialises the calls and each call is one
step here. A TLB flush has no effect on the modelled state. -/
namespace Cki.Monitor

/-- `other` is what a descriptor can hold besides the five named types. -/
inductive PageType where
  | unused | l1 | l2 | l3 | l4
  | other (bits : BitVec 32)
  deriving DecidableEq, Repr

def PageType.ofBits (bits : BitVec 32) : PageType :=
  if bits = 0 then .unused
  else if bits = 1 then .l1
  else if bits = 2 then .l2
  else if bits = 3 then .l3
  else if bits = 4 then .l4
  else .other bits

/-- `type >= PG_L1 && type <= PG_L4`. -/
def PageType.isPtp : PageType → Bool
  | .l1 | .l2 | .l3 | .l4 => true
  | .unused | .other _ => false

def pgV : Word := 0x001
def pgPS : Word := 0x080
def pgFrame : Word := 0x000ffffffffff000

/-- `value & PG_V` and `value & PG_PS` as the source tests them. -/
def Present (value : Word) : Prop := value &&& pgV ≠ 0
def Huge (value : Word) : Prop := value &&& pgPS ≠ 0

instance : DecidablePred Present := fun value => inferInstanceAs (Decidable (value &&& pgV ≠ 0))
instance : DecidablePred Huge := fun value => inferInstanceAs (Decidable (value &&& pgPS ≠ 0))

/-- `1UL << 12`, `1UL << 21` and `1UL << 30`. -/
def bytes4K : Word := 1 <<< 12
def bytes2M : Word := 1 <<< 21
def bytes1G : Word := 1 <<< 30

def memSize : Word := 0x0000000800000000
def pageSize : Word := 4096
def numPageDescEntries : Word := memSize / pageSize
def vmask : Word := 0x0000000000000ff8

/-- The declared length of `page_desc`. -/
def pageDescLength : Nat := 8388608

theorem numPageDescEntries_toNat : numPageDescEntries.toNat = pageDescLength := by decide

/-- The KSM's own variables are kept apart from `mem`, which holds every other word of
physical memory. What is said of a frame's contents over this state is said of a frame that
holds none of them; `Ram` is the memory in which they are words like any other. -/
structure State where
  mem : Slot → Word
  pageDesc : Fin pageDescLength → PageType
  mmuIsInitialized : BitVec 32
  cr3 : Word

/-- The 8-byte words of the KSM's own variables: a word of `page_desc` holds two
descriptors. -/
inductive Own where
  | pageDesc (pair : Fin 4194304)
  | mmuIsInitialized
  deriving DecidableEq, Repr

/-- What a page-table entry pointer can point at. -/
inductive Ptr where
  | entry (slot : Slot)
  | own (var : Own)
  deriving DecidableEq, Repr

/-- The parts of the guest kernel's layout the monitor uses: where the direct map
puts a physical address and where the KSM's own variables lie. -/
structure Layout where
  physToVirt : Word → Word
  ownAddr : Own → Word

abbrev Ksm := Call State

variable (layout : Layout)

def getVirtual (paddr : Word) : Slot := slotOf paddr

def getPhysicalAddr : Ptr → Word
  | .entry slot => slot.addr
  | .own var => layout.ownAddr var

def getPagetable (s : State) : Word := s.cr3 &&& 0x000ffffffffff000

def getPml4eVaddr (cr3 vaddr : Word) : Slot :=
  getVirtual (cr3 ||| ((vaddr >>> (39 - 3)) &&& vmask))

/-- `get_pdpteVaddr`, `get_pdeVaddr` and `get_pteVaddr`: the entry under `entry`
which the address selects with the bits from `shift` on. -/
def getSubEntry (entry vaddr : Word) (shift : Nat) : Slot :=
  let base := entry &&& 0x000ffffffffff000
  let offset := (vaddr >>> (shift - 3)) &&& vmask
  getVirtual (base ||| offset)

def getPdpteVaddr (pml4e vaddr : Word) : Slot := getSubEntry pml4e vaddr 30
def getPdeVaddr (pdpte vaddr : Word) : Slot := getSubEntry pdpte vaddr 21
def getPteVaddr (pde vaddr : Word) : Slot := getSubEntry pde vaddr 12

def getPgeVaddr (vaddr : Word) (s : State) : Option Slot :=
  let cr3 := getPagetable s
  if cr3 &&& 0xfffffffffffff000 = 0 then none
  else
    let pml4e := getPml4eVaddr cr3 vaddr
    if Present (s.mem pml4e) then
      let pdpte := getPdpteVaddr (s.mem pml4e) vaddr
      if Present (s.mem pdpte) then
        if Huge (s.mem pdpte) then some pdpte
        else
          let pde := getPdeVaddr (s.mem pdpte) vaddr
          if Present (s.mem pde) then
            if Huge (s.mem pde) then some pde
            else some (getPteVaddr (s.mem pde) vaddr)
          else none
      else none
    else none

def State.setMem (s : State) (slot : Slot) (value : Word) : State :=
  { s with mem := fun other => if other = slot then value else s.mem other }

def State.setType (s : State) (desc : Fin pageDescLength) (type : PageType) : State :=
  { s with pageDesc := fun other => if other = desc then type else s.pageDesc other }

/-- A store to one of the KSM's own words. -/
def State.setOwn (s : State) (var : Own) (value : Word) : State :=
  match var with
  | .pageDesc pair =>
    { s with pageDesc := fun desc =>
        if desc.val = 2 * pair.val then .ofBits (value.extractLsb' 0 32)
        else if desc.val = 2 * pair.val + 1 then .ofBits (value.extractLsb' 32 32)
        else s.pageDesc desc }
  | .mmuIsInitialized => { s with mmuIsInitialized := value.extractLsb' 0 32 }

def State.store (s : State) (pageEntry : Ptr) (value : Word) : State :=
  match pageEntry with
  | .entry slot => s.setMem slot value
  | .own var => s.setOwn var value

def pageEntryStore (pageEntry : Ptr) (newVal : Word) : Ksm Unit :=
  Call.modify (·.store pageEntry newVal)

def setMappingReadOnly (mapping : Word) : Word := mapping
def setMappingReadWrite (mapping : Word) : Word := mapping

def assertPageInRange (paddr size : Word) : Ksm Unit := do
  Call.stopIf (paddr + size < paddr)
  Call.stopIf (memSize ≤ paddr + size)

def getPageDescPtr (mapping : Word) : Option (Fin pageDescLength) :=
  let frameIndex := (mapping &&& pgFrame) / pageSize
  if h : numPageDescEntries ≤ frameIndex then none
  else some ⟨frameIndex.toNat,by
    have := numPageDescEntries_toNat
    simp only [BitVec.le_def,Nat.not_le] at h
    omega⟩

/-- `desc->type`, which faults on a null descriptor. -/
def typeAt (desc : Option (Fin pageDescLength)) : Ksm PageType := do
  let desc ← Call.follow desc
  Call.read (·.pageDesc desc)

/-- The page is copied onto itself and its mapping written back as it was. -/
def initDeclaredPage (frameAddr : Word) : Ksm Unit := do
  let pageEntry ← Call.read (getPgeVaddr (layout.physToVirt frameAddr))
  match pageEntry with
  | some pageEntry =>
    let mapping ← Call.read (·.mem pageEntry)
    pageEntryStore (.entry pageEntry) (setMappingReadOnly mapping)
  | none => pure ()

def loadCr3 (data : Word) : Ksm Unit :=
  Call.modify fun s => { s with cr3 := dropNoFlush data }

def svaMmLoadPgtable (cr3 : Word) : Ksm Unit := do
  let initialized ← Call.read (·.mmuIsInitialized)
  if initialized ≠ 0 then
    let type ← typeAt (getPageDescPtr (dropNoFlush cr3))
    Call.stopIf (type ≠ .l4)
  loadCr3 cr3

def svaDeclarePage (paddr : Word) (type : PageType) : Ksm Unit := do
  match getPageDescPtr paddr with
  | none => Call.stop
  | some pgDesc =>
    let old ← Call.read (·.pageDesc pgDesc)
    Call.stopIf (old ≠ .unused ∧ old ≠ type)
    Call.modify (·.setType pgDesc type)
    initDeclaredPage layout paddr

def svaRemovePage (paddr : Word) : Ksm Unit := do
  let pte ← Call.read (getPgeVaddr (layout.physToVirt paddr))
  let pgDesc ← Call.follow (getPageDescPtr paddr)
  Call.modify (·.setType pgDesc .unused)
  let pte ← Call.follow pte
  let mapping ← Call.read (·.mem pte)
  pageEntryStore (.entry pte) (setMappingReadWrite mapping)

/-- The `switch (ptePG->type)` of `pt_update_is_valid`. -/
def ptUpdateSwitch (level : PageType) (newVal : Word) : Ksm Bool := do
  let newPA := newVal &&& pgFrame
  match level with
  | .l1 =>
    assertPageInRange newPA bytes4K
    let newPG ← typeAt (getPageDescPtr newVal)
    Call.stopIf newPG.isPtp
  | .l2 =>
    if Huge newVal then
      assertPageInRange newPA bytes2M
    else
      let newPG ← typeAt (getPageDescPtr newVal)
      Call.stopIf (newPG ≠ .l1)
  | .l3 =>
    if Huge newVal then
      assertPageInRange newPA bytes1G
    else
      let newPG ← typeAt (getPageDescPtr newVal)
      Call.stopIf (newPG ≠ .l2)
  | .l4 =>
    Call.stopIf (Huge newVal)
    let newPG ← typeAt (getPageDescPtr newVal)
    Call.stopIf (newPG ≠ .l3)
  | _ => Call.stop
  return true

def ptUpdateIsValid (pageEntry : Ptr) (newVal : Word) : Ksm Bool := do
  let ptePAddr := getPhysicalAddr layout pageEntry
  if ¬ Present newVal then return true
  else
    match getPageDescPtr ptePAddr with
    | none => return true
    | some ptePG =>
      let level ← Call.read (·.pageDesc ptePG)
      ptUpdateSwitch level newVal

def updateMapping (pageEntryPtr : Ptr) (val : Word) : Ksm Unit := do
  let initialized ← Call.read (·.mmuIsInitialized)
  if initialized ≠ 0 then
    let valid ← ptUpdateIsValid layout pageEntryPtr val
    Call.stopIf (valid = false)
  pageEntryStore pageEntryPtr val

/-! The entry calls. -/

def pkmWriteCr3 (val : Word) : Ksm Unit := svaMmLoadPgtable val

def pkmAllocPte (pfn : Word) : Ksm Unit := svaDeclarePage layout (pfn <<< 12) .l1
def pkmAllocPmd (pfn : Word) : Ksm Unit := svaDeclarePage layout (pfn <<< 12) .l2
def pkmAllocPud (pfn : Word) : Ksm Unit := svaDeclarePage layout (pfn <<< 12) .l3
def pkmAllocPgd (pfn : Word) : Ksm Unit := svaDeclarePage layout (pfn <<< 12) .l4

def pkmReleasePte (pfn : Word) : Ksm Unit := svaRemovePage layout (pfn <<< 12)
def pkmReleasePmd (pfn : Word) : Ksm Unit := svaRemovePage layout (pfn <<< 12)
def pkmReleasePud (pfn : Word) : Ksm Unit := svaRemovePage layout (pfn <<< 12)
def pkmReleasePgd (pfn : Word) : Ksm Unit := svaRemovePage layout (pfn <<< 12)

def pkmSetPte (ptep : Ptr) (pte : Word) : Ksm Unit := updateMapping layout ptep pte
def pkmSetPmd (pmdp : Ptr) (pmd : Word) : Ksm Unit := updateMapping layout pmdp pmd
def pkmSetPud (pudp : Ptr) (pud : Word) : Ksm Unit := updateMapping layout pudp pud
def pkmSetP4d (p4dp : Ptr) (p4d : Word) : Ksm Unit := updateMapping layout p4dp p4d

inductive AllocKind where
  | pte | pmd | pud | pgd
  deriving DecidableEq, Repr

def AllocKind.level : AllocKind → PageType
  | .pte => .l1
  | .pmd => .l2
  | .pud => .l3
  | .pgd => .l4

def pkmAlloc : AllocKind → Word → Ksm Unit
  | .pte => pkmAllocPte layout
  | .pmd => pkmAllocPmd layout
  | .pud => pkmAllocPud layout
  | .pgd => pkmAllocPgd layout

def pkmRelease : AllocKind → Word → Ksm Unit
  | .pte => pkmReleasePte layout
  | .pmd => pkmReleasePmd layout
  | .pud => pkmReleasePud layout
  | .pgd => pkmReleasePgd layout

inductive SetKind where
  | pte | pmd | pud | p4d
  deriving DecidableEq, Repr

def pkmSet : SetKind → Ptr → Word → Ksm Unit
  | .pte => pkmSetPte layout
  | .pmd => pkmSetPmd layout
  | .pud => pkmSetPud layout
  | .p4d => pkmSetP4d layout

theorem pkmAlloc_eq (kind : AllocKind) (pfn : Word) :
    pkmAlloc layout kind pfn = svaDeclarePage layout (pfn <<< 12) kind.level := by
  cases kind <;> rfl

theorem pkmRelease_eq (kind : AllocKind) (pfn : Word) :
    pkmRelease layout kind pfn = svaRemovePage layout (pfn <<< 12) := by
  cases kind <;> rfl

theorem pkmSet_eq (kind : SetKind) (ptr : Ptr) (val : Word) :
    pkmSet layout kind ptr val = updateMapping layout ptr val := by
  cases kind <;> rfl

end Cki.Monitor
