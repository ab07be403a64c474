import Cki.Machine
import Mathlib.Data.Set.Insert

/-! The translation cache of one processor, whose entries carry process-context identifiers.
Of an entry it matters here under which tag it was cached and out of whose address space. No
entry is global, and CR4.PCIDE is set. -/
namespace Cki.Asm

universe u v

abbrev Tag := BitVec 12

abbrev Cache (Owner : Type v) := Set (Tag × Owner)

def tagOf (cr3 : Word) : Tag := cr3.setWidth 12

def cr4Pge : Word := 0x80

variable {Space : Type u} {Owner : Type v}

def flushTag (tag : Tag) (cache : Cache Owner) : Cache Owner := {entry ∈ cache | entry.1 ≠ tag}

theorem flushTag_subset (tag : Tag) (cache : Cache Owner) : flushTag tag cache ⊆ cache :=
  fun _ mem => mem.1

/-- Loading CR3 drops the entries under the new tag, unless bit 63 is set; a change of CR4.PGE
drops all. -/
def cacheAfter (m : Machine Space) : Instr → Cache Owner → Cache Owner
  | .writeCr3 src,cache =>
    if (m.gpr src).getLsbD 63 then cache else flushTag (tagOf (m.gpr src)) cache
  | .writeCr4 src,cache => if (m.cr4 ^^^ m.gpr src) &&& cr4Pge = 0 then cache else ∅
  | _,cache => cache

theorem cacheAfter_subset (m : Machine Space) (i : Instr) (cache : Cache Owner) :
    cacheAfter m i cache ⊆ cache := by
  cases i with
  | writeCr3 src =>
    rw [cacheAfter]
    split
    · exact subset_rfl
    · exact flushTag_subset _ cache
  | writeCr4 src =>
    rw [cacheAfter]
    split
    · exact subset_rfl
    · exact Set.empty_subset _
  | _ => exact subset_rfl

variable [DecidableEq Space]

/-- What straight-line code leaves of the entries. -/
def cacheRun (cpu : Cpu Space) : List Instr → Machine Space → Cache Owner → Cache Owner
  | [],_,cache => cache
  | i :: code,m,cache => cacheRun cpu code (exec cpu m i) (cacheAfter m i cache)

theorem cacheRun_append (cpu : Cpu Space) (first second : List Instr) (m : Machine Space)
    (cache : Cache Owner) : cacheRun cpu (first ++ second) m cache =
      cacheRun cpu second (run cpu first m) (cacheRun cpu first m cache) := by
  induction first generalizing m cache with
  | nil => rfl
  | cons i first ih => exact ih ..

theorem cacheRun_subset (cpu : Cpu Space) (code : List Instr) (m : Machine Space)
    (cache : Cache Owner) : cacheRun cpu code m cache ⊆ cache := by
  induction code generalizing m cache with
  | nil => exact subset_rfl
  | cons i code ih => exact (ih ..).trans (cacheAfter_subset m i cache)

theorem cacheRun_empty (cpu : Cpu Space) (code : List Instr) (m : Machine Space) :
    cacheRun cpu code m (∅ : Cache Owner) = ∅ := Set.subset_empty_iff.mp (cacheRun_subset ..)

/-- The instruction loads neither CR3 nor CR4. -/
def KeepsCache : Instr → Prop
  | .writeCr3 _ => False
  | .writeCr4 _ => False
  | _ => True

theorem cacheRun_keeps (cpu : Cpu Space) {code : List Instr} (keeps : ∀ i ∈ code, KeepsCache i)
    (m : Machine Space) (cache : Cache Owner) : cacheRun cpu code m cache = cache := by
  induction code generalizing m cache with
  | nil => rfl
  | cons i code ih =>
    rw [List.forall_mem_cons] at keeps
    have same : cacheAfter m i cache = cache := by
      cases i with
      | writeCr3 src => exact keeps.1.elim
      | writeCr4 src => exact keeps.1.elim
      | _ => rfl
    rw [cacheRun,same]
    exact ih keeps.2 ..

end Cki.Asm
