import Mathlib.Logic.Function.Basic
import Cki.Run

/-! Address spaces as tables over tables. A level is counted from the last one, which is 0, and
an entry leads to a table of the level below, to a page or nowhere. The operations build a
space entry by entry; each keeps the levels in order. -/
namespace Cki

universe u v

namespace AddressSpace

inductive Entry (Table : Type u) where
  | empty
  | table (child : Table)
  | leaf (page : Table)
  deriving DecidableEq, Repr

inductive Op (Table : Type u) (Index : Type v) where
  | declare (table : Table) (level : Nat)
  | remove (table : Table)
  | set (table : Table) (index : Index) (entry : Entry Table)
  | switch (root : Table)
  deriving DecidableEq, Repr

/-- An entry that a table of the level may hold. -/
def Fits {Table : Type u} (level : Table → Option Nat) (top : Nat) (table : Table) :
    Entry Table → Prop
  | .empty => True
  | .table child => ∃ below, level table = some (below + 1) ∧ level child = some below
  | .leaf _ => ∃ own, level table = some own ∧ own < top

end AddressSpace

/-- The tables that there are, with their levels, and one of the top level as the root. -/
structure AddressSpace (Table : Type u) (Index : Type v) (top : Nat) where
  level : Table → Option Nat
  entry : Table → Index → AddressSpace.Entry Table
  root : Table
  rooted : level root = some top
  fits : ∀ table index, AddressSpace.Fits level top table (entry table index)

namespace AddressSpace

variable {Table : Type u} {Index : Type v} {top : Nat}

section
variable (space : AddressSpace Table Index top) (index : Nat → Index)

/-- The table, with its level, whose entry decides on an address of these indices. -/
def find : Nat → Table → Option (Nat × Table)
  | 0,table => some (0,table)
  | level + 1,table =>
    match space.entry table (index (level + 1)) with
    | .empty => none
    | .leaf _ => some (level + 1,table)
    | .table child => find level child

def locate : Option (Nat × Table) := space.find index top space.root

def translate : Option (Nat × Table) := do
  let (level,table) ← space.locate index
  match space.entry table (index level) with
  | .leaf page => some (level,page)
  | .empty | .table _ => none

def Legal : Op Table Index → Prop
  | .declare table level => space.level table = none ∧ level ≤ top
  | .remove table => space.level table ≠ none ∧ table ≠ space.root ∧
      ∀ other index, space.entry other index ≠ .table table
  | .set table _ entry => space.level table ≠ none ∧ Fits space.level top table entry
  | .switch root => space.level root = some top

end

/-- An entry in place keeps its fit where the tables that it needs keep their levels. -/
theorem Fits.transfer {level level' : Table → Option Nat} {table : Table} {entry : Entry Table}
    (fits : Fits level top table entry) (own : level' table = level table)
    (child : ∀ other, entry = .table other → level' other = level other) :
    Fits level' top table entry := by
  cases entry with
  | empty => trivial
  | table other =>
    obtain ⟨below,here,there⟩ := fits
    exact ⟨below,own.trans here,(child other rfl).trans there⟩
  | leaf page =>
    obtain ⟨level,here,lower⟩ := fits
    exact ⟨level,own.trans here,lower⟩

/-- A table that is not there has no entries. -/
theorem entry_empty (space : AddressSpace Table Index top) {table : Table}
    (missing : space.level table = none) (index : Index) : space.entry table index = .empty := by
  have fits := space.fits table index
  cases found : space.entry table index with
  | empty => rfl
  | table child =>
    rw [found] at fits
    obtain ⟨below,here,_⟩ := fits
    rw [missing] at here
    cases here
  | leaf page =>
    rw [found] at fits
    obtain ⟨level,here,_⟩ := fits
    rw [missing] at here
    cases here

/-- The entry that decides on an address translates it or does not. -/
theorem translate_located {space : AddressSpace Table Index top} {index : Nat → Index} {own : Nat}
    {table : Table} (located : space.locate index = some (own,table)) (level : Nat) (page : Table) :
    space.translate index = some (level,page) ↔
      own = level ∧ space.entry table (index own) = .leaf page := by
  simp only [translate,located,Option.bind_eq_bind,Option.bind_some]
  cases space.entry table (index own) <;> simp

variable [DecidableEq Table] (space : AddressSpace Table Index top) {table : Table}

theorem declare_rooted (missing : space.level table = none) (level : Nat) :
    Function.update space.level table (some level) space.root = some top := by
  have apart : space.root ≠ table := by
    rintro rfl
    rw [space.rooted] at missing
    cases missing
  rw [Function.update_of_ne apart,space.rooted]

theorem declare_fits (missing : space.level table = none) (level : Nat) (other : Table)
    (index : Index) :
    Fits (Function.update space.level table (some level)) top other (space.entry other index) := by
  by_cases same : other = table
  · rw [same,space.entry_empty missing]
    trivial
  · refine (space.fits other index).transfer (Function.update_of_ne same _ _) ?_
    intro child found
    refine Function.update_of_ne ?_ _ _
    rintro rfl
    have fits := space.fits other index
    rw [found] at fits
    obtain ⟨below,_,there⟩ := fits
    rw [missing] at there
    cases there

theorem remove_rooted (apart : table ≠ space.root) :
    Function.update space.level table none space.root = some top := by
  rw [Function.update_of_ne apart.symm,space.rooted]

theorem remove_fits (free : ∀ other index, space.entry other index ≠ .table table) (other : Table)
    (index : Index) : Fits (Function.update space.level table none) top other
      (Function.update space.entry table (fun _ => .empty) other index) := by
  by_cases same : other = table
  · rw [same,Function.update_self]
    trivial
  · rw [Function.update_of_ne same]
    refine (space.fits other index).transfer (Function.update_of_ne same _ _) ?_
    intro child found
    refine Function.update_of_ne ?_ _ _
    rintro rfl
    exact free other index found

variable [DecidableEq Index]

theorem set_fits {entry : Entry Table} (fits : Fits space.level top table entry) (index : Index)
    (other : Table) (place : Index) : Fits space.level top other
      (Function.update space.entry table (Function.update (space.entry table) index entry) other
        place) := by
  by_cases same : other = table
  · subst same
    rw [Function.update_self]
    by_cases here : place = index
    · rwa [here,Function.update_self]
    · rw [Function.update_of_ne here]
      exact space.fits other place
  · rw [Function.update_of_ne same]
    exact space.fits other place

def perform : (op : Op Table Index) → space.Legal op → AddressSpace Table Index top
  | .declare table level,legal => {
      level := Function.update space.level table (some level)
      entry := space.entry
      root := space.root
      rooted := declare_rooted space legal.1 level
      fits := declare_fits space legal.1 level }
  | .remove table,legal => {
      level := Function.update space.level table none
      entry := Function.update space.entry table fun _ => .empty
      root := space.root
      rooted := remove_rooted space legal.2.1
      fits := remove_fits space legal.2.2 }
  | .set table index entry,legal => {
      level := space.level
      entry := Function.update space.entry table (Function.update (space.entry table) index entry)
      root := space.root
      rooted := space.rooted
      fits := set_fits space legal.2 index }
  | .switch root,legal => { space with
      root := root
      rooted := legal }

def Step (space : AddressSpace Table Index top) (op : Op Table Index) (space' : AddressSpace Table Index top) :
    Prop :=
  ∃ legal : space.Legal op, space' = space.perform op legal

end AddressSpace
end Cki
