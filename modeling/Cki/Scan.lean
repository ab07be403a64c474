import Mathlib.Data.List.TakeWhile
import Cki.Bytes

/-! `scanf` of glibc on bytes, for formats of literal characters, white space and `%lx`, and inputs
in the plain form that a format describes. -/
namespace Cki.Scan

open Bytes

inductive Directive where
  | literal (char : Byte)
  | space
  | hex
  deriving DecidableEq, Repr

inductive Ended where
  | complete
  | inputFailure
  | matchingFailure
  deriving DecidableEq, Repr

/-- The values that were converted, and what has not been read. -/
structure Scanned where
  values : List Word
  rest : List Byte
  ended : Ended
  deriving DecidableEq, Repr

def isSpace (char : Byte) : Bool := char = 0x20 || (0x09 ≤ char && char ≤ 0x0d)

def hexDigit (char : Byte) : Option Nat :=
  if 0x30 ≤ char ∧ char ≤ 0x39 then some (char.toNat - 0x30)
  else if 0x41 ≤ char ∧ char ≤ 0x46 then some (char.toNat - 0x37)
  else if 0x61 ≤ char ∧ char ≤ 0x66 then some (char.toNat - 0x57)
  else none

def isHexDigit (char : Byte) : Bool := (hexDigit char).isSome

def hexValue (digits : List Byte) : Nat :=
  digits.foldl (fun value char => 16 * value + (hexDigit char).getD 0) 0

/-- A sign, and whether it is a minus. -/
def takeSign (input : List Byte) : Bool × List Byte :=
  match input with
  | char :: rest =>
    if char = 0x2d then (true,rest) else if char = 0x2b then (false,rest) else (false,input)
  | [] => (false,[])

/-- The prefix 0x. -/
def dropPrefix (input : List Byte) : List Byte :=
  match input with
  | zero :: x :: rest => if zero = 0x30 ∧ (x = 0x78 ∨ x = 0x58) then rest else input
  | _ => input

/-- `strtoul`: a value that does not fit becomes the largest one. -/
def strtoul (negative : Bool) (value : Nat) : Word :=
  if 2 ^ 64 ≤ value then -1 else if negative then -BitVec.ofNat 64 value else BitVec.ofNat 64 value

def scan : List Directive → List Byte → Scanned
  | [], input => ⟨[],input,.complete⟩
  | .literal _ :: _, [] => ⟨[],[],.inputFailure⟩
  | .literal char :: format, next :: rest =>
    if next = char then scan format rest else ⟨[],next :: rest,.matchingFailure⟩
  | .space :: format, input => scan format (input.dropWhile isSpace)
  | .hex :: format, input =>
    let input := input.dropWhile isSpace
    if input = [] then ⟨[],[],.inputFailure⟩
    else
      let signed := takeSign input
      let number := dropPrefix signed.2
      let digits := number.takeWhile isHexDigit
      let rest := number.dropWhile isHexDigit
      -- a 0x with no digit behind it is converted to 0
      if digits = [] ∧ number = signed.2 then ⟨[],rest,.matchingFailure⟩
      else
        let scanned := scan format rest
        { scanned with values := strtoul signed.1 (hexValue digits) :: scanned.values }

example : scan [.hex,.space,.hex] [0x30,0x78,0x20,0x35] = ⟨[0,5],[],.complete⟩ := by decide

/-- The input ends before anything is converted. -/
def Scanned.Eof (scanned : Scanned) : Prop := scanned.ended = .inputFailure ∧ scanned.values = []

instance (scanned : Scanned) : Decidable scanned.Eof := inferInstanceAs (Decidable (_ ∧ _))

/-! Plain inputs. -/

def Follows (allowed : Byte → Prop) (input : List Byte) : Prop := ∀ char, input.head? = some char → allowed char

/-- The input has these values where the format has numbers, each of them by its digits only and
with white space or the end behind it. -/
inductive Plain : List Directive → List Byte → List Word → List Byte → Prop where
  | nil (rest : List Byte) : Plain [] rest [] rest
  | literal {format : List Directive} {input : List Byte} {values : List Word} {rest : List Byte}
      (char : Byte) : Plain format input values rest →
      Plain (.literal char :: format) (char :: input) values rest
  | space {format : List Directive} {input : List Byte} {values : List Word} {rest : List Byte}
      (blanks : List Byte) : (∀ char ∈ blanks, isSpace char = true) →
      Follows (isSpace · = false) input → Plain format input values rest →
      Plain (.space :: format) (blanks ++ input) values rest
  | hex {format : List Directive} {input : List Byte} {values : List Word} {rest : List Byte}
      (digits : List Byte) : digits ≠ [] → (∀ char ∈ digits, isHexDigit char = true) →
      hexValue digits < 2 ^ 64 → Follows (isSpace · = true) input → Plain format input values rest →
      Plain (.hex :: format) (digits ++ input) (BitVec.ofNat 64 (hexValue digits) :: values) rest

theorem takeWhile_stops {p : Byte → Bool} {input : List Byte} (stops : Follows (p · = false) input) :
    input.takeWhile p = [] ∧ input.dropWhile p = input := by
  cases input with
  | nil => exact ⟨rfl,rfl⟩
  | cons char rest =>
    have stop := stops char rfl
    simp only [List.takeWhile_cons,List.dropWhile_cons,stop]
    exact ⟨rfl,rfl⟩

/-- The longest prefix of a kind, where it is followed by something else. -/
theorem span_exact {p : Byte → Bool} {body input : List Byte} (inside : ∀ char ∈ body, p char = true)
    (stops : Follows (p · = false) input) :
    (body ++ input).takeWhile p = body ∧ (body ++ input).dropWhile p = input := by
  obtain ⟨none,all⟩ := takeWhile_stops stops
  rw [List.takeWhile_append_of_pos inside,List.dropWhile_append_of_pos inside,none,all,
    List.append_nil]
  exact ⟨rfl,rfl⟩

theorem hexDigit_bounds {char : Byte} (digit : isHexDigit char = true) :
    isSpace char = false ∧ char ≠ 0x2d ∧ char ≠ 0x2b ∧ char ≠ 0x78 ∧ char ≠ 0x58 := by
  have all : ∀ char : Byte, isHexDigit char = true →
      isSpace char = false ∧ char ≠ 0x2d ∧ char ≠ 0x2b ∧ char ≠ 0x78 ∧ char ≠ 0x58 := by decide
  exact all char digit

theorem isSpace_bounds {char : Byte} (blank : isSpace char = true) :
    isHexDigit char = false ∧ char ≠ 0x78 ∧ char ≠ 0x58 := by
  have all : ∀ char : Byte, isSpace char = true →
      isHexDigit char = false ∧ char ≠ 0x78 ∧ char ≠ 0x58 := by decide
  exact all char blank

section
variable {digits : List Byte}

/-- Digits begin a number: there is no white space and no sign before them. -/
theorem digits_start (input : List Byte) (some : digits ≠ [])
    (hex : ∀ char ∈ digits, isHexDigit char = true) : (digits ++ input).dropWhile isSpace = digits ++ input ∧
    takeSign (digits ++ input) = (false,digits ++ input) := by
  cases digits with
  | nil => exact absurd rfl some
  | cons char digits =>
    obtain ⟨notBlank,notMinus,notPlus,_⟩ := hexDigit_bounds (hex char List.mem_cons_self)
    rw [List.cons_append,takeSign,if_neg notMinus,if_neg notPlus]
    exact ⟨(takeWhile_stops (by rintro _ ⟨⟩; exact notBlank)).2,rfl⟩

variable {input : List Byte} (some : digits ≠ []) (hex : ∀ char ∈ digits, isHexDigit char = true)
  (follows : Follows (isSpace · = true) input)
include some hex follows

theorem digits_dropPrefix : dropPrefix (digits ++ input) = digits ++ input := by
  rcases digits with _ | ⟨zero,_ | ⟨x,digits⟩⟩
  · exact absurd rfl some
  · cases input with
    | nil => rfl
    | cons x input =>
      obtain ⟨_,small,capital⟩ := isSpace_bounds (follows x rfl)
      exact if_neg fun both => both.2.elim small capital
  · obtain ⟨_,_,_,small,capital⟩ := hexDigit_bounds (hex x (by simp))
    exact if_neg fun both => both.2.elim small capital

/-- A plain number is converted to its value, and no more is read. -/
theorem scan_digits (bound : hexValue digits < 2 ^ 64) (format : List Directive) :
    scan (.hex :: format) (digits ++ input) =
      { scan format input with values := BitVec.ofNat 64 (hexValue digits) :: (scan format input).values } := by
  obtain ⟨start,unsigned⟩ := digits_start input some hex
  have stops : Follows (isHexDigit · = false) input := fun char first =>
    (isSpace_bounds (follows char first)).1
  obtain ⟨taken,left⟩ := span_exact hex stops
  have nonempty : digits ++ input ≠ [] := fun none => some (List.append_eq_nil_iff.mp none).1
  rw [scan,start]
  simp only [unsigned,digits_dropPrefix some hex follows,taken,left,if_neg nonempty,and_true,if_neg some]
  rw [strtoul,if_neg (Nat.not_le.mpr bound)]
  rfl

end

/-- The scan of a plain input has its values, and leaves what comes behind it. -/
theorem Plain.scan {format : List Directive} {input : List Byte} {values : List Word}
    {rest : List Byte} (plain : Plain format input values rest) :
    scan format input = ⟨values,rest,.complete⟩ := by
  induction plain with
  | nil rest => rfl
  | literal char _ ih =>
    rw [Scan.scan,if_pos rfl]
    exact ih
  | space blanks blank stops _ ih =>
    rw [Scan.scan,(span_exact blank stops).2]
    exact ih
  | hex digits some hex bound follows _ ih => rw [scan_digits some hex follows bound,ih]

end Cki.Scan
