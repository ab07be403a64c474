import Mathlib.Algebra.Notation.Defs
import Mathlib.Data.List.TakeWhile
import Mathlib.Data.Nat.Notation

/-! C strings in buffers of fixed size: what is read back up to the NUL after `strcpy`,
`snprintf` and `strlcat`, and which bytes these leave alone. -/
namespace Cki.CString

universe u

variable {β : Type u} {buffer s : List β} {offset : Nat}

/-- Writes over what lies from the offset on. -/
def blit (buffer : List β) (offset : Nat) (bytes : List β) : List β :=
  buffer.take offset ++ bytes ++ buffer.drop (offset + bytes.length)

theorem blit_length (fits : offset + s.length ≤ buffer.length) :
    (blit buffer offset s).length = buffer.length := by
  simp only [blit,List.length_append,List.length_take,List.length_drop]
  omega

theorem blit_take (fits : offset ≤ buffer.length) :
    (blit buffer offset s).take offset = buffer.take offset := by
  rw [blit,List.append_assoc,List.take_append_of_le_length (by rw [List.length_take]; omega),
    List.take_take,Nat.min_self]

theorem blit_drop (fits : offset ≤ buffer.length) :
    (blit buffer offset s).drop offset = s ++ buffer.drop (offset + s.length) := by
  rw [blit,List.append_assoc]
  exact List.drop_left' (by rw [List.length_take]; omega)

theorem blit_behind (fits : offset + s.length ≤ buffer.length) {n : Nat}
    (behind : offset + s.length ≤ n) : (blit buffer offset s).drop n = buffer.drop n := by
  have start : n = offset + (s.length + (n - (offset + s.length))) := by omega
  rw [start,← List.drop_drop,blit_drop (by omega),List.drop_append,List.drop_drop,
    List.drop_eq_nil_of_le (by omega),List.nil_append]
  congr 1
  omega

theorem take_append_take (s t : List β) (n : Nat) : (s.take n ++ t).take n = (s ++ t).take n := by
  rw [List.take_append,List.take_append,List.take_take,Nat.min_self,List.length_take]
  congr 2
  omega

variable [Zero β]

/-- `strcpy` to the offset, where the string and its NUL fit. -/
def strcpy (buffer : List β) (offset : Nat) (s : List β) : Option (List β) :=
  if offset + s.length < buffer.length then some (blit buffer offset (s ++ [0])) else none

/-- `snprintf` of a formatted text into the first `size` bytes. -/
def snprintf (buffer : List β) (size : Nat) (s : List β) : List β :=
  blit buffer 0 (s.take (size - 1) ++ [0])

theorem strcpy_eq_some {after : List β} :
    strcpy buffer offset s = some after ↔
      offset + s.length < buffer.length ∧ blit buffer offset (s ++ [0]) = after := by
  rw [strcpy]
  split <;> simp [*]

theorem strcpy_length {after : List β} (copied : strcpy buffer offset s = some after) :
    after.length = buffer.length := by
  obtain ⟨fits,rfl⟩ := strcpy_eq_some.mp copied
  exact blit_length (by simp only [List.length_append,List.length_singleton]; omega)

theorem strcpy_take {after : List β} (copied : strcpy buffer offset s = some after) :
    after.take offset = buffer.take offset := by
  obtain ⟨fits,rfl⟩ := strcpy_eq_some.mp copied
  exact blit_take (by omega)

variable [DecidableEq β]

/-- The string that starts here, if a NUL ends it. -/
def text (bytes : List β) : Option (List β) :=
  if 0 ∈ bytes then some (bytes.takeWhile (· ≠ 0)) else none

/-- `strlcat`, which stops where the string in the buffer is not shorter than `size`. -/
def strlcat (buffer : List β) (size : Nat) (src : List β) : Option (List β) := do
  let dest ← text buffer
  if dest.length < size then
    some (blit buffer dest.length (src.take (size - 1 - dest.length) ++ [0]))
  else none

theorem text_append_zero {s : List β} (whole : 0 ∉ s) (rest : List β) :
    text (s ++ 0 :: rest) = some s := by
  have kept : ∀ b ∈ s, decide (b ≠ 0) = true := fun b mem =>
    decide_eq_true fun zero => whole (zero ▸ mem)
  rw [text,if_pos (by simp),List.takeWhile_append_of_pos kept]
  simp

theorem text_isSome {bytes : List β} (ends : 0 ∈ bytes) : ∃ s, text bytes = some s := by
  rw [text,if_pos ends]
  exact ⟨_,rfl⟩

theorem text_eq_some {bytes s : List β} :
    text bytes = some s ↔ 0 ∉ s ∧ ∃ rest, bytes = s ++ 0 :: rest := by
  constructor
  · intro found
    have ends : 0 ∈ bytes := by
      by_contra missing
      rw [text,if_neg missing] at found
      cases found
    obtain ⟨before,rest,rfl,whole⟩ := List.eq_append_cons_of_mem ends
    rw [text_append_zero whole] at found
    cases found
    exact ⟨whole,rest,rfl⟩
  · rintro ⟨whole,rest,rfl⟩
    exact text_append_zero whole rest

/-- What lies behind the NUL does not count. -/
theorem text_append {bytes s : List β} (found : text bytes = some s) (more : List β) :
    text (bytes ++ more) = some s := by
  obtain ⟨whole,rest,rfl⟩ := text_eq_some.mp found
  rw [List.append_assoc,List.cons_append,text_append_zero whole]

/-- Where no NUL comes first, the string goes on behind. -/
theorem text_append_of_not_mem {s more : List β} (whole : 0 ∉ s) :
    text (s ++ more) = (text more).map (s ++ ·) := by
  by_cases ends : 0 ∈ more
  · obtain ⟨t,found⟩ := text_isSome ends
    obtain ⟨rest_whole,rest,rfl⟩ := text_eq_some.mp found
    rw [found,Option.map_some,text_eq_some]
    refine ⟨?_,rest,by simp⟩
    rw [List.mem_append]
    exact fun mem => mem.elim whole rest_whole
  · have missing : 0 ∉ s ++ more := by
      rw [List.mem_append]
      exact fun mem => mem.elim whole ends
    rw [text,text,if_neg missing,if_neg ends,Option.map_none]

/-- The string that was copied is read back. -/
theorem strcpy_text {after : List β} (whole : 0 ∉ s) (copied : strcpy buffer offset s = some after) :
    text (after.drop offset) = some s := by
  obtain ⟨fits,rfl⟩ := strcpy_eq_some.mp copied
  rw [blit_drop (by omega),List.append_assoc]
  exact text_append_zero whole _

/-! Buffers that hold a string within their first `size` bytes. -/
variable {after src : List β} {size : Nat}

/-- `s` is the buffer's string, and nothing from `size` on has changed. -/
structure Holds (buffer : List β) (size : Nat) (s after : List β) : Prop where
  text : text after = some s
  fits : s.length < size
  length : after.length = buffer.length
  behind : after.drop size = buffer.drop size

theorem snprintf_holds (room : 0 < size) (fits : size ≤ buffer.length) (whole : 0 ∉ s) :
    Holds buffer size (s.take (size - 1)) (snprintf buffer size s) := by
  have small : (s.take (size - 1)).length ≤ size - 1 := by
    rw [List.length_take]
    omega
  have written : (s.take (size - 1) ++ [0]).length ≤ size := by
    rw [List.length_append,List.length_singleton]
    omega
  constructor
  · rw [snprintf,blit,List.take_zero,List.nil_append,List.append_assoc]
    exact text_append_zero (fun mem => whole (List.mem_of_mem_take mem)) _
  · omega
  · exact blit_length (by omega)
  · exact blit_behind (by omega) (by omega)

/-- `strlcat` adds what there is room for. -/
theorem Holds.strlcat (holds : Holds buffer size s after) (fits : size ≤ buffer.length)
    (whole : 0 ∉ src) :
    ∃ final, strlcat after size src = some final ∧
      Holds buffer size ((s ++ src).take (size - 1)) final := by
  have room := holds.fits
  have length := holds.length
  obtain ⟨own,rest,start⟩ := text_eq_some.mp holds.text
  have small : (src.take (size - 1 - s.length)).length ≤ size - 1 - s.length := by
    rw [List.length_take]
    omega
  have written : (src.take (size - 1 - s.length) ++ [0]).length ≤ size - s.length := by
    rw [List.length_append,List.length_singleton]
    omega
  have cut : (s ++ src).take (size - 1) = s ++ src.take (size - 1 - s.length) := by
    rw [List.take_append,List.take_of_length_le (by omega)]
  refine ⟨blit after s.length (src.take (size - 1 - s.length) ++ [0]),?_,?_⟩
  · simp only [CString.strlcat,holds.text,Option.bind_eq_bind,Option.bind_some,if_pos room]
  rw [cut]
  constructor
  · have before : after.take s.length = s := by rw [start,List.take_left]
    rw [blit,before,List.append_assoc,List.append_assoc,← List.append_assoc s]
    refine text_append_zero ?_ _
    rw [List.mem_append]
    exact fun mem => mem.elim own fun mem => whole (List.mem_of_mem_take mem)
  · rw [List.length_append]
    omega
  · rw [blit_length (by omega),length]
  · rw [blit_behind (by omega) (by omega),holds.behind]

end Cki.CString
