import Mathlib.Algebra.Group.Nat.Defs

/-! Resources that are acquired and released, as a log of both. A log is balanced when each
release names something held at that point and in the end nothing is held; `settle` decides it
by going through the log once. -/
namespace Cki.Ledger

universe u

inductive Action (α : Type u) where
  | acquire (resource : α)
  | release (resource : α)
  deriving DecidableEq, Repr

variable {α : Type u} [DecidableEq α]

def acquires (resource : α) (log : List (Action α)) : Nat := log.count (.acquire resource)
def releases (resource : α) (log : List (Action α)) : Nat := log.count (.release resource)

/-- Everything acquired is released exactly once, and nothing is released that is not held. -/
structure Balanced (log : List (Action α)) : Prop where
  once : ∀ resource, releases resource log = acquires resource log
  held : ∀ before resource after, log = before ++ .release resource :: after →
    releases resource before < acquires resource before

/-- What a log leaves of what is held, if it releases nothing that is not. -/
def settle (held : List α) : List (Action α) → Option (List α)
  | [] => some held
  | .acquire resource :: rest => settle (resource :: held) rest
  | .release resource :: rest =>
    if resource ∈ held then settle (held.erase resource) rest else none

theorem settle_append (held : List α) (first second : List (Action α)) :
    settle held (first ++ second) = (settle held first).bind fun left => settle left second := by
  induction first generalizing held with
  | nil => rfl
  | cons action rest ih =>
    cases action with
    | acquire resource => exact ih _
    | release resource =>
      simp only [List.cons_append,settle]
      split
      · exact ih _
      · rfl

/-- An acquisition at the head of a log counts like one more thing held before it. -/
theorem acquire_counts (resource other : α) (held : List α) (log : List (Action α)) :
    releases resource (.acquire other :: log) = releases resource log ∧
    acquires resource (.acquire other :: log) + held.count resource =
      acquires resource log + (other :: held).count resource := by
  simp only [releases,acquires,List.count_cons]
  simp only [beq_iff_eq,Action.acquire.injEq,reduceCtorEq,if_false]
  omega

/-- A release of something held counts like one thing less. -/
theorem release_counts {held : List α} {other : α} (member : other ∈ held) (resource : α)
    (log : List (Action α)) :
    acquires resource (.release other :: log) = acquires resource log ∧
    releases resource (.release other :: log) + (held.erase other).count resource =
      releases resource log + held.count resource := by
  have some : 0 < held.count other := List.count_pos_iff.mpr member
  simp only [releases,acquires,List.count_cons,List.count_erase]
  simp only [beq_iff_eq,Action.release.injEq,reduceCtorEq,if_false]
  by_cases same : other = resource
  · subst same
    simp only [if_true]
    omega
  · simp only [if_neg same]
    omega

/-- What is held is what was held and was acquired more often than released. -/
theorem settle_count {held left : List α} {log : List (Action α)} (settled : settle held log = some left)
    (resource : α) :
    releases resource log + left.count resource = acquires resource log + held.count resource := by
  induction log generalizing held with
  | nil =>
    cases settled
    rfl
  | cons action rest ih =>
    cases action with
    | acquire other =>
      have count := ih settled
      have counts := acquire_counts resource other held rest
      omega
    | release other =>
      simp only [settle] at settled
      split at settled
      · rename_i member
        have count := ih settled
        have counts := release_counts member resource rest
        omega
      · cases settled

/-- A log settles when each release names something held at that point. -/
theorem settle_of_held {held : List α} {log : List (Action α)}
    (all : ∀ before resource after, log = before ++ .release resource :: after →
      releases resource before < acquires resource before + held.count resource) :
    ∃ left, settle held log = some left := by
  induction log generalizing held with
  | nil => exact ⟨held,rfl⟩
  | cons action rest ih =>
    cases action with
    | acquire other =>
      refine ih fun before resource after split => ?_
      have count := all (.acquire other :: before) resource after (by rw [split]; rfl)
      have counts := acquire_counts resource other held before
      omega
    | release other =>
      have member : other ∈ held := by
        have count := all [] other rest rfl
        exact List.count_pos_iff.mp (by simpa [releases,acquires] using count)
      simp only [settle,if_pos member]
      refine ih fun before resource after split => ?_
      have count := all (.release other :: before) resource after (by rw [split]; rfl)
      have counts := release_counts member resource before
      omega

theorem balanced_iff (log : List (Action α)) : Balanced log ↔ settle [] log = some [] := by
  constructor
  · intro balanced
    obtain ⟨left,settled⟩ : ∃ left, settle [] log = some left :=
      settle_of_held fun before resource after split =>
        Nat.lt_of_lt_of_le (balanced.held before resource after split) (Nat.le_add_right _ _)
    have empty : left = [] := by
      refine List.eq_nil_iff_forall_not_mem.mpr fun resource member => ?_
      have count := settle_count settled resource
      have some : 0 < left.count resource := List.count_pos_iff.mpr member
      rw [balanced.once resource,List.count_nil] at count
      omega
    rw [settled,empty]
  · intro settled
    refine ⟨fun resource => by simpa using settle_count settled resource,?_⟩
    rintro before resource after rfl
    rw [settle_append] at settled
    cases first : settle [] before with
    | none =>
      rw [first] at settled
      cases settled
    | some held =>
      rw [first] at settled
      simp only [Option.bind_some,settle] at settled
      split at settled
      · rename_i member
        have count := settle_count first resource
        have some : 0 < held.count resource := List.count_pos_iff.mpr member
        rw [List.count_nil] at count
        omega
      · cases settled

/-! The log as it grows. -/

/-- What a log has acquired and not released, in any order. -/
def Holds (log : List (Action α)) (held : List α) : Prop :=
  ∃ left, settle [] log = some left ∧ left.Perm held

theorem holds_nil : Holds ([] : List (Action α)) [] := ⟨[],rfl,.nil⟩

theorem balanced_iff_holds (log : List (Action α)) : Balanced log ↔ Holds log [] := by
  rw [balanced_iff]
  constructor
  · intro settled
    exact ⟨[],settled,.nil⟩
  · rintro ⟨left,settled,same⟩
    rw [settled,same.eq_nil]

/-- A log that holds something is not balanced. -/
theorem Holds.not_balanced {log : List (Action α)} {resource : α} {held : List α}
    (holds : Holds log (resource :: held)) : ¬ Balanced log := by
  obtain ⟨left,settled,same⟩ := holds
  rw [balanced_iff,settled]
  rintro ⟨⟩
  exact absurd same.symm.eq_nil (List.cons_ne_nil _ _)

theorem Holds.perm {log : List (Action α)} {held held' : List α} (holds : Holds log held)
    (same : held.Perm held') : Holds log held' := by
  obtain ⟨left,settled,perm⟩ := holds
  exact ⟨left,settled,perm.trans same⟩

theorem Holds.acquire {log : List (Action α)} {held : List α} (holds : Holds log held)
    (resource : α) : Holds (log ++ [.acquire resource]) (resource :: held) := by
  obtain ⟨left,settled,perm⟩ := holds
  refine ⟨resource :: left,?_,perm.cons resource⟩
  rw [settle_append,settled]
  rfl

theorem Holds.release {log : List (Action α)} {resource : α} {held : List α}
    (holds : Holds log (resource :: held)) : Holds (log ++ [.release resource]) held := by
  obtain ⟨left,settled,perm⟩ := holds
  have member : resource ∈ left := perm.mem_iff.mpr List.mem_cons_self
  refine ⟨left.erase resource,?_,?_⟩
  · rw [settle_append,settled]
    exact if_pos member
  · have erased := perm.erase resource
    rwa [List.erase_cons_head] at erased

theorem Holds.releases {log : List (Action α)} {all held : List α} (holds : Holds log (all ++ held)) :
    Holds (log ++ all.map .release) held := by
  induction all generalizing log with
  | nil =>
    rw [List.map_nil,List.append_nil]
    exact holds
  | cons resource rest ih =>
    have released := ih holds.release
    rwa [List.append_assoc] at released

end Cki.Ledger
