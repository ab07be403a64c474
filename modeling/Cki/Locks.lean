import Mathlib.Logic.Function.Basic

/-! Locks that threads try for, of which a thread holds one at most. The owners of the locks are
kept beside what each thread holds. -/
namespace Cki.Locks

universe u v

variable {Thread : Type u} {Lock : Type v} {owner : Lock → Option Thread}
  {holds : Thread → Option Lock}

def Consistent (owner : Lock → Option Thread) (holds : Thread → Option Lock) : Prop :=
  ∀ lock thread, owner lock = some thread ↔ holds thread = some lock

section
variable (consistent : Consistent owner holds) {lock : Lock} {thread : Thread}
include consistent

theorem Consistent.exclusive {other : Thread} (first : holds thread = some lock)
    (second : holds other = some lock) : other = thread := by
  have owner := (consistent lock thread).mpr first
  rw [(consistent lock other).mpr second] at owner
  exact Option.some.inj owner

theorem Consistent.free_iff : owner lock = none ↔ ∀ thread, holds thread ≠ some lock := by
  constructor
  · intro free thread held
    rw [(consistent lock thread).mpr held] at free
    cases free
  · intro unheld
    cases owned : owner lock with
    | none => rfl
    | some thread => exact absurd ((consistent lock thread).mp owned) (unheld thread)

variable [DecidableEq Thread] [DecidableEq Lock]

theorem Consistent.acquire (free : owner lock = none) (idle : holds thread = none) :
    Consistent (Function.update owner lock (some thread))
      (Function.update holds thread (some lock)) := by
  intro other holder
  by_cases here : other = lock <;> by_cases own : holder = thread
  · simp [here,own]
  · subst here
    rw [Function.update_self,Function.update_of_ne own]
    refine iff_of_false (fun same => own (Option.some.inj same).symm) ?_
    exact consistent.free_iff.mp free holder
  · subst own
    rw [Function.update_self,Function.update_of_ne here]
    refine iff_of_false ?_ (fun same => here (Option.some.inj same).symm)
    rw [consistent other holder,idle]
    simp
  · rw [Function.update_of_ne here,Function.update_of_ne own]
    exact consistent other holder

theorem Consistent.release (held : holds thread = some lock) :
    Consistent (Function.update owner lock none) (Function.update holds thread none) := by
  intro other holder
  by_cases here : other = lock <;> by_cases own : holder = thread
  · simp [here,own]
  · subst here
    rw [Function.update_self,Function.update_of_ne own]
    refine iff_of_false (by simp) fun held' => own (consistent.exclusive held held')
  · subst own
    rw [Function.update_self,Function.update_of_ne here]
    refine iff_of_false ?_ (by simp)
    rw [consistent other holder,held]
    exact fun same => here (Option.some.inj same).symm
  · rw [Function.update_of_ne here,Function.update_of_ne own]
    exact consistent other holder

end

end Cki.Locks
