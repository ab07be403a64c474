import Mathlib.Algebra.Group.Nat.Defs

/-! Calls over an explicit state which return, stop at an assertion or fault.
Every outcome keeps the state in which the call ended, so that frame facts can
also be stated about calls that do not return. -/
namespace Cki

universe u v w

inductive Outcome (State : Type u) (α : Type v) where
  | ret (value : α) (state : State)
  | bug (state : State)
  | fault (state : State)

/-- The state in which a call ended, however it ended. -/
def Outcome.state {State : Type u} {α : Type v} : Outcome State α → State
  | .ret _ s | .bug s | .fault s => s

def Call (State : Type u) (α : Type v) := State → Outcome State α

namespace Call

variable {State : Type u} {α β : Type v}

protected def bind (c : Call State α) (f : α → Call State β) : Call State β := fun s =>
  match c s with
  | .ret a t => f a t
  | .bug t => .bug t
  | .fault t => .fault t

instance : Monad (Call State) where
  pure a := fun s => .ret a s
  bind := Call.bind

def read (f : State → α) : Call State α := fun s => .ret (f s) s

def modify (f : State → State) : Call State PUnit := fun s => .ret ⟨⟩ (f s)

def stop : Call State α := fun s => .bug s

/-- An assertion in the negative form of the source: the call stops when `p` holds. -/
def stopIf (p : Prop) [Decidable p] : Call State PUnit := fun s => if p then .bug s else .ret ⟨⟩ s

/-- A pointer is followed: a null one faults. -/
def follow : Option α → Call State α
  | some a => fun s => .ret a s
  | none => fun s => .fault s

@[simp] theorem pure_apply (a : α) (s : State) : (pure a : Call State α) s = .ret a s := rfl
@[simp] theorem read_apply (f : State → α) (s : State) : read f s = .ret (f s) s := rfl
@[simp] theorem modify_apply (f : State → State) (s : State) :
    (modify f : Call State PUnit.{v+1}) s = .ret ⟨⟩ (f s) := rfl
@[simp] theorem stop_apply (s : State) : (stop : Call State α) s = .bug s := rfl
@[simp] theorem follow_some (a : α) (s : State) : follow (some a) s = .ret a s := rfl
@[simp] theorem follow_none (s : State) : (follow none : Call State α) s = .fault s := rfl

@[simp] theorem stopIf_apply (p : Prop) [Decidable p] (s : State) :
    (stopIf p : Call State PUnit.{v+1}) s = if p then .bug s else .ret ⟨⟩ s := rfl

theorem bind_apply (c : Call State α) (f : α → Call State β) (s : State) :
    (c >>= f) s = match c s with
      | .ret a t => f a t
      | .bug t => .bug t
      | .fault t => .fault t := rfl

theorem ret_bind {c : Call State α} {s t : State} {a : α} (first : c s = .ret a t)
    (f : α → Call State β) : (c >>= f) s = f a t := by
  rw [bind_apply,first]

/-- A sequence returns when both parts do. -/
theorem bind_ret {c : Call State α} {f : α → Call State β} {s t : State} {b : β}
    (returns : (c >>= f) s = .ret b t) : ∃ a u, c s = .ret a u ∧ f a u = .ret b t := by
  rw [bind_apply] at returns
  cases first : c s with
  | ret a u =>
    rw [first] at returns
    exact ⟨a,u,rfl,returns⟩
  | bug u =>
    rw [first] at returns
    cases returns
  | fault u =>
    rw [first] at returns
    cases returns

theorem follow_ret {pointer : Option α} {s t : State} {a : α}
    (returns : follow pointer s = .ret a t) : pointer = some a ∧ s = t := by
  cases pointer with
  | none => cases returns
  | some b =>
    cases returns
    exact ⟨rfl,rfl⟩

theorem stopIf_ret {p : Prop} [Decidable p] {s t : State} {u : PUnit.{v+1}}
    (returns : stopIf p s = .ret u t) : ¬ p ∧ s = t := by
  rw [stopIf_apply] at returns
  by_cases stops : p
  · rw [if_pos stops] at returns
    cases returns
  · rw [if_neg stops] at returns
    cases returns
    exact ⟨stops,rfl⟩

theorem bind_assoc {γ : Type v} (c : Call State α) (f : α → Call State β)
    (g : β → Call State γ) : (c >>= f) >>= g = c >>= fun a => f a >>= g := by
  funext s
  simp only [bind_apply]
  cases c s <;> rfl

end Call
end Cki
