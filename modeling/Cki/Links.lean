import Mathlib.Algebra.Group.Nat.Defs
import Mathlib.Logic.Function.Basic
import Mathlib.Logic.Relation

/-! Nodes linked in rings by a pointer to the next one and a pointer to the previous one. A
list is the ring of its head; a node joins it behind another node and leaves it through its
own two pointers. -/
namespace Cki

universe u

structure Links (Node : Type u) where
  next : Node → Node
  prev : Node → Node

namespace Links

variable {Node : Type u}

/-- The pointers of these nodes lead to each other and back. -/
structure Closed (links : Links Node) (inside : Node → Prop) : Prop where
  next : ∀ node, inside node → inside (links.next node)
  prev : ∀ node, inside node → inside (links.prev node)
  prev_next : ∀ node, inside node → links.prev (links.next node) = node
  next_prev : ∀ node, inside node → links.next (links.prev node) = node

/-- The second node is met on the way from the first. -/
abbrev Reaches (links : Links Node) : Node → Node → Prop :=
  Relation.ReflTransGen fun node other => links.next node = other

theorem Closed.congr {links : Links Node} {inside inside' : Node → Prop}
    (closed : links.Closed inside) (same : ∀ node, inside node ↔ inside' node) :
    links.Closed inside' := by
  have equal : inside = inside' := funext fun node => propext (same node)
  rwa [← equal]

theorem Closed.reaches {links : Links Node} {inside : Node → Prop} (closed : links.Closed inside)
    {a b : Node} (start : inside a) (reached : links.Reaches a b) : inside b := by
  induction reached with
  | refl => exact start
  | tail _ step ih =>
    rw [← step]
    exact closed.next _ ih

theorem ne_of_inside {inside : Node → Prop} {node other : Node} (new : ¬ inside node)
    (old : inside other) : other ≠ node := by
  rintro rfl
  exact new old

/-- The rings the other way round. -/
def flip (links : Links Node) : Links Node where
  next := links.prev
  prev := links.next

theorem Closed.flip {links : Links Node} {inside : Node → Prop} (closed : links.Closed inside) :
    links.flip.Closed inside where
  next := closed.prev
  prev := closed.next
  prev_next := closed.next_prev
  next_prev := closed.prev_next

variable [DecidableEq Node]

/-- `node` joins a ring behind `pos`. -/
def add (links : Links Node) (node pos : Node) : Links Node where
  next := Function.update (Function.update links.next node (links.next pos)) pos node
  prev := Function.update (Function.update links.prev (links.next pos) node) node pos

/-- `node` leaves its ring and keeps its own pointers. -/
def del (links : Links Node) (node : Node) : Links Node where
  next := Function.update links.next (links.prev node) (links.next node)
  prev := Function.update links.prev (links.next node) (links.prev node)

theorem add_next (links : Links Node) (node pos other : Node) : (links.add node pos).next other =
    if other = pos then node else if other = node then links.next pos else links.next other := by
  simp only [add,Function.update_apply]

theorem add_prev (links : Links Node) (node pos other : Node) : (links.add node pos).prev other =
    if other = node then pos else if other = links.next pos then node else links.prev other := by
  simp only [add,Function.update_apply]

theorem del_next (links : Links Node) (node other : Node) : (links.del node).next other =
    if other = links.prev node then links.next node else links.next other := by
  simp only [del,Function.update_apply]

theorem del_prev (links : Links Node) (node other : Node) : (links.del node).prev other =
    if other = links.next node then links.prev node else links.prev other := by
  simp only [del,Function.update_apply]

variable {links : Links Node} {inside : Node → Prop} {node pos : Node}

/-! A node joins. What holds of the previous pointers is what holds of the next ones in the
rings the other way round. -/

theorem Closed.flip_add (closed : links.Closed inside) (behind : inside pos) (new : ¬ inside node) :
    (links.add node pos).flip = links.flip.add node (links.next pos) := by
  have joins := (ne_of_inside new behind).symm
  have joins' := (ne_of_inside new (closed.next pos behind)).symm
  simp only [Links.flip,Links.add,closed.prev_next pos behind]
  rw [Function.update_comm joins,Function.update_comm joins']

theorem Closed.add_stays (closed : links.Closed inside) (behind : inside pos) (node other : Node)
    (member : inside other ∨ other = node) :
    inside ((links.add node pos).next other) ∨ (links.add node pos).next other = node := by
  rw [add_next]
  split
  · exact .inr rfl
  · split
    · exact .inl (closed.next pos behind)
    · rename_i distinct
      exact .inl (closed.next other (member.resolve_right distinct))

theorem Closed.add_back (closed : links.Closed inside) (behind : inside pos) (new : ¬ inside node)
    (other : Node) (member : inside other ∨ other = node) :
    (links.add node pos).prev ((links.add node pos).next other) = other := by
  rw [add_next]
  split
  · rename_i same
    rw [add_prev,if_pos rfl,same]
  · rename_i other_pos
    split
    · rename_i same
      rw [add_prev,if_neg (ne_of_inside new (closed.next pos behind)),if_pos rfl,same]
    · rename_i distinct
      have old := member.resolve_right distinct
      have unique : links.next other ≠ links.next pos := by
        intro same
        apply other_pos
        rw [← closed.prev_next other old,same,closed.prev_next pos behind]
      rw [add_prev,if_neg (ne_of_inside new (closed.next other old)),if_neg unique]
      exact closed.prev_next other old

/-- A new node that joins behind one inside is inside with them. -/
theorem Closed.add (closed : links.Closed inside) (behind : inside pos) (new : ¬ inside node) :
    (links.add node pos).Closed fun other => inside other ∨ other = node := by
  have after := closed.next pos behind
  have stays := closed.flip.add_stays after node
  have back := closed.flip.add_back after new
  rw [← closed.flip_add behind new] at stays back
  exact ⟨closed.add_stays behind node,stays,closed.add_back behind new,back⟩

/-! A node leaves. -/

theorem Closed.del_stays (closed : links.Closed inside) (leaves : inside node) (other : Node)
    (member : inside other ∧ other ≠ node) :
    inside ((links.del node).next other) ∧ (links.del node).next other ≠ node := by
  obtain ⟨old,apart⟩ := member
  rw [del_next]
  split
  · rename_i same
    refine ⟨closed.next node leaves,fun self => apart ?_⟩
    have back := closed.prev_next node leaves
    rw [self] at back
    rw [same,back]
  · rename_i distinct
    refine ⟨closed.next other old,fun same => distinct ?_⟩
    rw [← same,closed.prev_next other old]

theorem Closed.del_back (closed : links.Closed inside) (leaves : inside node) (other : Node)
    (member : inside other ∧ other ≠ node) :
    (links.del node).prev ((links.del node).next other) = other := by
  obtain ⟨old,apart⟩ := member
  rw [del_next]
  split
  · rename_i same
    rw [del_prev,if_pos rfl,same]
  · rw [del_prev,if_neg]
    · exact closed.prev_next other old
    · intro clash
      apply apart
      rw [← closed.prev_next other old,clash,closed.prev_next node leaves]

/-- What leaves is outside, and the others stay linked. -/
theorem Closed.del (closed : links.Closed inside) (leaves : inside node) :
    (links.del node).Closed fun other => inside other ∧ other ≠ node :=
  ⟨closed.del_stays leaves,closed.flip.del_stays leaves,closed.del_back leaves,
    closed.flip.del_back leaves⟩

/-! Who is met on a ring. -/

theorem Reaches.add_cases (closed : links.Closed inside) (behind : inside pos)
    (new : ¬ inside node) {a b : Node} (start : inside a) (reached : (links.add node pos).Reaches a b) :
    inside b ∧ links.Reaches a b ∨ b = node ∧ links.Reaches a pos := by
  induction reached with
  | refl => exact .inl ⟨start,.refl⟩
  | @tail b c _ step ih =>
    rw [add_next] at step
    rcases ih with ⟨old,reached⟩ | ⟨rfl,reached⟩
    · split at step
      · rename_i same
        rw [same] at reached
        exact .inr ⟨step.symm,reached⟩
      · rw [if_neg (ne_of_inside new old)] at step
        rw [← step]
        exact .inl ⟨closed.next b old,reached.tail rfl⟩
    · rw [if_neg (ne_of_inside new behind).symm,if_pos rfl] at step
      rw [← step]
      exact .inl ⟨closed.next pos behind,reached.tail rfl⟩

theorem Reaches.add (closed : links.Closed inside) (new : ¬ inside node) {a b : Node}
    (start : inside a) (reached : links.Reaches a b) : (links.add node pos).Reaches a b := by
  induction reached with
  | refl => exact .refl
  | @tail b c before step ih =>
    have old := closed.reaches start before
    have apart : b ≠ node := fun same => new (same ▸ old)
    by_cases same : b = pos
    · have first : (links.add node pos).next b = node := by rw [add_next,if_pos same]
      by_cases self : node = pos
      · exact absurd (same.trans self.symm) apart
      · have second : (links.add node pos).next node = c := by
          rw [add_next,if_neg self,if_pos rfl,← same,step]
        exact (ih.tail first).tail second
    · apply ih.tail
      rw [add_next,if_neg same,if_neg apart,step]

/-- A node that joins is met where the one it joins behind is, and the others are met where
they were. -/
theorem reaches_add_iff (closed : links.Closed inside) (behind : inside pos) (new : ¬ inside node)
    {a b : Node} (start : inside a) : (links.add node pos).Reaches a b ↔
      inside b ∧ links.Reaches a b ∨ b = node ∧ links.Reaches a pos := by
  refine ⟨Reaches.add_cases closed behind new start,?_⟩
  rintro (⟨_,reached⟩ | ⟨rfl,reached⟩)
  · exact reached.add closed new start
  · apply (reached.add closed new start).tail
    rw [add_next,if_pos rfl]

/-- A node that leaves is not met any more, and the others are met where they were. -/
theorem reaches_del_iff (closed : links.Closed inside) (leaves : inside node) {a b : Node}
    (start : inside a) (stays : a ≠ node) :
    (links.del node).Reaches a b ↔ links.Reaches a b ∧ b ≠ node := by
  constructor
  · intro reached
    have outside := (closed.del leaves).reaches ⟨start,stays⟩ reached
    refine ⟨?_,outside.2⟩
    clear outside
    induction reached with
    | refl => exact .refl
    | @tail b c before step ih =>
      have old := (closed.del leaves).reaches ⟨start,stays⟩ before
      rw [del_next] at step
      split at step
      · rename_i same
        have first : links.next b = node := by rw [same,closed.next_prev node leaves]
        exact (ih.tail first).tail step
      · exact ih.tail step
  · rintro ⟨reached,apart⟩
    have both : (b ≠ node → (links.del node).Reaches a b) ∧
        (b = node → (links.del node).Reaches a (links.next node)) := by
      clear apart
      induction reached with
      | refl => exact ⟨fun _ => .refl,fun same => absurd same stays⟩
      | @tail b c before step ih =>
        have old := closed.reaches start before
        by_cases here : b = node
        · have jumped := ih.2 here
          rw [here] at step
          rw [step] at jumped
          refine ⟨fun _ => jumped,fun same => ?_⟩
          rw [step]
          exact jumped
        · have reached := ih.1 here
          constructor
          · intro next
            apply reached.tail
            rw [del_next,if_neg,step]
            rintro rfl
            rw [closed.next_prev node leaves] at step
            exact next step.symm
          · rintro rfl
            apply reached.tail
            rw [del_next,if_pos]
            rw [← step,closed.prev_next b old]
    exact both.1 apart

end Links
end Cki
