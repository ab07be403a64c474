import Mathlib.Algebra.Group.Nat.Defs

/-! Depth-first marking of a layered graph. A traversal marks each node it meets with the
level it meets it at and goes on below a node only if that was unmarked, so the marks are
both its result and its record of what it has seen. -/
namespace Cki

universe u v w

/-- A graph with a successor list for each level, and the mark of each level. -/
structure Layers (Node : Type u) (Mark : Type v) where
  below : Nat → Node → List Node
  mark : Nat → Mark
  unmarked : Mark
  marks : ∀ level, mark (level + 1) ≠ unmarked

namespace Layers

variable {Node : Type u} {Mark : Type v} (graph : Layers Node Mark)

def put [DecidableEq Node] (marks : Node → Mark) (node : Node) (mark : Mark) : Node → Mark :=
  fun other => if other = node then mark else marks other

/-- Level 0 lies below the last level and is not entered. -/
def visit [DecidableEq Node] [DecidableEq Mark] : Nat → Node → (Node → Mark) → (Node → Mark)
  | 0, _, marks => marks
  | level + 1, node, marks =>
    let marked := put marks node (graph.mark (level + 1))
    if marks node ≠ graph.unmarked then marked
    else (graph.below (level + 1) node).foldl (fun marks child => visit level child marks) marked

/-- What the children yield one after the other, each with the marks its elder siblings
leave. -/
def gather {Item : Type w} (each : Node → (Node → Mark) → List Item)
    (next : Node → (Node → Mark) → (Node → Mark)) : List Node → (Node → Mark) → List Item
  | [], _ => []
  | child :: rest, marks => each child marks ++ gather each next rest (next child marks)

/-- The nodes that a traversal goes on below, each with the level it does so at. -/
def enters [DecidableEq Node] [DecidableEq Mark] : Nat → Node → (Node → Mark) → List (Nat × Node)
  | 0, _, _ => []
  | level + 1, node, marks =>
    if marks node ≠ graph.unmarked then []
    else (level + 1,node) :: gather (fun child marks => enters level child marks) (graph.visit level)
      (graph.below (level + 1) node) (put marks node (graph.mark (level + 1)))

/-- The nodes below a root, each at a level, over paths whose inner nodes satisfy `through`. -/
inductive Reaches (through : Node → Prop) (top : Nat) (root : Node) : Nat → Node → Prop where
  | root : Reaches through top root top root
  | step {level : Nat} {node child : Node} : Reaches through top root (level + 1) node →
      through node → child ∈ graph.below (level + 1) node → Reaches through top root level child

theorem Reaches.all {through : Node → Prop} {top : Nat} {root : Node} {level : Nat} {node : Node}
    (reached : graph.Reaches through top root level node) :
    graph.Reaches (fun _ => True) top root level node := by
  induction reached with
  | root => exact .root
  | step _ _ edge ih => exact .step ih trivial edge

theorem Reaches.level_le {through : Node → Prop} {top : Nat} {root : Node} {level : Nat}
    {node : Node} (reached : graph.Reaches through top root level node) : level ≤ top := by
  induction reached with
  | root => exact Nat.le_refl _
  | step _ _ _ ih => omega

/-- No node is reached at two levels. -/
def Apart (through : Node → Prop) (top : Nat) (root : Node) : Prop :=
  ∀ j k node, graph.Reaches through top root (j + 1) node →
    graph.Reaches through top root (k + 1) node → j = k

/-- Reached through nodes that have no mark to begin with. -/
abbrev Fresh (start : Node → Mark) (top : Nat) (root : Node) : Nat → Node → Prop :=
  graph.Reaches (fun node => start node = graph.unmarked) top root

section traversal

variable (start : Node → Mark) (top : Nat) (root : Node)

/-- Marks only grow. -/
def Grown (marks : Node → Mark) : Prop :=
  ∀ node, marks node = graph.unmarked → start node = graph.unmarked

/-- What a traversal of levels up to `level` may do to the marks. -/
def Marks (level : Nat) (before after : Node → Mark) : Prop :=
  ∀ node, after node = before node ∨
    ∃ j, j < level ∧ graph.Fresh start top root (j + 1) node ∧ after node = graph.mark (j + 1)

variable {graph start top root}

theorem Marks.refl (level : Nat) (marks : Node → Mark) :
    graph.Marks start top root level marks marks := fun _ => .inl rfl

theorem Marks.trans {level : Nat} {first second third : Node → Mark}
    (head : graph.Marks start top root level first second)
    (tail : graph.Marks start top root level second third) :
    graph.Marks start top root level first third := by
  intro node
  rcases tail node with same | marked
  · rw [same]
    exact head node
  · exact .inr marked

theorem Marks.mono {low high : Nat} (le : low ≤ high) {before after : Node → Mark}
    (marked : graph.Marks start top root low before after) :
    graph.Marks start top root high before after := by
  intro node
  rcases marked node with same | ⟨j,small,reached,result⟩
  · exact .inl same
  · exact .inr ⟨j,by omega,reached,result⟩

theorem Marks.grown {level : Nat} {before after : Node → Mark}
    (marked : graph.Marks start top root level before after) (grown : graph.Grown start before) :
    graph.Grown start after := by
  intro node unmarked
  rcases marked node with same | ⟨j,_,_,result⟩
  · exact grown node (same.symm.trans unmarked)
  · exact absurd (result.symm.trans unmarked) (graph.marks _)

/-- A mark of the node's own level stays. -/
theorem Marks.keeps (apart : graph.Apart (fun node => start node = graph.unmarked) top root)
    {level : Nat} {before after : Node → Mark}
    (marked : graph.Marks start top root level before after) {j : Nat} {node : Node}
    (reached : graph.Fresh start top root (j + 1) node) (mark : before node = graph.mark (j + 1)) :
    after node = graph.mark (j + 1) := by
  rcases marked node with same | ⟨k,_,other,result⟩
  · exact same.trans mark
  · rw [apart j k node reached other]
    exact result

/-- A node has its mark, and if it was unmarked to begin with so has all below it. -/
def Done (graph : Layers Node Mark) (start marks : Node → Mark) : Nat → Node → Prop
  | 0, _ => True
  | level + 1, node => marks node = graph.mark (level + 1) ∧
      (start node = graph.unmarked →
        ∀ child ∈ graph.below (level + 1) node, Done graph start marks level child)

theorem Done.keeps (apart : graph.Apart (fun node => start node = graph.unmarked) top root)
    {low level : Nat} {before after : Node → Mark}
    (marked : graph.Marks start top root low before after) {node : Node}
    (reached : graph.Fresh start top root level node) (done : graph.Done start before level node) :
    graph.Done start after level node := by
  induction level generalizing node with
  | zero => trivial
  | succ level ih =>
    refine ⟨marked.keeps apart reached done.1,fun through child edge => ?_⟩
    exact ih (reached.step through edge) (done.2 through child edge)

theorem Done.reaches {marks : Node → Mark} {level : Nat} {node : Node}
    (done : graph.Done start marks top root)
    (reached : graph.Fresh start top root (level + 1) node) :
    marks node = graph.mark (level + 1) := by
  have all : ∀ level node, graph.Fresh start top root level node →
      graph.Done start marks level node := by
    intro level node reached
    induction reached with
    | root => exact done
    | step _ through edge ih => exact ih.2 through _ edge
  exact (all _ _ reached).1

/-- What was unmarked to begin with and has a mark now is done, up to a level. -/
def Settled (graph : Layers Node Mark) (start : Node → Mark) (top : Nat) (root : Node) (level : Nat)
    (marks : Node → Mark) : Prop :=
  ∀ j node, j < level → graph.Fresh start top root (j + 1) node → start node = graph.unmarked →
    marks node ≠ graph.unmarked → graph.Done start marks (j + 1) node

/-- Only what got its mark in between is left to show. -/
theorem Settled.keeps (apart : graph.Apart (fun node => start node = graph.unmarked) top root)
    {low level : Nat} {before after : Node → Mark} (settled : graph.Settled start top root level before)
    (marked : graph.Marks start top root low before after)
    (added : ∀ j node, j < level → graph.Fresh start top root (j + 1) node →
      before node = graph.unmarked → after node ≠ graph.unmarked →
      graph.Done start after (j + 1) node) :
    graph.Settled start top root level after := by
  intro j node small reached through mark
  by_cases old : before node = graph.unmarked
  · exact added j node small reached old mark
  · exact (settled j node small reached through old).keeps apart marked reached

variable [DecidableEq Node]

theorem put_marks {level : Nat} {node : Node} (marks : Node → Mark)
    (reached : graph.Fresh start top root (level + 1) node) :
    graph.Marks start top root (level + 1) marks (put marks node (graph.mark (level + 1))) := by
  intro other
  by_cases same : other = node
  · subst same
    exact .inr ⟨level,by omega,reached,by simp [put]⟩
  · exact .inl (by simp [put,same])

variable [DecidableEq Mark]

theorem foldl_marks {level : Nat}
    (each : ∀ node marks, graph.Fresh start top root level node → graph.Grown start marks →
      graph.Marks start top root level marks (graph.visit level node marks))
    (children : List Node) (marks : Node → Mark)
    (reached : ∀ child ∈ children, graph.Fresh start top root level child)
    (grown : graph.Grown start marks) : graph.Marks start top root level marks
      (children.foldl (fun marks child => graph.visit level child marks) marks) := by
  induction children generalizing marks with
  | nil => exact .refl _ marks
  | cons child rest ih =>
    have one := each child marks (reached child (by simp)) grown
    exact one.trans (ih _ (fun other member => reached other (by simp [member])) (one.grown grown))

/-- Every mark a traversal leaves is the level of a node it reached through unmarked ones. -/
theorem visit_marks (level : Nat) (node : Node) (marks : Node → Mark)
    (reached : graph.Fresh start top root level node) (grown : graph.Grown start marks) :
    graph.Marks start top root level marks (graph.visit level node marks) := by
  induction level generalizing node marks with
  | zero => exact .refl _ _
  | succ level ih =>
    have first := put_marks marks reached
    simp only [visit]
    split
    · exact first
    · rename_i unmarked
      have through := grown node (Classical.not_not.mp unmarked)
      have others := foldl_marks ih (graph.below (level + 1) node) _
        (fun _ edge => reached.step through edge) (first.grown grown)
      exact first.trans (others.mono (by omega))

theorem gather_reached {level : Nat} {k : Nat} {node : Node}
    (each : ∀ child marks, graph.Fresh start top root level child → graph.Grown start marks →
      (k,node) ∈ graph.enters level child marks →
        graph.Fresh start top root k node ∧ start node = graph.unmarked)
    (children : List Node) (marks : Node → Mark)
    (reached : ∀ child ∈ children, graph.Fresh start top root level child)
    (grown : graph.Grown start marks)
    (member : (k,node) ∈ gather (graph.enters level) (graph.visit level) children marks) :
    graph.Fresh start top root k node ∧ start node = graph.unmarked := by
  induction children generalizing marks with
  | nil => cases member
  | cons child rest ih =>
    have own := reached child List.mem_cons_self
    rcases List.mem_append.mp member with first | later
    · exact each child marks own grown first
    · have grown' := (visit_marks level child marks own grown).grown grown
      exact ih _ (fun other member => reached other (List.mem_cons_of_mem _ member)) grown' later

/-- A traversal goes on only below nodes it reaches through unmarked ones and that have no
mark themselves. -/
theorem enters_reached (level : Nat) (entry : Node) (marks : Node → Mark) {k : Nat} {node : Node}
    (reached : graph.Fresh start top root level entry) (grown : graph.Grown start marks)
    (member : (k,node) ∈ graph.enters level entry marks) :
    graph.Fresh start top root k node ∧ start node = graph.unmarked := by
  induction level generalizing entry marks with
  | zero => cases member
  | succ level ih =>
    simp only [enters] at member
    split at member
    · cases member
    · rename_i unmarked
      have through := grown entry (Classical.not_not.mp unmarked)
      rcases List.mem_cons.mp member with same | below
      · cases same
        exact ⟨reached,through⟩
      · exact gather_reached (fun child marks reached grown => ih child marks reached grown) _ _
          (fun _ edge => reached.step through edge) ((put_marks marks reached).grown grown) below

theorem foldl_done (apart : graph.Apart (fun node => start node = graph.unmarked) top root)
    {level : Nat}
    (each : ∀ node marks, graph.Fresh start top root level node → graph.Grown start marks →
      graph.Settled start top root level marks →
      graph.Settled start top root level (graph.visit level node marks) ∧
        graph.Done start (graph.visit level node marks) level node)
    (children : List Node) (marks : Node → Mark)
    (reached : ∀ child ∈ children, graph.Fresh start top root level child)
    (grown : graph.Grown start marks) (settled : graph.Settled start top root level marks) :
    let after := children.foldl (fun marks child => graph.visit level child marks) marks
    graph.Settled start top root level after ∧
      ∀ child ∈ children, graph.Done start after level child := by
  induction children generalizing marks with
  | nil => exact ⟨settled,by simp⟩
  | cons child rest ih =>
    have own := reached child (by simp)
    have later : ∀ other ∈ rest, graph.Fresh start top root level other :=
      fun other member => reached other (by simp [member])
    have grown' := (visit_marks level child marks own grown).grown grown
    obtain ⟨settled',done⟩ := each child marks own grown settled
    obtain ⟨all,dones⟩ := ih _ later grown' settled'
    refine ⟨all,fun other member => ?_⟩
    rcases List.mem_cons.mp member with same | behind
    · subst same
      exact done.keeps apart (foldl_marks (visit_marks _) rest _ later grown') own
    · exact dones other behind

/-- Where the levels are apart a traversal finishes everything it enters. -/
theorem visit_done (apart : graph.Apart (fun node => start node = graph.unmarked) top root)
    (level : Nat) (node : Node) (marks : Node → Mark)
    (reached : graph.Fresh start top root level node) (grown : graph.Grown start marks)
    (settled : graph.Settled start top root level marks) :
    graph.Settled start top root level (graph.visit level node marks) ∧
      graph.Done start (graph.visit level node marks) level node := by
  induction level generalizing node marks with
  | zero => exact ⟨settled,trivial⟩
  | succ level ih =>
    have first := put_marks marks reached
    have own : put marks node (graph.mark (level + 1)) node = graph.mark (level + 1) := by simp [put]
    have only : ∀ other, marks other = graph.unmarked →
        put marks node (graph.mark (level + 1)) other ≠ graph.unmarked → other = node := by
      intro other old mark
      by_cases same : other = node
      · exact same
      · exact absurd old (by simpa [put,same] using mark)
    simp only [visit]
    split
    · rename_i seen
      refine ⟨settled.keeps apart first ?_,own,fun through child edge => ?_⟩
      · intro j other _ _ old mark
        rw [only other old mark] at old
        exact absurd old seen
      · have before := settled level node (by omega) reached through seen
        exact (before.2 through child edge).keeps apart first (reached.step through edge)
    · rename_i unmarked
      have through := grown node (Classical.not_not.mp unmarked)
      have below : ∀ child ∈ graph.below (level + 1) node, graph.Fresh start top root level child :=
        fun _ edge => reached.step through edge
      have entered : graph.Settled start top root level (put marks node (graph.mark (level + 1))) := by
        apply Settled.keeps apart (fun j other small => settled j other (by omega)) first
        intro j other small reached' old mark
        rw [only other old mark] at reached'
        have := apart j level node reached' reached
        omega
      have marked := foldl_marks (visit_marks _) _ _ below (first.grown grown)
      obtain ⟨settled',dones⟩ := foldl_done apart ih _ _ below (first.grown grown) entered
      have done : graph.Done start _ (level + 1) node :=
        ⟨marked.keeps apart reached own,fun _ => dones⟩
      refine ⟨settled.keeps apart (first.trans (marked.mono (by omega))) ?_,done⟩
      intro j other small reached' old mark
      by_cases deep : j < level
      · exact settled' j other deep reached' (grown other old) mark
      · obtain rfl : j = level := by omega
        rcases marked other with kept | ⟨k,lower,again,_⟩
        · rw [kept] at mark
          rw [only other old mark]
          exact done
        · have := apart j k other reached' again
          omega

end traversal

variable [DecidableEq Node] [DecidableEq Mark]

theorem visit_marks_start (start : Node → Mark) (top : Nat) (root : Node) :
    graph.Marks start top root top start (graph.visit top root start) :=
  visit_marks top root start .root fun _ unmarked => unmarked

/-- The marks left on the nodes below a root are their levels exactly where no node lies at
two levels and what a marked node hides had the right marks to begin with. -/
theorem visit_covers_iff {top : Nat} (root : Node) (start : Node → Mark)
    (injective : ∀ j k, j < top → k < top → graph.mark (j + 1) = graph.mark (k + 1) → j = k) :
    (∀ level node, graph.Reaches (fun _ => True) top root (level + 1) node →
      graph.visit top root start node = graph.mark (level + 1)) ↔
    graph.Apart (fun _ => True) top root ∧
      ∀ level node, graph.Reaches (fun _ => True) top root (level + 1) node →
        graph.Fresh start top root (level + 1) node ∨ start node = graph.mark (level + 1) := by
  have marked := graph.visit_marks_start start top root
  constructor
  · intro covers
    refine ⟨fun j k node first second => ?_,fun level node reached => ?_⟩
    · have low := first.level_le
      have high := second.level_le
      exact injective j k low high ((covers j node first).symm.trans (covers k node second))
    · have mark := covers level node reached
      rcases marked node with same | ⟨j,small,fresh,result⟩
      · exact .inr (same.symm.trans mark)
      · obtain rfl := injective j level small reached.level_le (result.symm.trans mark)
        exact .inl fresh
  · rintro ⟨apart,hidden⟩ level node reached
    have freshApart : graph.Apart (fun node => start node = graph.unmarked) top root :=
      fun j k node first second => apart j k node first.all second.all
    have done := (visit_done freshApart top root start .root (fun _ unmarked => unmarked)
      fun _ _ _ _ unmarked mark => absurd unmarked mark).2
    rcases hidden level node reached with fresh | old
    · exact done.reaches fresh
    · rcases marked node with same | ⟨j,_,fresh,result⟩
      · exact same.trans old
      · rw [apart level j node reached fresh.all]
        exact result

/-- A root that no path through unmarked nodes leads back to keeps the level it is entered
at. -/
theorem visit_root {top : Nat} {root : Node} (start : Node → Mark)
    (acyclic : ∀ level, level < top → ¬ graph.Fresh start (top + 1) root (level + 1) root) :
    graph.visit (top + 1) root start root = graph.mark (top + 1) := by
  have own : put start root (graph.mark (top + 1)) root = graph.mark (top + 1) := by simp [put]
  simp only [visit]
  split
  · exact own
  · rename_i unmarked
    have through := Classical.not_not.mp unmarked
    have first : graph.Marks start (top + 1) root (top + 1) start _ := put_marks start .root
    have marked := foldl_marks (visit_marks _) (graph.below (top + 1) root) _
      (fun _ edge => Reaches.root.step through edge) (first.grown fun _ unmarked => unmarked)
    rcases marked root with same | ⟨level,small,fresh,_⟩
    · exact same.trans own
    · exact absurd fresh (acyclic level small)

end Layers
end Cki
