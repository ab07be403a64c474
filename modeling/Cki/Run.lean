import Mathlib.Algebra.Group.Nat.Defs

/-! Finite runs of a labelled transition relation and the rules by which a fact
about one step becomes a fact about every run. Labels are kept in order, so that
a run can be restricted step by step. -/
namespace Cki

universe u v

variable {State : Type u} {Label : Type v}

inductive Run (step : State → Label → State → Prop) : State → List Label → State → Prop where
  | nil (s : State) : Run step s [] s
  | cons {s t u : State} {label : Label} {labels : List Label} :
      step s label t → Run step t labels u → Run step s (label :: labels) u

/-- The steps of `step` whose start and label satisfy a condition. -/
def Guarded (ok : State → Label → Prop) (step : State → Label → State → Prop) :
    State → Label → State → Prop :=
  fun s label t => ok s label ∧ step s label t

namespace Run

variable {step other : State → Label → State → Prop}

theorem append {s t u : State} {first second : List Label} (head : Run step s first t)
    (tail : Run step t second u) : Run step s (first ++ second) u := by
  induction head with
  | nil => exact tail
  | cons h _ ih => exact .cons h (ih tail)

theorem split {s t : State} {first second : List Label} (run : Run step s (first ++ second) t) :
    ∃ u, Run step s first u ∧ Run step u second t := by
  induction first generalizing s with
  | nil => exact ⟨s,.nil s,run⟩
  | cons label labels ih =>
    cases run with
    | cons head tail =>
      obtain ⟨u,before,after⟩ := ih tail
      exact ⟨u,.cons head before,after⟩

theorem single {s t : State} {label : Label} (h : step s label t) : Run step s [label] t :=
  .cons h (.nil t)

/-- Of a deterministic relation the labels fix the run. -/
theorem deterministic (same : ∀ s label t u, step s label t → step s label u → t = u) {s t u : State}
    {labels : List Label} (first : Run step s labels t) (second : Run step s labels u) : t = u := by
  induction first with
  | nil =>
    cases second
    rfl
  | cons head _ ih =>
    cases second with
    | cons head' tail' =>
      rw [same _ _ _ _ head head'] at ih
      exact ih tail'

theorem weaken (weaker : ∀ s label t, step s label t → other s label t) {s t : State}
    {labels : List Label} (run : Run step s labels t) : Run other s labels t := by
  induction run with
  | nil => exact .nil _
  | cons head _ ih => exact .cons (weaker _ _ _ head) ih

/-- What every step preserves holds at the end of every run. -/
theorem invariant (inv : State → Prop)
    (keep : ∀ s label t, inv s → step s label t → inv t) {s t : State} {labels : List Label}
    (run : Run step s labels t) (start : inv s) : inv t := by
  induction run with
  | nil s => exact start
  | cons head _ ih =>
    have middle := keep _ _ _ start head
    exact ih middle

/-- What all steps but some preserve holds at the end of the runs without those. -/
theorem invariant_without (inv : State → Prop) (breaks : Label → Prop)
    (keep : ∀ s label t, inv s → ¬ breaks label → step s label t → inv t) {s t : State}
    {labels : List Label} (run : Run step s labels t) (none : ∀ label ∈ labels, ¬ breaks label)
    (start : inv s) : inv t := by
  induction run with
  | nil => exact start
  | cons head _ ih =>
    obtain ⟨first,rest⟩ := List.forall_mem_cons.mp none
    exact ih rest (keep _ _ _ start first head)

/-- What some steps establish and all preserve holds at the end of the runs with one of those. -/
theorem invariant_after (inv : State → Prop) (brings : Label → Prop)
    (keep : ∀ s label t, inv s → step s label t → inv t)
    (establish : ∀ s label t, brings label → step s label t → inv t) {s t : State}
    {labels : List Label} (run : Run step s labels t) (some : ∃ label ∈ labels, brings label) :
    inv t := by
  obtain ⟨label,member,brought⟩ := some
  obtain ⟨before,after,rfl⟩ := List.append_of_mem member
  obtain ⟨middle,_,rest⟩ := run.split
  cases rest with
  | cons head tail => exact tail.invariant inv keep (establish _ _ _ brought head)

/-- Where a condition decides step by step whether the invariant is kept, the runs that
meet the condition are the runs in which the invariant holds throughout. -/
theorem guarded_iff (inv : State → Prop) (ok : State → Label → Prop)
    (exact : ∀ s label t, inv s → step s label t → (ok s label ↔ inv t)) {s t : State}
    {labels : List Label} (start : inv s) :
    Run (Guarded ok step) s labels t ↔ Run (fun s label t => step s label t ∧ inv t) s labels t := by
  constructor
  · intro run
    induction run with
    | nil => exact .nil _
    | cons head _ ih =>
      have middle := (exact _ _ _ start head.2).mp head.1
      exact .cons ⟨head.2,middle⟩ (ih middle)
  · intro run
    induction run with
    | nil => exact .nil _
    | cons head _ ih => exact .cons ⟨(exact _ _ _ start head.1).mpr head.2,head.1⟩ (ih head.2)

/-- A fact that every step preserves can be added to each step of a run. -/
theorem along (inv : State → Prop) (keep : ∀ s label t, inv s → step s label t → inv t) {s t : State}
    {labels : List Label} (run : Run step s labels t) (start : inv s) :
    Run (fun s label t => step s label t ∧ inv t) s labels t := by
  induction run with
  | nil => exact .nil _
  | cons head _ ih =>
    have middle := keep _ _ _ start head
    exact .cons ⟨head,middle⟩ (ih middle)

/-- What the invariant says of a step holds of every step of a run. -/
theorem strengthen (inv : State → Prop) (keep : ∀ s label t, inv s → step s label t → inv t)
    (tells : ∀ s label t, inv s → step s label t → other s label t) {s t : State}
    {labels : List Label} (run : Run step s labels t) (start : inv s) : Run other s labels t := by
  induction run with
  | nil => exact .nil _
  | cons head _ ih =>
    have middle := keep _ _ _ start head
    exact .cons (tells _ _ _ start head) (ih middle)

/-- Where each step has a run of another relation that keeps the states related and shows the same
to an observer, so has each run. -/
theorem simulate_shown {State' : Type*} {Label' : Type*} {Shown : Type*}
    {step' : State' → Label' → State' → Prop} (shows : Label → List Shown)
    (shows' : Label' → List Shown) (related : State → State' → Prop)
    (follow : ∀ s label t s', related s s' → step s label t → ∃ labels' t',
      Run step' s' labels' t' ∧ related t t' ∧ labels'.flatMap shows' = shows label) {s t : State}
    {labels : List Label} (run : Run step s labels t) {s' : State'} (start : related s s') :
    ∃ labels' t', Run step' s' labels' t' ∧ related t t' ∧
      labels'.flatMap shows' = labels.flatMap shows := by
  induction run generalizing s' with
  | nil => exact ⟨[],s',.nil s',start,rfl⟩
  | cons head _ ih =>
    obtain ⟨first,middle,run',reached,shown⟩ := follow _ _ _ _ start head
    obtain ⟨rest,last,run'',final,shown'⟩ := ih reached
    refine ⟨first ++ rest,last,run'.append run'',final,?_⟩
    rw [List.flatMap_append,List.flatMap_cons,shown,shown']

theorem simulate {State' : Type*} {Label' : Type*} {step' : State' → Label' → State' → Prop}
    (related : State → State' → Prop)
    (follow : ∀ s label t s', related s s' → step s label t →
      ∃ labels' t', Run step' s' labels' t' ∧ related t t') {s t : State} {labels : List Label}
    (run : Run step s labels t) {s' : State'} (start : related s s') :
    ∃ labels' t', Run step' s' labels' t' ∧ related t t' := by
  obtain ⟨labels',t',run',reached,_⟩ := run.simulate_shown (fun _ => ([] : List Unit)) (fun _ => [])
    related (fun s label t s' start head => by
      obtain ⟨first,middle,run',reached⟩ := follow s label t s' start head
      exact ⟨first,middle,run',reached,by simp⟩) start
  exact ⟨labels',t',run',reached⟩

/-- `guarded_iff` where a second invariant, which every step keeps, helps to decide. -/
theorem guarded_iff_of_kept (inv good : State → Prop) (ok : State → Label → Prop)
    (keep : ∀ s label t, inv s → step s label t → inv t)
    (exact : ∀ s label t, inv s → good s → step s label t → (ok s label ↔ good t)) {s t : State}
    {labels : List Label} (start : inv s) (start' : good s) :
    Run (Guarded ok step) s labels t ↔ Run (fun s label t => step s label t ∧ good t) s labels t := by
  have both : ∀ s label t, inv s ∧ good s → step s label t → (ok s label ↔ inv t ∧ good t) := by
    intro s label t holds h
    rw [exact s label t holds.1 holds.2 h,and_iff_right (keep s label t holds.1 h)]
  rw [guarded_iff _ ok both ⟨start,start'⟩]
  constructor
  · exact weaken fun s label t h => ⟨h.1,h.2.2⟩
  · intro run
    have kept := run.along inv (fun s label t holds h => keep s label t holds h.1) start
    exact kept.weaken fun s label t h => ⟨h.1.1,h.2,h.1.2⟩

/-- Two conditions that agree wherever an invariant holds allow the same runs. -/
theorem guarded_congr (inv : State → Prop) (ok ok' : State → Label → Prop)
    (keep : ∀ s label t, inv s → step s label t → inv t)
    (same : ∀ s label t, inv s → step s label t → (ok s label ↔ ok' s label)) {s t : State}
    {labels : List Label} (start : inv s) :
    Run (Guarded ok step) s labels t ↔ Run (Guarded ok' step) s labels t := by
  constructor
  · intro run
    induction run with
    | nil => exact .nil _
    | cons head _ ih =>
      have middle := keep _ _ _ start head.2
      exact .cons ⟨(same _ _ _ start head.2).mp head.1,head.2⟩ (ih middle)
  · intro run
    induction run with
    | nil => exact .nil _
    | cons head _ ih =>
      have middle := keep _ _ _ start head.2
      exact .cons ⟨(same _ _ _ start head.2).mpr head.1,head.2⟩ (ih middle)

/-- Where a label fixes what its step does, a condition on each step of a run is one on the
labels before it, replayed from the start. -/
theorem replay_iff (effect : State → Label → State)
    (replays : ∀ s label t, step s label t → t = effect s label) (ok : State → Label → Prop)
    {s t : State} {labels : List Label} (run : Run step s labels t) :
    (∀ before label after, labels = before ++ label :: after → ok (before.foldl effect s) label) ↔
      Run (Guarded ok step) s labels t := by
  induction run with
  | nil =>
    refine ⟨fun _ => .nil _,fun _ before label after split => ?_⟩
    exact absurd split (by simp)
  | @cons s middle _ label labels head _ ih =>
    have first := replays _ _ _ head
    constructor
    · intro all
      refine .cons ⟨all [] label labels rfl,head⟩ (ih.mp fun before other after split => ?_)
      rw [first]
      exact all (label :: before) other after (by rw [split,List.cons_append])
    · intro guarded before other after split
      cases guarded with
      | cons first' rest =>
        cases before with
        | nil =>
          cases split
          exact first'.1
        | cons label' before =>
          cases split
          rw [replays _ _ _ first'.2] at rest
          rw [first] at ih
          exact ih.mpr rest before other after rfl

/-- Of a functional relation there is one run to a state from which there is no step. -/
theorem unique_of_stuck (same : ∀ s label t label' t', step s label t → step s label' t' →
    label = label' ∧ t = t') {s t u : State} {labels labels' : List Label}
    (first : Run step s labels t) (second : Run step s labels' u)
    (stuck : ∀ label v, ¬ step t label v) (stuck' : ∀ label v, ¬ step u label v) :
    labels = labels' ∧ t = u := by
  induction first generalizing labels' with
  | nil =>
    cases second with
    | nil => exact ⟨rfl,rfl⟩
    | cons head _ => exact absurd head (stuck _ _)
  | cons head _ ih =>
    cases second with
    | nil => exact absurd head (stuck' _ _)
    | cons head' tail' =>
      obtain ⟨rfl,rfl⟩ := same _ _ _ _ _ head head'
      obtain ⟨rfl,rfl⟩ := ih tail' stuck
      exact ⟨rfl,rfl⟩

end Run
end Cki
