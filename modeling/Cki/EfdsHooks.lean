import Cki.EfdsSteps

/-! The hooks of a container's queues on the wait queues of eventfds. As long as no queue is
hooked twice, each hook lies on the one wait queue that its queue records. -/
namespace Cki.Efds

open Ledger Virtio Create

/-- The wait queues are rings with one head each, and the hook of queue `i` lies on the one of
the eventfd `on i`. -/
structure Hooked (waits : Links Waiter) (on : Fin pkmVirtioNetQueueNum → Option Eventfd) : Prop where
  closed : waits.Closed fun waiter => ∀ i, waiter = .wait i → on i ≠ none
  reach : ∀ ctx i, waits.Reaches (.head ctx) (.wait i) ↔ on i = some ctx
  apart : ∀ ctx other, waits.Reaches (.head ctx) (.head other) → ctx = other

theorem Hooked.hook {waits : Links Waiter} {on : Fin pkmVirtioNetQueueNum → Option Eventfd}
    (hooked : Hooked waits on) {i : Fin pkmVirtioNetQueueNum} (free : on i = none) (ctx : Eventfd) :
    Hooked (waits.add (.wait i) (.head ctx)) (Function.update on i (some ctx)) := by
  have behind : ∀ j, Waiter.head ctx = .wait j → on j ≠ none := nofun
  have new : ¬ ∀ j, Waiter.wait i = .wait j → on j ≠ none := fun all => all i rfl free
  have added := fun (a b : Waiter) start =>
    Links.reaches_add_iff (a := a) (b := b) hooked.closed behind new start
  refine ⟨(hooked.closed.add behind new).congr ?_,?_,?_⟩
  · intro waiter
    constructor
    · rintro (old | rfl) j same
      · subst same
        by_cases own : j = i
        · rw [own,Function.update_self]
          exact Option.some_ne_none ctx
        · rw [Function.update_of_ne own]
          exact old j rfl
      · rw [← Waiter.wait.inj same,Function.update_self]
        exact Option.some_ne_none ctx
    · intro all
      by_cases own : waiter = .wait i
      · exact .inr own
      · refine .inl fun j same => ?_
        have apart : j ≠ i := by
          rintro rfl
          exact own same
        have hook := all j same
        rwa [Function.update_of_ne apart] at hook
  · intro other j
    rw [added (.head other) (.wait j) nofun]
    by_cases own : j = i
    · subst own
      rw [Function.update_self]
      constructor
      · rintro (⟨inside,_⟩ | ⟨_,reached⟩)
        · exact absurd inside new
        · rw [hooked.apart _ _ reached]
      · intro same
        rw [Option.some.inj same]
        exact .inr ⟨rfl,.refl⟩
    · rw [Function.update_of_ne own,hooked.reach]
      constructor
      · rintro (⟨_,on_j⟩ | ⟨same,_⟩)
        · exact on_j
        · exact absurd (Waiter.wait.inj same) own
      · intro on_j
        refine .inl ⟨?_,on_j⟩
        rintro k same
        rw [← Waiter.wait.inj same,on_j]
        exact Option.some_ne_none other
  · intro first second reached
    rcases (added (.head first) (.head second) nofun).mp reached with ⟨_,old⟩ | ⟨same,_⟩
    · exact hooked.apart _ _ old
    · cases same

theorem Hooked.unhook {waits : Links Waiter} {on : Fin pkmVirtioNetQueueNum → Option Eventfd}
    (hooked : Hooked waits on) {i : Fin pkmVirtioNetQueueNum} (hook : on i ≠ none) :
    Hooked (waits.del (.wait i)) (Function.update on i none) := by
  have inside : ∀ j, Waiter.wait i = .wait j → on j ≠ none := by
    intro j same
    rwa [← Waiter.wait.inj same]
  have left := fun (ctx : Eventfd) (b : Waiter) =>
    Links.reaches_del_iff (a := .head ctx) (b := b) hooked.closed inside nofun nofun
  refine ⟨(hooked.closed.del inside).congr ?_,?_,?_⟩
  · intro waiter
    constructor
    · rintro ⟨old,other⟩ j rfl
      have apart : j ≠ i := fun same => other (by rw [same])
      rw [Function.update_of_ne apart]
      exact old j rfl
    · intro all
      constructor
      · intro j same
        by_cases own : j = i
        · rw [own]
          exact hook
        · have kept := all j same
          rwa [Function.update_of_ne own] at kept
      · rintro rfl
        exact all i rfl (Function.update_self ..)
  · intro ctx j
    rw [left,hooked.reach]
    by_cases own : j = i
    · simp [own]
    · rw [Function.update_of_ne own]
      simp [own]
  · intro ctx other reached
    exact hooked.apart _ _ ((left ctx _).mp reached).1

/-- Where the hooks lie after a call. -/
def hookAfter (on : Fin pkmVirtioNetQueueNum → Option Eventfd) (env : EfdsEnv) :
    Fin pkmVirtioNetQueueNum → Option Eventfd :=
  match env.installs with
  | none => on
  | some pair => Function.update on pair.queue (some pair.file)

def hooksAfter (envs : List EfdsEnv) : Fin pkmVirtioNetQueueNum → Option Eventfd :=
  envs.foldl hookAfter fun _ => none

/-- The queues that record an eventfd are those with a hook. -/
def Recorded (cntr : Cntr) (on : Fin pkmVirtioNetQueueNum → Option Eventfd) : Prop :=
  ∀ i, (cntr.virtioNet.queues i).call = none ↔ on i = none

theorem step_hooked {s t : State} {env : EfdsEnv} {on : Fin pkmVirtioNetQueueNum → Option Eventfd}
    (hooked : Hooked s.waits on) (recorded : Recorded s.cntr on) (step : EfdsStep s env t)
    (free : ∀ pair, env.installs = some pair → on pair.queue = none) :
    Hooked t.waits (hookAfter on env) ∧ Recorded t.cntr (hookAfter on env) := by
  obtain ⟨r,returns⟩ := step
  rcases setVringEfds_spec env s with ⟨pair,t',found,ends,installs⟩ | ⟨found,r',t',ends,fails⟩
  · rw [ends] at returns
    cases returns
    simp only [hookAfter,found]
    constructor
    · rw [installs.waits]
      exact hooked.hook (free pair found) pair.file
    · intro i
      rw [installs.queues]
      by_cases own : i = pair.queue
      · simp [own]
      · rw [if_neg own,Function.update_of_ne own]
        exact recorded i
  · rw [ends] at returns
    cases returns
    simp only [hookAfter,found]
    rw [fails.waits,fails.cntr]
    exact ⟨hooked,recorded⟩

theorem run_hooked {s t : State} {envs : List EfdsEnv} (run : Run EfdsStep s envs t)
    {on : Fin pkmVirtioNetQueueNum → Option Eventfd} (hooked : Hooked s.waits on)
    (recorded : Recorded s.cntr on) (free : ∀ i ∈ queuesSet envs, on i = none)
    (once : SetOnce envs) :
    Hooked t.waits (envs.foldl hookAfter on) ∧ Recorded t.cntr (envs.foldl hookAfter on) := by
  induction run generalizing on with
  | nil => exact ⟨hooked,recorded⟩
  | @cons s u t env envs head _ ih =>
    rw [SetOnce,queuesSet_cons] at once
    rw [queuesSet_cons] at free
    have fresh : ∀ pair, env.installs = some pair → on pair.queue = none := by
      intro pair found
      rw [found] at free
      exact free _ List.mem_cons_self
    obtain ⟨hooked',recorded'⟩ := step_hooked hooked recorded head fresh
    refine ih hooked' recorded' ?_ (List.nodup_append.mp once).2.1
    intro i later
    have old := free i (List.mem_append_right _ later)
    cases found : env.installs with
    | none =>
      rw [hookAfter,found]
      exact old
    | some pair =>
      have apart : i ≠ pair.queue := by
        rintro rfl
        rw [found] at once
        exact (List.nodup_cons.mp once).1 later
      simp only [hookAfter,found]
      rw [Function.update_of_ne apart]
      exact old

/-- The hooks that are still to be taken off. -/
def hooksLeft (on : Fin pkmVirtioNetQueueNum → Option Eventfd) (steps : List ReleaseStep) :
    Fin pkmVirtioNetQueueNum → Option Eventfd :=
  fun i => if .removeWaitQueue i ∈ steps then on i else none

theorem hooksLeft_other {on : Fin pkmVirtioNetQueueNum → Option Eventfd} {step : ReleaseStep}
    {rest : List ReleaseStep} (other : ∀ i, step ≠ .removeWaitQueue i) :
    hooksLeft on (step :: rest) = hooksLeft on rest := by
  funext i
  simp only [hooksLeft,List.mem_cons,(other i).symm,false_or]

/-- One step of the release and the hooks. -/
theorem unhooks_hooked {cntr : Cntr} {waits : Links Waiter}
    {on : Fin pkmVirtioNetQueueNum → Option Eventfd} {step : ReleaseStep} {rest : List ReleaseStep}
    (recorded : Recorded cntr on) (once : step ∉ rest)
    (hooked : Hooked waits (hooksLeft on (step :: rest))) :
    Hooked (step.unhooks cntr waits) (hooksLeft on rest) := by
  cases step with
  | removeWaitQueue i =>
    have left : Function.update (hooksLeft on (.removeWaitQueue i :: rest)) i none =
        hooksLeft on rest := by
      funext j
      by_cases own : j = i
      · subst own
        rw [Function.update_self,hooksLeft,if_neg once]
      · rw [Function.update_of_ne own]
        simp [hooksLeft,own]
    have here : hooksLeft on (.removeWaitQueue i :: rest) i = on i := if_pos List.mem_cons_self
    rw [ReleaseStep.unhooks]
    by_cases call : (cntr.virtioNet.queues i).call = none
    · rw [if_pos call,← left]
      rw [(recorded i).mp call] at here
      rw [← here,Function.update_eq_self]
      exact hooked
    · rw [if_neg call,← left]
      apply hooked.unhook
      rw [here]
      exact mt (recorded i).mpr call
  | _ =>
    rw [hooksLeft_other (by simp)] at hooked
    exact hooked

theorem foldl_unhooks_hooked {cntr : Cntr} {on : Fin pkmVirtioNetQueueNum → Option Eventfd}
    (recorded : Recorded cntr on) (steps : List ReleaseStep) (once : steps.Nodup)
    (waits : Links Waiter) (hooked : Hooked waits (hooksLeft on steps)) :
    Hooked (steps.foldl (ReleaseStep.unhooks cntr) waits) (hooksLeft on []) := by
  induction steps generalizing waits with
  | nil => exact hooked
  | cons step rest ih =>
    obtain ⟨apart,once⟩ := List.nodup_cons.mp once
    exact ih once _ (unhooks_hooked recorded apart hooked)

theorem releaseSteps_nodup : releaseSteps.Nodup := by decide

theorem hooksLeft_releaseSteps (on : Fin pkmVirtioNetQueueNum → Option Eventfd) :
    hooksLeft on releaseSteps = on := by
  have all : ∀ i, .removeWaitQueue i ∈ releaseSteps := by decide
  funext i
  exact if_pos (all i)

end Cki.Efds
