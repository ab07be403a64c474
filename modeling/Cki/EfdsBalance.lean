import Cki.EfdsHooks

/-! The references a container takes to eventfds, and the hooks it leaves. A second
installation on a queue overwrites the only record of the first. -/
namespace Cki.Efds

open Ledger Virtio Create

/-! From the creation to the release. -/

/-- The container is as its creation has returned it, and nothing is recorded of it yet. -/
structure Created (s : State) : Prop where
  made : ∃ env memory r k k', pkmDevIoctlCreateCntr env memory k = .ret (r,some s.cntr) k'
  log : eventfds s.kmod.log = []
  waits : Hooked s.waits fun _ => none

theorem Created.whole {s : State} (created : Created s) : ∃ memory, s.cntr.Whole memory := by
  obtain ⟨env,memory,r,k,k',made⟩ := created.made
  exact ⟨_,create_whole made⟩

theorem Created.built {s : State} (created : Created s) : Built s.cntr := by
  obtain ⟨memory,whole⟩ := created.whole
  exact ⟨whole.bootPgtbl,whole.bootParams⟩

theorem Created.queues {s : State} (created : Created s) (i : Fin pkmVirtioNetQueueNum) :
    (s.cntr.virtioNet.queues i).kick = none ∧ (s.cntr.virtioNet.queues i).call = none := by
  obtain ⟨memory,whole⟩ := created.whole
  rw [whole.virtioNet]
  exact ⟨rfl,rfl⟩

theorem Created.accounted {s : State} (created : Created s) : Accounted s [] [] := by
  have pairs : ∀ i, pairOf s.cntr.virtioNet i = [] := by
    intro i
    rw [pairOf,(created.queues i).1,(created.queues i).2]
    rfl
  refine ⟨?_,fun i => iff_of_true (pairs i) List.not_mem_nil,iff_of_true rfl .nil⟩
  rw [created.log,recorded,pairs,pairs]
  exact holds_nil

theorem run_built {s t : State} {envs : List EfdsEnv} (run : Run EfdsStep s envs t)
    (built : Built s.cntr) : Built t.cntr := by
  refine run.invariant (fun s => Built s.cntr) ?_ built
  rintro s env t built ⟨r,returns⟩
  rcases setVringEfds_spec env s with ⟨pair,t',_,ends,installs⟩ | ⟨_,r',t',ends,fails⟩
  · rw [ends] at returns
    cases returns
    rw [installs.cntr]
    exact ⟨built.bootPgtbl,built.bootParams⟩
  · rw [ends] at returns
    cases returns
    rw [fails.cntr]
    exact built

theorem releaseSteps_puts (cntr : Cntr) :
    releaseSteps.flatMap (·.puts cntr) = recorded cntr.virtioNet := by
  simp [releaseSteps,deinitSteps,ReleaseStep.puts,recorded,pairOf]

/-- A release returns and leaves exactly the references whose record was lost. -/
theorem release_accounts {s t : State} {envs : List EfdsEnv} (created : Created s)
    (run : Run EfdsStep s envs t) : ∃ u lost, pkmCntrRelease t = .ret () u ∧
      Holds (eventfds u.kmod.log) lost ∧ (lost = [] ↔ SetOnce envs) ∧
      u.waits = releaseSteps.foldl (ReleaseStep.unhooks t.cntr) t.waits := by
  obtain ⟨lost,accounted⟩ := run_accounted run created.accounted
  rw [List.append_nil] at accounted
  obtain ⟨u,returns,log,waits⟩ := runSteps_ret (run_built run created.built) releaseSteps t
  refine ⟨u,lost,returns,?_,accounted.lost.trans (queuesSet envs).reverse_perm.nodup_iff,waits⟩
  rw [log,releaseSteps_puts]
  exact accounted.holds.releases

/-- After a release every reference is dropped once and no hook is left exactly where no
queue had its eventfds set twice. -/
theorem release_balanced_iff {s t : State} {envs : List EfdsEnv} (created : Created s)
    (run : Run EfdsStep s envs t) : ∃ u, pkmCntrRelease t = .ret () u ∧
      ((Balanced (eventfds u.kmod.log) ∧
          ∀ ctx i, ¬ u.waits.Reaches (.head ctx) (.wait i)) ↔ SetOnce envs) := by
  obtain ⟨u,lost,returns,holds,once,waits⟩ := release_accounts created run
  refine ⟨u,returns,?_⟩
  constructor
  · rintro ⟨balanced,_⟩
    apply once.mp
    cases lost with
    | nil => rfl
    | cons ctx rest => exact absurd balanced holds.not_balanced
  · intro set
    rw [once.mpr set] at holds
    refine ⟨(balanced_iff_holds _).mpr holds,fun ctx i reached => ?_⟩
    have recorded : Recorded s.cntr fun _ => none := fun i =>
      iff_of_true (created.queues i).2 rfl
    obtain ⟨hooked,recorded'⟩ := run_hooked run created.waits recorded (fun _ _ => rfl) set
    rw [← hooksLeft_releaseSteps (envs.foldl _ _)] at hooked
    have off := foldl_unhooks_hooked recorded' releaseSteps releaseSteps_nodup _ hooked
    rw [← waits] at off
    have hook := (off.reach ctx i).mp reached
    cases hook

/-! A container that a kernel which grants everything has made. -/

def granted : Cntr :=
  match pkmDevIoctlCreateCntr grants blankCntr ⟨[],pkmCntrMinPcid⟩ with
  | .ret (_,some cntr) _ => cntr
  | _ => blankCntr

/-- All nodes are rings of their own. -/
def fresh : State := ⟨granted,⟨[],pkmCntrMinPcid⟩,⟨id,id⟩⟩

theorem alone_hooked : Hooked ⟨id,id⟩ fun _ => none := by
  have alone : ∀ a b : Waiter, Links.Reaches ⟨id,id⟩ a b → a = b := by
    intro a b reached
    induction reached with
    | refl => rfl
    | tail _ step ih => exact ih.trans step
  refine ⟨⟨fun _ all => all,fun _ all => all,fun _ _ => rfl,fun _ _ => rfl⟩,?_,?_⟩
  · intro ctx i
    refine iff_of_false (fun reached => ?_) nofun
    cases alone _ _ reached
  · intro ctx other reached
    cases alone _ _ reached
    rfl

theorem fresh_created : Created fresh := by
  obtain ⟨k',made⟩ : ∃ k', pkmDevIoctlCreateCntr grants blankCntr ⟨[],pkmCntrMinPcid⟩ =
      .ret (3,some granted) k' := ⟨_,rfl⟩
  exact ⟨⟨grants,blankCntr,3,⟨[],pkmCntrMinPcid⟩,k',made⟩,rfl,alone_hooked⟩

/-- A request for queue 0 that finds these eventfds. -/
def installing (kick call : Eventfd) : EfdsEnv :=
  ⟨some ⟨0,4,5⟩,fun _ => .ok kick,fun _ => .ok call,fun _ => .ok call⟩

theorem installing_run (kick call : Eventfd) (s : State) :
    ∃ t, EfdsStep s (installing kick call) t := ⟨_,0,rfl⟩

theorem set_once_balanced : ∃ t u, Run EfdsStep fresh [installing 0x10 0x20] t ∧
    pkmCntrRelease t = .ret () u ∧ Balanced (eventfds u.kmod.log) ∧
    ∀ ctx i, ¬ u.waits.Reaches (.head ctx) (.wait i) := by
  obtain ⟨t,step⟩ := installing_run 0x10 0x20 fresh
  obtain ⟨u,returns,iff⟩ := release_balanced_iff fresh_created (.single step)
  exact ⟨t,u,.single step,returns,iff.mpr (by decide)⟩

/-- The eventfds that a queue had before are not put. -/
theorem set_twice_leaks : ¬ ∀ (s t : State) (envs : List EfdsEnv), Created s →
    Run EfdsStep s envs t → ∃ u, pkmCntrRelease t = .ret () u ∧ Balanced (eventfds u.kmod.log) ∧
      ∀ ctx i, ¬ u.waits.Reaches (.head ctx) (.wait i) := by
  intro claim
  obtain ⟨t,first⟩ := installing_run 0x10 0x20 fresh
  obtain ⟨t',second⟩ := installing_run 0x30 0x40 t
  have run := Run.cons first (.single second)
  obtain ⟨u,returns,balanced,_⟩ := claim fresh t' _ fresh_created run
  obtain ⟨u',lost,returns',holds,once,_⟩ := release_accounts fresh_created run
  rw [returns] at returns'
  cases returns'
  cases lost with
  | nil => exact absurd (once.mp rfl) (by decide)
  | cons ctx rest => exact holds.not_balanced balanced

end Cki.Efds
