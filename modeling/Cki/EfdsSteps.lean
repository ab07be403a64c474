import Cki.CreateWhole
import Cki.Efds

/-! What the calls on the eventfds of a container take and give back, call by call and step
by step of the release. -/
namespace Cki.Efds

open Ledger Virtio Create

/-! One call. -/

/-- The part of a log that is about eventfds. -/
def eventfds (log : List (Action Resource)) : List (Action Eventfd) :=
  log.filterMap fun
    | .acquire (.eventfd ctx) => some (.acquire ctx)
    | .release (.eventfd ctx) => some (.release ctx)
    | _ => none

/-- What a call installs: the eventfds for a queue, and the one whose wait queue gets its
hook. -/
structure Pair where
  queue : Fin pkmVirtioNetQueueNum
  kick : Eventfd
  call : Eventfd
  file : Eventfd
  deriving DecidableEq, Repr

def EfdsEnv.installs (env : EfdsEnv) : Option Pair :=
  match env.args with
  | none => none
  | some kefds =>
    if bound : kefds.idx.toNat < pkmVirtioNetQueueNum then
      match env.kick kefds.kick, env.call kefds.call, env.file kefds.call with
      | .ok kick, .ok call, .ok file => some ⟨⟨kefds.idx.toNat,bound⟩,kick,call,file⟩
      | _, _, _ => none
    else none

/-- The device as an installation leaves it. -/
def Pair.install (pair : Pair) (virtio : VirtioNet) : VirtioNet :=
  { virtio with queues := fun i =>
      if i = pair.queue then
        { virtio.queues i with kick := some pair.kick, call := some pair.call }
      else virtio.queues i }

structure Installs (s t : State) (pair : Pair) : Prop where
  cntr : t.cntr = { s.cntr with virtioNet := pair.install s.cntr.virtioNet }
  log : eventfds t.kmod.log = eventfds s.kmod.log ++ [.acquire pair.kick] ++ [.acquire pair.call]
  waits : t.waits = s.waits.add (.wait pair.queue) (.head pair.file)

/-- A call that installs nothing gives back what it has taken. -/
structure Fails (s t : State) : Prop where
  cntr : t.cntr = s.cntr
  log : ∀ held, Holds (eventfds s.kmod.log) held → Holds (eventfds t.kmod.log) held
  waits : t.waits = s.waits

/-- The call as a step. -/
def EfdsStep (s : State) (env : EfdsEnv) (t : State) : Prop :=
  ∃ r, pkmCntrIoctlSetVringEfds env s = .ret r t

theorem eventfds_append (first second : List (Action Resource)) :
    eventfds (first ++ second) = eventfds first ++ eventfds second := List.filterMap_append

/-- A call returns, and installs the pair it finds or leaves everything as it was. -/
theorem setVringEfds_spec (env : EfdsEnv) (s : State) :
    (∃ pair t, env.installs = some pair ∧ pkmCntrIoctlSetVringEfds env s = .ret 0 t ∧
      Installs s t pair) ∨
    (env.installs = none ∧ ∃ r t, pkmCntrIoctlSetVringEfds env s = .ret r t ∧ Fails s t) := by
  cases args : env.args with
  | none =>
    refine .inr ⟨?_,-efault,s,?_,rfl,fun _ holds => holds,rfl⟩
    · simp only [EfdsEnv.installs,args]
    · simp only [pkmCntrIoctlSetVringEfds,args]
      rfl
  | some kefds =>
    by_cases bound : kefds.idx.toNat < pkmVirtioNetQueueNum
    · simp only [EfdsEnv.installs,pkmCntrIoctlSetVringEfds,args,dif_pos bound]
      cases first : env.kick kefds.kick with
      | error r => exact .inr ⟨rfl,r,s,rfl,rfl,fun _ holds => holds,rfl⟩
      | ok kick =>
        cases second : env.call kefds.call with
        | error r =>
          refine .inr ⟨rfl,r,_,rfl,rfl,?_,rfl⟩
          intro held holds
          dsimp only
          rw [eventfds_append,eventfds_append]
          exact (holds.acquire kick).release
        | ok call =>
          cases third : env.file kefds.call with
          | error r =>
            refine .inr ⟨rfl,r,_,rfl,rfl,?_,rfl⟩
            intro held holds
            dsimp only
            rw [eventfds_append,eventfds_append,eventfds_append,eventfds_append]
            exact ((holds.acquire kick).acquire call).release.release
          | ok file =>
            refine .inl ⟨_,_,rfl,rfl,?_,?_,rfl⟩
            · dsimp only
              simp only [Pair.install,setVringEfds,Fin.ext_iff]
            · dsimp only
              rw [eventfds_append,eventfds_append]
              rfl
    · refine .inr ⟨?_,-einval,s,?_,rfl,fun _ holds => holds,rfl⟩
      · simp only [EfdsEnv.installs,args,dif_neg bound]
      · simp only [pkmCntrIoctlSetVringEfds,args,dif_neg bound]
        rfl

/-! The steps of the release. -/

/-- The eventfds a step puts. -/
def ReleaseStep.puts (cntr : Cntr) : ReleaseStep → List Eventfd
  | .putKick i => (cntr.virtioNet.queues i).kick.toList
  | .putCall i => (cntr.virtioNet.queues i).call.toList
  | _ => []

def ReleaseStep.unhooks (cntr : Cntr) (waits : Links Waiter) : ReleaseStep → Links Waiter
  | .removeWaitQueue i => if (cntr.virtioNet.queues i).call = none then waits else waits.del (.wait i)
  | _ => waits

/-- A container whose parts a release can follow the pointers of. -/
structure Built (cntr : Cntr) : Prop where
  bootPgtbl : cntr.bootPgtbl ≠ none
  bootParams : cntr.bootParams ≠ none

/-- A part of the release that returns and puts these eventfds. -/
def Puts (c : Call Kmod Unit) (ctxs : List Eventfd) : Prop :=
  ∀ k, ∃ k', c k = .ret () k' ∧ eventfds k'.log = eventfds k.log ++ ctxs.map .release

theorem release_puts {resource : Resource} (other : eventfds [.release resource] = []) :
    Puts (release resource) [] := by
  intro k
  refine ⟨_,rfl,?_⟩
  rw [eventfds_append,other]
  rfl

theorem puts_bind {c d : Call Kmod Unit} {ctxs ctxs' : List Eventfd} (first : Puts c ctxs)
    (second : Puts d ctxs') : Puts (c >>= fun _ => d) (ctxs ++ ctxs') := by
  intro k
  obtain ⟨k',ends,log⟩ := first k
  obtain ⟨k'',ends',log'⟩ := second k'
  refine ⟨k'',?_,?_⟩
  · rw [Call.ret_bind ends,ends']
  · rw [log',log,List.append_assoc,← List.map_append]

theorem freeBootPgtbl_puts {bootPgtbl : Option BootPgtbl} (built : bootPgtbl ≠ none) :
    Puts (Create.freeBootPgtbl bootPgtbl) [] := by
  obtain ⟨bootPgtbl,rfl⟩ := Option.ne_none_iff_exists'.mp built
  exact puts_bind (release_puts rfl) (release_puts rfl)

theorem freeBootParams_puts {bootParams : Option BootParams} (built : bootParams ≠ none) :
    Puts (Create.freeBootParams bootParams) [] := by
  obtain ⟨bootParams,rfl⟩ := Option.ne_none_iff_exists'.mp built
  exact puts_bind (release_puts rfl) (release_puts rfl)

theorem freeCpus_puts (cpus : Option Word) : Puts (Create.freeCpus cpus) [] := by
  cases cpus with
  | none => exact fun k => ⟨k,rfl,(List.append_nil _).symm⟩
  | some addr => exact release_puts rfl

theorem putEventfd_puts (ctx : Option Eventfd) : Puts (putEventfd ctx) ctx.toList := by
  intro k
  cases ctx with
  | none => exact ⟨k,rfl,(List.append_nil _).symm⟩
  | some ctx => exact ⟨_,rfl,eventfds_append _ _⟩

/-- What one step of the release does. -/
structure Released (cntr : Cntr) (step : ReleaseStep) (s t : State) : Prop where
  same : t.cntr = s.cntr
  log : eventfds t.kmod.log = eventfds s.kmod.log ++ (step.puts cntr).map .release
  waits : t.waits = step.unhooks cntr s.waits

theorem onKmod_released {cntr : Cntr} {step : ReleaseStep} {c : Call Kmod Unit}
    (puts : Puts c (step.puts cntr)) (hooks : ∀ waits, step.unhooks cntr waits = waits) (s : State) :
    ∃ t, onKmod c s = .ret () t ∧ Released cntr step s t := by
  obtain ⟨k,ends,log⟩ := puts s.kmod
  refine ⟨{ s with kmod := k },?_,rfl,log,(hooks _).symm⟩
  rw [onKmod,ends]

theorem ReleaseStep.run_released {cntr : Cntr} (built : Built cntr) (step : ReleaseStep) (s : State) :
    ∃ t, step.run cntr s = .ret () t ∧ Released cntr step s t := by
  cases step with
  | putMemHpage | putMem2Hpage | putInitrdHpage | freeCntr =>
    rw [ReleaseStep.run]
    refine onKmod_released ?_ ?_ s
    · exact release_puts rfl
    · exact fun _ => rfl
  | freeBootPgtbl => exact onKmod_released (freeBootPgtbl_puts built.bootPgtbl) (fun _ => rfl) s
  | freeBootParams => exact onKmod_released (freeBootParams_puts built.bootParams) (fun _ => rfl) s
  | freeCpus => exact onKmod_released (freeCpus_puts _) (fun _ => rfl) s
  | putKick i | putCall i => exact onKmod_released (putEventfd_puts _) (fun _ => rfl) s
  | removeWaitQueue i =>
    cases call : (cntr.virtioNet.queues i).call with
    | none =>
      refine ⟨s,?_,rfl,(List.append_nil _).symm,?_⟩
      · rw [ReleaseStep.run,Efds.removeWaitQueue,call]
        rfl
      · rw [ReleaseStep.unhooks,if_pos call]
    | some ctx =>
      refine ⟨{ s with waits := s.waits.del (.wait i) },?_,rfl,(List.append_nil _).symm,?_⟩
      · rw [ReleaseStep.run,Efds.removeWaitQueue,call]
        rfl
      · rw [ReleaseStep.unhooks,if_neg]
        rw [call]
        nofun

theorem runSteps_ret {cntr : Cntr} (built : Built cntr) (steps : List ReleaseStep) (s : State) :
    ∃ t, runSteps cntr steps s = .ret () t ∧
      eventfds t.kmod.log = eventfds s.kmod.log ++ (steps.flatMap (·.puts cntr)).map .release ∧
      t.waits = steps.foldl (ReleaseStep.unhooks cntr) s.waits := by
  induction steps generalizing s with
  | nil => exact ⟨s,rfl,(List.append_nil _).symm,rfl⟩
  | cons step rest ih =>
    obtain ⟨t,first,_,log,waits⟩ := step.run_released built s
    obtain ⟨u,later,log',waits'⟩ := ih t
    refine ⟨u,?_,?_,?_⟩
    · rw [runSteps,Call.ret_bind first,later]
    · rw [log',log,List.flatMap_cons,List.map_append,List.append_assoc]
    · rw [waits',waits,List.foldl_cons]

/-! The accounts. -/

def pairOf (virtio : VirtioNet) (i : Fin pkmVirtioNetQueueNum) : List Eventfd :=
  (virtio.queues i).kick.toList ++ (virtio.queues i).call.toList

/-- The eventfds that a release puts. -/
def recorded (virtio : VirtioNet) : List Eventfd :=
  pairOf virtio ⟨0,zero_lt_queueNum⟩ ++ pairOf virtio ⟨1,one_lt_queueNum⟩

/-- What the container holds is what its queues record and what they have lost the record of,
which is nothing as long as no queue has been set twice. `queues` are those that have been
set. -/
structure Accounted (s : State) (queues : List (Fin pkmVirtioNetQueueNum))
    (lost : List Eventfd) : Prop where
  holds : Holds (eventfds s.kmod.log) (recorded s.cntr.virtioNet ++ lost)
  set : ∀ i, pairOf s.cntr.virtioNet i = [] ↔ i ∉ queues
  lost : lost = [] ↔ queues.Nodup

theorem Installs.queues {s t : State} {pair : Pair} (installs : Installs s t pair)
    (i : Fin pkmVirtioNetQueueNum) : t.cntr.virtioNet.queues i = if i = pair.queue then
      { s.cntr.virtioNet.queues i with kick := some pair.kick, call := some pair.call }
      else s.cntr.virtioNet.queues i := by
  rw [installs.cntr]
  rfl

theorem Installs.pairOf {s t : State} {pair : Pair} (installs : Installs s t pair)
    (i : Fin pkmVirtioNetQueueNum) : pairOf t.cntr.virtioNet i =
      if i = pair.queue then [pair.kick,pair.call] else pairOf s.cntr.virtioNet i := by
  simp only [Efds.pairOf,installs.queues i]
  split <;> rfl

/-- A pair that is set replaces the one its queue has recorded. -/
theorem Installs.recorded {s t : State} {pair : Pair} (installs : Installs s t pair)
    (lost : List Eventfd) :
    (pair.call :: pair.kick :: (recorded s.cntr.virtioNet ++ lost)).Perm
      (recorded t.cntr.virtioNet ++ (Efds.pairOf s.cntr.virtioNet pair.queue ++ lost)) := by
  have swap : ∀ before : List Eventfd,
      (pair.call :: pair.kick :: before).Perm ([pair.kick,pair.call] ++ before) :=
    fun before => .swap _ _ _
  apply (swap _).trans
  simp only [Efds.recorded,installs.pairOf]
  obtain ⟨queue,kick,call,file⟩ := pair
  match queue with
  | ⟨0,_⟩ =>
    simp only [if_true,Fin.mk.injEq,Nat.one_ne_zero,if_false,List.append_assoc]
    refine .append_left _ ?_
    rw [← List.append_assoc,← List.append_assoc]
    exact .append_right _ List.perm_append_comm
  | ⟨1,_⟩ =>
    simp only [if_true,Fin.mk.injEq,Nat.zero_ne_one,if_false,List.append_assoc]
    simp only [← List.append_assoc]
    refine .append_right _ (.append_right _ ?_)
    exact List.perm_append_comm

theorem step_accounted {s t : State} {env : EfdsEnv} {queues : List (Fin pkmVirtioNetQueueNum)}
    {lost : List Eventfd} (accounted : Accounted s queues lost) (step : EfdsStep s env t) :
    ∃ lost', Accounted t ((env.installs.map Pair.queue).toList ++ queues) lost' := by
  obtain ⟨r,returns⟩ := step
  rcases setVringEfds_spec env s with ⟨pair,t',found,ends,installs⟩ | ⟨found,r',t',ends,fails⟩
  · rw [ends] at returns
    cases returns
    rw [found]
    refine ⟨pairOf s.cntr.virtioNet pair.queue ++ lost,?_,?_,?_⟩
    · rw [installs.log]
      exact ((accounted.holds.acquire pair.kick).acquire pair.call).perm (installs.recorded lost)
    · intro i
      rw [installs.pairOf]
      by_cases own : i = pair.queue
      · simp [own]
      · rw [if_neg own,accounted.set i]
        simp [own]
    · rw [List.append_eq_nil_iff,accounted.set,accounted.lost]
      exact List.nodup_cons.symm
  · rw [ends] at returns
    cases returns
    rw [found]
    refine ⟨lost,?_,?_,accounted.lost⟩
    · rw [fails.cntr]
      exact fails.log _ accounted.holds
    · rw [fails.cntr]
      exact accounted.set

/-- The queues that a sequence of calls sets, in order. -/
def queuesSet (envs : List EfdsEnv) : List (Fin pkmVirtioNetQueueNum) :=
  envs.filterMap fun env => env.installs.map Pair.queue

/-- No queue has its eventfds set twice. -/
def SetOnce (envs : List EfdsEnv) : Prop := (queuesSet envs).Nodup

instance (envs : List EfdsEnv) : Decidable (SetOnce envs) := inferInstanceAs (Decidable (List.Nodup _))

theorem queuesSet_cons (env : EfdsEnv) (envs : List EfdsEnv) :
    queuesSet (env :: envs) = (env.installs.map Pair.queue).toList ++ queuesSet envs := by
  cases found : env.installs with
  | none => simp [queuesSet,found]
  | some pair => simp [queuesSet,found]

theorem run_accounted {s t : State} {envs : List EfdsEnv} (run : Run EfdsStep s envs t)
    {queues : List (Fin pkmVirtioNetQueueNum)} {lost : List Eventfd}
    (accounted : Accounted s queues lost) :
    ∃ lost', Accounted t ((queuesSet envs).reverse ++ queues) lost' := by
  induction run generalizing queues lost with
  | nil => exact ⟨lost,accounted⟩
  | @cons s u t env envs head _ ih =>
    obtain ⟨lost',middle⟩ := step_accounted accounted head
    obtain ⟨lost'',last⟩ := ih middle
    refine ⟨lost'',?_⟩
    have swap : (queuesSet envs).reverse ++ ((env.installs.map Pair.queue).toList ++ queues) =
        (queuesSet (env :: envs)).reverse ++ queues := by
      rw [queuesSet_cons,List.reverse_append,List.append_assoc]
      cases env.installs <;> rfl
    rwa [swap] at last

end Cki.Efds
