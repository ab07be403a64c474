import Cki.StartThreads

/-! The threads of the launcher: `percpu_routine` calls START over and over and starts a thread
for each vCPU that the guest brings up. What happens in START is the module's. -/
namespace Cki.Launcher

open Start

/-- `ioctl` of the C library: an error is in `errno`. -/
def ioctl (r : Int) : Int := if r < 0 then -1 else r

/-- What `percpu_routine` does with a result of `ioctl`. -/
inductive Exit where
  | again
  | cpuUp (cpu : BitVec 32)
  | vringReady (idx : BitVec 32)
  | print
  | ends (failed : Bool)
  deriving DecidableEq, Repr

def exitOf (r : Int) (arg1 : Word) : Exit :=
  if r = -eagain then .again
  else if r = pkmCntrExitCpuUp then .cpuUp (arg1.setWidth 32)
  else if r = pkmCntrExitVringReady then .vringReady (arg1.setWidth 32)
  else if r = pkmCntrExitPrint then .print
  else .ends (r < 0)

/-- Where a thread is in `percpu_routine`, with its `args`. -/
inductive Routine where
  | calling (cpu : BitVec 32) (args : Word × Word)
  | waiting (cpu : BitVec 32) (args : Word × Word)
  | vring (cpu : BitVec 32) (args : Word × Word)
  | ended
  deriving DecidableEq, Repr

/-- The vCPU the thread is there for. -/
def Routine.cpu : Routine → Option (BitVec 32)
  | .calling cpu _ | .waiting cpu _ | .vring cpu _ => some cpu
  | .ended => none

/-- `started` notes the vCPUs that have been given a thread. -/
structure Process where
  start : Threads
  routine : Nat → Option Routine
  started : List (BitVec 32)
  exited : Bool

/-- A thread enters START, goes on in it, or comes back from it; on CPU_UP `pthread_create`
gives a new thread, whose stack holds anything. -/
inductive ProcessEvent where
  | enter (t : Nat) (copied : Bool)
  | inside (t : Nat) (event : ThreadEvent)
  | back (t : Nat) (created : Option (Nat × (Word × Word)))
  | vringDone (t : Nat) (env : Efds.EfdsEnv) (ok : Bool)
  | wakeup (k : Nat)

def InsideStart : ThreadEvent → Prop
  | .call _ _ _ => False
  | .trylock | .pinned _ _ | .run _ | .unlock => True

instance : DecidablePred InsideStart
  | .call _ _ _ => inferInstanceAs (Decidable False)
  | .trylock | .pinned _ _ | .run _ | .unlock => inferInstanceAs (Decidable True)

namespace Process

variable (p : Process)

def go (t : Nat) (routine : Routine) : Process :=
  { p with routine := Function.update p.routine t (some routine) }

/-- `handle_exit_cpu_up` -/
def spawn (cpu : BitVec 32) : Option (Nat × (Word × Word)) → Option Process
  | none => some p
  | some (t,args) =>
    if p.routine t = none then
      some { p.go t (.calling cpu args) with started := cpu :: p.started }
    else none

/-- A thread that is back from START with this result. -/
def serve (t : Nat) (cpu : BitVec 32) (args : Word × Word) (result : Int)
    (created : Option (Nat × (Word × Word))) : Option Process :=
  match exitOf (ioctl result) args.1 with
  | .again | .print => some (p.go t (.calling cpu args))
  | .cpuUp other => (p.go t (.calling cpu args)).spawn other created
  | .vringReady _ => some (p.go t (.vring cpu args))
  | .ends failed => some { p.go t .ended with exited := p.exited || failed || t = 0 }

def step (cntr : Start.Cntr) (nCpus : Nat) : ProcessEvent → Option Process
  | .enter t copied =>
    match p.routine t with
    | some (.calling cpu args) =>
      if p.exited then none
      else (p.start.thread cntr nCpus t (.call copied cpu args)).map fun start =>
        { p.go t (.waiting cpu args) with start := start }
    | _ => none
  | .inside t event =>
    match p.routine t with
    | some (.waiting _ _) =>
      if InsideStart event then
        (p.start.thread cntr nCpus t event).map fun start => { p with start := start }
      else none
    | _ => none
  | .back t created =>
    match p.routine t,p.start.threads t with
    | some (.waiting cpu args),.out result copied =>
      if p.exited then none else p.serve t cpu (copied.getD args) result created
    | _,_ => none
  | .vringDone t env ok =>
    match p.routine t with
    | some (.vring cpu args) =>
      if p.exited then none
      else some { p.go t (.calling cpu args) with
        start := env.installs.elim p.start p.start.install, exited := !ok }
    | _ => none
  | .wakeup k => some { p with start := p.start.wake k }

def Step (cntr : Start.Cntr) (nCpus : Nat) (p : Process) (event : ProcessEvent) (q : Process) : Prop :=
  p.step cntr nCpus event = some q

/-- The vCPU that the guest asks for with what START has come back with. -/
def asks (t : Nat) : Option (BitVec 32) :=
  match p.routine t,p.start.threads t with
  | some (.waiting _ args),.out result copied =>
    match exitOf (ioctl result) (copied.getD args).1 with
    | .cpuUp cpu => some cpu
    | _ => none
  | _,_ => none

/-- The guest brings up vCPUs that there are, each of them once and not the first. -/
def BringsUp (nCpus : Nat) (p : Process) : ProcessEvent → Prop
  | .back t _ => ∀ cpu, p.asks t = some cpu → cpu.toNat < nCpus ∧ cpu ∉ p.started
  | _ => True

def runs (t : Nat) : Option (BitVec 32) := (p.routine t).bind Routine.cpu

/-- Each vCPU has one thread at most, and threads are in START for their own. -/
structure Ordered (nCpus : Nat) (p : Process) : Prop where
  locked : p.start.Locked
  inside : ∀ t k, (p.start.threads t).target = some k →
    ∃ cpu args, p.routine t = some (.waiting cpu args) ∧ cpu.toNat = k
  started : ∀ t cpu, p.runs t = some cpu → cpu ∈ p.started ∧ cpu.toNat < nCpus
  one : ∀ t t' cpu, p.runs t = some cpu → p.runs t' = some cpu → t' = t

/-- A START whose arguments are copied in gets to the lock, and gets it. -/
def Admitted (event : ProcessEvent) (q : Process) : Prop :=
  (∀ t, event = .enter t true → ∃ k kargs, q.start.threads t = .trying k kargs) ∧
  (∀ t, event = .inside t .trylock → ∃ k kargs, q.start.threads t = .pinning k kargs)

/-- What `main` starts. -/
structure Main (p : Process) : Prop where
  idle : p.start.Idle
  first : ∃ args, p.routine 0 = some (.calling 0 args)
  others : ∀ t, t ≠ 0 → p.routine t = none
  started : p.started = [0]

section
variable {cntr : Start.Cntr} {nCpus : Nat}

/-! What a thread does in START. -/

theorem thread_others {s u : Threads} {t other : Nat} {event : ThreadEvent} (apart : other ≠ t)
    (step : s.thread cntr nCpus t event = some u) : u.threads other = s.threads other := by
  have step' : Threads.Step cntr nCpus s (.thread t event) u := step
  cases Threads.step_moves step' with
  | _ => exact Function.update_of_ne apart _ _

theorem thread_target {s u : Threads} {t k : Nat} {event : ThreadEvent} (inside : InsideStart event)
    (step : s.thread cntr nCpus t event = some u) (target : (u.threads t).target = some k) :
    (s.threads t).target = some k := by
  have step' : Threads.Step cntr nCpus s (.thread t event) u := step
  cases Threads.step_moves step' with
  | call copied cpu kargs here => exact inside.elim
  | take here free =>
    simp only [Threads.setLock,Threads.move_threads,Function.update_self] at target
    rw [here]
    exact target
  | refused here taken => simp [Thread.target] at target
  | pinned ret here =>
    simp only [Threads.move_threads,Function.update_self] at target
    rw [here]
    exact target
  | unpinned ret here failed =>
    simp only [Threads.move_threads,Function.update_self] at target
    rw [here]
    exact target
  | @run _ k' locals _ state here _ moved =>
    simp only [Threads.move_threads,Function.update_self,Threads.after_target] at target
    rw [here]
    exact target
  | unlock here => simp [Threads.setLock,Thread.target] at target

theorem holds_target {s : Threads} {t k : Nat} (holds : s.held t = some k) :
    (s.threads t).target = some k := by
  rw [Threads.held] at holds
  cases here : s.threads t with
  | out result copied | trying k' kargs =>
    rw [here] at holds
    cases holds
  | pinning k' kargs | running k' locals | unlocking k' result copied =>
    rw [here] at holds
    exact holds

theorem thread_calls {s u : Threads} {t : Nat} {cpu : BitVec 32} {kargs : Word × Word} {copied : Bool}
    (step : s.thread cntr nCpus t (.call copied cpu kargs) = some u) :
    u.threads t = if copied = false then .out (-efault) none
      else if nCpus ≤ cpu.toNat then .out (-einval) none else .trying cpu.toNat kargs := by
  have step' : Threads.Step cntr nCpus s (.thread t (.call copied cpu kargs)) u := step
  cases Threads.step_moves step' with
  | call _ _ _ here => exact Function.update_self _ _ _

inductive Moves (cntr : Start.Cntr) (nCpus : Nat) (p : Process) : ProcessEvent → Process → Prop where
  | enter {t : Nat} {cpu : BitVec 32} {args : Word × Word} {start : Threads} (copied : Bool) :
      p.routine t = some (.calling cpu args) →
      p.start.thread cntr nCpus t (.call copied cpu args) = some start →
      Moves cntr nCpus p (.enter t copied) { p.go t (.waiting cpu args) with start := start }
  | inside {t : Nat} {cpu : BitVec 32} {args : Word × Word} {event : ThreadEvent} {start : Threads} :
      p.routine t = some (.waiting cpu args) → InsideStart event →
      p.start.thread cntr nCpus t event = some start →
      Moves cntr nCpus p (.inside t event) { p with start := start }
  | back {t : Nat} {cpu : BitVec 32} {args : Word × Word} {result : Int}
      {copied : Option (Word × Word)} {q : Process} (created : Option (Nat × (Word × Word))) :
      p.routine t = some (.waiting cpu args) → p.start.threads t = .out result copied →
      p.serve t cpu (copied.getD args) result created = some q → Moves cntr nCpus p (.back t created) q
  | vringDone {t : Nat} {cpu : BitVec 32} {args : Word × Word} (env : Efds.EfdsEnv) (ok : Bool) :
      p.routine t = some (.vring cpu args) → Moves cntr nCpus p (.vringDone t env ok)
        { p.go t (.calling cpu args) with
          start := env.installs.elim p.start p.start.install, exited := !ok }
  | wakeup (k : Nat) : Moves cntr nCpus p (.wakeup k) { p with start := p.start.wake k }

theorem step_moves {p q : Process} {event : ProcessEvent} (step : Step cntr nCpus p event q) :
    Moves cntr nCpus p event q := by
  simp only [Process.Step,Process.step] at step
  cases event with
  | wakeup k =>
    cases step
    exact .wakeup k
  | enter t copied =>
    dsimp only at step
    split at step
    · rename_i cpu args here
      split at step
      · cases step
      · obtain ⟨start,moved,rfl⟩ := Option.map_eq_some_iff.mp step
        exact .enter copied here moved
    · cases step
  | inside t event =>
    dsimp only at step
    split at step
    · rename_i cpu args here
      split at step
      · rename_i inside
        obtain ⟨start,moved,rfl⟩ := Option.map_eq_some_iff.mp step
        exact .inside here inside moved
      · cases step
    · cases step
  | back t created =>
    dsimp only at step
    split at step
    · rename_i cpu args result copied here out
      split at step
      · cases step
      · exact .back created here out step
    · cases step
  | vringDone t env ok =>
    dsimp only at step
    split at step
    · rename_i cpu args here
      split at step
      · cases step
      · cases step
        exact .vringDone env ok here
    · cases step

/-! Threads and their vCPUs. -/

theorem runs_go (p : Process) (t other : Nat) (routine : Routine) :
    (p.go t routine).runs other = if other = t then routine.cpu else p.runs other := by
  simp only [runs,Process.go,Function.update_apply]
  split <;> rfl

variable {p q : Process} (ordered : p.Ordered nCpus)
include ordered

/-- A thread outside START goes on in `percpu_routine`, or it ends. -/
theorem Ordered.go {t : Nat} {routine : Routine} (outside : (p.start.threads t).target = none)
    (own : ∀ cpu, routine.cpu = some cpu → p.runs t = some cpu) : (p.go t routine).Ordered nCpus := by
  have before : ∀ other cpu, (p.go t routine).runs other = some cpu → p.runs other = some cpu := by
    intro other cpu runs
    rw [runs_go] at runs
    split at runs
    · rename_i same
      rw [same]
      exact own cpu runs
    · exact runs
  refine ⟨ordered.locked,?_,fun other cpu runs => ordered.started other cpu (before other cpu runs),
    fun other other' cpu runs runs' => ordered.one other other' cpu (before other cpu runs)
      (before other' cpu runs')⟩
  intro other k target
  have apart : other ≠ t := by
    rintro rfl
    change (p.start.threads other).target = some k at target
    rw [outside] at target
    cases target
  obtain ⟨cpu,args,waits,number⟩ := ordered.inside other k target
  refine ⟨cpu,args,?_,number⟩
  simp only [Process.go]
  rw [Function.update_of_ne apart,waits]

/-- A new thread for a vCPU that has none. -/
theorem Ordered.spawn {t : Nat} {cpu : BitVec 32} {args : Word × Word} (fresh : p.routine t = none)
    (small : cpu.toNat < nCpus) (unstarted : cpu ∉ p.started) :
    { p.go t (.calling cpu args) with started := cpu :: p.started }.Ordered nCpus := by
  have alone : ∀ other, p.runs other ≠ some cpu := fun other runs =>
    unstarted (ordered.started other cpu runs).1
  have runs : ∀ other cpu', (p.go t (.calling cpu args)).runs other = some cpu' →
      other = t ∧ cpu' = cpu ∨ other ≠ t ∧ p.runs other = some cpu' := by
    intro other cpu' runs
    rw [runs_go] at runs
    split at runs
    · rename_i same
      cases runs
      exact .inl ⟨same,rfl⟩
    · rename_i apart
      exact .inr ⟨apart,runs⟩
  refine ⟨ordered.locked,?_,?_,?_⟩
  · intro other k target
    obtain ⟨cpu',args',waits,number⟩ := ordered.inside other k target
    refine ⟨cpu',args',?_,number⟩
    have apart : other ≠ t := by
      rintro rfl
      rw [fresh] at waits
      cases waits
    simp only [Process.go]
    rw [Function.update_of_ne apart,waits]
  · intro other cpu' here
    rcases runs other cpu' here with ⟨_,rfl⟩ | ⟨_,old⟩
    · exact ⟨List.mem_cons_self,small⟩
    · obtain ⟨known,small'⟩ := ordered.started other cpu' old
      exact ⟨List.mem_cons_of_mem _ known,small'⟩
  · intro other other' cpu' here here'
    rcases runs other cpu' here with ⟨rfl,rfl⟩ | ⟨_,old⟩ <;>
      rcases runs other' cpu' here' with ⟨same,own⟩ | ⟨_,old'⟩
    · exact same
    · exact absurd old' (alone other')
    · exact absurd (own ▸ old) (alone other)
    · exact ordered.one other other' cpu' old old'

/-- What happens in START keeps a thread with its vCPU. -/
theorem Ordered.start {start : Threads} (locked : start.Locked)
    (target : ∀ t k, (start.threads t).target = some k → (p.start.threads t).target = some k) :
    { p with start := start }.Ordered nCpus :=
  ⟨locked,fun t k inside => ordered.inside t k (target t k inside),ordered.started,ordered.one⟩

/-- A thread that is not in `ioctl` is not in START. -/
theorem Ordered.outside {t : Nat} (elsewhere : ∀ cpu args, p.routine t ≠ some (.waiting cpu args)) :
    (p.start.threads t).target = none := by
  cases found : (p.start.threads t).target with
  | none => rfl
  | some k =>
    obtain ⟨cpu,args,waits,_⟩ := ordered.inside t k found
    exact absurd waits (elsewhere cpu args)

/-- A thread that calls START for its own vCPU. -/
theorem Ordered.enter (cntr : Start.Cntr) {t : Nat} {cpu : BitVec 32} {args : Word × Word} {copied : Bool}
    {start : Threads} (here : p.routine t = some (.calling cpu args))
    (step : p.start.thread cntr nCpus t (.call copied cpu args) = some start) :
    { p.go t (.waiting cpu args) with start := start }.Ordered nCpus := by
  have runs : p.runs t = some cpu := by
    rw [Process.runs,here]
    rfl
  have outside : (p.start.threads t).target = none := ordered.outside (by simp [here])
  have gone : (p.go t (.waiting cpu args)).Ordered nCpus := ordered.go outside fun cpu' same => by
    cases same
    exact runs
  have moved : Threads.Step cntr nCpus p.start (.thread t (.call copied cpu args)) start := step
  refine ⟨Threads.step_locked ordered.locked moved,?_,gone.started,gone.one⟩
  intro other k target
  by_cases same : other = t
  · subst same
    refine ⟨cpu,args,Function.update_self _ _ _,?_⟩
    rw [thread_calls step] at target
    repeat' split at target
    · cases target
    · cases target
    · cases target
      rfl
  · rw [thread_others same step] at target
    exact gone.inside other k target

/-- A thread that is back from START. -/
theorem Ordered.serve {t : Nat} {cpu : BitVec 32} {old : Word × Word} {result : Int}
    {copied : Option (Word × Word)} {created : Option (Nat × (Word × Word))}
    (here : p.routine t = some (.waiting cpu old)) (out : p.start.threads t = .out result copied)
    (brings : p.BringsUp nCpus (.back t created))
    (serve : p.serve t cpu (copied.getD old) result created = some q) : q.Ordered nCpus := by
  have runs : p.runs t = some cpu := by
    rw [Process.runs,here]
    rfl
  have outside : (p.start.threads t).target = none := by
    rw [out]
    rfl
  have goes : ∀ {routine : Routine}, routine.cpu = some cpu → (p.go t routine).Ordered nCpus := by
    intro routine own
    refine ordered.go outside fun cpu' same => ?_
    rw [own] at same
    cases same
    exact runs
  simp only [Process.serve] at serve
  cases exit : exitOf (ioctl result) (copied.getD old).1 with
  | again | print =>
    rw [exit] at serve
    cases serve
    exact goes rfl
  | vringReady idx =>
    rw [exit] at serve
    cases serve
    exact goes rfl
  | ends failed =>
    rw [exit] at serve
    cases serve
    have ended : (p.go t .ended).Ordered nCpus := ordered.go outside fun _ same => by cases same
    exact ⟨ended.locked,ended.inside,ended.started,ended.one⟩
  | cpuUp other =>
    rw [exit] at serve
    have asked : p.asks t = some other := by
      simp only [asks,here,out,exit]
    obtain ⟨small,unstarted⟩ := brings other asked
    cases created with
    | none =>
      cases serve
      exact goes rfl
    | some new =>
      obtain ⟨t',args⟩ := new
      simp only [Process.spawn] at serve
      split at serve
      · rename_i fresh
        cases serve
        exact (goes rfl).spawn fresh small unstarted
      · cases serve

theorem Ordered.step {event : ProcessEvent} (brings : p.BringsUp nCpus event)
    (step : Step cntr nCpus p event q) : q.Ordered nCpus := by
  cases step_moves step with
  | enter copied here moves => exact ordered.enter cntr here moves
  | @inside t cpu args event start here inside moves =>
    have moved : Threads.Step cntr nCpus p.start (.thread t event) start := moves
    refine ordered.start (Threads.step_locked ordered.locked moved) fun other k target => ?_
    by_cases same : other = t
    · subst same
      exact thread_target inside moves target
    · rwa [thread_others same moves] at target
  | back created here out serve => exact ordered.serve here out brings serve
  | @vringDone t cpu args env ok here =>
    have runs : p.runs t = some cpu := by
      rw [Process.runs,here]
      rfl
    have gone : (p.go t (.calling cpu args)).Ordered nCpus :=
      ordered.go (ordered.outside (by simp [here])) fun cpu' same => by
        cases same
        exact runs
    cases env.installs with
    | none => exact ⟨gone.locked,gone.inside,gone.started,gone.one⟩
    | some pair => exact ⟨gone.locked,gone.inside,gone.started,gone.one⟩
  | wakeup k => exact ordered.start ordered.locked fun _ _ target => target

/-- Threads that are let through to one vCPU are one. -/
theorem Ordered.one_inside {t t' k : Nat} (first : (p.start.threads t).target = some k)
    (second : (p.start.threads t').target = some k) : t' = t := by
  obtain ⟨cpu,args,waits,number⟩ := ordered.inside t k first
  obtain ⟨cpu',args',waits',number'⟩ := ordered.inside t' k second
  have same : cpu' = cpu := BitVec.eq_of_toNat_eq (number'.trans number.symm)
  subst same
  exact ordered.one t t' cpu' (congrArg (·.bind Routine.cpu) waits)
    (congrArg (·.bind Routine.cpu) waits')

theorem Ordered.admitted {event : ProcessEvent} (step : Step cntr nCpus p event q) :
    Admitted event q := by
  constructor
  · rintro t rfl
    cases step_moves step with
    | @enter _ cpu args start copied here moves =>
      have runs : p.runs t = some cpu := by
        rw [Process.runs,here]
        rfl
      have small := (ordered.started t cpu runs).2
      refine ⟨cpu.toNat,args,?_⟩
      rw [thread_calls moves,if_neg (by decide),if_neg (by omega)]
  · rintro t rfl
    cases step_moves step with
    | @inside _ cpu args _ start here _ moves =>
      have moved : Threads.Step cntr nCpus p.start (.thread t .trylock) start := moves
      cases Threads.step_moves moved with
      | @take _ k kargs trying free =>
        exact ⟨k,kargs,Function.update_self _ _ _⟩
      | @refused _ k owner kargs trying taken =>
        -- The owner runs the same vCPU, so it is this thread, which holds nothing yet.
        have holds := (ordered.locked k owner).mp taken
        have same : owner = t := ordered.one_inside (congrArg Thread.target trying)
          (holds_target holds)
        rw [same,Threads.held_of trying] at holds
        cases holds

end

theorem Main.ordered {nCpus : Nat} {p : Process} (some_cpu : 0 < nCpus) (main : p.Main) :
    p.Ordered nCpus := by
  obtain ⟨args,first⟩ := main.first
  have runs : ∀ t cpu, p.runs t = some cpu → t = 0 ∧ cpu = 0 := by
    intro t cpu runs
    by_cases same : t = 0
    · subst same
      rw [Process.runs,first] at runs
      cases runs
      exact ⟨rfl,rfl⟩
    · rw [Process.runs,main.others t same] at runs
      cases runs
  refine ⟨main.idle.locked,?_,?_,?_⟩
  · intro t k target
    obtain ⟨result,copied,out⟩ := main.idle.out t
    rw [out] at target
    cases target
  · intro t cpu here
    obtain ⟨_,rfl⟩ := runs t cpu here
    rw [main.started]
    exact ⟨List.mem_cons_self,some_cpu⟩
  · intro t t' cpu here here'
    rw [(runs t cpu here).1,(runs t' cpu here').1]

/-- A guest that brings up each vCPU once never has a thread of the launcher turned away by
START's checks or its lock. -/
theorem run_admitted {cntr : Start.Cntr} {nCpus : Nat} {p q : Process} {events : List ProcessEvent}
    (some_cpu : 0 < nCpus) (main : p.Main)
    (run : Run (Guarded (BringsUp nCpus) (Step cntr nCpus)) p events q) :
    Run (fun u event v => Step cntr nCpus u event v ∧ Admitted event v) p events q :=
  run.strengthen (fun u => u.Ordered nCpus) (fun _ _ _ ordered step => ordered.step step.1 step.2)
    (fun _ _ _ ordered step => ⟨step.2,ordered.admitted step.2⟩) (main.ordered some_cpu)

def fresh : Process where
  start := Threads.blank
  routine t := if t = 0 then some (.calling 0 (0,0)) else none
  started := [0]
  exited := false

theorem fresh_main : fresh.Main where
  idle := Threads.blank_idle
  first := ⟨_,rfl⟩
  others _ other := if_neg other
  started := rfl

/-- The guest's first vCPU brings up the second, and both get into START again. -/
def bringingUp : List ProcessEvent := [.enter 0 true,.inside 0 .trylock,.inside 0 (.pinned 0 0),
  .inside 0 (.run (.resume ⟨0,0⟩)),
  .inside 0 (.run (.rkcall .slow ⟨Rkcall.cpuUp.number,1,0,0⟩ 0 ⟨0,0⟩)),.inside 0 (.run .host),
  .inside 0 (.run (.copied true)),.inside 0 .unlock,.back 0 (some (1,(0,0))),.enter 1 true,
  .enter 0 true,.inside 0 .trylock,.inside 1 .trylock]

theorem run_admitted_bringingUp : ∃ q,
    Run (fun u event v => Step block 2 u event v ∧ Admitted event v) fresh bringingUp q ∧
    (q.start.threads 0).holds = some 0 ∧ (q.start.threads 1).holds = some 1 := by
  have second : ∀ cpu : BitVec 32, some 1 = some cpu → cpu.toNat < 2 ∧ cpu ∉ fresh.started := by
    rintro cpu ⟨⟩
    decide
  have run : ∃ q, Run (Guarded (BringsUp 2) (Step block 2)) fresh bringingUp q ∧
      (q.start.threads 0).holds = some 0 ∧ (q.start.threads 1).holds = some 1 :=
    ⟨_,.cons ⟨trivial,rfl⟩ (.cons ⟨trivial,rfl⟩ (.cons ⟨trivial,rfl⟩ (.cons ⟨trivial,rfl⟩
      (.cons ⟨trivial,rfl⟩ (.cons ⟨trivial,rfl⟩ (.cons ⟨trivial,rfl⟩ (.cons ⟨trivial,rfl⟩
      (.cons ⟨second,rfl⟩ (.cons ⟨trivial,rfl⟩ (.cons ⟨trivial,rfl⟩ (.cons ⟨trivial,rfl⟩
      (.single ⟨trivial,rfl⟩)))))))))))),rfl,rfl⟩
  obtain ⟨q,run,first,other⟩ := run
  exact ⟨q,run_admitted (by decide) fresh_main run,first,other⟩

end Process

end Cki.Launcher
