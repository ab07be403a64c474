import Cki.Locks
import Cki.StartAccesses

/-! START as any number of the launcher's threads call it at once. A thread has its own place in
the loop and its own copy of the arguments; the vCPUs and the device are shared, and the lock
of a vCPU is all that keeps two threads from running it. -/
namespace Cki.Start

open Virtio

def eagain : Int := 11

/-- What a thread in the loop keeps on its stack. -/
structure Locals where
  control : Control
  ret : Word
  kargs : Word × Word

/-- What the threads share of a vCPU. -/
structure Shared where
  vcpu : Vcpu
  unanswered : Option Unanswered

inductive Thread where
  | out (result : Int) (copied : Option (Word × Word))
  | trying (k : Nat) (kargs : Word × Word)
  | pinning (k : Nat) (kargs : Word × Word)
  | running (k : Nat) (locals : Locals)
  | unlocking (k : Nat) (result : Int) (copied : Option (Word × Word))

/-- The vCPU whose lock the thread has taken. -/
def Thread.holds : Thread → Option Nat
  | .out _ _ | .trying _ _ => none
  | .pinning k _ | .running k _ | .unlocking k _ _ => some k

/-- The vCPU whose number has passed the check. -/
def Thread.target : Thread → Option Nat
  | .out _ _ => none
  | .trying k _ | .pinning k _ | .running k _ | .unlocking k _ _ => some k

structure Threads where
  virtio : VirtioNet
  cpus : Nat → Shared
  locks : Nat → Option Nat
  threads : Nat → Thread
  installed : List (Fin pkmVirtioNetQueueNum × Eventfd)

/-- A thread calls START with these arguments, if they can be copied in, tries the lock, is
moved to the vCPU's processor or not, runs on in the loop, or gives the lock back. -/
inductive ThreadEvent where
  | call (copied : Bool) (cpu : BitVec 32) (kargs : Word × Word)
  | trylock
  | pinned (r : Int) (ret : Word)
  | run (event : Event)
  | unlock

inductive ThreadsEvent where
  | thread (t : Nat) (event : ThreadEvent)
  | wakeup (k : Nat)
  | setVringEfds (env : Efds.EfdsEnv)
  | inquire

/-- The events of the loop, as against those before it and beside it. -/
def Event.InLoop : Event → Prop
  | .start _ _ | .wakeup => False
  | .resume _ | .rkcall _ _ _ _ | .host | .copied _ => True

instance : DecidablePred Event.InLoop
  | .start _ _ | .wakeup => inferInstanceAs (Decidable False)
  | .resume _ | .rkcall _ _ _ _ | .host | .copied _ => inferInstanceAs (Decidable True)

def State.wake (s : State) : State :=
  { s with vcpu := { s.vcpu with virtioEventCnt := s.vcpu.virtioEventCnt + 1 } }

/-- The container with a vCPU taken to this state. -/
def Container.put (c : Container) (k : Nat) (state : State) : Container :=
  { c with virtio := state.virtio, cpus := Function.update c.cpus k state }

theorem Container.put_cpus (c : Container) (k : Nat) (state : State) :
    (c.put k state).cpus = Function.update c.cpus k state := rfl

theorem Container.put_step {cntr : Cntr} {c : Container} {k : Nat} {event : Event} {state : State}
    (step : Start.Step cntr (c.cpu k) event state) :
    Container.Step cntr c (.cpu k event) (c.put k state) :=
  Option.map_eq_some_iff.mpr ⟨state,step,rfl⟩

namespace Threads

variable (s : Threads)

/-- The vCPU as a thread in the loop sees it. -/
def seen (k : Nat) (locals : Locals) : State :=
  ⟨(s.cpus k).vcpu,s.virtio,locals.control,locals.ret,locals.kargs,(s.cpus k).unanswered⟩

def move (t : Nat) (thread : Thread) : Threads :=
  { s with threads := Function.update s.threads t thread }

def setLock (k : Nat) (owner : Option Nat) : Threads :=
  { s with locks := Function.update s.locks k owner }

/-- Where a step of the loop leaves its thread. -/
def after (k : Nat) (state : State) : Thread :=
  match state.control with
  | .launcher result copied => .unlocking k result copied
  | control => .running k ⟨control,state.ret,state.kargs⟩

def write (k : Nat) (state : State) : Threads :=
  { s with virtio := state.virtio, cpus := Function.update s.cpus k ⟨state.vcpu,state.unanswered⟩ }

/-- A step of a thread. The handler of a call is one step: the device, which has no lock, is
accessed by one handler at a time. -/
def thread (cntr : Cntr) (nCpus : Nat) (t : Nat) : ThreadEvent → Option Threads
  | .call copied cpu kargs =>
    match s.threads t with
    | .out _ _ => some (s.move t (
        if copied = false then .out (-efault) none
        else if nCpus ≤ cpu.toNat then .out (-einval) none
        else .trying cpu.toNat kargs))
    | _ => none
  | .trylock =>
    match s.threads t with
    | .trying k kargs =>
      match s.locks k with
      | none => some ((s.move t (.pinning k kargs)).setLock k (some t))
      | some _ => some (s.move t (.out (-eagain) none))
    | _ => none
  | .pinned r ret =>
    match s.threads t with
    | .pinning k kargs =>
      some (s.move t (if r = 0 then .running k ⟨.loop,ret,kargs⟩ else .unlocking k r none))
    | _ => none
  | .run event =>
    match s.threads t with
    | .running k locals =>
      if event.InLoop then
        (Start.step cntr (s.seen k locals) event).map fun state =>
          (s.write k state).move t (after k state)
      else none
    | _ => none
  | .unlock =>
    match s.threads t with
    | .unlocking k result copied =>
      some ((s.move t (.out result copied)).setLock k none)
    | _ => none

/-- `virtio_wakeup` -/
def wake (k : Nat) : Threads :=
  let shared := s.cpus k
  let vcpu := { shared.vcpu with virtioEventCnt := shared.vcpu.virtioEventCnt + 1 }
  { s with cpus := Function.update s.cpus k { shared with vcpu := vcpu } }

def install (pair : Efds.Pair) : Threads :=
  { s with virtio := pair.install s.virtio, installed := (pair.queue,pair.kick) :: s.installed }

def step (cntr : Cntr) (nCpus : Nat) : ThreadsEvent → Option Threads
  | .thread t event => s.thread cntr nCpus t event
  | .wakeup k => some (s.wake k)
  | .setVringEfds env => some (env.installs.elim s s.install)
  | .inquire => some s

def Step (cntr : Cntr) (nCpus : Nat) (s : Threads) (event : ThreadsEvent) (t : Threads) : Prop :=
  s.step cntr nCpus event = some t

@[simp] theorem move_threads (t : Nat) (thread : Thread) :
    (s.move t thread).threads = Function.update s.threads t thread := rfl
@[simp] theorem write_threads (k : Nat) (state : State) : (s.write k state).threads = s.threads := rfl

/-- What each thread holds. -/
def held (t : Nat) : Option Nat := (s.threads t).holds

/-- Who owns the locks is who holds them. -/
def Locked : Prop := Locks.Consistent s.locks s.held

section
variable {s : Threads}

theorem held_move (t : Nat) (thread : Thread) :
    (s.move t thread).held = Function.update s.held t thread.holds := by
  funext other
  by_cases same : other = t
  · subst same
    simp [held,move]
  · simp [held,move,same]

/-- A thread that holds what it held. -/
theorem Locked.move (locked : s.Locked) {t : Nat} {thread : Thread}
    (same : thread.holds = s.held t) : (s.move t thread).Locked := by
  rw [Locked,held_move,same,Function.update_eq_self]
  exact locked

theorem Locked.take (locked : s.Locked) {t k : Nat} {thread : Thread} (free : s.locks k = none)
    (idle : s.held t = none) (holds : thread.holds = some k) :
    ((s.move t thread).setLock k (some t)).Locked := by
  have taken := locked.acquire free idle
  rw [← holds,← held_move t thread] at taken
  exact taken

theorem Locked.giveBack (locked : s.Locked) {t k : Nat} {thread : Thread}
    (held : s.held t = some k) (holds : thread.holds = none) :
    ((s.move t thread).setLock k none).Locked := by
  have released := locked.release held
  have moved : (s.move t thread).held = _ := held_move t thread
  rw [holds] at moved
  rw [← moved] at released
  exact released

theorem held_of {t : Nat} {thread : Thread} (here : s.threads t = thread) :
    s.held t = thread.holds := by
  rw [held,here]

theorem after_holds (k : Nat) (state : State) : (after k state).holds = some k := by
  rw [after]
  split <;> rfl

theorem after_running {k k' : Nat} {state : State} {locals : Locals}
    (runs : after k state = .running k' locals) :
    k' = k ∧ locals = ⟨state.control,state.ret,state.kargs⟩ := by
  rw [after] at runs
  split at runs
  · cases runs
  · cases runs
    exact ⟨rfl,rfl⟩

theorem after_idle {k : Nat} {state : State} (idle : ∀ locals, after k state ≠ .running k locals) :
    ∃ result copied, state.control = .launcher result copied := by
  cases control : state.control with
  | launcher result copied => exact ⟨result,copied,rfl⟩
  | _ =>
    refine absurd ?_ (idle ⟨state.control,state.ret,state.kargs⟩)
    rw [after,control]

/-- What a step does, by where its thread was. -/
inductive Moves (cntr : Cntr) (nCpus : Nat) (s : Threads) : ThreadsEvent → Threads → Prop where
  | call {t : Nat} {result : Int} {old : Option (Word × Word)} (copied : Bool) (cpu : BitVec 32)
      (kargs : Word × Word) : s.threads t = .out result old →
      Moves cntr nCpus s (.thread t (.call copied cpu kargs)) (s.move t (
        if copied = false then .out (-efault) none
        else if nCpus ≤ cpu.toNat then .out (-einval) none
        else .trying cpu.toNat kargs))
  | take {t k : Nat} {kargs : Word × Word} : s.threads t = .trying k kargs → s.locks k = none →
      Moves cntr nCpus s (.thread t .trylock)
        ((s.move t (.pinning k kargs)).setLock k (some t))
  | refused {t k owner : Nat} {kargs : Word × Word} : s.threads t = .trying k kargs →
      s.locks k = some owner →
      Moves cntr nCpus s (.thread t .trylock) (s.move t (.out (-eagain) none))
  | pinned {t k : Nat} {kargs : Word × Word} (ret : Word) : s.threads t = .pinning k kargs →
      Moves cntr nCpus s (.thread t (.pinned 0 ret)) (s.move t (.running k ⟨.loop,ret,kargs⟩))
  | unpinned {t k : Nat} {kargs : Word × Word} {r : Int} (ret : Word) :
      s.threads t = .pinning k kargs → r ≠ 0 →
      Moves cntr nCpus s (.thread t (.pinned r ret)) (s.move t (.unlocking k r none))
  | run {t k : Nat} {locals : Locals} {event : Event} {state : State} :
      s.threads t = .running k locals → event.InLoop →
      Start.Step cntr (s.seen k locals) event state →
      Moves cntr nCpus s (.thread t (.run event)) ((s.write k state).move t (after k state))
  | unlock {t k : Nat} {result : Int} {copied : Option (Word × Word)} :
      s.threads t = .unlocking k result copied → Moves cntr nCpus s (.thread t .unlock)
        ((s.move t (.out result copied)).setLock k none)
  | wakeup (k : Nat) : Moves cntr nCpus s (.wakeup k) (s.wake k)
  | setVringEfds (env : Efds.EfdsEnv) :
      Moves cntr nCpus s (.setVringEfds env) (env.installs.elim s s.install)
  | inquire : Moves cntr nCpus s .inquire s

theorem step_moves {cntr : Cntr} {nCpus : Nat} {event : ThreadsEvent} {u : Threads}
    (step : Step cntr nCpus s event u) : Moves cntr nCpus s event u := by
  cases event with
  | wakeup k =>
    cases step
    exact .wakeup k
  | setVringEfds env =>
    cases step
    exact .setVringEfds env
  | inquire =>
    cases step
    exact .inquire
  | thread t event =>
    simp only [Step,Threads.step] at step
    cases event with
    | call copied cpu kargs =>
      cases here : s.threads t <;> simp only [thread,here] at step <;> cases step
      exact .call copied cpu kargs here
    | trylock =>
      cases here : s.threads t <;> simp only [thread,here] at step <;> try cases step
      rename_i k kargs
      cases free : s.locks k <;> simp only [free] at step <;> cases step
      · exact .take here free
      · exact .refused here free
    | pinned r ret =>
      cases here : s.threads t <;> simp only [thread,here] at step <;> cases step
      by_cases zero : r = 0
      · subst zero
        exact .pinned ret here
      · rw [if_neg zero]
        exact .unpinned ret here zero
    | run event =>
      cases here : s.threads t <;> simp only [thread,here] at step <;> try cases step
      rename_i k locals
      split at step
      · rename_i inside
        obtain ⟨state,moved,rfl⟩ := Option.map_eq_some_iff.mp step
        exact .run here inside moved
      · cases step
    | unlock =>
      cases here : s.threads t <;> simp only [thread,here] at step <;> cases step
      exact .unlock here

/-- Each step keeps the locks with the threads that hold them. -/
theorem step_locked {cntr : Cntr} {nCpus : Nat} {event : ThreadsEvent} {u : Threads}
    (locked : s.Locked) (step : Step cntr nCpus s event u) : u.Locked := by
  cases step_moves step with
  | call copied cpu kargs here =>
    refine locked.move (Eq.trans ?_ (held_of here).symm)
    repeat' split
    all_goals rfl
  | take here free => exact locked.take free (held_of here) rfl
  | refused here taken => exact locked.move (held_of here).symm
  | pinned ret here => exact locked.move (held_of here).symm
  | unpinned ret here failed => exact locked.move (held_of here).symm
  | @run t k locals event state here inside moved =>
    have kept : (s.write k state).Locked := locked
    exact kept.move ((after_holds k state).trans (held_of here).symm)
  | unlock here => exact locked.giveBack (held_of here) rfl
  | wakeup k => exact locked
  | setVringEfds env =>
    cases env.installs with
    | none => exact locked
    | some pair => exact locked
  | inquire => exact locked

end

theorem write_seen (k : Nat) (locals : Locals) : s.write k (s.seen k locals) = s := by
  simp [write,seen]

/-! The container that the threads run. -/

/-- Each vCPU of the container is where the thread that runs it is, or outside START. -/
structure Mirrors (s : Threads) (c : Container) : Prop where
  virtio : c.virtio = s.virtio
  installed : c.installed = s.installed
  vcpu : ∀ k, (c.cpus k).vcpu = (s.cpus k).vcpu
  unanswered : ∀ k, (c.cpus k).unanswered = (s.cpus k).unanswered
  running : ∀ t k locals, s.threads t = .running k locals → c.cpu k = s.seen k locals
  idle : ∀ k, (∀ t locals, s.threads t ≠ .running k locals) →
    ∃ result copied, (c.cpus k).control = .launcher result copied

section
variable {s : Threads} {c : Container} (mirrors : Mirrors s c)
include mirrors

/-- A thread that goes from one place outside the loop to another. -/
theorem Mirrors.move {t : Nat} {thread : Thread} (before : ∀ k locals, s.threads t ≠ .running k locals)
    (after : ∀ k locals, thread ≠ .running k locals) : Mirrors (s.move t thread) c where
  virtio := mirrors.virtio
  installed := mirrors.installed
  vcpu := mirrors.vcpu
  unanswered := mirrors.unanswered
  running := by
    intro other k locals runs
    rw [move_threads,Function.update_apply] at runs
    split at runs
    · exact absurd runs (after k locals)
    · exact mirrors.running other k locals runs
  idle := by
    intro k none
    refine mirrors.idle k fun other locals runs => ?_
    by_cases same : other = t
    · subst same
      exact before k locals runs
    · refine none other locals ?_
      rw [move_threads,Function.update_of_ne same]
      exact runs

theorem Mirrors.setLock (k : Nat) (owner : Option Nat) : Mirrors (s.setLock k owner) c :=
  ⟨mirrors.virtio,mirrors.installed,mirrors.vcpu,mirrors.unanswered,mirrors.running,mirrors.idle⟩

/-- A thread that is alone on a vCPU takes it to this state. -/
theorem Mirrors.write {t k : Nat} (alone : ∀ other locals, other ≠ t → s.threads other ≠ .running k locals)
    (own : ∀ k' locals, s.threads t = .running k' locals → k' = k) (state : State) :
    Mirrors ((s.write k state).move t (after k state)) (c.put k state) where
  virtio := rfl
  installed := mirrors.installed
  vcpu := by
    intro k'
    by_cases same : k' = k
    · subst same
      simp [Container.put,Threads.write,Threads.move]
    · simp [Container.put,Threads.write,Threads.move,same,mirrors.vcpu k']
  unanswered := by
    intro k'
    by_cases same : k' = k
    · subst same
      simp [Container.put,Threads.write,Threads.move]
    · simp [Container.put,Threads.write,Threads.move,same,mirrors.unanswered k']
  running := by
    intro other k' locals runs
    rw [move_threads] at runs
    by_cases same : other = t
    · subst same
      rw [Function.update_self] at runs
      obtain ⟨rfl,rfl⟩ := after_running runs
      simp [Container.put,Container.cpu,Threads.seen,Threads.write,Threads.move]
    · rw [Function.update_of_ne same] at runs
      have apart : k' ≠ k := by
        rintro rfl
        exact alone other locals same runs
      have seen := congrArg (fun old : State => { old with virtio := state.virtio })
        (mirrors.running other k' locals runs)
      simpa [Container.put,Container.cpu,Threads.seen,Threads.write,Threads.move,apart] using seen
  idle := by
    intro k' none
    by_cases same : k' = k
    · subst same
      rw [Container.put_cpus,Function.update_self]
      have ended : ∀ locals, after k' state ≠ .running k' locals := by
        intro locals runs
        refine none t locals ?_
        rw [move_threads,Function.update_self]
        exact runs
      exact after_idle ended
    · rw [Container.put_cpus,Function.update_of_ne same]
      refine mirrors.idle k' fun other locals runs => ?_
      by_cases here : other = t
      · subst here
        exact same (own k' locals runs)
      · refine none other locals ?_
        rw [move_threads,Function.update_of_ne here]
        exact runs

/-- A thread enters the loop of a vCPU that no other runs. -/
theorem Mirrors.start (cntr : Cntr) {t k : Nat} (kargs : Word × Word) (ret : Word)
    (alone : ∀ other locals, other ≠ t → s.threads other ≠ .running k locals)
    (before : ∀ k' locals, s.threads t ≠ .running k' locals) :
    ∃ d, Container.Step cntr c (.cpu k (.start kargs ret)) d ∧
      Mirrors (s.move t (.running k ⟨.loop,ret,kargs⟩)) d := by
  have nobody : ∀ other locals, s.threads other ≠ .running k locals := by
    intro other locals runs
    by_cases same : other = t
    · subst same
      exact before k locals runs
    · exact alone other locals same runs
  obtain ⟨result,copied,control⟩ := mirrors.idle k nobody
  have outside : (c.cpu k).control = .launcher result copied := control
  have step : Start.Step cntr (c.cpu k) (.start kargs ret) (s.seen k ⟨.loop,ret,kargs⟩) := by
    rw [Start.Step,Start.step,outside,seen,← mirrors.vcpu,← mirrors.unanswered,← mirrors.virtio]
    rfl
  have mirrors' := mirrors.write alone (fun k' locals runs => absurd runs (before k' locals))
    (s.seen k ⟨.loop,ret,kargs⟩)
  rw [write_seen] at mirrors'
  exact ⟨_,Container.put_step step,mirrors'⟩

/-- A step of the loop on a vCPU that no other thread runs. -/
theorem Mirrors.run {cntr : Cntr} {t k : Nat} {locals : Locals} {event : Event} {state : State}
    (alone : ∀ other locals, other ≠ t → s.threads other ≠ .running k locals)
    (here : s.threads t = .running k locals) (step : Start.Step cntr (s.seen k locals) event state) :
    ∃ d, Container.Step cntr c (.cpu k event) d ∧ Mirrors ((s.write k state).move t (after k state)) d := by
  have own : ∀ k' locals, s.threads t = .running k' locals → k' = k := by
    intro k' locals' runs
    rw [here] at runs
    cases runs
    rfl
  rw [← mirrors.running t k locals here] at step
  exact ⟨_,Container.put_step step,mirrors.write alone own state⟩

theorem Mirrors.wake (k : Nat) : Mirrors (s.wake k) (c.put k (c.cpu k).wake) where
  virtio := mirrors.virtio
  installed := mirrors.installed
  vcpu := by
    intro k'
    by_cases same : k' = k
    · subst same
      simp [Container.put,Container.cpu,State.wake,Threads.wake,mirrors.vcpu k']
    · simp [Container.put,Threads.wake,same,mirrors.vcpu k']
  unanswered := by
    intro k'
    by_cases same : k' = k
    · subst same
      simp [Container.put,Container.cpu,State.wake,Threads.wake,mirrors.unanswered k']
    · simp [Container.put,Threads.wake,same,mirrors.unanswered k']
  running := by
    intro t k' locals runs
    have seen := mirrors.running t k' locals runs
    by_cases same : k' = k
    · subst same
      simpa [Container.put,Container.cpu,State.wake,Threads.wake,Threads.seen] using
        congrArg State.wake seen
    · simpa [Container.put,Container.cpu,State.wake,Threads.wake,Threads.seen,same] using seen
  idle := by
    intro k' none
    obtain ⟨result,copied,control⟩ := mirrors.idle k' none
    refine ⟨result,copied,?_⟩
    by_cases same : k' = k
    · subst same
      simpa [Container.put,Container.cpu,State.wake] using control
    · simpa [Container.put,same] using control

theorem Mirrors.install (pair : Efds.Pair) : Mirrors (s.install pair) (c.install pair) where
  virtio := congrArg pair.install mirrors.virtio
  installed := congrArg ((pair.queue,pair.kick) :: ·) mirrors.installed
  vcpu := mirrors.vcpu
  unanswered := mirrors.unanswered
  running t k locals runs := congrArg (fun old : State => { old with virtio := pair.install old.virtio })
    (mirrors.running t k locals runs)
  idle := mirrors.idle

/-- A step of the threads is one of the container, or none. -/
theorem Mirrors.step {cntr : Cntr} {nCpus : Nat} {event : ThreadsEvent} {u : Threads}
    (locked : s.Locked) (step : Step cntr nCpus s event u) :
    ∃ events d, Run (Container.Step cntr) c events d ∧ Mirrors u d := by
  have stay : ∀ {u : Threads}, Mirrors u c → ∃ events d, Run (Container.Step cntr) c events d ∧
      Mirrors u d := fun mirrors => ⟨[],c,.nil c,mirrors⟩
  have alone : ∀ {t k}, s.held t = some k → ∀ other locals, other ≠ t →
      s.threads other ≠ .running k locals := by
    intro t k holds other locals apart runs
    exact apart (locked.exclusive holds (held_of runs))
  cases step_moves step with
  | call copied cpu kargs here =>
    refine stay (mirrors.move (by simp [here]) ?_)
    intro k locals
    repeat' split
    all_goals simp
  | take here free => exact stay ((mirrors.move (by simp [here]) (by simp)).setLock _ _)
  | refused here taken => exact stay (mirrors.move (by simp [here]) (by simp))
  | @pinned t k kargs ret here =>
    obtain ⟨d,first,mirrors'⟩ := mirrors.start cntr kargs ret (alone (held_of here)) (by simp [here])
    exact ⟨_,d,.single first,mirrors'⟩
  | unpinned ret here failed => exact stay (mirrors.move (by simp [here]) (by simp))
  | run here inside moved =>
    obtain ⟨d,first,mirrors'⟩ := mirrors.run (alone (held_of here)) here moved
    exact ⟨_,d,.single first,mirrors'⟩
  | unlock here => exact stay ((mirrors.move (by simp [here]) (by simp)).setLock _ _)
  | wakeup k =>
    exact ⟨[.cpu k .wakeup],_,.single (Container.put_step rfl),mirrors.wake k⟩
  | setVringEfds env =>
    cases found : env.installs with
    | none => exact stay mirrors
    | some pair =>
      refine ⟨[.setVringEfds env],_,.single ?_,mirrors.install pair⟩
      simp only [Container.Step,Container.step,found]
  | inquire => exact stay mirrors

end

/-! Runs. -/

/-- Nobody is in START. -/
structure Idle (s : Threads) : Prop where
  out : ∀ t, ∃ result copied, s.threads t = .out result copied
  free : ∀ k, s.locks k = none

/-- The vCPUs outside START. -/
def container (s : Threads) : Container :=
  ⟨s.virtio,fun k => s.seen k ⟨.launcher 0 none,0,(0,0)⟩,s.installed⟩

section
variable {cntr : Cntr} {nCpus : Nat} {s u : Threads}

theorem Idle.held (idle : s.Idle) (t : Nat) : s.held t = none := by
  obtain ⟨result,copied,out⟩ := idle.out t
  exact held_of out

theorem Idle.locked (idle : s.Idle) : s.Locked := by
  intro k t
  rw [idle.free,idle.held]
  simp

theorem Idle.mirrors (idle : s.Idle) : Mirrors s s.container where
  virtio := rfl
  installed := rfl
  vcpu _ := rfl
  unanswered _ := rfl
  running t k locals runs := by
    obtain ⟨result,copied,out⟩ := idle.out t
    rw [out] at runs
    cases runs
  idle _ _ := ⟨0,none,rfl⟩

/-- Whatever thread is let through is let through to a vCPU that there is. -/
def Within (nCpus : Nat) (s : Threads) : Prop := ∀ t k, (s.threads t).target = some k → k < nCpus

theorem Within.move (within : s.Within nCpus) {t : Nat} {thread : Thread}
    (fits : ∀ k, thread.target = some k → k < nCpus) : (s.move t thread).Within nCpus := by
  intro other k target
  rw [move_threads,Function.update_apply] at target
  split at target
  · exact fits k target
  · exact within other k target

theorem after_target (k : Nat) (state : State) : (after k state).target = some k := by
  rw [after]
  split <;> rfl

theorem step_within {event : ThreadsEvent} (within : s.Within nCpus)
    (step : Step cntr nCpus s event u) : u.Within nCpus := by
  have kept : ∀ {t k thread}, (s.threads t).target = some k → thread.target = some k →
      (s.move t thread).Within nCpus := by
    intro t k thread old target
    refine within.move fun k' target' => ?_
    rw [target] at target'
    cases target'
    exact within t k old
  cases step_moves step with
  | call copied cpu kargs here =>
    refine within.move fun k target => ?_
    split at target
    · cases target
    · split at target
      · cases target
      · cases target
        omega
  | take here free => exact kept (congrArg Thread.target here) rfl
  | refused here taken => exact within.move (by simp [Thread.target])
  | pinned ret here => exact kept (congrArg Thread.target here) rfl
  | unpinned ret here failed => exact kept (congrArg Thread.target here) rfl
  | @run t k locals event state here inside moved =>
    exact kept (congrArg Thread.target here) (after_target k state)
  | unlock here => exact within.move (by simp [Thread.target])
  | wakeup k => exact within
  | setVringEfds env =>
    cases env.installs with
    | none => exact within
    | some pair => exact within
  | inquire => exact within

/-- Who is turned away: a thread without arguments or with the number of no vCPU, and one that finds
the lock taken. A thread that does not get past the lock changes nothing but where it is. -/
structure Refuses (nCpus : Nat) (s : Threads) (event : ThreadsEvent) (u : Threads) : Prop where
  bad : ∀ t copied cpu kargs, event = .thread t (.call copied cpu kargs) →
    (u.threads t = .trying cpu.toNat kargs ↔ copied = true ∧ cpu.toNat < nCpus)
  busy : ∀ t k kargs, event = .thread t .trylock → s.threads t = .trying k kargs →
    (u.threads t = .out (-eagain) none ↔ ∃ other, other ≠ t ∧ (s.threads other).holds = some k)
  unchanged : ∀ t own, event = .thread t own → (s.threads t).holds = none →
    (u.threads t).holds = none → u = s.move t (u.threads t)

theorem step_bad {event : ThreadsEvent} (step : Step cntr nCpus s event u) {t : Nat} {copied : Bool}
    {cpu : BitVec 32} {kargs : Word × Word} (calls : event = .thread t (.call copied cpu kargs)) :
    u.threads t = .trying cpu.toNat kargs ↔ copied = true ∧ cpu.toNat < nCpus := by
  subst calls
  cases step_moves step with
  | call copied cpu kargs here =>
    rw [move_threads,Function.update_self]
    cases copied with
    | false => simp
    | true =>
      by_cases small : cpu.toNat < nCpus
      · simp [small]
      · simp [small,Nat.le_of_not_lt small]

theorem step_unchanged {event : ThreadsEvent} (step : Step cntr nCpus s event u) {t : Nat}
    {own : ThreadEvent} (mine : event = .thread t own) (before : (s.threads t).holds = none)
    (after : (u.threads t).holds = none) : u = s.move t (u.threads t) := by
  subst mine
  cases step_moves step with
  | call copied cpu kargs here => rw [move_threads,Function.update_self]
  | take here free => simp [setLock,Thread.holds] at after
  | refused here taken => rw [move_threads,Function.update_self]
  | pinned ret here | unpinned ret here failed | run here inside moved | unlock here =>
    rw [here] at before
    cases before

theorem step_busy {event : ThreadsEvent} (locked : s.Locked) (step : Step cntr nCpus s event u)
    {t k : Nat} {kargs : Word × Word} (tries : event = .thread t .trylock)
    (trying : s.threads t = .trying k kargs) :
    u.threads t = .out (-eagain) none ↔ ∃ other, other ≠ t ∧ (s.threads other).holds = some k := by
  subst tries
  have mine : s.held t = none := held_of trying
  cases step_moves step with
  | take here free =>
    rw [trying] at here
    cases here
    refine iff_of_false (by simp [setLock]) ?_
    rintro ⟨other,_,holds⟩
    exact locked.free_iff.mp free other holds
  | @refused _ _ owner _ here taken =>
    rw [trying] at here
    cases here
    have holds := (locked k owner).mp taken
    refine iff_of_true (by simp) ⟨owner,?_,holds⟩
    rintro rfl
    rw [mine] at holds
    cases holds

theorem step_refuses {event : ThreadsEvent} (locked : s.Locked)
    (step : Step cntr nCpus s event u) : Refuses nCpus s event u :=
  ⟨fun _ _ _ _ => step_bad step,fun _ _ _ => step_busy locked step,fun _ _ => step_unchanged step⟩

/-- At most one thread is past the lock of a vCPU, and the lock is free when none is. -/
structure Exclusive (s : Threads) : Prop where
  one : ∀ t t' k, (s.threads t).holds = some k → (s.threads t').holds = some k → t' = t
  free : ∀ k, s.locks k = none ↔ ∀ t, (s.threads t).holds ≠ some k

/-- However the threads are scheduled, they run each vCPU one at a time and leave its lock as they
found it, one that is turned away changes nothing, and what they do to the container, with the
handlers of calls one after the other, is a run of single vCPUs. -/
theorem run_exclusive (idle : s.Idle) {events : List ThreadsEvent}
    (run : Run (Step cntr nCpus) s events u) :
    Run (fun v event w => Step cntr nCpus v event w ∧ Refuses nCpus v event w ∧ Exclusive w ∧
      w.Within nCpus) s events u ∧
    ∃ events' d, Run (Container.Step cntr) s.container events' d ∧ Mirrors u d := by
  have within : s.Within nCpus := by
    intro t k target
    obtain ⟨result,copied,out⟩ := idle.out t
    rw [out] at target
    cases target
  constructor
  · refine run.strengthen (fun v => v.Locked ∧ v.Within nCpus)
      (fun v event w holds step => ⟨step_locked holds.1 step,step_within holds.2 step⟩) ?_
      ⟨idle.locked,within⟩
    rintro v event w ⟨locked,within⟩ step
    have locked' := step_locked locked step
    exact ⟨step,step_refuses locked step,⟨fun _ _ _ first => locked'.exclusive first,
      fun _ => locked'.free_iff⟩,step_within within step⟩
  · obtain ⟨events',d,run',mirrors,_⟩ := run.simulate (fun v c => Mirrors v c ∧ v.Locked)
      (fun v event w c holds step => by
        obtain ⟨events,d,steps,mirrors⟩ := holds.1.step holds.2 step
        exact ⟨events,d,steps,mirrors,step_locked holds.2 step⟩) ⟨idle.mirrors,idle.locked⟩
    exact ⟨events',d,run',mirrors⟩

end

def blank : Threads where
  virtio := blankDevice
  cpus _ := ⟨Start.fresh.vcpu,none⟩
  locks _ := none
  threads _ := .out 0 none
  installed := []

theorem blank_idle : blank.Idle := ⟨fun _ => ⟨0,none,rfl⟩,fun _ => rfl⟩

/-- Two threads at one vCPU: the second is turned away until the first has come back. -/
def contending : List ThreadsEvent := [.thread 0 (.call true 0 (0,0)),.thread 1 (.call true 0 (0,0)),
  .thread 0 .trylock,.thread 1 .trylock,.thread 0 (.pinned 0 0),.thread 0 (.run (.resume ⟨0,0⟩)),
  .thread 0 (.run (.rkcall .slow ⟨Rkcall.shutdown.number,0,0,0⟩ 0 ⟨0,0⟩)),.thread 0 (.run .host),
  .thread 0 .unlock,.thread 1 (.call true 0 (0,0)),.thread 1 .trylock]

theorem run_exclusive_contending : ∃ u, Run (fun v event w => Step block 1 v event w ∧
    Refuses 1 v event w ∧ Exclusive w ∧ w.Within 1) blank contending u ∧
    u.threads 1 = .pinning 0 (0,0) := by
  have run : ∃ u, Run (Step block 1) blank contending u ∧ u.threads 1 = .pinning 0 (0,0) :=
    ⟨_,.cons rfl (.cons rfl (.cons rfl (.cons rfl (.cons rfl (.cons rfl (.cons rfl (.cons rfl
      (.cons rfl (.cons rfl (.single rfl)))))))))),rfl⟩
  obtain ⟨u,run,second⟩ := run
  exact ⟨u,(run_exclusive blank_idle run).1,second⟩

end Threads

end Cki.Start
