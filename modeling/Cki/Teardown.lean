import Cki.EfdsBalance

/-! The release of a container step by step, with signals of its eventfds between the steps.
The callbacks come off only after the processors they write to are freed. -/
namespace Cki.Efds

open Ledger Virtio Create

def epollin : BitVec 32 := 1

/-- What a callback writes to: the counter of the first processor, until the processors are
freed, and whether a callback has come after that. -/
structure Cpu0 where
  virtioEventCnt : Option (BitVec 32)
  late : Bool
  deriving DecidableEq, Repr

def virtioWakeup (flags : BitVec 32) (cpu : Cpu0) : Cpu0 :=
  if flags &&& epollin = 0 then cpu
  else
    match cpu.virtioEventCnt with
    | some cnt => { cpu with virtioEventCnt := some (cnt + 1) }
    | none => { cpu with late := true }

def ReleaseStep.frees (cpu : Cpu0) : ReleaseStep → Cpu0
  | .freeCpus => { cpu with virtioEventCnt := none }
  | _ => cpu

/-- A release with the steps that are left of it. -/
structure Teardown where
  state : State
  rest : List ReleaseStep
  cpu : Cpu0

/-- The release takes a step, or an eventfd is signalled. -/
inductive TeardownEvent where
  | step
  | signal (ctx : Eventfd) (flags : BitVec 32)
  deriving DecidableEq, Repr

/-- The hooks that a signal meets on the wait queue, each once. -/
structure Meets (waits : Links Waiter) (ctx : Eventfd) (hooks : List (Fin pkmVirtioNetQueueNum)) :
    Prop where
  reach : ∀ i, i ∈ hooks ↔ waits.Reaches (.head ctx) (.wait i)
  once : hooks.Nodup

inductive TeardownStep : Teardown → TeardownEvent → Teardown → Prop where
  | step {state state' : State} {step : ReleaseStep} {rest : List ReleaseStep} {cpu : Cpu0}
      (returns : step.run state.cntr state = .ret () state') :
      TeardownStep ⟨state,step :: rest,cpu⟩ .step ⟨state',rest,step.frees cpu⟩
  | signal {s : Teardown} {ctx : Eventfd} {flags : BitVec 32}
      {hooks : List (Fin pkmVirtioNetQueueNum)} (meets : Meets s.state.waits ctx hooks) :
      TeardownStep s (.signal ctx flags)
        { s with cpu := hooks.foldl (fun cpu _ => virtioWakeup flags cpu) s.cpu }

/-- The release begins. -/
def Teardown.start (state : State) (cnt : BitVec 32) : Teardown :=
  ⟨state,releaseSteps,some cnt,false⟩

/-- A signal that a callback hears comes while the processors are there or after the hooks on
its eventfd are off. -/
def InTime (envs : List EfdsEnv) (s : Teardown) : TeardownEvent → Prop
  | .step => True
  | .signal ctx flags => flags &&& epollin = 0 ∨ .freeCpus ∈ s.rest ∨
      ∀ i, hooksAfter envs i = some ctx → .removeWaitQueue i ∉ s.rest

/-- A signal that a callback hears comes while the processors are there. -/
def BeforeFree (s : Teardown) : TeardownEvent → Prop
  | .step => True
  | .signal _ flags => flags &&& epollin = 0 ∨ .freeCpus ∈ s.rest

/-! The callbacks. -/

theorem virtioWakeup_gone {flags : BitVec 32} {cpu : Cpu0} :
    (virtioWakeup flags cpu).virtioEventCnt = none ↔ cpu.virtioEventCnt = none := by
  rw [virtioWakeup]
  split
  · rfl
  · split
    · rename_i cnt there
      simp only [there,reduceCtorEq]
    · rename_i gone
      simp only [gone]

theorem virtioWakeup_late {flags : BitVec 32} {cpu : Cpu0} : (virtioWakeup flags cpu).late = true ↔
    cpu.late = true ∨ flags &&& epollin ≠ 0 ∧ cpu.virtioEventCnt = none := by
  rw [virtioWakeup]
  split
  · rename_i deaf
    simp only [deaf,ne_eq,not_true_eq_false,false_and,or_false]
  · rename_i hears
    split
    · rename_i cnt there
      simp only [there,reduceCtorEq,and_false,or_false]
    · rename_i gone
      simp only [gone,ne_eq,hears,not_false_eq_true,and_self,or_true]

theorem foldl_virtioWakeup (flags : BitVec 32) (hooks : List (Fin pkmVirtioNetQueueNum)) (cpu : Cpu0) :
    ((hooks.foldl (fun cpu _ => virtioWakeup flags cpu) cpu).virtioEventCnt = none ↔
      cpu.virtioEventCnt = none) ∧
    ((hooks.foldl (fun cpu _ => virtioWakeup flags cpu) cpu).late = true ↔
      cpu.late = true ∨ hooks ≠ [] ∧ flags &&& epollin ≠ 0 ∧ cpu.virtioEventCnt = none) := by
  induction hooks generalizing cpu with
  | nil => simp only [List.foldl_nil,ne_eq,not_true_eq_false,false_and,or_false,and_self]
  | cons hook rest ih =>
    obtain ⟨gone,late⟩ := ih (virtioWakeup flags cpu)
    rw [List.foldl_cons,gone,late,virtioWakeup_gone,virtioWakeup_late]
    refine ⟨Iff.rfl,?_⟩
    constructor
    · rintro ((old | new) | ⟨_,new⟩)
      · exact .inl old
      · exact .inr ⟨List.cons_ne_nil _ _,new⟩
      · exact .inr ⟨List.cons_ne_nil _ _,new⟩
    · rintro (old | ⟨_,new⟩)
      · exact .inl (.inl old)
      · exact .inl (.inr new)

/-! What holds while a release runs. -/

/-- Of the hooks there are those that are still to be taken off, and the processors are there
as long as they are still to be freed. -/
structure Tearing (cntr : Cntr) (on : Fin pkmVirtioNetQueueNum → Option Eventfd) (s : Teardown) :
    Prop where
  same : s.state.cntr = cntr
  built : Built cntr
  recorded : Recorded cntr on
  hooked : Hooked s.state.waits (hooksLeft on s.rest)
  once : s.rest.Nodup
  gone : s.cpu.virtioEventCnt = none ↔ .freeCpus ∉ s.rest

theorem ReleaseStep.frees_gone {step : ReleaseStep} {rest : List ReleaseStep} {cpu : Cpu0}
    (once : step ∉ rest) (gone : cpu.virtioEventCnt = none ↔ .freeCpus ∉ step :: rest) :
    (step.frees cpu).virtioEventCnt = none ↔ .freeCpus ∉ rest := by
  cases step with
  | freeCpus => exact iff_of_true rfl once
  | _ => simpa [ReleaseStep.frees] using gone

theorem ReleaseStep.frees_late (step : ReleaseStep) (cpu : Cpu0) : (step.frees cpu).late = cpu.late := by
  cases step <;> rfl

theorem step_tearing {cntr : Cntr} {on : Fin pkmVirtioNetQueueNum → Option Eventfd} {s t : Teardown}
    {event : TeardownEvent} (tearing : Tearing cntr on s) (h : TeardownStep s event t) :
    Tearing cntr on t := by
  cases h with
  | @step state state' step rest cpu returns =>
    obtain ⟨same,built,recorded,hooked,once,gone⟩ := tearing
    obtain ⟨apart,once⟩ := List.nodup_cons.mp once
    cases same
    obtain ⟨state'',returns',released⟩ := step.run_released built state
    rw [returns] at returns'
    cases returns'
    refine ⟨released.same,built,recorded,?_,once,ReleaseStep.frees_gone apart gone⟩
    rw [released.waits]
    exact unhooks_hooked recorded apart hooked
  | @signal _ ctx flags hooks meets =>
    refine ⟨tearing.same,tearing.built,tearing.recorded,tearing.hooked,tearing.once,?_⟩
    exact (foldl_virtioWakeup _ hooks _).1.trans tearing.gone

/-- A step that comes in time is one after which no callback was late. -/
theorem step_inTime_iff {cntr : Cntr} {envs : List EfdsEnv} {s t : Teardown} {event : TeardownEvent}
    (tearing : Tearing cntr (hooksAfter envs) s) (early : s.cpu.late = false)
    (h : TeardownStep s event t) : InTime envs s event ↔ t.cpu.late = false := by
  cases h with
  | @step state state' step rest cpu returns =>
    apply iff_of_true trivial
    rw [ReleaseStep.frees_late]
    exact early
  | @signal _ ctx flags hooks meets =>
    have late := (foldl_virtioWakeup flags hooks s.cpu).2
    have met : hooks ≠ [] ↔ ∃ i, hooksAfter envs i = some ctx ∧ .removeWaitQueue i ∈ s.rest := by
      have any : hooks ≠ [] ↔ ∃ i, i ∈ hooks :=
        ⟨List.exists_mem_of_ne_nil hooks,fun some => some.elim fun _ => List.ne_nil_of_mem⟩
      rw [any]
      refine exists_congr fun i => ?_
      rw [meets.reach,tearing.hooked.reach,hooksLeft]
      split
      · rename_i left
        exact (and_iff_left left).symm
      · rename_i off
        exact iff_of_false (by simp) fun holds => off holds.2
    rw [← Bool.not_eq_true,late,met,tearing.gone,early]
    simp only [InTime,Bool.false_eq_true,false_or,not_and,not_not,ne_eq]
    constructor
    · rintro (deaf | there | off) ⟨i,on,left⟩
      · exact fun hears => absurd deaf hears
      · exact fun _ => there
      · exact absurd left (off i on)
    · intro all
      by_cases deaf : flags &&& epollin = 0
      · exact .inl deaf
      · by_cases there : .freeCpus ∈ s.rest
        · exact .inr (.inl there)
        · refine .inr (.inr fun i on left => there ?_)
          exact all ⟨i,on,left⟩ deaf

theorem start_tearing {s t : State} {envs : List EfdsEnv} (created : Created s)
    (run : Run EfdsStep s envs t) (once : SetOnce envs) (cnt : BitVec 32) :
    Tearing t.cntr (hooksAfter envs) (Teardown.start t cnt) := by
  have recorded : Recorded s.cntr fun _ => none := fun i =>
    iff_of_true (created.queues i).2 rfl
  obtain ⟨hooked,recorded'⟩ := run_hooked run created.waits recorded (fun _ _ => rfl) once
  have gone : (some cnt = none) ↔ ReleaseStep.freeCpus ∉ releaseSteps := by
    apply iff_of_false (by simp)
    decide
  refine ⟨rfl,run_built run created.built,recorded',?_,releaseSteps_nodup,gone⟩
  rw [← hooksLeft_releaseSteps (envs.foldl _ _)] at hooked
  exact hooked

/-- Left alone, the steps are the release. -/
theorem steps_run {s : State} (built : Built s.cntr) (steps rest : List ReleaseStep) (cpu : Cpu0) :
    ∃ u cpu', runSteps s.cntr steps s = .ret () u ∧
      Run TeardownStep ⟨s,steps ++ rest,cpu⟩ (List.replicate steps.length .step) ⟨u,rest,cpu'⟩ := by
  induction steps generalizing s cpu with
  | nil => exact ⟨s,cpu,rfl,.nil _⟩
  | cons step steps ih =>
    obtain ⟨t,first,released⟩ := step.run_released built s
    have same := released.same
    rw [← same] at built
    obtain ⟨u,cpu',later,run⟩ := ih built (step.frees cpu)
    refine ⟨u,cpu',?_,.cons (.step first) run⟩
    rw [runSteps,Call.ret_bind first,← same]
    exact later

/-- The processors are there as long as they are still to be freed, and no callback was late. -/
structure Punctual (s : Teardown) : Prop where
  once : s.rest.Nodup
  gone : s.cpu.virtioEventCnt = none ↔ .freeCpus ∉ s.rest
  early : s.cpu.late = false

theorem step_punctual {s t : Teardown} {event : TeardownEvent} (punctual : Punctual s)
    (step : Guarded BeforeFree TeardownStep s event t) : Punctual t := by
  obtain ⟨before,step⟩ := step
  cases step with
  | @step state state' step rest cpu returns =>
    obtain ⟨apart,once⟩ := List.nodup_cons.mp punctual.once
    refine ⟨once,ReleaseStep.frees_gone apart punctual.gone,?_⟩
    rw [ReleaseStep.frees_late]
    exact punctual.early
  | @signal _ ctx flags hooks meets =>
    obtain ⟨gone,late⟩ := foldl_virtioWakeup flags hooks s.cpu
    refine ⟨punctual.once,gone.trans punctual.gone,?_⟩
    rw [← Bool.not_eq_true,late,punctual.early,punctual.gone]
    rintro (old | ⟨_,hears,freed⟩)
    · cases old
    · exact before.elim hears freed

/-- However often its queues were installed, no callback is late where no signal comes after the
processors are freed. -/
theorem callbacks_beforeFree {t : State} {cnt : BitVec 32} {events : List TeardownEvent}
    {u : Teardown} (run : Run (Guarded BeforeFree TeardownStep) (.start t cnt) events u) :
    u.cpu.late = false := by
  have gone : (some cnt = none) ↔ ReleaseStep.freeCpus ∉ releaseSteps := by
    apply iff_of_false (by simp)
    decide
  have start : Punctual (.start t cnt) := ⟨releaseSteps_nodup,gone,rfl⟩
  exact (run.invariant Punctual (fun _ _ _ => step_punctual) start).early

/-- The runs of a release in which no callback comes after the processors are freed are those
in which every signal comes in time; without a second installation of a queue, and with one too
where no signal comes after the processors are freed. -/
theorem callbacks_inTime_iff {s t : State} {envs : List EfdsEnv} (created : Created s)
    (installed : Run EfdsStep s envs t) (cnt : BitVec 32) (events : List TeardownEvent)
    (u : Teardown) :
    (SetOnce envs → (Run (Guarded (InTime envs) TeardownStep) (.start t cnt) events u ↔
      Run (fun s event u => TeardownStep s event u ∧ u.cpu.late = false) (.start t cnt) events u)) ∧
    (Run (Guarded BeforeFree TeardownStep) (.start t cnt) events u → u.cpu.late = false) := by
  refine ⟨fun once => ?_,callbacks_beforeFree⟩
  exact Run.guarded_iff_of_kept (Tearing t.cntr (hooksAfter envs)) (fun s => s.cpu.late = false)
    (InTime envs) (fun _ _ _ tearing h => step_tearing tearing h)
    (fun _ _ _ tearing early h => step_inTime_iff tearing early h)
    (start_tearing created installed once cnt) rfl

/-! A container with one installation, on queue 0. -/

theorem installing_once (kick call : Eventfd) : SetOnce [installing kick call] :=
  List.nodup_cons.mpr ⟨List.not_mem_nil,.nil⟩

theorem installing_meets {cntr : Cntr} {kick call : Eventfd} {s : Teardown}
    (tearing : Tearing cntr (hooksAfter [installing kick call]) s)
    (left : ∀ i, .removeWaitQueue i ∈ s.rest) : Meets s.state.waits call [⟨0,by decide⟩] := by
  refine ⟨fun i => ?_,List.nodup_cons.mpr ⟨List.not_mem_nil,.nil⟩⟩
  rw [tearing.hooked.reach,hooksLeft,if_pos (left i)]
  by_cases first : i = ⟨0,zero_lt_queueNum⟩
  · rw [first]
    exact iff_of_true List.mem_cons_self rfl
  · have other : hooksAfter [installing kick call] i = none := by
      change Function.update (fun _ => none) (⟨0,zero_lt_queueNum⟩ : Fin pkmVirtioNetQueueNum)
        (some call) i = none
      exact Function.update_of_ne first ..
    rw [other,List.mem_singleton]
    exact iff_of_false first (Option.some_ne_none call).symm

theorem signal_inTime : ∃ t u, Run EfdsStep fresh [installing 0x10 0x20] t ∧
    Run TeardownStep (.start t 0) [.signal 0x20 epollin] u ∧ u.cpu.late = false := by
  obtain ⟨t,step⟩ := installing_run 0x10 0x20 fresh
  have installed := Run.single step
  have once := installing_once 0x10 0x20
  have tearing := start_tearing fresh_created installed once 0
  have there : .freeCpus ∈ releaseSteps := by decide
  have left : ∀ i, .removeWaitQueue i ∈ releaseSteps := by decide
  have guarded : Guarded (InTime [installing 0x10 0x20]) TeardownStep (.start t 0)
      (.signal 0x20 epollin) _ :=
    ⟨.inr (.inl there),.signal (installing_meets tearing left)⟩
  have run := ((callbacks_inTime_iff fresh_created installed 0 _ _).1 once).mp (.single guarded)
  cases run with
  | cons head tail =>
    cases tail
    exact ⟨t,_,installed,.single head.1,head.2⟩

/-- A signal between the release of the processors and that of the hooks. -/
theorem signal_too_late : ¬ ∀ (s t : State) (envs : List EfdsEnv) (cnt : BitVec 32)
    (events : List TeardownEvent) (u : Teardown), Created s → Run EfdsStep s envs t →
    Run TeardownStep (.start t cnt) events u → u.cpu.late = false := by
  intro claim
  obtain ⟨t,step⟩ := installing_run 0x10 0x20 fresh
  have installed := Run.single step
  have once := installing_once 0x10 0x20
  have tearing := start_tearing fresh_created installed once 0
  obtain ⟨u,cpu,_,run⟩ := steps_run tearing.built (releaseSteps.take 6) (releaseSteps.drop 6)
    ⟨some 0,false⟩
  have freed := run.invariant (Tearing t.cntr (hooksAfter [installing 0x10 0x20]))
    (fun _ _ _ => step_tearing) tearing
  have early : cpu.late = false := claim _ _ _ _ _ _ fresh_created installed run
  have left : ∀ i, .removeWaitQueue i ∈ releaseSteps.drop 6 := by decide
  have none : .freeCpus ∉ releaseSteps.drop 6 := by decide
  have signal : TeardownStep ⟨u,releaseSteps.drop 6,cpu⟩ (.signal 0x20 epollin) _ :=
    .signal (installing_meets freed left)
  have late := claim _ _ _ _ _ _ fresh_created installed (run.append (.single signal))
  have inTime := (step_inTime_iff freed early signal).mpr late
  have not : ¬ InTime [installing 0x10 0x20] ⟨u,releaseSteps.drop 6,cpu⟩ (.signal 0x20 epollin) := by
    rintro (deaf | there | off)
    · exact absurd deaf (by decide)
    · exact none there
    · exact off ⟨0,by decide⟩ rfl (left _)
  exact not inTime

end Cki.Efds
