import Cki.StartEvents

/-! The switch of modes. The guest keeps its type of switch in `__pk_rkcall` and sets it
in `pk_init_late`, the host keeps its own in `cpu->pk_rkret` and sets it when it serves
INIT_LATE. -/
namespace Cki.Start

open Asm Switch Virtio

/-- How far the guest is in `pk_init_late`: before it, in its INIT_LATE call, between the
call and the assignment, after it. -/
inductive Phase where
  | early | calling | called | late
  deriving DecidableEq, Repr

/-- Both parties. `mixed` remembers that a transition has entered the host with one type
and resumed the guest with the other. -/
structure System where
  start : State
  pkRkcall : Variant
  phase : Phase
  mixed : Bool

/-- The next resume would be of the other type than the entry. -/
def State.crossed (s : State) : Bool :=
  match s.unanswered with
  | some u => u.type ≠ s.vcpu.pkRkret
  | none => false

inductive Label where
  | host (event : Event)
  | resume (tables : Tables)
  | rkcall (call : Call) (cr3 : Word) (tables : Tables)
  | initLate (cr3 : Word)
  | useFast
  deriving DecidableEq, Repr

def HostEvent (event : Event) : Prop :=
  match event with
  | .resume _ | .rkcall _ _ _ _ => False
  | _ => True

/-- A step of either party. Up to the end of `pk_init_late` both switch slowly, so each has
its own registers in force; only `pk_init_late` calls INIT_LATE. -/
inductive Turn (cntr : Cntr) (guest host : Tables) (s : System) : Label → System → Prop where
  | host {event : Event} {t : State} : HostEvent event → Step cntr s.start event t →
      Turn cntr guest host s (.host event) { s with start := t }
  | resume {tables : Tables} {t : State} : (s.phase ≠ .late → tables = host) →
      Step cntr s.start (.resume tables) t → Turn cntr guest host s (.resume tables)
        { s with
          start := t
          phase := if s.phase = .calling then .called else s.phase
          mixed := s.mixed || s.start.crossed }
  | rkcall {call : Call} {cr3 : Word} {tables : Tables} {t : State} :
      call.n ≠ Rkcall.initLate.number → (s.phase ≠ .late → tables = guest) →
      Step cntr s.start (.rkcall s.pkRkcall call cr3 tables) t →
      Turn cntr guest host s (.rkcall call cr3 tables) { s with start := t }
  | initLate {cr3 : Word} {t : State} : s.phase = .early →
      Step cntr s.start (.rkcall s.pkRkcall ⟨Rkcall.initLate.number,0,0,0⟩ cr3 guest) t →
      Turn cntr guest host s (.initLate cr3) { s with start := t, phase := .calling }
  | useFast : s.phase = .called → s.start.control = .guest →
      Turn cntr guest host s .useFast { s with pkRkcall := .fast, phase := .late }

/-- A created vCPU whose guest has not started. -/
structure Booting (s : System) : Prop where
  created : Created s.start
  pkRkcall : s.pkRkcall = .slow
  phase : s.phase = .early
  mixed : s.mixed = false

/-- The two sides have the same type and no transition has mixed them. -/
structure Agree (s : System) : Prop where
  types : s.pkRkcall = .fast ↔ s.start.vcpu.pkRkret = .fast
  mixed : s.mixed = false

/-! The saved images. -/

/-- The upper bytes of an image's second word, which no store of a table reaches. -/
def Clean (regs : PkCtxRegs) : Prop := regs.idtr.2.extractLsb' 16 48 = 0

def IsImage (tables : Tables) (regs : PkCtxRegs) : Prop :=
  regs.idtr = tableWords tables.idtr 0 ∧ regs.cr4 = tables.cr4

theorem save_clean {regs : PkCtxRegs} (clean : Clean regs) (type : Variant) (tables : Tables) :
    Clean (regs.save type tables) := by
  cases type with
  | slow => exact (tableWords_upper tables.idtr regs.idtr.2).trans clean
  | fast => exact clean

theorem save_image {regs : PkCtxRegs} (clean : Clean regs) (tables : Tables) :
    IsImage tables (regs.save .slow tables) := by
  refine ⟨?_,rfl⟩
  have zero : (0 : Word).extractLsb' 16 48 = 0 := by decide
  rw [Clean] at clean
  simp only [PkCtxRegs.save,tableWords,clean,zero]

theorem image_iff {guest host : Tables} {pmode rmode : PkCtxRegs} (first : IsImage guest pmode)
    (second : IsImage host rmode) :
    pmode.idtr = rmode.idtr ∧ pmode.cr4 = rmode.cr4 ↔ guest = host := by
  constructor
  · rintro ⟨idtr,cr4⟩
    rw [first.1,second.1] at idtr
    rw [first.2,second.2] at cr4
    have table := congrArg (fun words => tableOf words.1 words.2) idtr
    simp only [tableOf_tableWords] at table
    cases guest
    cases host
    simp_all
  · rintro rfl
    exact ⟨first.1.trans second.1.symm,first.2.trans second.2.symm⟩

theorem handleRkcallInitLate_iff {guest host : Tables} {vcpu : Vcpu}
    (first : IsImage guest vcpu.pmode) (second : IsImage host vcpu.rmode) :
    handleRkcallInitLate vcpu = 0 ↔ guest = host := by
  rw [← image_iff first second]
  by_cases idtr : vcpu.pmode.idtr = vcpu.rmode.idtr
  · by_cases cr4 : vcpu.pmode.cr4 = vcpu.rmode.cr4 <;> simp [handleRkcallInitLate,idtr,cr4]
  · simp [handleRkcallInitLate,idtr]

/-! What a step of the host leaves alone. -/

structure HostKept (s t : State) : Prop where
  rmode : t.vcpu.rmode = s.vcpu.rmode
  idtr : t.vcpu.pmode.idtr = s.vcpu.pmode.idtr
  cr4 : t.vcpu.pmode.cr4 = s.vcpu.pmode.cr4
  guest : t.control = .guest → s.control = .guest
  dispatch : t.control = .dispatch → s.control = .dispatch ∧ t.vcpu.call = s.vcpu.call
  pkRkret : (s.control = .dispatch → s.vcpu.call.n ≠ Rkcall.initLate.number) →
    t.vcpu.pkRkret = s.vcpu.pkRkret

theorem leads_elsewhere {s t : State} (leads : Leads s t) :
    t.control ≠ .guest ∧ t.control ≠ .dispatch := by
  cases leads <;> simp_all

theorem host_kept {cntr : Cntr} {s t : State} {event : Event} (own : HostEvent event)
    (step : Step cntr s event t) : HostKept s t := by
  cases step_moves step with
  | resume tables control => exact own.elim
  | rkcall type call cr3 tables control => exact own.elim
  | dispatch control =>
    have kept := dispatch_dispatched cntr s
    have elsewhere := leads_elsewhere (dispatch_leads cntr s)
    exact ⟨kept.rmode,kept.idtr,kept.cr4,fun guest => absurd guest elsewhere.1,
      fun dispatch => absurd dispatch elsewhere.2,fun other => kept.pkRkret (other control)⟩
  | wakeup => exact ⟨rfl,rfl,rfl,id,fun dispatch => ⟨dispatch,rfl⟩,fun _ => rfl⟩
  | halting control none => exact ⟨rfl,rfl,rfl,id,fun dispatch => ⟨dispatch,rfl⟩,fun _ => rfl⟩
  | spin control => exact ⟨rfl,rfl,rfl,id,fun dispatch => ⟨dispatch,rfl⟩,fun _ => rfl⟩
  | poll control =>
    by_cases none : s.vcpu.virtioEventCnt = 0
    · rw [poll_none none]
      exact ⟨rfl,rfl,rfl,nofun,nofun,fun _ => rfl⟩
    · rw [poll_some none]
      exact ⟨rfl,rfl,rfl,nofun,nofun,fun _ => rfl⟩
  | copied ok control => cases ok <;> exact ⟨rfl,rfl,rfl,nofun,nofun,fun _ => rfl⟩
  | _ => exact ⟨rfl,rfl,rfl,nofun,nofun,fun _ => rfl⟩

/-! The handshake by phase. -/

/-- Nobody has asked for the fast type yet. -/
structure Early (host : Tables) (s : State) : Prop where
  pkRkret : s.vcpu.pkRkret = .slow
  rmode : s.control = .guest → IsImage host s.vcpu.rmode
  call : s.control = .dispatch → s.vcpu.call.n ≠ Rkcall.initLate.number

/-- INIT_LATE has entered slowly and is served. -/
def Calling (guest host : Tables) (s : State) : Prop :=
  (∃ u, s.unanswered = some u ∧ u.type = .slow) ∧
  match s.control with
  | .dispatch => s.vcpu.pkRkret = .slow ∧ s.vcpu.call.n = Rkcall.initLate.number ∧
    IsImage guest s.vcpu.pmode ∧ IsImage host s.vcpu.rmode
  | .polling | .consuming _ | .storing _ | .loop => s.vcpu.pkRkret = .fast ↔ guest = host
  | _ => False

/-- INIT_LATE has been served, so the host's type tells how the check went. -/
structure Checked (guest host : Tables) (mixed : Bool) (s : State) : Prop where
  pkRkret : s.vcpu.pkRkret = .fast ↔ guest = host
  mixed : guest = host → mixed = true
  call : s.control = .dispatch → s.vcpu.call.n ≠ Rkcall.initLate.number

structure Tracks (guest host : Tables) (s : System) : Prop where
  pmode : Clean s.start.vcpu.pmode
  rmode : Clean s.start.vcpu.rmode
  pkRkcall : s.pkRkcall = .fast ↔ s.phase = .late
  phase : match s.phase with
    | .early => Early host s.start
    | .calling => Calling guest host s.start
    | .called | .late => Checked guest host s.mixed s.start

theorem Booting.tracks {s : System} (booting : Booting s) (guest host : Tables) :
    Tracks guest host s where
  pmode := by
    rw [Clean,booting.created.pmodeIdtr]
    decide
  rmode := by
    rw [Clean,booting.created.rmodeIdtr]
    decide
  pkRkcall := by
    rw [booting.pkRkcall,booting.phase]
    decide
  phase := by
    obtain ⟨result,copied,control⟩ := booting.created.control
    rw [booting.phase]
    exact ⟨booting.created.pkRkret,by rw [control]; nofun,by rw [control]; nofun⟩

theorem Early.host {host : Tables} {s t : State} (early : Early host s) (kept : HostKept s t) :
    Early host t where
  pkRkret := (kept.pkRkret early.call).trans early.pkRkret
  rmode := by
    intro guest
    rw [kept.rmode]
    exact early.rmode (kept.guest guest)
  call := by
    intro dispatch
    obtain ⟨before,same⟩ := kept.dispatch dispatch
    rw [same]
    exact early.call before

theorem Checked.host {guest host : Tables} {mixed : Bool} {s t : State}
    (checked : Checked guest host mixed s) (kept : HostKept s t) : Checked guest host mixed t where
  pkRkret := by
    rw [kept.pkRkret checked.call]
    exact checked.pkRkret
  mixed := checked.mixed
  call := by
    intro dispatch
    obtain ⟨before,same⟩ := kept.dispatch dispatch
    rw [same]
    exact checked.call before

/-- INIT_LATE always gets an answer, and the host's type with it. -/
theorem dispatch_initLate (cntr : Cntr) {guest host : Tables} {s : State}
    (slow : s.vcpu.pkRkret = .slow) (late : s.vcpu.call.n = Rkcall.initLate.number)
    (first : IsImage guest s.vcpu.pmode) (second : IsImage host s.vcpu.rmode) :
    (s.dispatch cntr).control = .polling ∧
    ((s.dispatch cntr).vcpu.pkRkret = .fast ↔ guest = host) := by
  have served : Rkcall.ofNumber s.vcpu.call.n = some .initLate := by
    rw [late]
    rfl
  rw [← handleRkcallInitLate_iff first second]
  by_cases passed : handleRkcallInitLate s.vcpu = 0
  · simp only [State.dispatch,served,if_pos passed]
    exact ⟨rfl,fun _ => passed,fun _ => trivial⟩
  · simp only [State.dispatch,served,if_neg passed]
    exact ⟨rfl,fun fast => absurd (slow.symm.trans fast) (by decide),fun zero => absurd zero passed⟩

theorem Calling.host {cntr : Cntr} {guest host : Tables} {s t : State} {event : Event}
    (calling : Calling guest host s) (own : HostEvent event) (step : Step cntr s event t) :
    Calling guest host t := by
  obtain ⟨⟨u,unanswered,slow⟩,calling⟩ := calling
  cases step_moves step with
  | resume tables control => exact own.elim
  | rkcall type call cr3 tables control => exact own.elim
  | wakeup => exact ⟨⟨u,unanswered,slow⟩,calling⟩
  | dispatch control =>
    rw [control] at calling
    obtain ⟨pkRkret,late,first,second⟩ := calling
    have kept := dispatch_dispatched cntr s
    obtain ⟨polling,fast⟩ := dispatch_initLate cntr pkRkret late first second
    refine ⟨⟨u,kept.unanswered.trans unanswered,slow⟩,?_⟩
    rw [polling]
    exact fast
  | poll control =>
    rw [control] at calling
    by_cases none : s.vcpu.virtioEventCnt = 0
    · rw [poll_none none]
      exact ⟨⟨u,unanswered,slow⟩,calling⟩
    · rw [poll_some none]
      exact ⟨⟨_,congrArg (Option.map _) unanswered,slow⟩,calling⟩
  | consume count control =>
    rw [control] at calling
    exact ⟨⟨u,unanswered,slow⟩,calling⟩
  | store events control =>
    rw [control] at calling
    exact ⟨⟨u,unanswered,slow⟩,calling⟩
  | start kargs ret control =>
    rw [control] at calling
    exact calling.elim
  | halting control none =>
    rw [control] at calling
    exact calling.elim
  | halted control some =>
    rw [control] at calling
    exact calling.elim
  | spin control =>
    rw [control] at calling
    exact calling.elim
  | copied ok control =>
    rw [control] at calling
    exact calling.elim

theorem host_tracks {cntr : Cntr} {guest host : Tables} {s : System} {t : State} {event : Event}
    (tracks : Tracks guest host s) (own : HostEvent event) (step : Step cntr s.start event t) :
    Tracks guest host { s with start := t } := by
  obtain ⟨pmode,rmode,pkRkcall,phase⟩ := tracks
  have kept := host_kept own step
  refine ⟨?_,?_,pkRkcall,?_⟩
  · rwa [Clean,kept.idtr]
  · rwa [Clean,kept.rmode]
  · cases at' : s.phase with
    | early =>
      rw [at'] at phase
      exact phase.host kept
    | calling =>
      rw [at'] at phase
      exact phase.host own step
    | called =>
      rw [at'] at phase
      exact phase.host kept
    | late =>
      rw [at'] at phase
      exact phase.host kept

theorem resume_tracks {cntr : Cntr} {guest host tables : Tables} {s : System} {t : State}
    (tracks : Tracks guest host s) (own : s.phase ≠ .late → tables = host)
    (step : Step cntr s.start (.resume tables) t) : Tracks guest host
      { s with
        start := t
        phase := if s.phase = .calling then .called else s.phase
        mixed := s.mixed || s.start.crossed } := by
  obtain ⟨pmode,rmode,pkRkcall,phase⟩ := tracks
  cases step_moves step with
  | resume tables control =>
    refine ⟨pmode,save_clean rmode _ _,?_,?_⟩
    · cases at' : s.phase <;> simpa [at'] using pkRkcall
    · cases at' : s.phase with
      | early =>
        rw [at'] at phase
        obtain rfl := own (by simp [at'])
        have image := save_image rmode tables
        rw [← phase.pkRkret] at image
        exact ⟨phase.pkRkret,fun _ => image,nofun⟩
      | calling =>
        rw [at'] at phase
        obtain ⟨⟨u,unanswered,slow⟩,phase⟩ := phase
        rw [control] at phase
        refine ⟨phase,?_,nofun⟩
        intro same
        simp [State.crossed,unanswered,slow,phase.mpr same]
      | called =>
        rw [at'] at phase
        exact ⟨phase.pkRkret,fun same => by simp [phase.mixed same],nofun⟩
      | late =>
        rw [at'] at phase
        exact ⟨phase.pkRkret,fun same => by simp [phase.mixed same],nofun⟩

theorem rkcall_tracks {cntr : Cntr} {guest host tables : Tables} {s : System} {t : State}
    {call : Call} {cr3 : Word} (tracks : Tracks guest host s)
    (other : call.n ≠ Rkcall.initLate.number)
    (step : Step cntr s.start (.rkcall s.pkRkcall call cr3 tables) t) :
    Tracks guest host { s with start := t } := by
  obtain ⟨pmode,rmode,pkRkcall,phase⟩ := tracks
  cases step_moves step with
  | rkcall type call cr3 tables control =>
    refine ⟨save_clean pmode s.pkRkcall tables,rmode,pkRkcall,?_⟩
    cases at' : s.phase with
    | early =>
      rw [at'] at phase
      exact ⟨phase.pkRkret,nofun,fun _ => other⟩
    | calling =>
      rw [at'] at phase
      have none := phase.2
      rw [control] at none
      exact none.elim
    | called =>
      rw [at'] at phase
      exact ⟨phase.pkRkret,phase.mixed,fun _ => other⟩
    | late =>
      rw [at'] at phase
      exact ⟨phase.pkRkret,phase.mixed,fun _ => other⟩

theorem initLate_tracks {cntr : Cntr} {guest host : Tables} {s : System} {t : State} {cr3 : Word}
    (tracks : Tracks guest host s) (early : s.phase = .early)
    (step : Step cntr s.start (.rkcall s.pkRkcall ⟨Rkcall.initLate.number,0,0,0⟩ cr3 guest) t) :
    Tracks guest host { s with start := t, phase := .calling } := by
  obtain ⟨pmode,rmode,pkRkcall,phase⟩ := tracks
  rw [early] at phase
  have slow : s.pkRkcall = .slow := by
    cases type : s.pkRkcall with
    | slow => rfl
    | fast => exact absurd (early.symm.trans (pkRkcall.mp type)) (by decide)
  rw [slow] at step
  cases step_moves step with
  | rkcall type call cr3 tables control =>
    refine ⟨save_clean pmode .slow guest,rmode,by simp [slow],⟨⟨_,rfl,rfl⟩,?_⟩⟩
    exact ⟨phase.pkRkret,rfl,save_image pmode guest,phase.rmode control⟩

theorem turn_tracks {cntr : Cntr} {guest host : Tables} {s t : System} {label : Label}
    (tracks : Tracks guest host s) (turn : Turn cntr guest host s label t) :
    Tracks guest host t := by
  cases turn with
  | host own step => exact host_tracks tracks own step
  | resume own step => exact resume_tracks tracks own step
  | rkcall other own step => exact rkcall_tracks tracks other step
  | initLate early step => exact initLate_tracks tracks early step
  | useFast called control =>
    obtain ⟨pmode,rmode,_,phase⟩ := tracks
    rw [called] at phase
    exact ⟨pmode,rmode,by simp,phase⟩

theorem run_tracks {cntr : Cntr} {guest host : Tables} {s t : System} {labels : List Label}
    (booting : Booting s) (run : Run (Turn cntr guest host) s labels t) : Tracks guest host t :=
  run.invariant (Tracks guest host) (fun _ _ _ tracks turn => turn_tracks tracks turn)
    (booting.tracks guest host)

/-- After the handshake the guest is fast, and the host is if the check passed. Where it
passed, INIT_LATE itself entered slowly and was resumed fast. -/
theorem handshake_disagrees {cntr : Cntr} {guest host : Tables} {s t : System} {labels : List Label}
    (booting : Booting s) (run : Run (Turn cntr guest host) s labels t) (late : t.phase = .late) :
    ¬ Agree t ∧ t.pkRkcall = .fast ∧ (t.start.vcpu.pkRkret = .fast ↔ guest = host) ∧
      (guest = host → t.mixed = true) := by
  have tracks := run_tracks booting run
  have fast := tracks.pkRkcall.mpr late
  have checked := tracks.phase
  rw [late] at checked
  refine ⟨?_,fast,checked.pkRkret,checked.mixed⟩
  intro agree
  have mixed := checked.mixed (checked.pkRkret.mp (agree.types.mp fast))
  rw [agree.mixed] at mixed
  cases mixed

/-- A system about to boot. -/
def booting : System := ⟨fresh,.slow,.early,false⟩

theorem booting_booting : Booting booting := ⟨fresh_created,rfl,rfl,rfl⟩

/-- A guest with an IDT of its own fails the check and goes on. -/
theorem handshake_booting : ∃ labels t, Run (Turn block ⟨1,0⟩ ⟨0,0⟩) booting labels t ∧
    t.phase = .late ∧ t.start.vcpu.pkRkret = .slow :=
  ⟨[.host (.start (0,0) 0),.resume ⟨0,0⟩,.initLate 0,.host .host,.host .host,.host .host,
      .resume ⟨0,0⟩,.useFast],_,
    .cons (.host trivial rfl) (.cons (.resume (fun _ => rfl) rfl) (.cons (.initLate rfl rfl)
      (.cons (.host trivial rfl) (.cons (.host trivial rfl) (.cons (.host trivial rfl)
        (.cons (.resume (fun _ => rfl) rfl) (.cons (.useFast rfl rfl) (.nil _)))))))),rfl,rfl⟩

theorem handshake_disagrees_booting : ∃ t : System, ¬ Agree t ∧ t.pkRkcall = .fast ∧
    (t.start.vcpu.pkRkret = .fast ↔ (⟨1,0⟩ : Tables) = ⟨0,0⟩) ∧
    ((⟨1,0⟩ : Tables) = ⟨0,0⟩ → t.mixed = true) := by
  obtain ⟨labels,t,run,late,_⟩ := handshake_booting
  exact ⟨t,handshake_disagrees booting_booting run late⟩

theorem guest_ignores_check : ¬ ∀ (guest host : Tables) (labels : List Label) (t : System),
    Run (Turn block guest host) booting labels t → Agree t := by
  intro claim
  obtain ⟨labels,t,run,late,slow⟩ := handshake_booting
  have agree := claim _ _ labels t run
  have fast := agree.types.mp ((run_tracks booting_booting run).pkRkcall.mpr late)
  rw [slow] at fast
  cases fast

end Cki.Start
