import Cki.StartEvents

/-! The result of an rkcall. The loop hands the guest whatever `ret` or the slot of RSI
holds, so a result is the call's own only where the call's case writes it. -/
namespace Cki.Start

open Switch Virtio

/-- The value of RSI at the next resume can be `rsi`. -/
def Answers (cntr : Cntr) (s : State) (rsi : Word) : Prop :=
  ∃ events t, Run (Guarded (fun _ e => ∀ tables, e ≠ .resume tables) (Step cntr)) s events t ∧
    t.control = .loop ∧ t.vcpu.pmode.rsi = rsi

/-- The same call on the same device with the same count; INIT_LATE also reads the images
of IDTR and CR4. -/
structure SameInput (a b : State) : Prop where
  virtio : a.virtio = b.virtio
  virtioEventCnt : a.vcpu.virtioEventCnt = b.vcpu.virtioEventCnt
  call : a.vcpu.call = b.vcpu.call
  images : a.vcpu.call.n = Rkcall.initLate.number →
    a.vcpu.pmode.idtr = b.vcpu.pmode.idtr ∧ a.vcpu.pmode.cr4 = b.vcpu.pmode.cr4 ∧
    a.vcpu.rmode.idtr = b.vcpu.rmode.idtr ∧ a.vcpu.rmode.cr4 = b.vcpu.rmode.cr4

/-- Any two histories that come to the call with the same input get the same result. -/
def OwnResult (cntr : Cntr) (s : State) (call : Call) : Prop :=
  ∀ before before' a b rsi rsi', Run (Step cntr) s before a → Run (Step cntr) s before' b →
    a.control = .dispatch → b.control = .dispatch → a.vcpu.call = call → SameInput a b →
    Answers cntr a rsi → Answers cntr b rsi' → rsi = rsi'

/-- A write that makes START return VRING_READY. -/
def VringReady (call : Call) : Prop :=
  WriteRegister.at call.arg2 (call.arg3.setWidth 32) = some .queueReady ∧
  call.arg1.setWidth 32 ≠ (0 : BitVec 32)

/-- The calls whose case of the switch writes the result. -/
def Defines (call : Call) : Prop :=
  ∃ rkcall, Rkcall.ofNumber call.n = some rkcall ∧
    (rkcall ∈ [.debug,.memCheck,.initLate,.writeCr3,.nop,.halt,.mmioRead] ∨
      rkcall = .mmioWrite ∧ ¬ VringReady call)

/-- The result such a case writes. -/
def State.result (cntr : Cntr) (s : State) : Word :=
  let call := s.vcpu.call
  match Rkcall.ofNumber call.n with
  | some .memCheck => if memCheck cntr call.arg1 then 1 else 0
  | some .initLate => handleRkcallInitLate s.vcpu
  | some .mmioRead =>
    match handleRkcallMmioRead s.virtio call.arg1 (call.arg2.setWidth 32) with
    | .done value => value
    | _ => 0
  | _ => 0

theorem SameInput.result {a b : State} (same : SameInput a b) (cntr : Cntr) :
    a.result cntr = b.result cntr := by
  cases served : Rkcall.ofNumber a.vcpu.call.n with
  | none => simp only [State.result,← same.call,served]
  | some rkcall =>
    cases rkcall with
    | initLate =>
      obtain ⟨pidtr,pcr4,ridtr,rcr4⟩ := same.images (Rkcall.number_of_ofNumber served)
      simp only [State.result,← same.call,served,handleRkcallInitLate,pidtr,pcr4,ridtr,rcr4]
    | _ => simp only [State.result,← same.call,← same.virtio,served]

/-- Without VRING_READY a write that returns has the result 0. -/
theorem write_result {virtio : VirtioNet} {call : Call} {written : Written}
    (plain : ¬ VringReady call) (done : handleRkcallMmioWrite virtio call.arg1 call.arg2
      (call.arg3.setWidth 32) = .done written) : written.result = 0 := by
  by_cases ready : WriteRegister.at call.arg2 (call.arg3.setWidth 32) = some .queueReady
  · rw [handleRkcallMmioWrite_ready virtio call.arg1 ready] at done
    cases done
    exact Decidable.byContradiction fun nonzero => plain ⟨ready,nonzero⟩
  · exact handleRkcallMmioWrite_result done ready

/-- On the way to the next resume the result is at hand. -/
def Carries (cntr : Cntr) (result : Word) (s : State) : Prop :=
  match s.control with
  | .dispatch => Defines s.vcpu.call ∧ s.result cntr = result
  | .halting => result = 0
  | .polling | .consuming _ | .storing _ => s.ret = result
  | .loop => s.vcpu.pmode.rsi = result
  | .spinning | .faulted => True
  | _ => False

theorem dispatch_carries {cntr : Cntr} {s : State} (defines : Defines s.vcpu.call) :
    Carries cntr (s.result cntr) (s.dispatch cntr) := by
  obtain ⟨rkcall,served,kind⟩ := defines
  cases rkcall with
  | initLate =>
    simp only [State.dispatch,State.result,served]
    split <;> rfl
  | mmioRead =>
    simp only [State.dispatch,State.result,served]
    cases handleRkcallMmioRead s.virtio s.vcpu.call.arg1 (s.vcpu.call.arg2.setWidth 32) with
    | done value => rfl
    | spins => trivial
    | faults => trivial
  | mmioWrite =>
    have plain : ¬ VringReady s.vcpu.call := by simpa using kind
    simp only [State.dispatch,State.result,served]
    cases write : handleRkcallMmioWrite s.virtio s.vcpu.call.arg1 s.vcpu.call.arg2
      (s.vcpu.call.arg3.setWidth 32) with
    | done written =>
      simp only [write_result plain write]
      rfl
    | spins => trivial
    | faults => trivial
  | shutdown => simp at kind
  | yield => simp at kind
  | intr => simp at kind
  | cpuUp => simp at kind
  | print => simp at kind
  | _ =>
    simp only [State.dispatch,State.result,served]
    rfl

theorem step_carries {cntr : Cntr} {result : Word} {s t : State} {event : Event}
    (carries : Carries cntr result s) (step : Step cntr s event t)
    (inHost : ∀ tables, event ≠ .resume tables) : Carries cntr result t := by
  cases step_moves step with
  | wakeup => exact carries
  | resume tables control => exact absurd rfl (inHost tables)
  | dispatch control =>
    rw [Carries,control] at carries
    obtain ⟨defines,rfl⟩ := carries
    exact dispatch_carries defines
  | halting control none => exact carries
  | halted control some =>
    rw [Carries,control] at carries
    exact carries.symm
  | poll control =>
    rw [Carries,control] at carries
    by_cases none : s.vcpu.virtioEventCnt = 0
    · rw [poll_none none]
      exact carries
    · rw [poll_some none]
      exact carries
  | consume count control =>
    rw [Carries,control] at carries
    exact carries
  | store events control =>
    rw [Carries,control] at carries
    exact carries
  | spin control => exact carries
  | start kargs ret control =>
    rw [Carries,control] at carries
    exact carries.elim
  | rkcall type call cr3 tables control =>
    rw [Carries,control] at carries
    exact carries.elim
  | copied ok control =>
    rw [Carries,control] at carries
    exact carries.elim

/-- A call whose case writes its result gets that result. -/
theorem answers_result {cntr : Cntr} {s : State} {rsi : Word} (control : s.control = .dispatch)
    (defines : Defines s.vcpu.call) (answers : Answers cntr s rsi) : rsi = s.result cntr := by
  obtain ⟨events,t,run,loop,rfl⟩ := answers
  have start : Carries cntr (s.result cntr) s := by
    rw [Carries,control]
    exact ⟨defines,rfl⟩
  have carries := run.invariant (Carries cntr (s.result cntr))
    (fun _ _ _ carries step => step_carries carries step.2 step.1) start
  rw [Carries,loop] at carries
  exact carries

/-! The other calls return what an earlier one left. -/

theorem Answers.dispatch {cntr : Cntr} {s : State} {rsi : Word} (control : s.control = .dispatch)
    (answers : Answers cntr (s.dispatch cntr) rsi) : Answers cntr s rsi := by
  obtain ⟨events,t,run,loop,same⟩ := answers
  have step : Step cntr s .host (s.dispatch cntr) := by
    simp only [Step,Start.step,State.host,control]
  exact ⟨_,t,.cons ⟨by simp,step⟩ run,loop,same⟩

theorem polling_answers {cntr : Cntr} {s : State} (control : s.control = .polling)
    (none : s.vcpu.virtioEventCnt = 0) : Answers cntr s s.ret := by
  have poll : Step cntr s .host { s with control := .storing 0 } := by
    simp only [Step,Start.step,State.host,control,poll_none none]
  exact ⟨[.host,.host],_,.cons ⟨by simp,poll⟩ (.cons ⟨by simp,rfl⟩ (.nil _)),rfl,rfl⟩

theorem copying_answers {cntr : Cntr} {s : State} {result : Int}
    (control : s.control = .copying result) : Answers cntr s s.vcpu.pmode.rsi := by
  have copied : Step cntr s (.copied true) { s with control := .launcher result (some s.kargs) } := by
    simp only [Step,Start.step,control,if_true]
  exact ⟨[.copied true,.start (0,0) 0],_,.cons ⟨by simp,copied⟩ (.cons ⟨by simp,rfl⟩ (.nil _)),rfl,
    rfl⟩

theorem answers_stale (cntr : Cntr) {s : State} {rkcall : Rkcall}
    (served : Rkcall.ofNumber s.vcpu.call.n = some rkcall) (resumed : rkcall ≠ .shutdown)
    (stale : ¬ Defines s.vcpu.call) (control : s.control = .dispatch)
    (none : s.vcpu.virtioEventCnt = 0) (same : s.vcpu.pmode.rsi = s.ret) : Answers cntr s s.ret := by
  refine .dispatch control ?_
  have kept := dispatch_dispatched cntr s
  have notDefined : ¬ (rkcall ∈ [.debug,.memCheck,.initLate,.writeCr3,.nop,.halt,.mmioRead] ∨
      rkcall = .mmioWrite ∧ ¬ VringReady s.vcpu.call) := fun kind => stale ⟨rkcall,served,kind⟩
  have copies : ∀ result, (s.dispatch cntr).control = .copying result →
      Answers cntr (s.dispatch cntr) s.ret := by
    intro result copying
    rw [← same,← kept.rsi]
    exact copying_answers copying
  cases rkcall with
  | shutdown => exact absurd rfl resumed
  | yield =>
    simp only [State.dispatch,served]
    exact polling_answers rfl none
  | intr =>
    simp only [State.dispatch,served]
    exact polling_answers rfl none
  | cpuUp =>
    apply copies pkmCntrExitCpuUp
    simp only [State.dispatch,served]
  | print =>
    apply copies pkmCntrExitPrint
    simp only [State.dispatch,served]
  | mmioWrite =>
    have ready : VringReady s.vcpu.call := by simpa using notDefined
    apply copies pkmCntrExitVringReady
    simp only [State.dispatch,served,handleRkcallMmioWrite_ready s.virtio _ ready.1,if_neg ready.2]
  | _ => exact absurd (Or.inl (by decide)) notDefined

/-- An interrupt after a START leaves the START's `ret` in RSI as well. -/
theorem stale_history (cntr : Cntr) {s : State} (created : Created s) (call : Call) (ret : Word) :
    ∃ events t, Run (Step cntr) s events t ∧ t.control = .dispatch ∧ t.vcpu.call = call ∧
      t.ret = ret ∧ t.vcpu.pmode.rsi = ret ∧ t.virtio = s.virtio ∧ t.vcpu.virtioEventCnt = 0 := by
  obtain ⟨⟨pmode,rmode,cnt,pkRkret⟩,virtio,control,junk,kargs,unanswered⟩ := s
  obtain ⟨⟨result,copied,rfl⟩,rfl,rfl,_,_,rfl⟩ := created
  exact ⟨[.start (0,0) ret,.resume ⟨0,0⟩,.rkcall .slow ⟨Rkcall.intr.number,0,0,0⟩ 0 ⟨0,0⟩,.host,
      .host,.host,.resume ⟨0,0⟩,.rkcall .slow call 0 ⟨0,0⟩],_,
    .cons rfl (.cons rfl (.cons rfl (.cons rfl (.cons rfl (.cons rfl (.cons rfl
      (.cons rfl (.nil _)))))))),rfl,rfl,rfl,rfl,rfl,rfl⟩

/-- Two such histories with different values of `ret` tell a call apart that does not
write its result. -/
theorem stale_result {cntr : Cntr} {s : State} {call : Call} {rkcall : Rkcall}
    (created : Created s) (served : Rkcall.ofNumber call.n = some rkcall)
    (resumed : rkcall ≠ .shutdown) (stale : ¬ Defines call) : ¬ OwnResult cntr s call := by
  intro own
  obtain ⟨before,a,run,control,called,ret,rsi,virtio,none⟩ := stale_history cntr created call 0
  obtain ⟨before',b,run',control',called',ret',rsi',virtio',none'⟩ :=
    stale_history cntr created call 1
  have served' : Rkcall.ofNumber b.vcpu.call.n = some rkcall := by rwa [called']
  have stale' : ¬ Defines b.vcpu.call := by rwa [called']
  have same : SameInput a b := {
    virtio := virtio.trans virtio'.symm
    virtioEventCnt := none.trans none'.symm
    call := called.trans called'.symm
    images := by
      intro late
      rw [called] at late
      exact absurd ⟨.initLate,by rw [late]; rfl,.inl (by decide)⟩ stale }
  have second := answers_stale cntr served' resumed stale' control' none'
    (rsi'.trans ret'.symm)
  rw [← called] at served stale
  have first := answers_stale cntr served resumed stale control none (rsi.trans ret.symm)
  have equal := own before before' a b a.ret b.ret run run' control control' called same first second
  rw [ret,ret'] at equal
  exact absurd equal (by decide)

/-- A call that is served and resumed returns its own result exactly when its case of the
switch writes one. -/
theorem ownResult_iff {cntr : Cntr} {s : State} {call : Call} {rkcall : Rkcall}
    (created : Created s) (served : Rkcall.ofNumber call.n = some rkcall)
    (resumed : rkcall ≠ .shutdown) : OwnResult cntr s call ↔ Defines call := by
  constructor
  · intro own
    exact Classical.byContradiction fun stale => stale_result created served resumed stale own
  · intro defines before before' a b rsi rsi' _ _ control control' called same first second
    have own := answers_result control (by rw [called]; exact defines) first
    have own' := answers_result control' (by rw [← same.call,called]; exact defines) second
    rw [own,own',same.result cntr]

theorem ownResult_nop : OwnResult block fresh ⟨Rkcall.nop.number,0,0,0⟩ :=
  (ownResult_iff fresh_created (Rkcall.ofNumber_number .nop) (by decide)).mpr
    ⟨.nop,rfl,.inl (by decide)⟩

/-- YIELD returns whatever `ret` held when START was entered. -/
theorem yield_returns_junk : ¬ ∀ (call : Call) (rkcall : Rkcall),
    Rkcall.ofNumber call.n = some rkcall → rkcall ≠ .shutdown → OwnResult block fresh call := by
  intro claim
  have stale : ¬ Defines ⟨Rkcall.yield.number,0,0,0⟩ := by
    rintro ⟨rkcall,served,kind⟩
    cases (Rkcall.ofNumber_number .yield).symm.trans served
    simp at kind
  exact stale_result fresh_created (Rkcall.ofNumber_number .yield) (by decide) stale
    (claim ⟨Rkcall.yield.number,0,0,0⟩ .yield (Rkcall.ofNumber_number .yield) (by decide))

end Cki.Start
