import Cki.StartEvents

/-! The wakeups of the virtio queues and what becomes of them. The result of the exchange
is not looked at: one that fails sets an event and takes no wakeup. -/
namespace Cki.Start

/-- What has happened so far: the wakeups, the exchanges that took one, the resumes for which
the loop has set PK_EVENT_VIRTIO_INTR, those of them that have come, and whether one is to
come. -/
structure Tally where
  wakeups : Nat
  taken : Nat
  set : Nat
  resumed : Nat
  pending : Bool
  deriving DecidableEq, Repr

def Tally.start : Tally := ⟨0,0,0,0,false⟩

/-- The wakeups that no exchange has taken. -/
def Tally.outstanding (tally : Tally) : Nat := tally.wakeups - tally.taken

def Tally.wakeup (tally : Tally) : Tally := { tally with wakeups := tally.wakeups + 1 }

def Tally.exchange (tally : Tally) (succeeds : Bool) : Tally :=
  { tally with
    taken := if succeeds then tally.taken + 1 else tally.taken
    set := tally.set + 1
    pending := true }

def Tally.resume (tally : Tally) : Tally :=
  if tally.pending then { tally with resumed := tally.resumed + 1, pending := false } else tally

/-- The tally after a step from `s`. -/
def Tally.after (s : State) (event : Event) (tally : Tally) : Tally :=
  match event with
  | .wakeup => tally.wakeup
  | .resume _ => tally.resume
  | .host =>
    match s.control with
    | .consuming count => tally.exchange (s.vcpu.virtioEventCnt = count)
    | _ => tally
  | _ => tally

/-- A step with its tally, while fewer than 2^31 wakeups are outstanding. -/
def TalliedStep (cntr : Cntr) (s : State × Tally) (event : Event) (t : State × Tally) : Prop :=
  Step cntr s.1 event t.1 ∧ t.2 = s.2.after s.1 event ∧ t.2.outstanding < 2 ^ 31

/-- No wakeup is lost: the counter is in bounds, the resumes with the event make up for what
it lacks, and each of them has come, or is the next. -/
structure NoneLost (s : State) (tally : Tally) : Prop where
  nonnegative : 0 ≤ s.vcpu.virtioEventCnt.toInt
  bounded : s.vcpu.virtioEventCnt.toInt ≤ tally.wakeups
  delivered : (tally.wakeups : Int) ≤ tally.set + s.vcpu.virtioEventCnt.toInt
  resumed : tally.set = tally.resumed + tally.pending.toNat
  pending : tally.pending = true → s.control = .storing pkEventVirtioIntr ∨
    s.control = .loop ∧ s.vcpu.pmode.rdx = pkEventVirtioIntr

/-- The counter is what the exchanges have left of the wakeups. -/
structure Counted (s : State) (tally : Tally) : Prop where
  count : s.vcpu.virtioEventCnt.toNat + tally.taken = tally.wakeups
  small : s.vcpu.virtioEventCnt.toNat < 2 ^ 31
  taken : tally.taken ≤ tally.set
  read : ∀ count, s.control = .consuming count → count ≠ 0
  resumed : tally.set = tally.resumed + tally.pending.toNat
  pending : tally.pending = true → s.control = .storing pkEventVirtioIntr ∨
    s.control = .loop ∧ s.vcpu.pmode.rdx = pkEventVirtioIntr

theorem Created.counted {s : State} (created : Created s) : Counted s .start := by
  have zero : s.vcpu.virtioEventCnt.toNat = 0 := by
    rw [created.virtioEventCnt]
    rfl
  obtain ⟨result,copied,control⟩ := created.control
  refine ⟨by rw [zero]; rfl,by rw [zero]; decide,Nat.le_refl 0,?_,rfl,nofun⟩
  intro count consuming
  rw [control] at consuming
  cases consuming

theorem Counted.noneLost {s : State} {tally : Tally} (counted : Counted s tally) :
    NoneLost s tally := by
  have count := counted.count
  have taken := counted.taken
  have value : s.vcpu.virtioEventCnt.toInt = s.vcpu.virtioEventCnt.toNat :=
    BitVec.toInt_eq_toNat_of_lt (by have small := counted.small; omega)
  refine ⟨?_,?_,?_,counted.resumed,counted.pending⟩
  · rw [value]
    exact Int.natCast_nonneg _
  · rw [value]
    omega
  · rw [value]
    omega

theorem Counted.settled {s : State} {tally : Tally} (counted : Counted s tally)
    (storing : s.control ≠ .storing pkEventVirtioIntr) (loop : s.control ≠ .loop) :
    tally.pending = false := by
  rw [Bool.eq_false_iff]
  intro pending
  rcases counted.pending pending with at_ | at_
  · exact storing at_
  · exact loop at_.1

/-- A step that leaves the counter and has no event under way before or after it. -/
theorem Counted.quiet {s t : State} {tally : Tally} (counted : Counted s tally)
    (settled : tally.pending = false) (same : t.vcpu.virtioEventCnt = s.vcpu.virtioEventCnt)
    (read : ∀ count, t.control = .consuming count → count ≠ 0) : Counted t tally := by
  refine ⟨?_,?_,counted.taken,read,counted.resumed,?_⟩
  · rw [same]
    exact counted.count
  · rw [same]
    exact counted.small
  · intro pending
    rw [settled] at pending
    cases pending

theorem wakeup_counted {s : State} {tally : Tally} (counted : Counted s tally)
    (few : tally.wakeup.outstanding < 2 ^ 31) :
    Counted { s with vcpu := { s.vcpu with virtioEventCnt := s.vcpu.virtioEventCnt + 1 } }
      tally.wakeup := by
  have count := counted.count
  simp only [Tally.outstanding,Tally.wakeup] at few
  have next : (s.vcpu.virtioEventCnt + 1).toNat = s.vcpu.virtioEventCnt.toNat + 1 := by
    rw [BitVec.toNat_add]
    change (s.vcpu.virtioEventCnt.toNat + 1) % 2 ^ 32 = _
    omega
  refine ⟨?_,?_,counted.taken,counted.read,counted.resumed,counted.pending⟩
  · simp only [Tally.wakeup,next]
    omega
  · simp only [next]
    omega

/-- An exchange that succeeds takes one wakeup, one that fails none, and both set the event. -/
theorem consume_counted {s : State} {tally : Tally} {count : BitVec 32} (counted : Counted s tally)
    (control : s.control = .consuming count) :
    Counted (s.consume count) (tally.exchange (s.vcpu.virtioEventCnt = count)) := by
  have settled : tally.pending = false := counted.settled (by simp [control]) (by simp [control])
  have resumed := counted.resumed
  rw [settled] at resumed
  have known := counted.count
  have taken := counted.taken
  have small := counted.small
  by_cases same : s.vcpu.virtioEventCnt = count
  · have apart : s.vcpu.virtioEventCnt.toNat ≠ 0 := by
      intro zero
      apply counted.read count control
      rw [← same]
      exact BitVec.eq_of_toNat_eq zero
    have left : (count - 1).toNat = s.vcpu.virtioEventCnt.toNat - 1 := by
      rw [← same]
      have one : (1 : BitVec 32) ≤ s.vcpu.virtioEventCnt := by
        rw [BitVec.le_def]
        exact Nat.pos_of_ne_zero apart
      exact BitVec.toNat_sub_of_le one
    refine ⟨?_,?_,?_,nofun,?_,fun _ => .inl rfl⟩
    · simp only [State.consume,left,Tally.exchange,same,decide_true,if_true]
      rw [← same]
      omega
    · simp only [State.consume,if_pos same,left]
      omega
    · simp only [Tally.exchange,same,decide_true,if_true]
      omega
    · simpa [Tally.exchange] using resumed
  · refine ⟨?_,?_,?_,nofun,?_,fun _ => .inl rfl⟩
    · simpa [State.consume,Tally.exchange,same] using known
    · simpa [State.consume,same] using small
    · simp only [Tally.exchange,same,decide_false,Bool.false_eq_true,if_false]
      omega
    · simpa [Tally.exchange] using resumed

theorem poll_counted {s : State} {tally : Tally} (counted : Counted s tally)
    (control : s.control = .polling) : Counted s.poll tally := by
  have settled := counted.settled (by simp [control]) (by simp [control])
  by_cases none : s.vcpu.virtioEventCnt = 0
  · rw [poll_none none]
    exact counted.quiet settled rfl nofun
  · rw [poll_some none]
    refine counted.quiet settled rfl fun count consuming => ?_
    cases consuming
    exact none

/-- What the loop has set is stored where the guest finds it. -/
theorem store_counted {s : State} {tally : Tally} {events : Word} (counted : Counted s tally)
    (control : s.control = .storing events) :
    Counted { s with control := .loop, vcpu := s.vcpu.answer s.ret events } tally := by
  refine ⟨counted.count,counted.small,counted.taken,nofun,counted.resumed,fun pending => .inr ⟨rfl,?_⟩⟩
  rcases counted.pending pending with storing | ⟨loop,_⟩
  · rw [control] at storing
    cases storing
    rfl
  · rw [control] at loop
    cases loop

theorem resume_counted {cntr : Cntr} {s : State} {tally : Tally} {tables : Tables}
    (counted : Counted s tally) : Counted
      { s with vcpu := s.vcpu.resume cntr tables, control := .guest, unanswered := none }
      tally.resume := by
  have resumed := counted.resumed
  cases pending : tally.pending with
  | false =>
    simp only [Tally.resume,pending,Bool.false_eq_true,if_false]
    exact counted.quiet pending rfl nofun
  | true =>
    rw [pending] at resumed
    simp only [Tally.resume,pending,if_true]
    exact ⟨counted.count,counted.small,counted.taken,nofun,resumed,nofun⟩

/-- A step of the loop other than the exchange is none of the tally's. -/
theorem Tally.after_host {s : State} {tally : Tally}
    (other : ∀ count, s.control ≠ .consuming count) : tally.after s .host = tally := by
  cases control : s.control with
  | consuming count => exact absurd control (other count)
  | _ => simp only [Tally.after,control]

theorem step_counted {cntr : Cntr} {s t : State} {tally : Tally} {event : Event}
    (counted : Counted s tally) (step : Step cntr s event t)
    (few : (tally.after s event).outstanding < 2 ^ 31) : Counted t (tally.after s event) := by
  cases step_moves step with
  | wakeup => exact wakeup_counted counted few
  | resume tables control => exact resume_counted counted
  | consume count control =>
    simp only [Tally.after,control]
    exact consume_counted counted control
  | poll control =>
    rw [Tally.after_host (by simp [control])]
    exact poll_counted counted control
  | store events control =>
    rw [Tally.after_host (by simp [control])]
    exact store_counted counted control
  | dispatch control =>
    rw [Tally.after_host (by simp [control])]
    refine counted.quiet (counted.settled (by simp [control]) (by simp [control]))
      (dispatch_dispatched cntr s).virtioEventCnt fun count consuming => ?_
    cases dispatch_leads cntr s <;> simp_all
  | halting control none =>
    rw [Tally.after_host (by simp [control])]
    exact counted
  | spin control =>
    rw [Tally.after_host (by simp [control])]
    exact counted
  | halted control some =>
    rw [Tally.after_host (by simp [control])]
    exact counted.quiet (counted.settled (by simp [control]) (by simp [control])) rfl nofun
  | start kargs ret control =>
    exact counted.quiet (counted.settled (by simp [control]) (by simp [control])) rfl nofun
  | rkcall type call cr3 tables control =>
    refine counted.quiet (counted.settled (by simp [control]) (by simp [control])) ?_ nofun
    cases type <;> rfl
  | copied ok control =>
    refine counted.quiet (counted.settled (by simp [control]) (by simp [control])) rfl ?_
    cases ok <;> nofun

/-- No wakeup is lost in any interleaving of the wakeups with the steps of the loop, through
exits and later STARTs. -/
theorem run_noneLost {cntr : Cntr} {s t : State} {tally : Tally} {events : List Event}
    (created : Created s) (run : Run (TalliedStep cntr) (s,Tally.start) events (t,tally)) :
    NoneLost t tally := by
  have counted := run.invariant (fun state => Counted state.1 state.2)
    (fun v event w counted ⟨step,tallied,few⟩ => by
      rw [tallied] at few ⊢
      exact step_counted counted step few) created.counted
  exact counted.noneLost

/-- An event that is set meets nothing but wakeups on its way to the guest. -/
theorem pending_resumes {cntr : Cntr} {s t : State} {tally tally' : Tally} {event : Event}
    (noneLost : NoneLost s tally) (pending : tally.pending = true)
    (step : TalliedStep cntr (s,tally) event (t,tally')) (own : event ≠ .wakeup) :
    t.vcpu.pmode.rdx = pkEventVirtioIntr ∧
      (t.control = .loop ∨ t.control = .guest ∧ tally'.resumed = tally.resumed + 1) := by
  obtain ⟨moved,tallied,_⟩ := step
  rcases noneLost.pending pending with storing | ⟨loop,rdx⟩
  · cases step_moves moved <;> simp_all [Vcpu.answer]
  · cases step_moves moved with
    | resume tables _ =>
      refine ⟨rdx,.inr ⟨rfl,?_⟩⟩
      change tally' = tally.resume at tallied
      rw [tallied,Tally.resume,if_pos pending]
    | wakeup => exact absurd rfl own
    | _ => simp_all

theorem tallied_step {cntr : Cntr} {s t : State} {tally : Tally} {event : Event}
    (step : Step cntr s event t) (few : (tally.after s event).wakeups < 2 ^ 31) :
    TalliedStep cntr (s,tally) event (t,tally.after s event) := by
  refine ⟨step,rfl,?_⟩
  dsimp only [Tally.outstanding]
  omega

/-- A wakeup between the read of the counter and the exchange: the exchange fails, and both
wakeups are still counted after the guest has had its event. -/
theorem fresh_noneLost : ∃ t tally, t.control = .guest ∧ t.vcpu.virtioEventCnt = 2 ∧
    tally.wakeups = 2 ∧ tally.resumed = 1 ∧ NoneLost t tally := by
  obtain ⟨t,tally,run,seen⟩ : ∃ t tally, Run (TalliedStep block) (fresh,Tally.start) [.start (0,0) 0,
      .resume ⟨0,0⟩,.rkcall .slow ⟨Rkcall.nop.number,0,0,0⟩ 0 ⟨0,0⟩,.wakeup,.host,.host,.wakeup,
      .host,.host,.resume ⟨0,0⟩] (t,tally) ∧ t.control = .guest ∧ t.vcpu.virtioEventCnt = 2 ∧
      tally.wakeups = 2 ∧ tally.resumed = 1 := by
    refine ⟨_,_,.cons (tallied_step rfl (by decide)) (.cons (tallied_step rfl (by decide))
      (.cons (tallied_step rfl (by decide)) (.cons (tallied_step rfl (by decide))
      (.cons (tallied_step rfl (by decide)) (.cons (tallied_step rfl (by decide))
      (.cons (tallied_step rfl (by decide)) (.cons (tallied_step rfl (by decide))
      (.cons (tallied_step rfl (by decide)) (.cons (tallied_step rfl (by decide))
      (.nil _)))))))))),?_⟩
    exact ⟨rfl,rfl,rfl,rfl⟩
  exact ⟨t,tally,seen.1,seen.2.1,seen.2.2.1,seen.2.2.2,run_noneLost fresh_created run⟩

end Cki.Start
