import Cki.Run
import Cki.Start

/-! The events word. The slot of RDX in the guest's half takes the call number into the
host and the events out of it, so a resume is right only after the loop has written it. -/
namespace Cki.Start

open Switch Virtio

/-- At a resume `pk_handle_events` gets no event, or the virtio interrupt after a
positive count has been seen. -/
def Deliverable (s : State) : Prop :=
  s.control = .loop → ∀ u, s.unanswered = some u →
    s.vcpu.pmode.rdx = 0 ∨ s.vcpu.pmode.rdx = pkEventVirtioIntr ∧ u.observed = true

/-- No START while an rkcall waits, and no negative count is read. -/
def InOrder (s : State) (event : Event) : Prop :=
  match event with
  | .start _ _ => s.unanswered = none
  | .host => s.control = .polling → 0 ≤ s.vcpu.virtioEventCnt.toInt
  | _ => True

/-- What holds of the events word at each point of the loop. -/
def Tracked (s : State) : Prop :=
  match s.control with
  | .launcher _ _ | .copying _ =>
    ∀ u, s.unanswered = some u → s.vcpu.pmode.rdx ≠ 0 ∧ s.vcpu.pmode.rdx ≠ pkEventVirtioIntr
  | .loop => ∀ u, s.unanswered = some u →
    s.vcpu.pmode.rdx = 0 ∨ s.vcpu.pmode.rdx = pkEventVirtioIntr ∧ u.observed = true
  | .dispatch | .halting | .polling => ∃ type, s.unanswered = some ⟨type,false⟩
  | .consuming _ => ∃ type, s.unanswered = some ⟨type,true⟩
  | .storing events => ∃ u, s.unanswered = some u ∧
    (events = 0 ∨ events = pkEventVirtioIntr ∧ u.observed = true)
  | _ => True

theorem Tracked.deliverable {s : State} (tracked : Tracked s) : Deliverable s := by
  intro loop
  rw [Tracked,loop] at tracked
  exact tracked

theorem Created.tracked {s : State} (created : Created s) : Tracked s := by
  obtain ⟨result,copied,control⟩ := created.control
  rw [Tracked,control]
  intro u unanswered
  rw [created.unanswered] at unanswered
  cases unanswered

theorem exits_number {n : Word} (exits : Exits n) : n ≠ 0 ∧ n ≠ pkEventVirtioIntr := by
  constructor
  · rintro rfl
    exact absurd (exits .debug (Rkcall.ofNumber_number .debug)) (by decide)
  · rintro rfl
    exact absurd (exits .initLate (Rkcall.ofNumber_number .initLate)) (by decide)

theorem dispatch_tracked {cntr : Cntr} {s : State} (control : s.control = .dispatch)
    (tracked : Tracked s) : Tracked (s.dispatch cntr) := by
  rw [Tracked,control] at tracked
  have kept := dispatch_dispatched cntr s
  unfold Tracked
  rw [kept.unanswered,kept.rdx]
  cases dispatch_leads cntr s with
  | answered next => rw [next]; exact tracked
  | halting next => rw [next]; exact tracked
  | spinning next => rw [next]; trivial
  | faulted next => rw [next]; trivial
  | copying result next exits => rw [next]; exact fun _ _ => exits_number exits
  | launcher result next exits => rw [next]; exact fun _ _ => exits_number exits

theorem poll_tracked {s : State} (control : s.control = .polling) (tracked : Tracked s)
    (positive : 0 ≤ s.vcpu.virtioEventCnt.toInt) : Tracked s.poll := by
  rw [Tracked,control] at tracked
  obtain ⟨type,unanswered⟩ := tracked
  by_cases none : s.vcpu.virtioEventCnt = 0
  · rw [poll_none none]
    exact ⟨_,unanswered,.inl rfl⟩
  · have apart : s.vcpu.virtioEventCnt.toInt ≠ 0 := fun zero =>
      none (BitVec.eq_of_toInt_eq (zero.trans rfl))
    have above : 0 < s.vcpu.virtioEventCnt.toInt := by omega
    rw [poll_some none]
    refine ⟨type,?_⟩
    simp only [unanswered,Option.map_some,above,decide_true,Bool.or_true]

/-- A step in order keeps track of the events word. -/
theorem step_tracked {cntr : Cntr} {s t : State} {event : Event} (tracked : Tracked s)
    (step : Step cntr s event t) (inOrder : InOrder s event) : Tracked t := by
  cases step_moves step with
  | start kargs ret control =>
    intro u unanswered
    exact absurd (inOrder.symm.trans unanswered) (by simp)
  | wakeup => exact tracked
  | resume tables control => trivial
  | rkcall type call cr3 tables control => exact ⟨type,rfl⟩
  | dispatch control => exact dispatch_tracked control tracked
  | halting control none => exact tracked
  | halted control some =>
    rw [Tracked,control] at tracked
    exact tracked
  | poll control => exact poll_tracked control tracked (inOrder control)
  | consume count control =>
    rw [Tracked,control] at tracked
    obtain ⟨type,unanswered⟩ := tracked
    exact ⟨_,unanswered,.inr ⟨rfl,rfl⟩⟩
  | store events control =>
    rw [Tracked,control] at tracked
    obtain ⟨u,unanswered,events⟩ := tracked
    intro other same
    rw [unanswered] at same
    cases same
    exact events
  | spin control => exact tracked
  | copied ok control =>
    rw [Tracked,control] at tracked
    cases ok <;> exact tracked

/-- A START that finds an rkcall waiting delivers that call's number. -/
theorem restart_wrong {cntr : Cntr} {s t : State} {kargs : Word × Word} {ret : Word}
    (tracked : Tracked s) (step : Step cntr s (.start kargs ret) t) (waiting : s.unanswered ≠ none) :
    ¬ Deliverable t := by
  obtain ⟨u,unanswered⟩ := Option.ne_none_iff_exists'.mp waiting
  cases step_moves step with
  | start kargs ret control =>
    rw [Tracked,control] at tracked
    obtain ⟨notZero,notIntr⟩ := tracked u unanswered
    intro deliverable
    rcases deliverable rfl u unanswered with zero | intr
    · exact notZero zero
    · exact notIntr intr.1

/-- A negative count makes the loop deliver an interrupt without a positive one. -/
theorem negative_wrong {cntr : Cntr} {s t : State} (tracked : Tracked s)
    (control : s.control = .polling) (negative : s.vcpu.virtioEventCnt.toInt < 0)
    (step : Step cntr s .host t) :
    ∃ v, Run (Step cntr) t [.host,.host] v ∧ ¬ Deliverable v := by
  rw [Tracked,control] at tracked
  obtain ⟨type,unanswered⟩ := tracked
  have some : s.vcpu.virtioEventCnt ≠ 0 := by
    intro none
    rw [none] at negative
    exact absurd negative (by decide)
  have polled : Step cntr s .host s.poll := by
    simp only [Step,Start.step,State.host,control]
  obtain rfl : s.poll = t := Option.some.inj (polled.symm.trans step)
  have unseen : ¬ 0 < s.vcpu.virtioEventCnt.toInt := by omega
  rw [poll_some some,unanswered]
  refine ⟨_,.cons rfl (.cons rfl (.nil _)),?_⟩
  intro deliverable
  have apart : pkEventVirtioIntr ≠ 0 := by decide
  rcases deliverable rfl _ rfl with zero | intr
  · exact apart zero
  · simp only [Bool.false_or,decide_eq_true_eq] at intr
    exact unseen intr.2

/-- Each step out of order leads to a wrong delivery before the guest runs again. -/
theorem outOfOrder_wrong {cntr : Cntr} {s t : State} {event : Event} (tracked : Tracked s)
    (step : Step cntr s event t) (outOfOrder : ¬ InOrder s event) :
    ∃ events v, Run (Step cntr) t events v ∧ (∀ e ∈ events, e = .host) ∧ ¬ Deliverable v := by
  cases event with
  | start kargs ret => exact ⟨[],t,.nil t,by simp,restart_wrong tracked step outOfOrder⟩
  | host =>
    by_cases control : s.control = .polling
    · have negative : s.vcpu.virtioEventCnt.toInt < 0 :=
        Int.not_le.mp fun positive => outOfOrder fun _ => positive
      obtain ⟨v,run,wrong⟩ := negative_wrong tracked control negative step
      exact ⟨_,v,run,by simp,wrong⟩
    · exact absurd (fun polling => absurd polling control) outOfOrder
  | _ => exact absurd trivial outOfOrder

/-- The events word over runs: it is right as long as the steps are in order, and the
first step out of order leads to a wrong one. -/
theorem run_deliverable {cntr : Cntr} {s t : State} {events : List Event} (created : Created s)
    (run : Run (Guarded InOrder (Step cntr)) s events t) :
    Deliverable t ∧ ∀ event u, Step cntr t event u → ¬ InOrder t event →
      ∃ later v, Run (Step cntr) u later v ∧ (∀ e ∈ later, e = .host) ∧ ¬ Deliverable v := by
  have tracked := run.invariant Tracked
    (fun _ _ _ tracked step => step_tracked tracked step.2 step.1) created.tracked
  exact ⟨tracked.deliverable,fun _ _ step outOfOrder => outOfOrder_wrong tracked step outOfOrder⟩

/-- A fresh vCPU whose guest starts with 0x1000 in RSI. -/
def fresh : State where
  vcpu := ⟨⟨0,0,0x1000,0,0,0,0,(0,0)⟩,⟨0,0,0,0,0,0,0,(0,0)⟩,0,.slow⟩
  virtio := ⟨0,0,0,0,0,0,fun _ => ⟨0,0,false,0,0,0,none,none⟩⟩
  control := .launcher 0 none
  ret := 0
  kargs := (0,0)
  unanswered := none

def block : Cntr := ⟨10,0x40000000,0x80000000,0xc0000000⟩

theorem fresh_created : Created fresh := ⟨⟨0,none,rfl⟩,rfl,rfl,rfl,rfl,rfl⟩

/-- A wakeup during an rkcall is delivered when it returns. -/
theorem run_deliverable_fresh : ∃ t, t.control = .loop ∧ t.vcpu.pmode.rdx = pkEventVirtioIntr ∧
    Deliverable t := by
  have run : Run (Guarded InOrder (Step block)) fresh [.start (0,0) 0,.resume ⟨0,0⟩,
      .rkcall .slow ⟨Rkcall.nop.number,0,0,0⟩ 0 ⟨0,0⟩,.wakeup,.host,.host,.host,.host] _ :=
    .cons ⟨rfl,rfl⟩ (.cons ⟨trivial,rfl⟩ (.cons ⟨trivial,rfl⟩ (.cons ⟨trivial,rfl⟩
      (.cons ⟨nofun,rfl⟩ (.cons ⟨fun _ => by decide,rfl⟩ (.cons ⟨nofun,rfl⟩
        (.cons ⟨nofun,rfl⟩ (.nil _))))))))
  exact ⟨_,rfl,rfl,(run_deliverable fresh_created run).1⟩

/-- A PRINT goes out to the launcher, and the next START delivers 15. -/
theorem print_delivers_number : ¬ ∀ (events : List Event) (t : State),
    Run (Step block) fresh events t → Deliverable t := by
  intro claim
  have run : Run (Step block) fresh [.start (0,0) 0,.resume ⟨0,0⟩,
      .rkcall .slow ⟨Rkcall.print.number,0,0,0⟩ 0 ⟨0,0⟩,.host,.copied true,.start (0,0) 0] _ :=
    .cons rfl (.cons rfl (.cons rfl (.cons rfl (.cons rfl (.cons rfl (.nil _))))))
  rcases claim _ _ run rfl _ rfl with zero | intr
  · exact absurd zero (by decide : Rkcall.print.number ≠ 0)
  · exact absurd intr.1 (by decide : Rkcall.print.number ≠ pkEventVirtioIntr)

end Cki.Start
