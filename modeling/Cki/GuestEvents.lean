import Cki.StartWakeups
import Mathlib.Data.List.FinRange
import Mathlib.Logic.Function.Basic

/-! The guest's side of the events: the registry, the virtio driver that registers in it, and
`pk_handle_events` at the return of every rkcall. A device stands for the driver's handler,
which runs the interrupts of all its queues. -/
namespace Cki.Start

universe u

def pkMaxEvents : Nat := 2

structure EventSlot (Device : Type u) where
  event : Word
  handler : Option Device

/-- `event_registry`; a slot whose event is 0 is free. -/
abbrev EventRegistry (Device : Type u) := Fin pkMaxEvents → EventSlot Device

variable {Device : Type u}

def EventRegistry.empty : EventRegistry Device := fun _ => ⟨0,none⟩

/-- The first free slot; a full registry drops the handler. -/
def pkRegisterEventHandler (registry : EventRegistry Device) (event : Word) (handler : Device) :
    EventRegistry Device :=
  match (List.finRange pkMaxEvents).find? fun i => (registry i).event = 0 with
  | some i => Function.update registry i ⟨event,some handler⟩
  | none => registry

/-- The handlers that `pk_handle_events` calls, in order. -/
def pkHandleEvents (registry : EventRegistry Device) (events : Word) : List Device :=
  (List.finRange pkMaxEvents).filterMap fun i =>
    if events &&& (registry i).event ≠ 0 then (registry i).handler else none

/-- The device has the virtio event. -/
def Registered (registry : EventRegistry Device) (device : Device) : Prop :=
  ∃ i, registry i = ⟨pkEventVirtioIntr,some device⟩

theorem registered_handles {registry : EventRegistry Device} {device : Device}
    (registered : Registered registry device) : device ∈ pkHandleEvents registry pkEventVirtioIntr := by
  obtain ⟨i,slot⟩ := registered
  refine List.mem_filterMap.mpr ⟨i,List.mem_finRange i,?_⟩
  rw [slot]
  exact if_pos (by decide : pkEventVirtioIntr &&& pkEventVirtioIntr ≠ 0)

/-- Only a free slot is written. -/
theorem pkRegisterEventHandler_slot (registry : EventRegistry Device) (event : Word)
    (handler : Device) {i : Fin pkMaxEvents} (taken : (registry i).event ≠ 0) :
    pkRegisterEventHandler registry event handler i = registry i := by
  unfold pkRegisterEventHandler
  cases found : (List.finRange pkMaxEvents).find? fun i => (registry i).event = 0 with
  | none => rfl
  | some free =>
    have zero := List.find?_some found
    refine Function.update_of_ne ?_ _ _
    rintro rfl
    exact taken (of_decide_eq_true zero)

theorem Registered.kept {registry : EventRegistry Device} {device : Device}
    (registered : Registered registry device) (event : Word) (other : Device) :
    Registered (pkRegisterEventHandler registry event other) device := by
  obtain ⟨i,slot⟩ := registered
  refine ⟨i,?_⟩
  rw [pkRegisterEventHandler_slot registry event other (by rw [slot]; exact (by decide : pkEventVirtioIntr ≠ 0)),slot]

/-- The guest: its registry, the handlers that `pk_handle_events` has still to call and those
it has called. -/
structure Guest (Device : Type u) where
  registry : EventRegistry Device
  due : List Device
  called : List Device

def Guest.boot : Guest Device := ⟨.empty,[],[]⟩

/-- The return of an rkcall, at label 1. -/
def Guest.return (guest : Guest Device) (events : Word) : Guest Device :=
  { guest with due := pkHandleEvents guest.registry events ++ guest.due }

structure Delivery (Device : Type u) where
  state : State
  tally : Tally
  guest : Guest Device

inductive DeliveryEvent (Device : Type u) where
  | vcpu (event : Event)
  | register (device : Device)
  | handle

/-- What the guest makes of an event of its vCPU: where an rkcall is resumed, RDX holds the
events. -/
def Guest.after (guest : Guest Device) (s : State) : Event → Guest Device
  | .resume _ => if s.unanswered.isSome then guest.return s.vcpu.pmode.rdx else guest
  | _ => guest

/-- Handlers run in the guest and may make rkcalls of their own, between which those of the
outer call wait. -/
inductive DeliveryStep (cntr : Cntr) : Delivery Device → DeliveryEvent Device → Delivery Device → Prop where
  | vcpu {d : Delivery Device} {event : Event} {t : State} {tally : Tally}
      (step : TalliedStep cntr (d.state,d.tally) event (t,tally)) :
      DeliveryStep cntr d (.vcpu event) ⟨t,tally,d.guest.after d.state event⟩
  | register {d : Delivery Device} (device : Device) (running : d.state.control = .guest) :
      DeliveryStep cntr d (.register device)
        { d with guest := { d.guest with
          registry := pkRegisterEventHandler d.guest.registry pkEventVirtioIntr device } }
  | handle {d : Delivery Device} {device : Device} {due : List Device}
      (running : d.state.control = .guest) (first : d.guest.due = device :: due) :
      DeliveryStep cntr d .handle
        { d with guest := { d.guest with due := due, called := device :: d.guest.called } }

/-- The device's queues are signalled only once its driver has registered. -/
def WakesRegistered (device : Device) (d : Delivery Device) : DeliveryEvent Device → Prop
  | .vcpu .wakeup => Registered d.guest.registry device
  | _ => True

/-! While the loop answers an rkcall, and until its event has come, the rkcall waits. -/

/-- The loop is at work on an rkcall. -/
def Control.answering : Control → Bool
  | .dispatch | .halting | .polling | .consuming _ | .storing _ => true
  | _ => false

structure Awaited (s : State) (tally : Tally) : Prop where
  answering : s.control.answering = true → s.unanswered.isSome = true
  pending : tally.pending = true → s.unanswered.isSome = true

theorem Created.awaited {s : State} (created : Created s) : Awaited s .start := by
  obtain ⟨result,copied,control⟩ := created.control
  refine ⟨?_,nofun⟩
  rw [control]
  nofun

theorem step_awaited {cntr : Cntr} {s t : State} {tally : Tally} {event : Event}
    (awaited : Awaited s tally) (step : Step cntr s event t) : Awaited t (tally.after s event) := by
  have idle : ∀ {control : Control} {p : Prop}, control.answering = false →
      control.answering = true → p := fun rest work => absurd (rest.symm.trans work) Bool.false_ne_true
  cases step_moves step with
  | start kargs ret control => exact ⟨idle rfl,awaited.pending⟩
  | wakeup => exact ⟨awaited.answering,awaited.pending⟩
  | resume tables control =>
    refine ⟨idle rfl,?_⟩
    cases pending : tally.pending <;> simp [Tally.after,Tally.resume,pending]
  | rkcall type call cr3 tables control => exact ⟨fun _ => rfl,fun _ => rfl⟩
  | dispatch control =>
    rw [Tally.after_host (by simp [control])]
    have waits := awaited.answering (by rw [control]; rfl)
    rw [← (dispatch_dispatched cntr s).unanswered] at waits
    exact ⟨fun _ => waits,fun _ => waits⟩
  | halting control none =>
    rw [Tally.after_host (by simp [control])]
    exact awaited
  | halted control some =>
    rw [Tally.after_host (by simp [control])]
    have waits := awaited.answering (by rw [control]; rfl)
    exact ⟨fun _ => waits,fun _ => waits⟩
  | poll control =>
    rw [Tally.after_host (by simp [control])]
    have waits := awaited.answering (by rw [control]; rfl)
    have still : s.poll.unanswered.isSome = true := by
      by_cases none : s.vcpu.virtioEventCnt = 0
      · rw [poll_none none]
        exact waits
      · rw [poll_some none]
        simpa using waits
    exact ⟨fun _ => still,fun _ => still⟩
  | consume count control =>
    have waits := awaited.answering (by rw [control]; rfl)
    exact ⟨fun _ => waits,fun _ => waits⟩
  | store events control =>
    rw [Tally.after_host (by simp [control])]
    exact ⟨idle rfl,awaited.pending⟩
  | spin control =>
    rw [Tally.after_host (by simp [control])]
    exact awaited
  | copied ok control =>
    refine ⟨?_,awaited.pending⟩
    cases ok <;> exact idle rfl

/-- Without a wakeup the loop never sets the event. -/
structure Unwoken (s : State) (tally : Tally) : Prop where
  wakeups : tally.wakeups = 0
  set : tally.set = 0
  consuming : ∀ count, s.control ≠ .consuming count

theorem Created.unwoken {s : State} (created : Created s) : Unwoken s .start := by
  obtain ⟨result,copied,control⟩ := created.control
  exact ⟨rfl,rfl,by simp [control]⟩

theorem step_unwoken {cntr : Cntr} {s t : State} {tally : Tally} {event : Event}
    (unwoken : Unwoken s tally) (counted : Counted s tally) (step : Step cntr s event t)
    (quiet : event ≠ .wakeup) : Unwoken t (tally.after s event) := by
  have none : s.vcpu.virtioEventCnt = 0 := by
    apply BitVec.eq_of_toNat_eq
    have count := counted.count
    have wakeups := unwoken.wakeups
    simp only [BitVec.ofNat_eq_ofNat,BitVec.toNat_ofNat,Nat.zero_mod]
    omega
  cases step_moves step with
  | wakeup => exact absurd rfl quiet
  | consume count control => exact absurd control (unwoken.consuming count)
  | resume tables control =>
    refine ⟨?_,?_,fun _ => by simp⟩
    · cases pending : tally.pending <;> simp [Tally.after,Tally.resume,pending,unwoken.wakeups]
    · cases pending : tally.pending <;> simp [Tally.after,Tally.resume,pending,unwoken.set]
  | poll control =>
    rw [Tally.after_host unwoken.consuming,poll_none none]
    exact ⟨unwoken.wakeups,unwoken.set,fun _ => by simp⟩
  | dispatch control =>
    rw [Tally.after_host unwoken.consuming]
    refine ⟨unwoken.wakeups,unwoken.set,fun count consuming => ?_⟩
    cases dispatch_leads cntr s <;> simp_all
  | halting control none =>
    rw [Tally.after_host unwoken.consuming]
    exact unwoken
  | spin control =>
    rw [Tally.after_host unwoken.consuming]
    exact unwoken
  | halted control some =>
    rw [Tally.after_host unwoken.consuming]
    exact ⟨unwoken.wakeups,unwoken.set,fun _ => by simp [State.answer]⟩
  | store events control =>
    rw [Tally.after_host unwoken.consuming]
    exact ⟨unwoken.wakeups,unwoken.set,fun _ => by simp⟩
  | start kargs ret control => exact ⟨unwoken.wakeups,unwoken.set,fun _ => by simp⟩
  | rkcall type call cr3 tables control => exact ⟨unwoken.wakeups,unwoken.set,fun _ => by simp⟩
  | copied ok control =>
    refine ⟨unwoken.wakeups,unwoken.set,?_⟩
    cases ok <;> simp

theorem after_registry (guest : Guest Device) (s : State) (event : Event) :
    (guest.after s event).registry = guest.registry := by
  cases event with
  | resume tables =>
    simp only [Guest.after]
    split <;> rfl
  | _ => rfl

theorem vcpu_step {cntr : Cntr} {d : Delivery Device} {device : Device} {event : Event} {t : State}
    (step : Step cntr d.state event t) (few : (d.tally.after d.state event).wakeups < 2 ^ 31)
    (wakes : WakesRegistered device d (.vcpu event)) :
    Guarded (WakesRegistered device) (DeliveryStep cntr) d (.vcpu event)
      ⟨t,d.tally.after d.state event,d.guest.after d.state event⟩ :=
  ⟨wakes,.vcpu (tallied_step step few)⟩

variable [DecidableEq Device]

/-- The interrupts of a device that the guest has handled or will handle next. -/
def Guest.interrupts (guest : Guest Device) (device : Device) : Nat :=
  guest.called.count device + guest.due.count device

theorem Guest.interrupts_return {guest : Guest Device} {device : Device}
    (registered : Registered guest.registry device) :
    guest.interrupts device + 1 ≤ (guest.return pkEventVirtioIntr).interrupts device := by
  have called := List.one_le_count_iff.mpr (registered_handles registered)
  simp only [interrupts,Guest.return,List.count_append]
  omega

theorem Guest.interrupts_after (guest : Guest Device) (s : State) (event : Event) (device : Device) :
    guest.interrupts device ≤ (guest.after s event).interrupts device := by
  cases event with
  | resume tables =>
    simp only [Guest.after]
    split
    · simp only [interrupts,Guest.return,List.count_append]
      omega
    · exact Nat.le_refl _
  | _ => exact Nat.le_refl _

/-- Where a device stands: not registered and not woken, or handled at every resume that came
with the event. -/
structure Handled (device : Device) (d : Delivery Device) : Prop where
  counted : Counted d.state d.tally
  awaited : Awaited d.state d.tally
  unwoken : ¬ Registered d.guest.registry device → Unwoken d.state d.tally
  handled : d.tally.resumed ≤ d.guest.interrupts device

/-- A resume with the event calls the device's handler. -/
theorem resume_handled {cntr : Cntr} {device : Device} {d : Delivery Device} {t : State}
    {tables : Tables} (handled : Handled device d) (step : Step cntr d.state (.resume tables) t) :
    d.tally.resume.resumed ≤ (d.guest.after d.state (.resume tables)).interrupts device := by
  have before := handled.handled
  cases pending : d.tally.pending with
  | false =>
    have same : d.tally.resume = d.tally := by simp [Tally.resume,pending]
    rw [same]
    exact before.trans (d.guest.interrupts_after d.state (.resume tables) device)
  | true =>
    have registered : Registered d.guest.registry device := by
      by_contra unregistered
      have set := (handled.unwoken unregistered).set
      have resumed := handled.counted.resumed
      rw [pending,set] at resumed
      simp at resumed
    have rdx : d.state.vcpu.pmode.rdx = pkEventVirtioIntr := by
      cases step_moves step with
      | resume tables control =>
        rcases handled.counted.pending pending with storing | ⟨_,rdx⟩
        · rw [control] at storing
          cases storing
        · exact rdx
    have next : d.tally.resume.resumed = d.tally.resumed + 1 := by simp [Tally.resume,pending]
    have more := Guest.interrupts_return registered
    rw [Guest.after,if_pos (handled.awaited.pending pending),rdx,next]
    omega

theorem step_handled {cntr : Cntr} {device : Device} {d e : Delivery Device}
    {event : DeliveryEvent Device} (handled : Handled device d) (step : DeliveryStep cntr d event e)
    (wakes : WakesRegistered device d event) : Handled device e := by
  cases step with
  | @vcpu event t tally step =>
    obtain ⟨moved,tallied,few⟩ := step
    obtain rfl : tally = d.tally.after d.state event := tallied
    refine ⟨step_counted handled.counted moved few,step_awaited handled.awaited moved,?_,?_⟩
    · intro unregistered
      rw [after_registry] at unregistered
      refine step_unwoken (handled.unwoken unregistered) handled.counted moved ?_
      rintro rfl
      exact unregistered wakes
    · have more := d.guest.interrupts_after d.state event device
      have before := handled.handled
      cases event with
      | resume tables => exact resume_handled handled moved
      | host =>
        refine Nat.le_trans ?_ more
        simp only [Tally.after]
        split <;> exact before
      | _ => exact before.trans more
  | register other running =>
    refine ⟨handled.counted,handled.awaited,fun unregistered => ?_,handled.handled⟩
    exact handled.unwoken fun registered => unregistered (registered.kept _ other)
  | @handle first due running head =>
    refine ⟨handled.counted,handled.awaited,handled.unwoken,?_⟩
    have before := handled.handled
    simp only [Guest.interrupts,head,List.count_cons] at before ⊢
    omega

def Delivery.start (s : State) : Delivery Device := ⟨s,.start,.boot⟩

/-- No wakeup of a registered device is lost on its way to the driver: each is in the counter,
in the events word that the guest is resumed with, or among the handler's calls. -/
theorem run_handled {cntr : Cntr} {s : State} {device : Device} {d : Delivery Device}
    {events : List (DeliveryEvent Device)} (created : Created s)
    (run : Run (Guarded (WakesRegistered device) (DeliveryStep cntr)) (.start s) events d) :
    d.tally.wakeups ≤ d.guest.called.count device + d.guest.due.count device +
      d.tally.pending.toNat + d.state.vcpu.virtioEventCnt.toNat := by
  have start : Handled device (.start s) :=
    ⟨created.counted,created.awaited,fun _ => created.unwoken,Nat.zero_le _⟩
  have handled := run.invariant (Handled device)
    (fun _ _ _ handled step => step_handled handled step.2 step.1) start
  have count := handled.counted.count
  have taken := handled.counted.taken
  have resumed := handled.counted.resumed
  have interrupts := handled.handled
  simp only [Guest.interrupts] at interrupts
  omega

/-- The driver registers, a queue is signalled during an rkcall, and its return runs the
handler. -/
theorem run_handled_driver : ∃ d : Delivery Nat, d.guest.called = [7] ∧ d.tally.wakeups = 1 ∧
    d.tally.wakeups ≤ d.guest.called.count 7 + d.guest.due.count 7 + d.tally.pending.toNat +
      d.state.vcpu.virtioEventCnt.toNat := by
  obtain ⟨d,run,called,wakeups⟩ : ∃ d : Delivery Nat,
      Run (Guarded (WakesRegistered 7) (DeliveryStep block)) (.start fresh) [.vcpu (.start (0,0) 0),
        .vcpu (.resume ⟨0,0⟩),.register 7,.vcpu (.rkcall .slow ⟨Rkcall.nop.number,0,0,0⟩ 0 ⟨0,0⟩),
        .vcpu .wakeup,.vcpu .host,.vcpu .host,.vcpu .host,.vcpu .host,.vcpu (.resume ⟨0,0⟩),
        .handle] d ∧ d.guest.called = [7] ∧ d.tally.wakeups = 1 := by
    refine ⟨_,.cons (vcpu_step rfl (by decide) trivial) (.cons (vcpu_step rfl (by decide) trivial)
      (.cons ⟨trivial,.register 7 rfl⟩ (.cons (vcpu_step rfl (by decide) trivial)
      (.cons (vcpu_step rfl (by decide) ⟨⟨0,by decide⟩,rfl⟩) (.cons (vcpu_step rfl (by decide) trivial)
      (.cons (vcpu_step rfl (by decide) trivial) (.cons (vcpu_step rfl (by decide) trivial)
      (.cons (vcpu_step rfl (by decide) trivial) (.cons (vcpu_step rfl (by decide) trivial)
      (.cons ⟨trivial,.handle rfl rfl⟩ (.nil _))))))))))),?_⟩
    exact ⟨rfl,rfl⟩
  exact ⟨d,called,wakeups,run_handled fresh_created run⟩

end Cki.Start
