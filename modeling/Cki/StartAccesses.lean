import Mathlib.Logic.Function.Basic
import Cki.EfdsBalance
import Cki.StartEvents

/-! What the loop of START touches of the host for a guest's call, on a container whose vCPUs
share one device: entries of the host's IDT, queues of the device and their kick eventfds. -/
namespace Cki.Start

open Virtio

/-! The accesses of one call. -/

inductive HostAccess where
  | idt (vector : Word)
  | queue (idx : BitVec 32)
  | kick (i : Fin pkmVirtioNetQueueNum) (ctx : Option Eventfd)
  deriving DecidableEq, Repr

/-- `virtio_queue_get` and `virtio_queue_set` -/
def selectedAccess (virtio : VirtioNet) : List HostAccess :=
  if virtio.queueSelect.toNat < pkmVirtioNetQueueNum then [.queue virtio.queueSelect] else []

def readAccesses (virtio : VirtioNet) : ReadRegister → List HostAccess
  | .queueReady | .queueNumMax => selectedAccess virtio
  | _ => []

def notifyAccesses (virtio : VirtioNet) (idx : BitVec 32) : List HostAccess :=
  if bound : idx.toNat < pkmVirtioNetQueueNum then
    [.queue idx,.kick ⟨idx.toNat,bound⟩ (virtio.queues ⟨idx.toNat,bound⟩).kick]
  else []

/-- A write of half an address reads the other half first. -/
def writeAccesses (virtio : VirtioNet) (val : Word) : WriteRegister → List HostAccess
  | .queueNum | .queueReady => selectedAccess virtio
  | .queueDescLow | .queueDescHigh | .queueAvailLow | .queueAvailHigh | .queueUsedLow
  | .queueUsedHigh => selectedAccess virtio ++ selectedAccess virtio
  | .queueNotify => notifyAccesses virtio (val.setWidth 32)
  | _ => []

/-- The accesses of the switch of the loop. -/
def State.accesses (s : State) : List HostAccess :=
  let call := s.vcpu.call
  match Rkcall.ofNumber call.n with
  | some .intr => [.idt call.arg1]
  | some .mmioRead =>
    match ReadRegister.at call.arg1 (call.arg2.setWidth 32) with
    | some register => readAccesses s.virtio register
    | none => []
  | some .mmioWrite =>
    match WriteRegister.at call.arg2 (call.arg3.setWidth 32) with
    | some register => writeAccesses s.virtio call.arg1 register
    | none => []
  | _ => []

/-! The container. -/

/-- The vCPUs share the device. The kick eventfds that SET_VRING_EFDS has installed are noted
with their queues. -/
structure Container where
  virtio : VirtioNet
  cpus : Nat → State
  installed : List (Fin pkmVirtioNetQueueNum × Eventfd)

def Container.cpu (c : Container) (k : Nat) : State := { c.cpus k with virtio := c.virtio }

/-- Something happens on a vCPU, or the launcher makes another call: it sets the eventfds of a
queue, or asks for what the container has. -/
inductive ContainerEvent where
  | cpu (k : Nat) (event : Event)
  | setVringEfds (env : Efds.EfdsEnv)
  | inquire

def Container.install (c : Container) (pair : Efds.Pair) : Container :=
  { c with virtio := pair.install c.virtio, installed := (pair.queue,pair.kick) :: c.installed }

def Container.step (cntr : Cntr) (c : Container) : ContainerEvent → Option Container
  | .cpu k event =>
    (Start.step cntr (c.cpu k) event).map fun t =>
      { c with virtio := t.virtio, cpus := Function.update c.cpus k t }
  | .setVringEfds env =>
    match env.installs with
    | none => some c
    | some pair => some (c.install pair)
  | .inquire => some c

def Container.Step (cntr : Cntr) (c : Container) (event : ContainerEvent) (d : Container) : Prop :=
  c.step cntr event = some d

/-! What may be accessed. -/

def HostAccess.Valid (c : Container) : HostAccess → Prop
  | .idt vector => vector.toNat < 256
  | .queue idx => idx.toNat < pkmVirtioNetQueueNum
  | .kick i ctx => ∃ kick, ctx = some kick ∧ (i,kick) ∈ c.installed

/-- What an event accesses: the loop of a vCPU handles a call. -/
def Container.accesses (c : Container) : ContainerEvent → List HostAccess
  | .cpu k .host => if (c.cpus k).control = .dispatch then (c.cpu k).accesses else []
  | _ => []

def OnlyValid (c : Container) (event : ContainerEvent) : Prop := ∀ access ∈ c.accesses event, access.Valid c

/-- The vector of an interrupt is below 256, and a queue that is notified has had its eventfds
set. -/
def CallFits (c : Container) (call : Call) : Prop :=
  (Rkcall.ofNumber call.n = some .intr → call.arg1.toNat < 256) ∧
  (Rkcall.ofNumber call.n = some .mmioWrite →
    WriteRegister.at call.arg2 (call.arg3.setWidth 32) = some .queueNotify →
    ∀ i, (call.arg1.setWidth 32).toNat = i.val → ∃ kick, (i,kick) ∈ c.installed)

def HandlesFitting (c : Container) : ContainerEvent → Prop
  | .cpu k .host => (c.cpus k).control = .dispatch → CallFits c (c.cpus k).vcpu.call
  | _ => True

/-! The kick eventfds. -/

/-- A queue has the kick eventfd of an installation, once there has been one. -/
structure Container.Noted (c : Container) : Prop where
  some : ∀ i kick, (c.virtio.queues i).kick = some kick → (i,kick) ∈ c.installed
  none : ∀ i, (c.virtio.queues i).kick = none → ∀ kick, (i,kick) ∉ c.installed

theorem dispatch_kick (cntr : Cntr) (s : State) (i : Fin pkmVirtioNetQueueNum) :
    ((s.dispatch cntr).virtio.queues i).kick = (s.virtio.queues i).kick := by
  cases served : Rkcall.ofNumber s.vcpu.call.n with
  | none => simp only [State.dispatch,served]
  | some rkcall =>
    cases rkcall with
    | initLate =>
      simp only [State.dispatch,served]
      split <;> rfl
    | mmioRead =>
      simp only [State.dispatch,served]
      split <;> rfl
    | mmioWrite =>
      simp only [State.dispatch,served]
      split
      · rename_i written done
        obtain ⟨register,_,done⟩ := handleRkcallMmioWrite_done done
        have kept := congrArg (·.2.1) (writeRegister_fixed done i)
        split <;> exact kept
      · rfl
      · rfl
    | _ => simp only [State.dispatch,served,State.answer]

theorem step_kick {cntr : Cntr} {s t : State} {event : Event} (step : Step cntr s event t)
    (i : Fin pkmVirtioNetQueueNum) : (t.virtio.queues i).kick = (s.virtio.queues i).kick := by
  cases step_moves step with
  | dispatch control => exact dispatch_kick cntr s i
  | poll control =>
    rw [State.poll]
    split <;> rfl
  | _ => rfl

theorem install_noted {c : Container} (noted : c.Noted) (pair : Efds.Pair) : (c.install pair).Noted := by
  constructor
  · intro i kick
    simp only [Container.install,Efds.Pair.install]
    by_cases own : i = pair.queue
    · rw [if_pos own]
      rintro ⟨⟩
      rw [own]
      exact List.mem_cons_self
    · rw [if_neg own]
      exact fun has => List.mem_cons_of_mem _ (noted.some i kick has)
  · intro i
    simp only [Container.install,Efds.Pair.install]
    by_cases own : i = pair.queue
    · simp [own]
    · rw [if_neg own]
      intro lacks kick member
      rcases List.mem_cons.mp member with same | old
      · exact own (congrArg Prod.fst same)
      · exact noted.none i lacks kick old

theorem step_noted {cntr : Cntr} {c d : Container} {event : ContainerEvent} (noted : c.Noted)
    (step : Container.Step cntr c event d) : d.Noted := by
  cases event with
  | cpu k event =>
    obtain ⟨t,moved,rfl⟩ := Option.map_eq_some_iff.mp step
    have kept := step_kick (s := c.cpu k) moved
    constructor
    · intro i kick has
      exact noted.some i kick ((kept i).symm.trans has)
    · intro i lacks
      exact noted.none i ((kept i).symm.trans lacks)
  | setVringEfds env =>
    simp only [Container.Step,Container.step] at step
    cases found : env.installs with
    | none =>
      rw [found] at step
      cases step
      exact noted
    | some pair =>
      rw [found] at step
      cases step
      exact install_noted noted pair
  | inquire =>
    cases step
    exact noted

/-! One call. -/

theorem selectedAccess_valid (c : Container) {virtio : VirtioNet} {access : HostAccess}
    (member : access ∈ selectedAccess virtio) : access.Valid c := by
  rw [selectedAccess] at member
  split at member
  · rename_i bound
    rw [List.mem_singleton.mp member]
    exact bound
  · cases member

theorem readAccesses_valid (c : Container) {virtio : VirtioNet} {register : ReadRegister}
    {access : HostAccess} (member : access ∈ readAccesses virtio register) : access.Valid c := by
  cases register with
  | queueReady | queueNumMax => exact selectedAccess_valid c member
  | _ => cases member

theorem notifyAccesses_valid_iff {c : Container} (noted : c.Noted) (idx : BitVec 32) :
    (∀ access ∈ notifyAccesses c.virtio idx, access.Valid c) ↔
      ∀ i, idx.toNat = i.val → ∃ kick, (i,kick) ∈ c.installed := by
  rw [notifyAccesses]
  split
  · rename_i bound
    constructor
    · intro valid i named
      obtain ⟨kick,_,member⟩ := valid _ (List.mem_cons_of_mem _ List.mem_cons_self)
      have same : (⟨idx.toNat,bound⟩ : Fin pkmVirtioNetQueueNum) = i := Fin.ext named
      rw [same] at member
      exact ⟨kick,member⟩
    · intro installed access member
      rcases List.mem_cons.mp member with rfl | signal
      · exact bound
      · rw [List.mem_singleton.mp signal]
        obtain ⟨kick,member⟩ := installed ⟨idx.toNat,bound⟩ rfl
        cases has : (c.virtio.queues ⟨idx.toNat,bound⟩).kick with
        | none => exact absurd member (noted.none _ has kick)
        | some kick' => exact ⟨kick',rfl,noted.some _ _ has⟩
  · rename_i above
    refine iff_of_true (by simp) fun i named => absurd ?_ above
    rw [named]
    exact i.isLt

theorem writeAccesses_valid_iff {c : Container} (noted : c.Noted) (val : Word) (register : WriteRegister) :
    (∀ access ∈ writeAccesses c.virtio val register, access.Valid c) ↔
      (register = .queueNotify →
        ∀ i, (val.setWidth 32).toNat = i.val → ∃ kick, (i,kick) ∈ c.installed) := by
  cases register with
  | queueNotify =>
    rw [writeAccesses,notifyAccesses_valid_iff noted]
    exact ⟨fun all _ => all,fun all => all rfl⟩
  | queueNum | queueReady => exact iff_of_true (fun _ => selectedAccess_valid c) (by simp)
  | queueDescLow | queueDescHigh | queueAvailLow | queueAvailHigh | queueUsedLow | queueUsedHigh =>
    refine iff_of_true (fun access member => ?_) (by simp)
    rcases List.mem_append.mp member with first | second
    · exact selectedAccess_valid c first
    · exact selectedAccess_valid c second
  | _ => exact iff_of_true (by simp [writeAccesses]) (by simp)

/-- The accesses of a call are valid exactly where it fits. -/
theorem accesses_valid_iff {c : Container} (noted : c.Noted) (k : Nat) :
    (∀ access ∈ (c.cpu k).accesses, access.Valid c) ↔ CallFits c (c.cpus k).vcpu.call := by
  have virtio : (c.cpu k).virtio = c.virtio := rfl
  have call : (c.cpu k).vcpu.call = (c.cpus k).vcpu.call := rfl
  simp only [State.accesses,CallFits,virtio,call]
  cases served : Rkcall.ofNumber (c.cpus k).vcpu.call.n with
  | none => simp
  | some rkcall =>
    cases rkcall with
    | intr =>
      dsimp only
      constructor
      · intro valid
        exact ⟨fun _ => valid _ List.mem_cons_self,by simp⟩
      · rintro ⟨fits,_⟩ access member
        rw [List.mem_singleton.mp member]
        exact fits rfl
    | mmioRead =>
      refine iff_of_true ?_ (by simp)
      dsimp only
      split
      · exact fun access => readAccesses_valid c
      · simp
    | mmioWrite =>
      dsimp only
      split
      · rename_i register found
        rw [writeAccesses_valid_iff noted]
        constructor
        · intro all
          exact ⟨by simp,fun _ notify => all (Option.some.inj (found.symm.trans notify))⟩
        · intro fits notify
          exact fits.2 rfl (found.trans (congrArg some notify))
      · rename_i found
        refine iff_of_true (by simp) ⟨by simp,fun _ notify => ?_⟩
        rw [found] at notify
        cases notify
    | _ => simp

theorem handlesFitting_iff {c : Container} (noted : c.Noted) (event : ContainerEvent) :
    HandlesFitting c event ↔ OnlyValid c event := by
  cases event with
  | cpu k event =>
    cases event with
    | host =>
      simp only [HandlesFitting,OnlyValid,Container.accesses]
      split
      · rename_i control
        rw [accesses_valid_iff noted]
        exact ⟨fun fits => fits control,fun fits _ => fits⟩
      · rename_i control
        exact iff_of_true (fun here => absurd here control) (by simp)
    | _ => exact iff_of_true trivial fun _ => (absurd · List.not_mem_nil)
  | _ => exact iff_of_true trivial fun _ => (absurd · List.not_mem_nil)

/-! Whole runs. -/

/-- A container as its creation leaves it. -/
structure Container.Fresh (c : Container) : Prop where
  virtio : ∃ memory, c.virtio = initVirtioNet memory
  cpus : ∀ k, Created (c.cpus k)
  installed : c.installed = []

theorem Container.Fresh.noted {c : Container} (fresh : c.Fresh) : c.Noted := by
  obtain ⟨memory,virtio⟩ := fresh.virtio
  constructor
  · intro i kick has
    rw [virtio] at has
    cases has
  · intro i _ kick member
    rw [fresh.installed] at member
    cases member

/-- The runs in which every access is valid are those in which every call that is handled
fits. -/
theorem run_accesses_iff {cntr : Cntr} {c d : Container} (fresh : c.Fresh)
    (events : List ContainerEvent) :
    Run (Guarded HandlesFitting (Container.Step cntr)) c events d ↔
      Run (Guarded OnlyValid (Container.Step cntr)) c events d :=
  Run.guarded_congr Container.Noted HandlesFitting OnlyValid
    (fun _ _ _ noted step => step_noted noted step)
    (fun _ event _ noted _ => handlesFitting_iff noted event) fresh.noted

/-- A device in zeroed memory, and vCPUs that have not run. -/
def blank : Container := ⟨blankDevice,fun _ => Start.fresh,[]⟩

theorem blank_fresh : blank.Fresh := ⟨⟨_,rfl⟩,fun _ => fresh_created,rfl⟩

/-- A guest that calls on vCPU 0. -/
def calling (call : Call) : List ContainerEvent :=
  [.cpu 0 (.start (0,0) 0),.cpu 0 (.resume ⟨0,0⟩),.cpu 0 (.rkcall .slow call 0 ⟨0,0⟩)]

/-- A notification after the installation of the eventfds. -/
theorem notify_installed : ∃ d, Run (Guarded OnlyValid (Container.Step block)) blank
    (.setVringEfds (Efds.installing 0x10 0x20) ::
      calling ⟨Rkcall.mmioWrite.number,0,0x50,4⟩ ++ [.cpu 0 .host]) d := by
  have fits : CallFits (blank.install ⟨⟨0,by decide⟩,0x10,0x20,0x20⟩)
      ⟨Rkcall.mmioWrite.number,0,0x50,4⟩ := by
    refine ⟨by decide,fun _ _ i named => ⟨0x10,?_⟩⟩
    have first : i = ⟨0,by decide⟩ := Fin.ext named.symm
    rw [first]
    exact List.mem_cons_self
  exact ⟨_,(run_accesses_iff blank_fresh _).mp (.cons ⟨trivial,rfl⟩ (.cons ⟨trivial,rfl⟩
    (.cons ⟨trivial,rfl⟩ (.cons ⟨trivial,rfl⟩ (.cons ⟨fun _ => fits,rfl⟩ (.nil _))))))⟩

/-- An interrupt with a vector beyond the table. -/
theorem idt_overrun : ¬ ∀ (cntr : Cntr) (c d : Container) (events : List ContainerEvent)
    (event : ContainerEvent), c.Fresh → Run (Container.Step cntr) c events d →
    OnlyValid d event := by
  intro claim
  have run : Run (Container.Step block) blank (calling ⟨Rkcall.intr.number,256,0,0⟩) _ :=
    .cons rfl (.cons rfl (.single rfl))
  have valid := claim block blank _ _ (.cpu 0 .host) blank_fresh run
  have below : (256 : Word).toNat < 256 := valid (.idt 256) List.mem_cons_self
  exact absurd below (by decide)

end Cki.Start
