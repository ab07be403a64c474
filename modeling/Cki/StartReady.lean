import Cki.StartAccesses

/-! PKM_CNTR_EXIT_VRING_READY against the ready flags. The flag takes the 64-bit value a guest
writes as a truth value and the result of the handler its low half, and only the store of the
flag looks at the selector. -/
namespace Cki.Start

open Virtio

/-- A guest writes to the queue-ready register. -/
def ReadyWrite (call : Call) : Prop :=
  call.n = Rkcall.mmioWrite.number ∧ call.arg2 = 0x44 ∧ call.arg3.setWidth 32 = 4

/-- From the device `v`, START is left with VRING_READY exactly when a queue is selected and has
become ready, and with its index. -/
structure ReadyTold (v : VirtioNet) (t : State) : Prop where
  exits : t.control = .copying pkmCntrExitVringReady ↔
    ∃ i, v.queueSelect.toNat = i.val ∧ (t.virtio.queues i).ready = true
  index : t.control = .copying pkmCntrExitVringReady → t.kargs.1 = v.queueSelect.setWidth 64

/-- Of a value for a selected queue the low half alone is not zero, and of a value for none it
is zero. -/
def ReadyFits (v : VirtioNet) (val : Word) : Prop :=
  (v.queueSelect.toNat < pkmVirtioNetQueueNum → val ≠ 0 → val.setWidth 32 ≠ 0) ∧
  (pkmVirtioNetQueueNum ≤ v.queueSelect.toNat → val.setWidth 32 = 0)

/-- What the write leaves of the ready flags. -/
theorem queueSet_ready (v : VirtioNet) (val : Word) :
    (∃ i, v.queueSelect.toNat = i.val ∧
      ((queueSet v fun q => { q with ready := val ≠ 0 }).queues i).ready = true) ↔
    v.queueSelect.toNat < pkmVirtioNetQueueNum ∧ val ≠ 0 := by
  constructor
  · rintro ⟨i,named,ready⟩
    have bound := i.isLt
    simp only [queueSet,named] at ready
    exact ⟨by omega,by simpa using ready⟩
  · rintro ⟨bound,nonzero⟩
    refine ⟨⟨_,bound⟩,rfl,?_⟩
    simpa [queueSet] using nonzero

/-- The loop leaves START when the low half of the value is not zero. -/
theorem dispatch_readyWrite (cntr : Cntr) {s : State} (write : ReadyWrite s.vcpu.call) :
    let virtio := queueSet s.virtio fun q => { q with ready := s.vcpu.call.arg1 ≠ 0 }
    (s.dispatch cntr).virtio = virtio ∧
    ((s.dispatch cntr).control = .copying pkmCntrExitVringReady ↔
      s.vcpu.call.arg1.setWidth 32 ≠ 0) ∧
    ((s.dispatch cntr).control = .copying pkmCntrExitVringReady →
      (s.dispatch cntr).kargs.1 = s.virtio.queueSelect.setWidth 64) := by
  obtain ⟨number,offset,size⟩ := write
  have served : Rkcall.ofNumber s.vcpu.call.n = some .mmioWrite := by
    rw [number,Rkcall.ofNumber_number]
  have ready : WriteRegister.at s.vcpu.call.arg2 (s.vcpu.call.arg3.setWidth 32) = some .queueReady := by
    rw [offset,size]
    decide
  simp only [State.dispatch,served,handleRkcallMmioWrite_ready _ _ ready]
  by_cases zero : s.vcpu.call.arg1.setWidth 32 = 0
  · simp only [if_pos zero]
    exact ⟨trivial,iff_of_false (by simp [State.answer]) (not_not_intro zero),by simp [State.answer]⟩
  · simp only [if_neg zero]
    exact ⟨trivial,iff_of_true trivial zero,fun _ => rfl⟩

theorem readyTold_iff (cntr : Cntr) {s : State} (write : ReadyWrite s.vcpu.call) :
    ReadyTold s.virtio (s.dispatch cntr) ↔ ReadyFits s.virtio s.vcpu.call.arg1 := by
  obtain ⟨virtio,exits,index⟩ := dispatch_readyWrite cntr write
  have low : s.vcpu.call.arg1.setWidth 32 ≠ 0 → s.vcpu.call.arg1 ≠ 0 := by
    intro nonzero zero
    rw [zero] at nonzero
    exact nonzero rfl
  have told : ReadyTold s.virtio (s.dispatch cntr) ↔
      (s.vcpu.call.arg1.setWidth 32 ≠ 0 ↔
        s.virtio.queueSelect.toNat < pkmVirtioNetQueueNum ∧ s.vcpu.call.arg1 ≠ 0) := by
    rw [← queueSet_ready,← virtio,← exits]
    exact ⟨ReadyTold.exits,fun same => ⟨same,index⟩⟩
  rw [told,ReadyFits]
  constructor
  · intro same
    exact ⟨fun bound nonzero => same.mpr ⟨bound,nonzero⟩,
      fun above => Classical.not_not.mp fun nonzero => absurd (same.mp nonzero).1 (by omega)⟩
  · rintro ⟨selected,none⟩
    refine ⟨fun nonzero => ⟨?_,low nonzero⟩,fun both => selected both.1 both.2⟩
    exact Nat.lt_of_not_le fun above => nonzero (none above)

/-! Whole runs. -/

/-- A vCPU that handles a write to the queue-ready register tells of it as it should. -/
def TellsReady (cntr : Cntr) (c : Container) : ContainerEvent → Prop
  | .cpu k .host => (c.cpus k).control = .dispatch → ReadyWrite (c.cpus k).vcpu.call →
      ReadyTold c.virtio ((c.cpu k).dispatch cntr)
  | _ => True

def HandlesReadyFitting (c : Container) : ContainerEvent → Prop
  | .cpu k .host => (c.cpus k).control = .dispatch → ReadyWrite (c.cpus k).vcpu.call →
      ReadyFits c.virtio (c.cpus k).vcpu.call.arg1
  | _ => True

theorem handlesReadyFitting_iff (cntr : Cntr) (c : Container) (event : ContainerEvent) :
    HandlesReadyFitting c event ↔ TellsReady cntr c event := by
  cases event with
  | cpu k event =>
    cases event with
    | host =>
      refine imp_congr_right fun _ => forall_congr' fun write => ?_
      exact (readyTold_iff cntr (s := c.cpu k) write).symm
    | _ => exact Iff.rfl
  | _ => exact Iff.rfl

/-- The runs in which VRING_READY tells of the rings that become ready, and of no others, are
those in which every value that is written fits. -/
theorem run_tellsReady_iff (cntr : Cntr) (c d : Container) (events : List ContainerEvent) :
    Run (Guarded HandlesReadyFitting (Container.Step cntr)) c events d ↔
      Run (Guarded (TellsReady cntr) (Container.Step cntr)) c events d :=
  Run.guarded_congr (fun _ => True) HandlesReadyFitting (TellsReady cntr) (fun _ _ _ _ _ => trivial)
    (fun c event _ _ _ => handlesReadyFitting_iff cntr c event) trivial

/-- One call on vCPU 0, from the resume to the next one. -/
def served (call : Call) : List ContainerEvent :=
  [.cpu 0 (.resume ⟨0,0⟩),.cpu 0 (.rkcall .slow call 0 ⟨0,0⟩),.cpu 0 .host,.cpu 0 .host,.cpu 0 .host]

/-- With the selector on a third queue, VRING_READY tells of a ring that there is not. -/
theorem third_queue_ready : ¬ ∀ (cntr : Cntr) (c d : Container) (events : List ContainerEvent)
    (event : ContainerEvent), c.Fresh → Run (Container.Step cntr) c events d →
    TellsReady cntr d event := by
  intro claim
  have run : Run (Container.Step block) blank
      (.cpu 0 (.start (0,0) 0) :: served ⟨Rkcall.mmioWrite.number,2,0x30,4⟩ ++
        [.cpu 0 (.resume ⟨0,0⟩),.cpu 0 (.rkcall .slow ⟨Rkcall.mmioWrite.number,1,0x44,4⟩ 0 ⟨0,0⟩)]) _ :=
    .cons rfl (.cons rfl (.cons rfl (.cons rfl (.cons rfl (.cons rfl (.cons rfl (.single rfl)))))))
  have told := claim block blank _ _ (.cpu 0 .host) blank_fresh run rfl ⟨rfl,rfl,rfl⟩
  obtain ⟨i,named,_⟩ := told.exits.mp rfl
  have bound := i.isLt
  have two : (2 : Nat) = i.val := named
  exact absurd bound (by rw [← two]; decide)

end Cki.Start
