import Cki.VirtioReset

/-! Which accesses of a guest come back. A register that no case handles, a status bit out of
its turn and a queue that has no eventfd keep the host from answering. -/
namespace Cki.Virtio

/-! What the history of a device decides. -/

/-- The status after an event: the value last written, other than 0. -/
def HostEvent.statusAfter (status : BitVec 32) : HostEvent → BitVec 32
  | .mmio (.write val offset size) =>
    if WriteRegister.at offset size = some .status ∧ val.setWidth 32 ≠ (0 : BitVec 32) then
      val.setWidth 32
    else status
  | _ => status

def statusWritten (events : List HostEvent) : BitVec 32 := events.foldl HostEvent.statusAfter 0

/-- The launcher has set the eventfds of a queue. -/
def Installed (events : List HostEvent) (i : Fin pkmVirtioNetQueueNum) : Prop :=
  ∃ idx kick call, .efds idx kick call ∈ events ∧ i.val = idx.toNat

/-- A status is 0 or brings the bit whose turn it is, and no other. -/
def StatusFits (old status : BitVec 32) : Prop :=
  status = 0 ∨ nextStatusBit old = some (~~~old &&& status)

def WriteFits (events : List HostEvent) (val : Word) : WriteRegister → Prop
  | .status => StatusFits (statusWritten events) (val.setWidth 32)
  | .queueNotify => ∀ i, (val.setWidth 32).toNat = i.val → Installed events i
  | _ => True

/-- The access is of a register that is served, and what it writes fits the history. -/
def AccessFits (events : List HostEvent) : MmioCall → Prop
  | .read offset size => ReadRegister.at offset size ≠ none
  | .write val offset size =>
    ∃ register, WriteRegister.at offset size = some register ∧ WriteFits events val register

/-! One access. -/

def Access.Returns {α : Type} (access : Access α) : Prop := ∃ value, access = .done value

theorem Access.map_returns {α β : Type} (f : α → β) (access : Access α) :
    (access.map f).Returns ↔ access.Returns := by
  cases access with
  | done value => exact iff_of_true ⟨_,rfl⟩ ⟨_,rfl⟩
  | spins | faults => simp [Access.map,Access.Returns]

theorem nextStatusBit_cases {old bit : BitVec 32} (next : nextStatusBit old = some bit) :
    bit = virtioConfigSAcknowledge ∧ old = 0 ∨
    bit = virtioConfigSDriver ∧ old = virtioConfigSAcknowledge ∨
    bit = virtioConfigSFeaturesOk ∧ old = virtioConfigSAcknowledge ||| virtioConfigSDriver ∨
    bit = virtioConfigSDriverOk ∧
      old = virtioConfigSAcknowledge ||| virtioConfigSDriver ||| virtioConfigSFeaturesOk := by
  unfold nextStatusBit at next
  split at next
  · rename_i first
    exact .inl ⟨(Option.some.inj next).symm,first⟩
  · split at next
    · rename_i second
      exact .inr (.inl ⟨(Option.some.inj next).symm,second⟩)
    · split at next
      · rename_i third
        exact .inr (.inr (.inl ⟨(Option.some.inj next).symm,third⟩))
      · split at next
        · rename_i fourth
          exact .inr (.inr (.inr ⟨(Option.some.inj next).symm,fourth⟩))
        · cases next

theorem handleMmioWriteDeviceStatus_returns_iff (v : VirtioNet) (status : BitVec 32) :
    (handleMmioWriteDeviceStatus v status).Returns ↔ StatusFits v.deviceStatus status := by
  constructor
  · rintro ⟨w,done⟩
    rcases handleMmioWriteDeviceStatus_done done with ⟨zero,_⟩ | ⟨_,next,_⟩
    · exact .inl zero
    · exact .inr next
  · rintro (rfl | next)
    · exact ⟨v,rfl⟩
    · rw [handleMmioWriteDeviceStatus]
      split
      · exact ⟨_,rfl⟩
      · split
        · exact ⟨_,rfl⟩
        · split
          · exact ⟨_,rfl⟩
          · split
            · exact ⟨_,rfl⟩
            · split
              · exact ⟨_,rfl⟩
              · -- no bit whose turn it is has been left out
                rename_i notFirst notSecond notThird notFourth
                rcases nextStatusBit_cases next with turn | turn | turn | turn
                · exact absurd turn notFirst
                · exact absurd turn notSecond
                · exact absurd turn notThird
                · exact absurd turn notFourth

theorem handleMmioWriteQueueNotify_returns_iff (v : VirtioNet) (idx : BitVec 32) :
    (handleMmioWriteQueueNotify v idx).Returns ↔
      ∀ i, idx.toNat = i.val → (v.queues i).kick ≠ none := by
  by_cases bound : idx.toNat < pkmVirtioNetQueueNum
  · rw [notify_kick (i := ⟨idx.toNat,bound⟩) rfl]
    cases kick : (v.queues ⟨idx.toNat,bound⟩).kick with
    | none => exact iff_of_false (by simp [Access.Returns]) fun all => all _ rfl kick
    | some ctx =>
      refine iff_of_true ⟨_,rfl⟩ fun i named => ?_
      have same : (⟨idx.toNat,bound⟩ : Fin pkmVirtioNetQueueNum) = i := Fin.ext named
      rw [← same,kick]
      exact Option.some_ne_none ctx
  · refine iff_of_true ⟨none,?_⟩ fun i named => absurd ?_ bound
    · rw [handleMmioWriteQueueNotify,dif_neg bound]
    · rw [named]
      exact i.isLt

/-! The history of a device. -/

theorem step_status {v w : VirtioNet} {event : HostEvent} (step : HostStep v event w) :
    w.deviceStatus = event.statusAfter v.deviceStatus := by
  cases event with
  | efds idx kick call =>
    rw [step]
    rfl
  | mmio call =>
    obtain ⟨answer,served⟩ := step
    cases call with
    | read offset size =>
      obtain ⟨value,_,same⟩ := Access.map_done served
      cases same
      rfl
    | write val offset size =>
      obtain ⟨written,done,same⟩ := Access.map_done served
      obtain ⟨register,found,done⟩ := handleRkcallMmioWrite_done done
      cases same
      simp only [HostEvent.statusAfter,found,Option.some.injEq]
      by_cases status : register = .status
      · cases status
        obtain ⟨next,accepted,rfl⟩ := Access.map_done done
        rcases handleMmioWriteDeviceStatus_done accepted with ⟨zero,rfl⟩ | ⟨nonzero,_,rfl⟩
        · rw [if_neg fun both => both.2 zero]
        · rw [if_pos ⟨rfl,nonzero⟩]
      · rw [if_neg fun both => status both.1]
        exact (writeRegister_negotiation done).2.1 status

theorem run_status {v w : VirtioNet} {events : List HostEvent} (run : Run HostStep v events w) :
    w.deviceStatus = events.foldl HostEvent.statusAfter v.deviceStatus := by
  induction run with
  | nil => rfl
  | cons head _ ih => rw [ih,step_status head,List.foldl_cons]

theorem step_kick_iff {v w : VirtioNet} {event : HostEvent} (step : HostStep v event w)
    (i : Fin pkmVirtioNetQueueNum) :
    (w.queues i).kick ≠ none ↔ (v.queues i).kick ≠ none ∨ Installed [event] i := by
  cases event with
  | efds idx kick call =>
    rw [step,setVringEfds]
    dsimp only
    by_cases own : i.val = idx.toNat
    · rw [if_pos own]
      exact iff_of_true (Option.some_ne_none kick) (.inr ⟨idx,kick,call,List.mem_cons_self,own⟩)
    · rw [if_neg own]
      refine ⟨.inl,?_⟩
      rintro (has | ⟨idx',kick',call',member,named⟩)
      · exact has
      · cases List.mem_singleton.mp member
        exact absurd named own
  | mmio call =>
    have kept : (w.queues i).kick = (v.queues i).kick := by
      obtain ⟨answer,served⟩ := step
      cases call with
      | read offset size =>
        obtain ⟨value,_,same⟩ := Access.map_done served
        cases same
        rfl
      | write val offset size =>
        obtain ⟨written,done,same⟩ := Access.map_done served
        obtain ⟨register,_,done⟩ := handleRkcallMmioWrite_done done
        cases same
        exact congrArg (·.2.1) (writeRegister_fixed done i)
    rw [kept]
    refine ⟨.inl,?_⟩
    rintro (has | ⟨idx',kick',call',member,_⟩)
    · exact has
    · cases List.mem_singleton.mp member

theorem installed_cons (event : HostEvent) (events : List HostEvent) (i : Fin pkmVirtioNetQueueNum) :
    Installed (event :: events) i ↔ Installed [event] i ∨ Installed events i := by
  simp only [Installed,List.mem_cons,List.not_mem_nil,or_false]
  constructor
  · rintro ⟨idx,kick,call,here | later,named⟩
    · exact .inl ⟨idx,kick,call,here,named⟩
    · exact .inr ⟨idx,kick,call,later,named⟩
  · rintro (⟨idx,kick,call,here,named⟩ | ⟨idx,kick,call,later,named⟩)
    · exact ⟨idx,kick,call,.inl here,named⟩
    · exact ⟨idx,kick,call,.inr later,named⟩

theorem run_kick_iff {v w : VirtioNet} {events : List HostEvent} (run : Run HostStep v events w)
    (i : Fin pkmVirtioNetQueueNum) :
    (w.queues i).kick ≠ none ↔ (v.queues i).kick ≠ none ∨ Installed events i := by
  induction run with
  | nil =>
    refine ⟨.inl,?_⟩
    rintro (has | ⟨_,_,_,member,_⟩)
    · exact has
    · cases member
  | @cons _ _ _ event labels head _ ih => rw [ih,step_kick_iff head,installed_cons event labels,or_assoc]

/-! Whole runs. -/

/-- After every history an access comes back exactly where it fits. -/
theorem respond_returns_iff {memory v : VirtioNet} {events : List HostEvent}
    (run : Run HostStep (initVirtioNet memory) events v) (call : MmioCall) :
    (respond v call).Returns ↔ AccessFits events call := by
  cases call with
  | read offset size =>
    rw [respond,Access.map_returns,handleRkcallMmioRead,AccessFits]
    cases ReadRegister.at offset size with
    | none => exact iff_of_false (by simp [Access.Returns]) fun known => known rfl
    | some register => exact iff_of_true ⟨_,rfl⟩ (Option.some_ne_none register)
  | write val offset size =>
    rw [respond,Access.map_returns,handleRkcallMmioWrite,AccessFits]
    cases WriteRegister.at offset size with
    | none => exact iff_of_false (by simp [Access.Returns]) (by simp)
    | some register =>
      simp only [Option.some.injEq,exists_eq_left']
      cases register with
      | status =>
        rw [writeRegister,Access.map_returns,handleMmioWriteDeviceStatus_returns_iff,run_status run]
        rfl
      | queueNotify =>
        rw [writeRegister,Access.map_returns,handleMmioWriteQueueNotify_returns_iff,WriteFits]
        refine forall_congr' fun i => imp_congr_right fun _ => ?_
        rw [run_kick_iff run]
        exact or_iff_right fun has => has rfl
      | _ => exact iff_of_true ⟨_,rfl⟩ trivial

/-- A device that has been acknowledged answers the next status. -/
theorem driver_returns : ∃ v, Run HostStep blankDevice [.mmio (.write 1 0x70 4)] v ∧
    (respond v (.write 3 0x70 4)).Returns := by
  have run : Run HostStep blankDevice [.mmio (.write 1 0x70 4)] _ := .single ⟨_,rfl⟩
  exact ⟨_,run,(respond_returns_iff run (.write 3 0x70 4)).mpr ⟨.status,rfl,.inr (by decide)⟩⟩

/-- A driver that gives up sets FAILED, and the host spins. -/
theorem failed_spins : ¬ ∀ (memory v : VirtioNet) (events : List HostEvent) (call : MmioCall),
    Run HostStep (initVirtioNet memory) events v → (respond v call).Returns := by
  intro claim
  have run : Run HostStep blankDevice [.mmio (.write 1 0x70 4)] _ := .single ⟨_,rfl⟩
  obtain ⟨value,returns⟩ := claim _ _ _ (.write 0x81 0x70 4) run
  cases returns

end Cki.Virtio
