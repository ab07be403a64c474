import Cki.Calls

/-! The host interrupt that a guest's INTR call asks for: START calls the handler of
the host's IDT on a frame it builds itself. -/
namespace Cki.HostInterrupt

open Asm

universe u

def kernelCs : Word := 0x10
def kernelDs : Word := 0x18

/-- PKM_DO_EVENT_IRQOFF; the handler returns to `back`. -/
def pkmDoEventIrqoff (back : Word) (callTarget : Gpr) : List KeyedInstr :=
  [.plain (.push .rbp),
   .plain (.mov .rsp .rbp),
   .andImm (-16) .rsp,
   .pushImm kernelDs,
   .plain (.push .rbp),
   .plain .pushfq,
   .pushImm kernelCs,
   .callReg back callTarget,
   .plain (.mov .rbp .rsp),
   .plain (.pop .rbp),
   .plain .ret]

def pkmDoHostInterruptIrqoff (back : Word) : List KeyedInstr := pkmDoEventIrqoff back .rdi

variable {Space : Type u} [DecidableEq Space]

/-- The point at which the handler seems to interrupt the code. -/
def interrupted (cpu : Cpu Space) (back : Word) (m : Machine Space) : Machine Space :=
  let framed := run cpu [.push .rbp,.mov .rsp .rbp] m
  { framed with
    rip := back
    rflags := cpu.flags framed.rflags (framed.gpr .rsp) (-16) }

def delivered (cpu : Cpu Space) (back : Word) (k : Keyed Space) : Keyed Space :=
  k.onMachine fun m => (interrupted cpu back m).deliver cpu kernelDs kernelCs (m.gpr .rdi)

omit [DecidableEq Space] in
/-- The bits an interrupt gate would clear are clear already. -/
theorem flags_quiet (cpu : Cpu Space) {rflags : Word} (quiet : rflags &&& gateFlags = 0)
    (left right : Word) :
    cpu.flags rflags left right &&& ~~~gateFlags = cpu.flags rflags left right := by
  have off : statusMask &&& gateFlags = 0 := by decide
  rw [Cpu.flags]
  apply BitVec.eq_of_getLsbD_eq
  intro i bound
  have quietBit := congrArg (·.getLsbD i) quiet
  have offBit := congrArg (·.getLsbD i) off
  simp only [BitVec.getLsbD_and,BitVec.getLsbD_or,BitVec.getLsbD_not] at quietBit offBit ⊢
  grind

/-- The code up to its call. -/
def prologue (cpu : Cpu Space) (m : Machine Space) : Machine Space :=
  let framed := run cpu [.push .rbp,.mov .rsp .rbp] m
  let lowered := framed.arith cpu .rsp (-16) (aligned (framed.gpr .rsp))
  (run cpu [.push .rbp,.pushfq] (lowered.pushWord cpu kernelDs)).pushWord cpu kernelCs

def epilogue : List KeyedInstr := [.plain (.mov .rbp .rsp),.plain (.pop .rbp),.plain .ret]

theorem pkmDoHostInterruptIrqoff_call (cpu : Cpu Space)
    (callee : Keyed Space → Option (Keyed Space)) (back : Word) (k : Keyed Space) :
    passage cpu callee (pkmDoHostInterruptIrqoff back) k =
      (callee ((k.onMachine (prologue cpu)).enter cpu back .rdi)).bind
        (passage cpu callee epilogue) := rfl

/-- The frame the code builds is the one the processor would build at that point. -/
theorem prologue_delivers (cpu : Cpu Space) (back : Word) (k : Keyed Space)
    (quiet : k.machine.rflags &&& gateFlags = 0) :
    (k.onMachine (prologue cpu)).enter cpu back .rdi = delivered cpu back k := by
  have flags := flags_quiet cpu quiet (k.machine.gpr .rsp - 8#64) (-16#64)
  simp [prologue,delivered,interrupted,Machine.deliver,aligned] at flags ⊢
  refine ⟨?_,flags.symm,?_⟩
  · funext r
    cases r <;> simp [BitVec.sub_eq_add_neg,BitVec.add_assoc]
  · simp [BitVec.sub_eq_add_neg,BitVec.add_assoc]

/-- What an interrupt handler leaves to its IRETQ: the registers, the address space and the
64 bytes of stack above its entry as it found them. -/
structure Handled (cpu : Cpu Space) (m t : Machine Space) : Prop where
  gpr : t.gpr = m.gpr
  here : t.here cpu = m.here cpu
  stack : ∀ disp < 64, t.word cpu (m.gpr .rsp + disp) = m.word cpu (m.gpr .rsp + disp)

/-- The call of a handler, from the state in which its IRETQ finds the machine. -/
def returned (cpu : Cpu Space) (k handled : Keyed Space) : Keyed Space :=
  handled.onMachine fun m =>
    { m with
      gpr := setReg k.machine.gpr .rsp (k.machine.gpr .rsp + 8)
      rip := k.machine.word cpu (k.machine.gpr .rsp)
      rflags := cpu.flags k.machine.rflags (k.machine.gpr .rsp - 8) (-16) }

/-- In the handler's view the frame starts at one of two places, and the words from there
on are those the way back reads. -/
theorem delivered_words (cpu : Cpu Space) (back : Word) (k : Keyed Space)
    (words : (k.machine.gpr .rsp).toNat % 8 = 0) :
    ∃ pad : Word, (pad = 0 ∨ pad = 8) ∧
      let m := (delivered cpu back k).machine
      let start := k.machine.gpr .rsp - 48 - pad
      m.gpr .rsp = start ∧
        m.word cpu (start + 16) = cpu.flags k.machine.rflags (k.machine.gpr .rsp - 8) (-16) ∧
        m.word cpu (start + 24) = k.machine.gpr .rsp - 8 ∧
        m.word cpu (start + (40 + pad)) = k.machine.gpr .rbp ∧
        m.word cpu (start + (48 + pad)) = k.machine.word cpu (k.machine.gpr .rsp) := by
  have eighth : (k.machine.gpr .rsp - 8#64).toNat % 8 = 0 := by
    rw [BitVec.toNat_sub,show (8#64).toNat = 8 from rfl]
    omega
  obtain low | low := aligned_cases eighth
  · rw [BitVec.sub_eq_add_neg] at low
    refine ⟨0,.inl rfl,?_⟩
    simp [delivered,interrupted,Machine.deliver,BitVec.sub_eq_add_neg,BitVec.add_assoc] at low ⊢
    simp [low,BitVec.add_assoc]
  · rw [BitVec.sub_eq_add_neg] at low
    refine ⟨8,.inr rfl,?_⟩
    simp [delivered,interrupted,Machine.deliver,BitVec.sub_eq_add_neg,BitVec.add_assoc] at low ⊢
    simp [low,BitVec.add_assoc]

theorem delivered_gpr (cpu : Cpu Space) (back : Word) (k : Keyed Space) {r : Gpr}
    (notRsp : r ≠ .rsp) : (delivered cpu back k).machine.gpr r =
      if r = .rbp then k.machine.gpr .rsp - 8 else k.machine.gpr r := by
  simp [delivered,interrupted,Machine.deliver,notRsp]

theorem epilogue_run (cpu : Cpu Space) (callee : Keyed Space → Option (Keyed Space))
    (k : Keyed Space) : passage cpu callee epilogue k = some (k.onMachine fun m =>
      { m with
        gpr := setReg (setReg m.gpr .rbp (m.word cpu (m.gpr .rbp))) .rsp (m.gpr .rbp + 16)
        rip := m.word cpu (m.gpr .rbp + 8) }) := by
  simp [passage,epilogue,BitVec.add_assoc]
  funext r
  cases r <;> simp

theorem epilogue_returns {cpu : Cpu Space} {back : Word} {k handled : Keyed Space}
    (kept : Handled cpu (delivered cpu back k).machine handled.machine)
    (words : (k.machine.gpr .rsp).toNat % 8 = 0) {callee : Keyed Space → Option (Keyed Space)} :
    passage cpu callee epilogue (handled.onMachine (·.iret cpu)) = some (returned cpu k handled) := by
  obtain ⟨pad,place,start,flags,rsp,rbp,rip⟩ := delivered_words cpu back k words
  have word : ∀ disp < 64, handled.machine.word cpu (k.machine.gpr .rsp - 48 - pad + disp) =
      (delivered cpu back k).machine.word cpu (k.machine.gpr .rsp - 48 - pad + disp) := by
    intro disp small
    rw [← start]
    exact kept.stack disp small
  have pushed : k.machine.gpr .rsp - 48 - pad + (40 + pad) = k.machine.gpr .rsp - 8 := by
    obtain rfl | rfl := place <;> simp [BitVec.sub_eq_add_neg,BitVec.add_assoc]
  have above : k.machine.gpr .rsp - 48 - pad + (48 + pad) = k.machine.gpr .rsp := by
    obtain rfl | rfl := place <;> simp [BitVec.sub_eq_add_neg,BitVec.add_assoc]
  have near : 40 + pad < 64 ∧ 48 + pad < 64 := by
    obtain rfl | rfl := place <;> decide
  rw [← word 16 (by decide)] at flags
  rw [← word 24 (by decide)] at rsp
  rw [← word _ near.1,pushed] at rbp
  rw [← word _ near.2,above] at rip
  have frame : handled.machine.gpr .rsp = k.machine.gpr .rsp - 48 - pad := by rw [kept.gpr,start]
  have base : handled.machine.gpr .rbp = k.machine.gpr .rsp - 8 := by
    rw [kept.gpr,delivered_gpr cpu back k (by decide)]
    rfl
  rw [epilogue_run]
  simp only [returned,Keyed.onMachine,Machine.iret,Machine.word,Machine.here] at flags rsp rbp rip ⊢
  simp [frame,base]
  refine ⟨?_,flags,?_⟩
  · funext r
    by_cases isRsp : r = .rsp
    · simp [isRsp,BitVec.sub_eq_add_neg,BitVec.add_assoc]
    by_cases isRbp : r = .rbp
    · subst isRbp
      simpa using rbp
    · simp [isRsp,isRbp,kept.gpr,delivered_gpr cpu back k isRsp]
  · simpa [BitVec.sub_add_cancel] using rip

/-- For the caller the interrupt is a call that changes no register. -/
theorem pkmDoHostInterruptIrqoff_returns (cpu : Cpu Space)
    {handler : Keyed Space → Option (Keyed Space)}
    (keeps : ∀ k t, handler k = some t → Handled cpu k.machine t.machine) (back : Word)
    (k : Keyed Space) (quiet : k.machine.rflags &&& gateFlags = 0)
    (words : (k.machine.gpr .rsp).toNat % 8 = 0) :
    passage cpu (fun k => (handler k).map (·.onMachine (·.iret cpu)))
        (pkmDoHostInterruptIrqoff back) k =
      (handler (delivered cpu back k)).map (returned cpu k) := by
  rw [pkmDoHostInterruptIrqoff_call,prologue_delivers cpu back k quiet]
  cases handling : handler (delivered cpu back k) with
  | none => rfl
  | some handled =>
    rw [Option.map_some,Option.map_some,Option.bind_some]
    exact epilogue_returns (keeps _ _ handling) words

/-- A handler that uses the stack below its frame. -/
def counting (cpu : Cpu Space) (k : Keyed Space) : Option (Keyed Space) :=
  some (k.onMachine fun m => m.setWord cpu (m.gpr .rsp - 8) 1)

theorem counting_handled (cpu : Cpu Space) (k t : Keyed Space) (handles : counting cpu k = some t) :
    Handled cpu k.machine t.machine := by
  cases handles
  refine ⟨rfl,rfl,?_⟩
  intro disp small
  have below : k.machine.gpr .rsp + disp ≠ k.machine.gpr .rsp - 8#64 := by
    rw [BitVec.sub_eq_add_neg,Ne,BitVec.add_right_inj]
    rintro rfl
    exact absurd small (by decide)
  simp [below]

theorem pkmDoHostInterruptIrqoff_returns_counting :
    let cpu : Cpu Unit := ⟨fun _ => (),fun _ _ => 0⟩
    let gpr : Gpr → Word := setReg (setReg (fun _ => 7) .rdi 0xffffffff81000000) .rsp 0x9008
    let k : Keyed Unit := ⟨⟨gpr,0x2,0,0x1000,0x20,fun _ => 0,0,0,fun _ _ => 0x1234⟩,0⟩
    passage cpu (fun k => (counting cpu k).map (·.onMachine (·.iret cpu)))
        (pkmDoHostInterruptIrqoff 0x4000) k =
      (counting cpu (delivered cpu 0x4000 k)).map (returned cpu k) :=
  pkmDoHostInterruptIrqoff_returns _ (counting_handled _) 0x4000 _ (by decide) (by decide)

end Cki.HostInterrupt
