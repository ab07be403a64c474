import Cki.Machine

/-! Code that calls through a register, returns from an interrupt and moves the
rights of the protection keys. What a call runs is a parameter: a function from the
machine at its first instruction to the machine back at the return address. -/
namespace Cki.Asm

universe u

/-- The machine with the rights register of its protection keys. -/
structure Keyed (Space : Type u) where
  machine : Machine Space
  pkru : BitVec 32

inductive KeyedInstr where
  | plain (instr : Instr)
  | andImm (imm : Word) (dst : Gpr)
  | pushImm (imm : Word)
  | wrpkru
  | cmplImm (imm : BitVec 32) (dst : Gpr)
  /-- `jne .`: to the instruction itself. -/
  | jneSelf
  | callReg (back : Word) (target : Gpr)
  | iretq
  deriving DecidableEq, Repr

def zeroFlag : Word := 0x40

variable {Space : Type u}

/-- The low half of a general register. -/
@[simp] def Machine.low (m : Machine Space) (reg : Gpr) : BitVec 32 := (m.gpr reg).setWidth 32

/-- The flags after a comparison, ZF among them exact. -/
def Cpu.compare (cpu : Cpu Space) (rflags : Word) (left right : BitVec 32) : Word :=
  cpu.flags rflags (left.setWidth 64) (right.setWidth 64) &&& ~~~zeroFlag |||
    if left = right then zeroFlag else 0

theorem Cpu.compare_zero (cpu : Cpu Space) (rflags : Word) (left right : BitVec 32) :
    cpu.compare rflags left right &&& zeroFlag = zeroFlag ↔ left = right := by
  have cleared : ∀ flags : Word, flags &&& ~~~zeroFlag &&& zeroFlag = 0 := by
    intro flags
    rw [BitVec.and_assoc,show ~~~zeroFlag &&& zeroFlag = 0#64 by decide]
    exact BitVec.and_zero
  by_cases same : left = right
  · rw [compare,if_pos same,BitVec.and_or_distrib_right,cleared]
    simp [same]
  · rw [compare,if_neg same,BitVec.and_or_distrib_right,cleared]
    simp [same,zeroFlag]

@[simp] theorem Cpu.compare_same (cpu : Cpu Space) (rflags : Word) (value : BitVec 32) :
    cpu.compare rflags value value &&& zeroFlag = zeroFlag := (cpu.compare_zero ..).mpr rfl

/-- IRETQ within one privilege level: RIP, CS, RFLAGS, RSP and SS leave the stack. -/
@[simp] def Machine.iret (m : Machine Space) (cpu : Cpu Space) : Machine Space :=
  let rsp := m.gpr .rsp
  { m with
    rip := m.word cpu rsp
    rflags := m.word cpu (rsp + 16)
    gpr := setReg m.gpr .rsp (m.word cpu (rsp + 24)) }

/-- TF, IF, NT, RF and VM, which an interrupt gate clears. -/
def gateFlags : Word := 0x34300

/-- A stack pointer brought down to 16 bytes. -/
def aligned (rsp : Word) : Word := rsp &&& -16#64

theorem aligned_cases {rsp : Word} (words : rsp.toNat % 8 = 0) :
    aligned rsp = rsp ∨ aligned rsp = rsp - 8 := by
  have low : (rsp &&& 15#64).toNat = rsp.toNat % 2 ^ 4 := by
    rw [BitVec.toNat_and,show (15#64).toNat = 2 ^ 4 - 1 from rfl,Nat.and_two_pow_sub_one_eq_mod]
  rw [aligned,show -16#64 = ~~~15#64 by decide,and_not_eq_sub]
  obtain zero | eight : rsp.toNat % 2 ^ 4 = 0 ∨ rsp.toNat % 2 ^ 4 = 8 := by omega
  · left
    rw [show rsp &&& 15#64 = 0#64 from BitVec.eq_of_toNat_eq (low.trans zero)]
    exact BitVec.sub_zero rsp
  · right
    rw [show rsp &&& 15#64 = 8#64 from BitVec.eq_of_toNat_eq (low.trans eight)]
    rfl

@[simp] def Keyed.onMachine (k : Keyed Space) (step : Machine Space → Machine Space) : Keyed Space :=
  { k with machine := step k.machine }

variable [DecidableEq Space]

/-- The callee's first instruction, the return address pushed. -/
@[simp] def Keyed.enter (k : Keyed Space) (cpu : Cpu Space) (back : Word) (target : Gpr) :
    Keyed Space :=
  k.onMachine fun m => { m.pushWord cpu back with rip := m.gpr target }

/-- Delivery of an interrupt within one privilege level and stack: SS, RSP, RFLAGS, CS
and RIP below the aligned stack pointer. -/
def Machine.deliver (cpu : Cpu Space) (ss cs target : Word) (m : Machine Space) : Machine Space :=
  let top := aligned (m.gpr .rsp)
  let mem := [(top - 8,ss),(top - 16,m.gpr .rsp),(top - 24,m.rflags),(top - 32,cs),
    (top - 40,m.rip)].foldl (fun mem entry => Asm.setWord mem (m.here cpu) entry.1 entry.2) m.mem
  { m with
    mem := mem
    gpr := setReg m.gpr .rsp (top - 40)
    rflags := m.rflags &&& ~~~gateFlags
    rip := target }

/-- The code from some instruction on, up to its RET or IRETQ. `none`: it faults,
spins, or its callee does not come back. -/
def passage (cpu : Cpu Space) (callee : Keyed Space → Option (Keyed Space)) :
    List KeyedInstr → Keyed Space → Option (Keyed Space)
  | [],k => some k
  | .plain i :: code,k =>
    let next := k.onMachine (exec cpu · i)
    if i = .ret then some next else passage cpu callee code next
  | .andImm imm dst :: code,k =>
    passage cpu callee code (k.onMachine fun m => m.arith cpu dst imm (m.gpr dst &&& imm))
  | .pushImm imm :: code,k => passage cpu callee code (k.onMachine (·.pushWord cpu imm))
  | .wrpkru :: code,k =>
    if k.machine.low .rcx = 0 ∧ k.machine.low .rdx = 0 then
      passage cpu callee code { k with pkru := k.machine.low .rax }
    else none
  | .cmplImm imm dst :: code,k =>
    passage cpu callee code (k.onMachine fun m =>
      { m with rflags := cpu.compare m.rflags (m.low dst) imm })
  | .jneSelf :: code,k =>
    if k.machine.rflags &&& zeroFlag = zeroFlag then passage cpu callee code k else none
  | .callReg back target :: code,k =>
    (callee (k.enter cpu back target)).bind (passage cpu callee code)
  | .iretq :: _,k => some (k.onMachine (·.iret cpu))

section Passage

variable (cpu : Cpu Space) (callee : Keyed Space → Option (Keyed Space)) (code : List KeyedInstr)
  (k : Keyed Space)

@[simp] theorem passage_nil : passage cpu callee [] k = some k := rfl

@[simp] theorem passage_ret :
    passage cpu callee (.plain .ret :: code) k = some (k.onMachine (exec cpu · .ret)) := by
  simp [passage]

theorem passage_plain {i : Instr} (onward : i ≠ .ret) :
    passage cpu callee (.plain i :: code) k = passage cpu callee code (k.onMachine (exec cpu · i)) := by
  simp [passage,onward]

@[simp] theorem passage_call (back : Word) (target : Gpr) :
    passage cpu callee (.callReg back target :: code) k =
      (callee (k.enter cpu back target)).bind (passage cpu callee code) := rfl

/-- Straight-line code in front of the rest. -/
theorem passage_plains {plains : List Instr} (onward : .ret ∉ plains) :
    passage cpu callee (plains.map .plain ++ code) k =
      passage cpu callee code (k.onMachine (run cpu plains)) := by
  induction plains generalizing k with
  | nil => rfl
  | cons i plains ih =>
    simp only [List.mem_cons,not_or] at onward
    rw [List.map_cons,List.cons_append,passage_plain cpu callee _ k (Ne.symm onward.1),ih _ onward.2]
    rfl

/-- A value of EAX that was compared with the immediate leaves `jne .` only if equal. -/
theorem passage_checked (imm : BitVec 32) (dst : Gpr) :
    passage cpu callee (.cmplImm imm dst :: .jneSelf :: code) k =
      if k.machine.low dst = imm then
        passage cpu callee code (k.onMachine fun m =>
          { m with rflags := cpu.compare m.rflags imm imm })
      else none := by
  by_cases same : k.machine.low dst = imm
  · simp only [passage,Keyed.onMachine,same,cpu.compare_same,if_true]
  · have zero := mt (cpu.compare_zero k.machine.rflags (k.machine.low dst) imm).mp same
    simp only [passage,Keyed.onMachine,same,zero,if_false]

theorem passage_wrpkru_some {t : Keyed Space} (passes : passage cpu callee (.wrpkru :: code) k = some t) :
    passage cpu callee code { k with pkru := k.machine.low .rax } = some t := by
  rw [passage] at passes
  split at passes
  · exact passes
  · cases passes

end Passage

end Cki.Asm
