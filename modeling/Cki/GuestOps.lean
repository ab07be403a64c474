import Cki.FastRegisters
import Cki.StartMachine
import Mathlib.Tactic.Tauto

/-! The guest's paravirtual operations on registers. What the switch does not carry over is the
host's own: the operations leave it alone, and a write that would change it ends in SHUTDOWN. -/
namespace Cki.Start

open Asm Switch

universe u

def msrIa32SysenterCs : BitVec 32 := 0x174
def msrIa32SysenterEsp : BitVec 32 := 0x175
def msrIa32SysenterEip : BitVec 32 := 0x176
def msrIa32Xss : BitVec 32 := 0xda0
def msrStar : BitVec 32 := 0xc0000081
def msrLstar : BitVec 32 := 0xc0000082
def msrCstar : BitVec 32 := 0xc0000083
def msrSyscallMask : BitVec 32 := 0xc0000084
def cr0State : Word := 0x80050033

/-- The registers that a guest's kernel writes. -/
structure Registers (Space : Type u) where
  machine : Machine Space
  cr0 : Word
  dr : Nat → Word
  tr : BitVec 16
  gs : BitVec 16

def debugCall (arg1 arg2 : Word) : Call := ⟨Rkcall.debug.number,arg1,arg2,0⟩
def shutdownCall : Call := ⟨Rkcall.shutdown.number,0,0,0⟩

variable {Space : Type u}

/-- An operation leaves the registers and has made these rkcalls. -/
abbrev Effect (Space : Type u) := Registers Space × List Call

def pkmWriteMsr (msr low high : BitVec 32) (r : Registers Space) : Effect Space :=
  if msr = msrGsBase ∨ msr = msrKernelGsBase ∨ msr = msrFsBase then
    ({ r with machine := { r.machine with msr := setMsr r.machine.msr msr (high ++ low) } },[])
  else if msr = msrCstar ∨ msr = msrIa32SysenterCs ∨ msr = msrIa32SysenterEsp ∨
      msr = msrIa32SysenterEip then
    (r,[])
  else if msr ≠ msrIa32Xss ∧ msr ≠ msrStar ∧ msr ≠ msrLstar ∧ msr ≠ msrSyscallMask then
    (r,[debugCall 9 (msr.setWidth 64),shutdownCall])
  else if r.machine.msr msr ≠ high.setWidth 64 <<< 32 + low.setWidth 64 then
    (r,[debugCall 9 (msr.setWidth 64),shutdownCall])
  else (r,[])

def pkmWriteMsrSafe (msr low high : BitVec 32) (r : Registers Space) : Effect Space × Int :=
  (pkmWriteMsr msr low high r,0)

def pkmWriteCr0 (val : Word) (r : Registers Space) : Effect Space :=
  if val ≠ cr0State then (r,[debugCall 5 val,shutdownCall]) else (r,[])

def pkmWriteCr3 (pcid val : Word) (r : Registers Space) : Effect Space :=
  ({ r with machine := { r.machine with cr3 := dropNoFlush (withPcid val pcid) } },[])

def pkmSetDebugreg (_regno : Nat) (_value : Word) (r : Registers Space) : Effect Space := (r,[])
def pkmLoadTrDesc (r : Registers Space) : Effect Space := (r,[])
def pkmLoadGsIndex (_selector : BitVec 16) (r : Registers Space) : Effect Space := (r,[])

def pkmLoadGdt (dtr : BitVec 80) (r : Registers Space) : Effect Space :=
  ({ r with machine := { r.machine with gdtr := dtr } },[])

inductive PvOp where
  | writeMsr (msr low high : BitVec 32)
  | writeMsrSafe (msr low high : BitVec 32)
  | writeCr0 (val : Word)
  | writeCr3 (val : Word)
  | writeCr4 (val : Word)
  | setDebugreg (regno : Nat) (value : Word)
  | loadTrDesc
  | loadGdt (dtr : BitVec 80)
  | loadIdt (dtr : BitVec 80)
  | loadGsIndex (selector : BitVec 16)
  deriving DecidableEq, Repr

/-- `pv_ops.cpu` and `pv_ops.mmu.write_cr3` -/
def PvOp.perform (nativeWriteCr4 : Word → Word) (pcid : Word) : PvOp → Registers Space → Effect Space
  | .writeMsr msr low high,r => pkmWriteMsr msr low high r
  | .writeMsrSafe msr low high,r => (pkmWriteMsrSafe msr low high r).1
  | .writeCr0 val,r => pkmWriteCr0 val r
  | .writeCr3 val,r => pkmWriteCr3 pcid val r
  | .writeCr4 val,r => ({ r with machine := pkmWriteCr4 nativeWriteCr4 val r.machine },[])
  | .setDebugreg regno value,r => pkmSetDebugreg regno value r
  | .loadTrDesc,r => pkmLoadTrDesc r
  | .loadGdt dtr,r => pkmLoadGdt dtr r
  | .loadIdt dtr,r => ({ r with machine := pkmLoadIdt dtr r.machine },[])
  | .loadGsIndex selector,r => pkmLoadGsIndex selector r

/-! One operation. -/

/-- The registers that FSGSBASE, SWAPGS and the switch write. -/
def BaseMsr (msr : BitVec 32) : Prop := msr = msrFsBase ∨ msr = msrGsBase ∨ msr = msrKernelGsBase

def MsrsKept (m t : Machine Space) : Prop := ∀ msr, ¬ BaseMsr msr → t.msr msr = m.msr msr

/-- What is the host's own is as it was. -/
structure HostsKept (r t : Registers Space) : Prop where
  msrs : MsrsKept r.machine t.machine
  cr0 : t.cr0 = r.cr0
  dr : t.dr = r.dr
  tr : t.tr = r.tr
  gs : t.gs = r.gs

theorem HostsKept.refl (r : Registers Space) : HostsKept r r := ⟨fun _ _ => rfl,rfl,rfl,rfl,rfl⟩

theorem HostsKept.trans {r t v : Registers Space} (first : HostsKept r t) (second : HostsKept t v) :
    HostsKept r v where
  msrs msr other := (second.msrs msr other).trans (first.msrs msr other)
  cr0 := second.cr0.trans first.cr0
  dr := second.dr.trans first.dr
  tr := second.tr.trans first.tr
  gs := second.gs.trans first.gs

/-- The rkcalls of an operation that is refused. -/
def Refusal (calls : List Call) : Prop := ∃ arg1 arg2, calls = [debugCall arg1 arg2,shutdownCall]

theorem pkmWriteMsr_kept (msr low high : BitVec 32) (r : Registers Space) :
    HostsKept r (pkmWriteMsr msr low high r).1 := by
  rw [pkmWriteMsr]
  split
  · rename_i base
    refine ⟨fun other apart => if_neg ?_,rfl,rfl,rfl,rfl⟩
    rintro rfl
    apply apart
    rw [BaseMsr]
    tauto
  split
  · exact .refl r
  split
  · exact .refl r
  split
  · exact .refl r
  · exact .refl r

theorem pkmWriteMsr_calls (msr low high : BitVec 32) (r : Registers Space) :
    (pkmWriteMsr msr low high r).2 = [] ∨ Refusal (pkmWriteMsr msr low high r).2 := by
  rw [pkmWriteMsr]
  split
  · exact .inl rfl
  split
  · exact .inl rfl
  split
  · exact .inr ⟨_,_,rfl⟩
  split
  · exact .inr ⟨_,_,rfl⟩
  · exact .inl rfl

theorem PvOp.perform_kept (nativeWriteCr4 : Word → Word) (pcid : Word) (op : PvOp)
    (r : Registers Space) : HostsKept r (op.perform nativeWriteCr4 pcid r).1 := by
  cases op with
  | writeMsr msr low high => exact pkmWriteMsr_kept msr low high r
  | writeMsrSafe msr low high => exact pkmWriteMsr_kept msr low high r
  | writeCr0 val =>
    rw [PvOp.perform,pkmWriteCr0]
    split <;> exact .refl r
  | _ => exact ⟨fun _ _ => rfl,rfl,rfl,rfl,rfl⟩

theorem PvOp.perform_calls (nativeWriteCr4 : Word → Word) (pcid : Word) (op : PvOp)
    (r : Registers Space) : (op.perform nativeWriteCr4 pcid r).2 = [] ∨
      Refusal (op.perform nativeWriteCr4 pcid r).2 := by
  cases op with
  | writeMsr msr low high => exact pkmWriteMsr_calls msr low high r
  | writeMsrSafe msr low high => exact pkmWriteMsr_calls msr low high r
  | writeCr0 val =>
    rw [PvOp.perform,pkmWriteCr0]
    split
    · exact .inr ⟨_,_,rfl⟩
    · exact .inl rfl
  | _ => exact .inl rfl

/-! The switch. -/

/-- The instruction writes no MSR. -/
def KeepsMsrs : Instr → Prop
  | .wrmsr | .wrfsbase _ | .wrgsbase _ => False
  | _ => True

variable [DecidableEq Space]

theorem exec_msr (cpu : Cpu Space) (m : Machine Space) {i : Instr} (keeps : KeepsMsrs i) :
    (exec cpu m i).msr = m.msr := by
  cases i with
  | wrmsr => exact keeps.elim
  | wrfsbase src => exact keeps.elim
  | wrgsbase src => exact keeps.elim
  | _ => rfl

theorem run_msr (cpu : Cpu Space) {code : List Instr} (keeps : ∀ i ∈ code, KeepsMsrs i)
    (m : Machine Space) : (run cpu code m).msr = m.msr := by
  induction code generalizing m with
  | nil => rfl
  | cons i code ih =>
    rw [List.forall_mem_cons] at keeps
    rw [run_cons,ih keeps.2,exec_msr cpu m keeps.1]

theorem saveCtx_keepsMsrs (type : Variant) (base : Gpr) :
    ∀ i ∈ saveCtx type base .r11, KeepsMsrs i := by
  cases type <;> simp [saveCtx,saveCtxSlow,saveCtxFast,readMsr,KeepsMsrs]

theorem writeCr3_keepsMsrs (type : Variant) (reg1 reg2 reg3 : Gpr) :
    ∀ i ∈ writeCr3 type reg1 reg2 reg3, KeepsMsrs i := by
  cases type <;> simp [writeCr3,writeCr3Slow,writeCr3Fast,KeepsMsrs]

theorem rstorCtx_msrs (cpu : Cpu Space) (type : Variant) (base : Gpr) (m : Machine Space) :
    MsrsKept m (run cpu (rstorCtx type base .r11) m) := by
  intro msr other
  rw [BaseMsr,not_or,not_or] at other
  cases type with
  | slow =>
    simp -implicitDefEqProofs [rstorCtx,rstorCtxSlow,run_append,writeMsr_run,setMsr,other]
  | fast => simp -implicitDefEqProofs [rstorCtx,rstorCtxFast,setMsr,other]

/-- Around a restored context the code writes no MSR. -/
theorem around_msrs (cpu : Cpu Space) {before after : List Instr} (type : Variant) (base : Gpr)
    (first : ∀ i ∈ before, KeepsMsrs i) (last : ∀ i ∈ after, KeepsMsrs i) (m : Machine Space) :
    MsrsKept m (run cpu (before ++ rstorCtx type base .r11 ++ after) m) := by
  intro msr other
  rw [run_append,run_append,run_msr cpu last,rstorCtx_msrs cpu type base _ msr other,
    run_msr cpu first]

theorem pkRkret_msrs (cpu : Cpu Space) (type : Variant) (back : Word) (m : Machine Space) :
    MsrsKept m (run cpu (pkRkret type back) m) := by
  have parts : pkRkret type back =
      ([.lea pkCtxSize .rdi .rax] ++ saveCtx type .rax .r11 ++ rkretNotes back) ++
      rstorCtx type .rdi .r11 ++ (rkretLoads ++ writeCr3 type .rax .r9 .r10 ++ [.jmp .rcx]) := by
    simp [pkRkret,rkretNotes,rkretLoads]
  rw [parts]
  refine around_msrs cpu type .rdi ?_ ?_ m
  · simp only [List.forall_mem_append]
    exact ⟨⟨by simp [KeepsMsrs],saveCtx_keepsMsrs type .rax⟩,by simp [rkretNotes,KeepsMsrs]⟩
  · simp only [List.forall_mem_append]
    exact ⟨⟨by simp [rkretLoads,KeepsMsrs],writeCr3_keepsMsrs type _ _ _⟩,by simp [KeepsMsrs]⟩

theorem pkRkcall_msrs (cpu : Cpu Space) (type : Variant) (back : Word) (m : Machine Space) :
    MsrsKept m (run cpu (pkRkcall type back) m) := by
  have parts : pkRkcall type back =
      (rkcallStart ++ writeCr3 type .rdi .r10 .r11 ++ saveCtx type .rsi .r11 ++ rkcallNotes back) ++
      rstorCtx type .rcx .r11 ++ [.load pkCtxRip .rcx .rcx,.jmp .rcx] := by
    simp [pkRkcall,rkcallStart,rkcallNotes]
  rw [parts]
  refine around_msrs cpu type .rcx ?_ (by simp [KeepsMsrs]) m
  simp only [List.forall_mem_append]
  exact ⟨⟨⟨by simp [rkcallStart,KeepsMsrs],writeCr3_keepsMsrs type _ _ _⟩,saveCtx_keepsMsrs type .rsi⟩,
    by simp [rkcallNotes,KeepsMsrs]⟩

/-! A vCPU with a guest that writes registers by the operations only. -/

/-- The rkcalls that operations have still to make are `due`, those of an interrupt's before those
of what it interrupts; `refused` operations were refused, and `shutdowns` of these have come to
their SHUTDOWN. -/
structure Ward (Space : Type u) where
  thread : OnMachine Space
  cr0 : Word
  dr : Nat → Word
  tr : BitVec 16
  gs : BitVec 16
  due : List Call
  refused : Nat
  shutdowns : Nat

def Ward.registers (w : Ward Space) : Registers Space := ⟨w.thread.machine,w.cr0,w.dr,w.tr,w.gs⟩

def Ward.operate (w : Ward Space) (effect : Effect Space) : Ward Space where
  thread := { w.thread with machine := effect.1.machine }
  cr0 := effect.1.cr0
  dr := effect.1.dr
  tr := effect.1.tr
  gs := effect.1.gs
  due := effect.2 ++ w.due
  refused := if effect.2 = [] then w.refused else w.refused + 1
  shutdowns := w.shutdowns

/-- The rkcall that is due next is made. -/
def Ward.call (w : Ward Space) (call : Call) (due : List Call) : Ward Space :=
  { w with
    due := due
    shutdowns := if call = shutdownCall then w.shutdowns + 1 else w.shutdowns }

inductive WardEvent where
  | thread (event : MachineEvent)
  | call (type : Variant) (back : Word)
  | op (op : PvOp)
  deriving DecidableEq, Repr

/-- Code that is not modelled, the guest's and the host's, writes no MSR but the bases. -/
inductive WardStep (cpu : Cpu Space) (nativeWriteCr4 : Word → Word) (cntr : Cntr) (host : Space)
    (ctx : Word) (w : Ward Space) : WardEvent → Ward Space → Prop where
  | thread {event : MachineEvent} {d : OnMachine Space}
      (step : MachineStep cpu cntr host ctx w.thread event d)
      (own : event = .code ∨ event = .own → MsrsKept w.thread.machine d.machine) :
      WardStep cpu nativeWriteCr4 cntr host ctx w (.thread event) { w with thread := d }
  | call {type : Variant} {back : Word} {d : OnMachine Space} {due : List Call}
      (step : MachineStep cpu cntr host ctx w.thread (.rkcall type back) d)
      (next : w.due = callOf w.thread.machine :: due) :
      WardStep cpu nativeWriteCr4 cntr host ctx w (.call type back)
        { w.call (callOf w.thread.machine) due with thread := d }
  | op (op : PvOp) (running : w.thread.control = .guest) :
      WardStep cpu nativeWriteCr4 cntr host ctx w (.op op)
        (w.operate (op.perform nativeWriteCr4 cntr.pcid w.registers))

/-- Each refused operation has made its SHUTDOWN or has still to make it. -/
def Ward.Answered (w : Ward Space) : Prop := w.refused = w.shutdowns + w.due.count shutdownCall

section
variable {cpu : Cpu Space} {nativeWriteCr4 : Word → Word} {cntr : Cntr} {host : Space} {ctx : Word}
  {w u : Ward Space}

theorem MachineStep.msrs {c d : OnMachine Space} {event : MachineEvent}
    (step : MachineStep cpu cntr host ctx c event d)
    (own : event = .code ∨ event = .own → MsrsKept c.machine d.machine) :
    MsrsKept c.machine d.machine := by
  cases step with
  | resume back top =>
    exact fun msr => pkRkret_msrs cpu c.pkRkret back (c.ready cntr host ctx) msr
  | rkcall type back running root rsi apart => exact pkRkcall_msrs cpu type back c.machine
  | code running kept => exact own (.inl rfl)
  | own away here kept => exact own (.inr rfl)
  | _ => exact fun _ _ => rfl

theorem WardStep.kept {event : WardEvent} (step : WardStep cpu nativeWriteCr4 cntr host ctx w event u) :
    HostsKept w.registers u.registers := by
  cases step with
  | thread step own => exact ⟨step.msrs own,rfl,rfl,rfl,rfl⟩
  | call step next => exact ⟨step.msrs (by simp),rfl,rfl,rfl,rfl⟩
  | op op running => exact op.perform_kept nativeWriteCr4 cntr.pcid w.registers

theorem WardStep.answered {event : WardEvent} (answered : w.Answered)
    (step : WardStep cpu nativeWriteCr4 cntr host ctx w event u) : u.Answered := by
  rw [Ward.Answered] at answered
  cases step with
  | thread step own => exact answered
  | call step next =>
    rw [next,List.count_cons] at answered
    simp only [Ward.Answered,Ward.call]
    split
    case isTrue shutdown =>
      rw [shutdown,if_pos (beq_self_eq_true _)] at answered
      omega
    case isFalse other =>
      rw [if_neg (by simpa using other)] at answered
      omega
  | op op running =>
    simp only [Ward.Answered,Ward.operate,List.count_append]
    rcases op.perform_calls nativeWriteCr4 cntr.pcid w.registers with none | ⟨arg1,arg2,calls⟩
    · rw [none,if_pos rfl,List.count_nil,Nat.zero_add]
      exact answered
    · have other : debugCall arg1 arg2 ≠ shutdownCall := by
        intro same
        have numbers : Rkcall.debug.number ≠ Rkcall.shutdown.number := by decide
        exact numbers (congrArg Call.n same)
      rw [calls,if_neg (by simp),List.count_cons_of_ne other,List.count_singleton_self]
      omega

/-- Whatever a guest writes by its operations, what is the host's own keeps its value, and each
write that was refused leads to a SHUTDOWN of its own. -/
theorem run_hostsKept {events : List WardEvent} (answered : w.Answered)
    (run : Run (WardStep cpu nativeWriteCr4 cntr host ctx) w events u) :
    HostsKept w.registers u.registers ∧ u.Answered := by
  refine run.invariant (fun u => HostsKept w.registers u.registers ∧ u.Answered) ?_
    ⟨.refl _,answered⟩
  rintro u event v ⟨kept,answered⟩ step
  exact ⟨kept.trans step.kept,step.answered answered⟩

end

/-- A guest that runs on the registers of `caller`. -/
def callerWard : Ward Side where
  thread := { freshOnMachine with machine := caller 0,control := .guest }
  cr0 := cr0State
  dr _ := 0
  tr := 0x40
  gs := 0
  due := []
  refused := 0
  shutdowns := 0

/-- A write to LSTAR, after one to FS_BASE. -/
theorem run_hostsKept_lstar : ∃ u : Ward Side, u.due = [debugCall 9 0xc0000082,shutdownCall] ∧
    HostsKept callerWard.registers u.registers ∧ u.Answered := by
  have run : Run (WardStep sides id block .host 0x9000) callerWard
      [.op (.writeMsr msrFsBase 0x1000 0),.op (.writeMsr msrLstar 0x1000 0)] _ :=
    .cons (.op _ rfl) (.single (.op _ rfl))
  exact ⟨_,by decide,run_hostsKept rfl run⟩

end Cki.Start
