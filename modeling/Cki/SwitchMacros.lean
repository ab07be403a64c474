import Cki.SwitchCode

/-! What the macros of the switch do, one specification for each: which registers
they move between the machine and a half of the context, and what they leave
alone. -/
namespace Cki.Switch

open Asm

universe u

/-- The registers that both types of switch save and restore. -/
@[ext] structure Context where
  rbx : Word
  rbp : Word
  r12 : Word
  r13 : Word
  r14 : Word
  r15 : Word
  rsp : Word
  fs : Word
  gs : Word
  gdtr : BitVec 80
  deriving DecidableEq, Repr

/-- The registers that only the slow type saves and restores. -/
@[ext] structure Extra where
  kgs : Word
  idtr : BitVec 80
  cr4 : Word
  deriving DecidableEq, Repr

variable {Space : Type u}

def contextOf (m : Machine Space) : Context :=
  ⟨m.gpr .rbx,m.gpr .rbp,m.gpr .r12,m.gpr .r13,m.gpr .r14,m.gpr .r15,m.gpr .rsp,
    m.msr msrFsBase,m.msr msrGsBase,m.gdtr⟩

def extraOf (m : Machine Space) : Extra := ⟨m.msr msrKernelGsBase,m.idtr,m.cr4⟩

/-- The same registers as they lie in the half of a context at `base`. -/
def contextAt (mem : Word → Word) (base : Word) : Context :=
  ⟨mem (base + pkCtxRbx),mem (base + pkCtxRbp),mem (base + pkCtxR12),mem (base + pkCtxR13),
    mem (base + pkCtxR14),mem (base + pkCtxR15),mem (base + pkCtxRsp),mem (base + pkCtxFs),
    mem (base + pkCtxGs),tableOf (mem (base + pkCtxGdtr)) (mem (base + pkCtxGdtr + 8))⟩

def extraAt (mem : Word → Word) (base : Word) : Extra :=
  ⟨mem (base + pkCtxKgs),tableOf (mem (base + pkCtxIdtr)) (mem (base + pkCtxIdtr + 8)),
    mem (base + pkCtxCr4)⟩

/-- The slow type's value or the fast one's. -/
def Variant.pick {α : Type u} (type : Variant) (slow fast : α) : α :=
  match type with
  | .slow => slow
  | .fast => fast

@[simp] theorem pick_slow {α : Type u} (slow fast : α) : Variant.slow.pick slow fast = slow := rfl
@[simp] theorem pick_fast {α : Type u} (slow fast : α) : Variant.fast.pick slow fast = fast := rfl

/-- The address lies in the half of a context that starts at `base`. -/
def Half (base addr : Word) : Prop := addr - base < pkCtxSize

theorem half_add (base disp : Word) : Half base (base + disp) ↔ disp < 480 := by
  rw [Half,BitVec.add_comm,BitVec.add_sub_cancel]
  exact Iff.rfl

theorem ne_of_not_half {base addr : Word} (outside : ¬ Half base addr) (disp : Word)
    (small : disp < 480) : (addr = base + disp) = False := by
  apply eq_false
  rintro rfl
  exact outside ((half_add base disp).mpr small)

theorem ne_base_of_not_half {base addr : Word} (outside : ¬ Half base addr) :
    (addr = base) = False := by
  have apart := ne_of_not_half outside 0#64 (by decide)
  rwa [BitVec.add_zero] at apart

variable [DecidableEq Space] (cpu : Cpu Space) (m : Machine Space)

/-- The flags after a piece of code, where nothing depends on them. -/
def flagsAfter (code : List Instr) : Word := (run cpu code m).rflags

/-- The three words the MSR macros push. -/
def spill : Space → Word → Word :=
  let rsp := m.gpr .rsp
  setWord (setWord (setWord m.mem (m.here cpu) (rsp - 8) (m.gpr .rcx))
    (m.here cpu) (rsp - 16) (m.gpr .rax)) (m.here cpu) (rsp - 24) (m.gpr .rdx)

theorem readMsr_run (addr : BitVec 32) : run cpu (readMsr .r11 addr) m =
    { m with
      gpr := setReg m.gpr .r11 (m.msr addr)
      rflags := flagsAfter cpu m (readMsr .r11 addr)
      mem := spill cpu m } := by
  rw [flagsAfter]
  simp -implicitDefEqProofs [readMsr,spill,BitVec.sub_eq_add_neg,BitVec.add_assoc,halves_read]
  funext r
  cases r <;> simp -implicitDefEqProofs

theorem writeMsr_run (addr : BitVec 32) : run cpu (writeMsr .r11 addr) m =
    { m with
      msr := setMsr m.msr addr (m.gpr .r11)
      rflags := flagsAfter cpu m (writeMsr .r11 addr)
      mem := spill cpu m } := by
  rw [flagsAfter]
  simp -implicitDefEqProofs [writeMsr,spill,BitVec.sub_eq_add_neg,BitVec.add_assoc,halves_write]
  funext r
  cases r <;> simp -implicitDefEqProofs

/-! The context macros. -/

/-- The words of a half that hold no register the macros save. -/
def noteWords : List Word := [pkCtxRdx,pkCtxRcx,pkCtxR8,pkCtxR9,pkCtxCr3,pkCtxRip]

/-- The two words of the IDTR's image. -/
def idtrWords (mem : Word → Word) (base : Word) : Word × Word :=
  (mem (base + pkCtxIdtr),mem (base + pkCtxIdtr + 8))

structure Saved (type : Variant) (base : Word) (m t : Machine Space) : Prop where
  stack : type = .slow → t.gpr .rsp = base + pkCtxSize
  cr3 : t.cr3 = m.cr3
  kept : extraOf t = extraOf m
  context : contextAt (t.mem (m.here cpu)) base = contextOf m
  extra : extraAt (t.mem (m.here cpu)) base =
    type.pick (extraOf m) (extraAt (m.mem (m.here cpu)) base)
  idtr : idtrWords (t.mem (m.here cpu)) base =
    type.pick (tableWords m.idtr (m.mem (m.here cpu) (base + pkCtxIdtr + 8)))
      (idtrWords (m.mem (m.here cpu)) base)
  notes : ∀ disp ∈ pkCtxRsi :: noteWords,
    t.mem (m.here cpu) (base + disp) = m.mem (m.here cpu) (base + disp)
  frame : ∀ s a, (s = m.here cpu → ¬ Half base a) → t.mem s a = m.mem s a

theorem saveCtxFast_spec {base : Gpr} (notR11 : base ≠ .r11) :
    Saved cpu .fast (m.gpr base) m (run cpu (saveCtxFast base .r11) m) where
  stack := nofun
  cr3 := by simp -implicitDefEqProofs [saveCtxFast]
  kept := by simp -implicitDefEqProofs [saveCtxFast,extraOf]
  context := by
    simp -implicitDefEqProofs [saveCtxFast,contextAt,contextOf,BitVec.add_assoc,notR11,
      tableOf_tableWords]
  extra := by simp -implicitDefEqProofs [saveCtxFast,extraAt,BitVec.add_assoc,notR11]
  idtr := by simp -implicitDefEqProofs [saveCtxFast,idtrWords,BitVec.add_assoc,notR11]
  notes := by
    simp -implicitDefEqProofs [saveCtxFast,noteWords,BitVec.add_assoc,notR11]
  frame := by
    intro s a outside
    rw [Machine.here] at outside
    by_cases same : s = cpu.space (frameOf m.cr3)
    · have apart := outside same
      simp -implicitDefEqProofs [saveCtxFast,BitVec.add_assoc,notR11,ne_of_not_half apart,
        ne_base_of_not_half apart]
    · simp -implicitDefEqProofs [saveCtxFast,notR11,same]

theorem saveCtxSlow_spec {base : Gpr} (notRsp : base ≠ .rsp) (notR11 : base ≠ .r11) :
    Saved cpu .slow (m.gpr base) m (run cpu (saveCtxSlow base .r11) m) where
  stack := by
    simp -implicitDefEqProofs [saveCtxSlow,run_append,readMsr_run]
  cr3 := by
    simp -implicitDefEqProofs [saveCtxSlow,run_append,readMsr_run]
  kept := by
    simp -implicitDefEqProofs [saveCtxSlow,run_append,readMsr_run,extraOf]
  context := by
    simp -implicitDefEqProofs [saveCtxSlow,run_append,readMsr_run,contextAt,contextOf,spill,
      BitVec.sub_eq_add_neg,BitVec.add_assoc,notR11,notRsp,tableOf_tableWords]
  extra := by
    simp -implicitDefEqProofs [saveCtxSlow,run_append,readMsr_run,extraAt,extraOf,spill,
      BitVec.sub_eq_add_neg,BitVec.add_assoc,notR11,notRsp,tableOf_tableWords]
  idtr := by
    simp -implicitDefEqProofs [saveCtxSlow,run_append,readMsr_run,idtrWords,tableWords,spill,
      BitVec.sub_eq_add_neg,BitVec.add_assoc,notR11,notRsp]
  notes := by
    simp -implicitDefEqProofs [saveCtxSlow,run_append,readMsr_run,noteWords,spill,
      BitVec.sub_eq_add_neg,BitVec.add_assoc,notR11,notRsp]
  frame := by
    intro s a outside
    rw [Machine.here] at outside
    by_cases same : s = cpu.space (frameOf m.cr3)
    · have apart := outside same
      simp -implicitDefEqProofs [saveCtxSlow,run_append,readMsr_run,spill,BitVec.sub_eq_add_neg,
        BitVec.add_assoc,notR11,notRsp,ne_of_not_half apart,ne_base_of_not_half apart]
    · simp -implicitDefEqProofs [saveCtxSlow,run_append,readMsr_run,spill,notR11,notRsp,same]

/-- The words below the stack pointer that the MSR macros push. -/
def Spilled (rsp addr : Word) : Prop := addr = rsp - 8#64 ∨ addr = rsp - 16#64 ∨ addr = rsp - 24#64

structure Restored (type : Variant) (base : Word) (m t : Machine Space) : Prop where
  gpr : ∀ r, r ∉ [.rbx,.rbp,.r12,.r13,.r14,.r15,.rsp,.r11] → t.gpr r = m.gpr r
  cr3 : t.cr3 = m.cr3
  context : contextOf t = contextAt (m.mem (m.here cpu)) base
  extra : extraOf t =
    type.pick (extraAt (m.mem (m.here cpu)) base) (extraOf m)
  frame : ∀ s a, (type = .slow → s = m.here cpu → ¬ Spilled (m.gpr .rsp) a) →
    t.mem s a = m.mem s a

theorem rstorCtxFast_spec {base : Gpr}
    (free : base ∉ [.rbx,.rbp,.r12,.r13,.r14,.r15,.rsp,.r11]) :
    Restored cpu .fast (m.gpr base) m (run cpu (rstorCtxFast base .r11) m) := by
  simp only [List.mem_cons,List.not_mem_nil,or_false,not_or] at free
  exact {
    gpr := by
      intro r other
      simp only [List.mem_cons,List.not_mem_nil,or_false,not_or] at other
      simp -implicitDefEqProofs [rstorCtxFast,other]
    cr3 := by simp -implicitDefEqProofs [rstorCtxFast]
    context := by
      simp -implicitDefEqProofs [rstorCtxFast,contextAt,contextOf,setMsr,msrFsBase,msrGsBase,free]
    extra := by
      simp -implicitDefEqProofs [rstorCtxFast,extraOf,setMsr,msrFsBase,msrGsBase,msrKernelGsBase,free]
    frame := by
      intro s a _
      simp -implicitDefEqProofs [rstorCtxFast] }

theorem rstorCtxSlow_spec {base : Gpr}
    (free : base ∉ [.rbx,.rbp,.r12,.r13,.r14,.r15,.rsp,.r11])
    (clear : ∀ a, Half (m.gpr base) a → ¬ Spilled (m.gpr .rsp) a) :
    Restored cpu .slow (m.gpr base) m (run cpu (rstorCtxSlow base .r11) m) := by
  simp only [List.mem_cons,List.not_mem_nil,or_false,not_or] at free
  have apart : ∀ disp : Word, disp < 480#64 → ¬ Spilled (m.gpr .rsp) (m.gpr base + disp) :=
    fun disp small => clear _ ((half_add _ _).mpr small)
  simp only [Spilled,not_or] at apart
  exact {
    gpr := by
      intro r other
      simp only [List.mem_cons,List.not_mem_nil,or_false,not_or] at other
      simp -implicitDefEqProofs [rstorCtxSlow,run_append,writeMsr_run,other]
    cr3 := by simp -implicitDefEqProofs [rstorCtxSlow,run_append,writeMsr_run]
    context := by
      simp -implicitDefEqProofs [rstorCtxSlow,run_append,writeMsr_run,spill,contextAt,contextOf,
        setMsr,msrFsBase,msrGsBase,msrKernelGsBase,free,apart]
    extra := by
      simp -implicitDefEqProofs [rstorCtxSlow,run_append,writeMsr_run,spill,extraOf,extraAt,
        setMsr,msrFsBase,msrGsBase,msrKernelGsBase,free,apart]
    frame := by
      intro s a outside
      by_cases same : s = cpu.space (frameOf m.cr3)
      · have apart := outside rfl same
        simp only [Spilled,not_or] at apart
        simp -implicitDefEqProofs [rstorCtxSlow,run_append,writeMsr_run,spill,apart,free]
      · simp -implicitDefEqProofs [rstorCtxSlow,run_append,writeMsr_run,spill,same,free] }

theorem saveCtx_gpr (type : Variant) (base : Gpr) {r : Gpr} (notRsp : r ≠ .rsp)
    (notR11 : r ≠ .r11) : (run cpu (saveCtx type base .r11) m).gpr r = m.gpr r := by
  cases type with
  | slow =>
    simp -implicitDefEqProofs [saveCtx,saveCtxSlow,run_append,readMsr_run,notR11,notRsp]
  | fast => simp -implicitDefEqProofs [saveCtx,saveCtxFast,notR11]

theorem saveCtx_spec (type : Variant) (base : Gpr) {own : Word} (value : m.gpr base = own)
    (notRsp : base ≠ .rsp) (notR11 : base ≠ .r11) :
    Saved cpu type own m (run cpu (saveCtx type base .r11) m) := by
  subst value
  cases type with
  | slow => exact saveCtxSlow_spec cpu m notRsp notR11
  | fast => exact saveCtxFast_spec cpu m notR11

theorem rstorCtx_spec (type : Variant) (base : Gpr) {other : Word} (value : m.gpr base = other)
    (free : base ∉ [.rbx,.rbp,.r12,.r13,.r14,.r15,.rsp,.r11])
    (clear : type = .slow → ∀ a, Half other a → ¬ Spilled (m.gpr .rsp) a) :
    Restored cpu type other m (run cpu (rstorCtx type base .r11) m) := by
  subst value
  cases type with
  | slow => exact rstorCtxSlow_spec cpu m free (clear rfl)
  | fast => exact rstorCtxFast_spec cpu m free

/-! Writing CR3. -/

/-- Both ways of writing CR3 load the same root; the rest is temporaries. -/
structure Rooted (root : Word) (regs : List Gpr) (m t : Machine Space) : Prop where
  gpr : ∀ r, r ∉ regs → t.gpr r = m.gpr r
  cr3 : t.cr3 = dropNoFlush root
  msr : t.msr = m.msr
  gdtr : t.gdtr = m.gdtr
  extra : extraOf t = extraOf m
  mem : t.mem = m.mem

theorem writeCr3_spec (type : Variant) (reg1 reg2 reg3 : Gpr) {root : Word}
    (value : m.gpr reg1 = root) (apart : reg1 ≠ reg2) (temps : reg2 ≠ reg3) :
    Rooted root [reg1,reg2,reg3] m (run cpu (writeCr3 type reg1 reg2 reg3) m) := by
  subst value
  cases type with
  | slow => exact {
      gpr := by
        intro r other
        simp only [List.mem_cons,List.not_mem_nil,or_false,not_or] at other
        simp -implicitDefEqProofs [writeCr3,writeCr3Slow,other]
      cr3 := by simp -implicitDefEqProofs [writeCr3,writeCr3Slow]
      msr := by simp -implicitDefEqProofs [writeCr3,writeCr3Slow]
      gdtr := by simp -implicitDefEqProofs [writeCr3,writeCr3Slow]
      extra := by simp -implicitDefEqProofs [writeCr3,writeCr3Slow,extraOf,temps]
      mem := by simp -implicitDefEqProofs [writeCr3,writeCr3Slow] }
  | fast => exact {
      gpr := by
        intro r other
        simp only [List.mem_cons,List.not_mem_nil,or_false,not_or] at other
        simp -implicitDefEqProofs [writeCr3,writeCr3Fast,other]
      cr3 := by
        rw [← dropNoFlush_or]
        simp -implicitDefEqProofs [writeCr3,writeCr3Fast,apart]
      msr := by simp -implicitDefEqProofs [writeCr3,writeCr3Fast]
      gdtr := by simp -implicitDefEqProofs [writeCr3,writeCr3Fast]
      extra := by simp -implicitDefEqProofs [writeCr3,writeCr3Fast,extraOf]
      mem := by simp -implicitDefEqProofs [writeCr3,writeCr3Fast] }

end Cki.Switch
