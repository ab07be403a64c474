import Cki.SwitchRules
import Cki.Tlb

/-! What the switch does to the processor's translation cache: the slow type empties it, the
fast one leaves it alone. -/
namespace Cki.Switch

open Asm

universe u v

variable {Space : Type u} [DecidableEq Space] {Owner : Type v}

/-- CR4.PGE is toggled and set back. -/
theorem writeCr3Slow_empties (cpu : Cpu Space) (reg1 : Gpr) {reg2 reg3 : Gpr} (apart : reg2 ≠ reg3)
    (m : Machine Space) (cache : Cache Owner) :
    cacheRun cpu (writeCr3Slow reg1 reg2 reg3) m cache = ∅ := by
  have pge : x86Cr4Pge &&& cr4Pge ≠ 0#64 := by decide
  have back : m.cr4 ^^^ x86Cr4Pge ^^^ m.cr4 = x86Cr4Pge := by
    rw [BitVec.xor_comm,← BitVec.xor_assoc,BitVec.xor_self,BitVec.zero_xor]
  simp [writeCr3Slow,cacheRun,cacheAfter,apart,back,pge]

theorem writeCr3Fast_keeps (cpu : Cpu Space) {reg1 reg2 : Gpr} (apart : reg1 ≠ reg2) (reg3 : Gpr)
    (m : Machine Space) (cache : Cache Owner) :
    cacheRun cpu (writeCr3Fast reg1 reg2 reg3) m cache = cache := by
  simp [writeCr3Fast,cacheRun,cacheAfter,apart]

theorem pkRkret_caches (cpu : Cpu Space) (type : Variant) (back : Word) (m : Machine Space)
    (cache : Cache Owner) : cacheRun cpu (pkRkret type back) m cache = type.pick ∅ cache := by
  cases type with
  | slow =>
    rw [pkRkret,cacheRun_append,cacheRun_append,writeCr3,writeCr3Slow_empties cpu _ (by decide)]
    exact cacheRun_empty ..
  | fast =>
    rw [pkRkret,cacheRun_append,cacheRun_append,writeCr3,writeCr3Fast_keeps cpu (by decide)]
    refine (cacheRun_keeps cpu (by simp [KeepsCache]) _ _).trans (cacheRun_keeps cpu ?_ m cache)
    simp [saveCtx,saveCtxFast,rstorCtx,rstorCtxFast,KeepsCache]

/-- The entry of an rkcall behind its load of CR3. -/
def rkcallSaves (type : Variant) (back : Word) : List Instr :=
  saveCtx type .rsi .r11 ++ rkcallNotes back ++ rstorCtx type .rcx .r11 ++
    [.load pkCtxRip .rcx .rcx,.jmp .rcx]

theorem rkcallStart_keepsCache : ∀ i ∈ rkcallStart, KeepsCache i := by
  simp [rkcallStart,KeepsCache]

theorem pkRkcall_caches (cpu : Cpu Space) (type : Variant) (back : Word) (m : Machine Space)
    (cache : Cache Owner) : cacheRun cpu (pkRkcall type back) m cache = type.pick ∅ cache := by
  have parts : pkRkcall type back =
      rkcallStart ++ writeCr3 type .rdi .r10 .r11 ++ rkcallSaves type back := by
    simp [pkRkcall,rkcallStart,rkcallSaves,rkcallNotes]
  rw [parts,cacheRun_append,cacheRun_append,cacheRun_keeps cpu rkcallStart_keepsCache]
  cases type with
  | slow =>
    rw [writeCr3,writeCr3Slow_empties cpu _ (by decide)]
    exact cacheRun_empty ..
  | fast =>
    rw [writeCr3,writeCr3Fast_keeps cpu (by decide)]
    refine cacheRun_keeps cpu ?_ _ cache
    simp [rkcallSaves,rkcallNotes,saveCtx,saveCtxFast,rstorCtx,rstorCtxFast,KeepsCache]

end Cki.Switch
