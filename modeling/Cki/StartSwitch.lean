import Cki.Start

/-! START over the switch. The vCPU that START works on is what lies in the host's memory
at the context, and the two templates change it there as the model's steps do. -/
namespace Cki.Start

open Asm Switch

universe u

def regsAt (mem : Word → Word) (base : Word) : PkCtxRegs where
  rcx := mem (base + pkCtxRcx)
  rdx := mem (base + pkCtxRdx)
  rsi := mem (base + pkCtxRsi)
  r8 := mem (base + pkCtxR8)
  r9 := mem (base + pkCtxR9)
  cr3 := mem (base + pkCtxCr3)
  cr4 := mem (base + pkCtxCr4)
  idtr := idtrWords mem base

/-- Of the host's half START reads the images only. -/
structure View (mem : Word → Word) (ctx : Word) (vcpu : Vcpu) : Prop where
  pmode : regsAt mem ctx = vcpu.pmode
  idtr : idtrWords mem (ctx + pkCtxSize) = vcpu.rmode.idtr
  cr4 : mem (ctx + pkCtxSize + pkCtxCr4) = vcpu.rmode.cr4

variable {Space : Type u}

def tablesOf (m : Machine Space) : Tables := ⟨m.idtr,m.cr4⟩

def callOf (m : Machine Space) : Call := ⟨m.gpr .rdx,m.gpr .rcx,m.gpr .r8,m.gpr .r9⟩

theorem tablesOf_eq {m : Machine Space} {extra : Extra} (same : extraOf m = extra) :
    tablesOf m = ⟨extra.idtr,extra.cr4⟩ := by
  rw [← same]
  rfl

theorem half_apart (ctx : Word) {disp : Word} (small : disp < 248) :
    ¬ Half ctx (ctx + pkCtxSize + disp) :=
  not_half_of_apart (fun _ high low => half_disjoint low high) small

theorem half_apart' (ctx : Word) {disp : Word} (small : disp < 248) :
    ¬ Half (ctx + pkCtxSize) (ctx + disp) :=
  not_half_of_apart (fun _ => half_disjoint) small

/-- The host's half is the same in both memories. -/
theorem View.rmode {f g : Word → Word} {ctx : Word} {v w : Vcpu} (view : View f ctx v)
    (same : ∀ disp, disp < 248 → g (ctx + pkCtxSize + disp) = f (ctx + pkCtxSize + disp))
    (pmode : regsAt g ctx = w.pmode) (rmode : w.rmode = v.rmode) : View g ctx w where
  pmode := pmode
  idtr := by
    rw [rmode,← view.idtr]
    exact idtrWords_congr fun disp word => same disp (extraWords_small disp word)
  cr4 := by
    rw [rmode,← view.cr4]
    exact same pkCtxCr4 (by decide)

/-- An rkcall's entry is the model's. -/
theorem enter_view {cpu : Cpu Space} {type : Variant} {back : Word} {m t : Machine Space} {v : Vcpu}
    (spaces : m.here cpu ≠ hostOf cpu m) (entered : Entered cpu type back m t)
    (view : View (m.mem (hostOf cpu m)) (m.gpr .rsi) v) :
    View (t.mem (hostOf cpu m)) (m.gpr .rsi) (v.enter type (callOf m) m.cr3 (tablesOf m)) := by
  refine view.rmode (fun disp small => ?_) ?_ rfl
  · exact entered.frame _ _ (fun _ => half_apart _ small) fun same => absurd same.symm spaces
  · have cr4 := congrArg Extra.cr4 entered.savedExtra
    have idtr := entered.savedIdtr
    simp only [Vcpu.enter,← view.pmode]
    cases type with
    | slow =>
      exact PkCtxRegs.ext entered.rcx entered.rdx entered.rsi entered.r8 entered.r9
        entered.savedCr3 cr4 idtr
    | fast =>
      exact PkCtxRegs.ext entered.rcx entered.rdx entered.rsi entered.r8 entered.r9
        entered.savedCr3 cr4 idtr

/-- `pk_rkret` leaves the images of the host's registers as the model does. -/
theorem resume_view {cpu : Cpu Space} {type : Variant} {hostBack ctx : Word} {m t : Machine Space}
    {v : Vcpu} (resumed : Resumed cpu type hostBack m t) (rdi : m.gpr .rdi = ctx)
    (same : v.pkRkret = type) (view : View (m.mem (m.here cpu)) ctx v) :
    View (t.mem (m.here cpu)) ctx { v with rmode := v.rmode.save v.pkRkret (tablesOf m) } := by
  subst rdi
  subst same
  have cr4 := congrArg Extra.cr4 resumed.savedExtra
  have idtr := resumed.savedIdtr
  have pmode : ∀ disp, disp < 248 →
      t.mem (m.here cpu) (m.gpr .rdi + disp) = m.mem (m.here cpu) (m.gpr .rdi + disp) :=
    fun disp small => resumed.frame _ _ fun _ => half_apart' _ small
  have words := idtrWords_congr fun disp word => pmode disp (extraWords_small disp word)
  refine ⟨?_,?_,?_⟩
  · rw [← view.pmode]
    exact PkCtxRegs.ext (pmode _ (by decide)) (pmode _ (by decide)) (pmode _ (by decide))
      (pmode _ (by decide)) (pmode _ (by decide)) (pmode _ (by decide)) (pmode _ (by decide)) words
  · rw [idtr,view.idtr]
    cases type : v.pkRkret with
    | slow =>
      have upper := congrArg Prod.snd view.idtr
      simp only [idtrWords] at upper
      simp only [PkCtxRegs.save,pick_slow,tablesOf,upper]
    | fast => rfl
  · apply cr4.trans
    cases type : v.pkRkret with
    | slow => rfl
    | fast => exact view.cr4

/-- The loop's stores to the guest's half. -/
theorem answer_view [DecidableEq Space] {mem : Space → Word → Word} {space : Space} {ctx : Word}
    {v : Vcpu} (view : View (mem space) ctx v) (rsi rdx root : Word) :
    View (servedWords mem space ctx rsi rdx root space) ctx
      { v with pmode := { v.pmode with rsi := rsi, rdx := rdx, cr3 := root } } := by
  have kept : ∀ disp, disp ∉ [pkCtxRsi,pkCtxRdx,pkCtxCr3] →
      servedWords mem space ctx rsi rdx root space (ctx + disp) = mem space (ctx + disp) := by
    intro disp other
    simp only [List.mem_cons,List.not_mem_nil,or_false,not_or] at other
    rw [servedWords,setWord_disp other.2.2,setWord_disp other.2.1,setWord_disp other.1]
  have rsiWord : servedWords mem space ctx rsi rdx root space (ctx + pkCtxRsi) = rsi := by
    rw [servedWords,setWord_disp (by decide),setWord_disp (by decide),setWord_here]
  have rdxWord : servedWords mem space ctx rsi rdx root space (ctx + pkCtxRdx) = rdx := by
    rw [servedWords,setWord_disp (by decide),setWord_here]
  have words := congrArg PkCtxRegs.idtr view.pmode
  refine view.rmode (fun disp small => ?_) ?_ rfl
  · rw [BitVec.add_assoc]
    apply kept _
    simp only [List.mem_cons,List.not_mem_nil,or_false,not_or,pkCtxSize,pkCtxRsi,pkCtxRdx,pkCtxCr3]
    bv_omega
  · rw [← view.pmode]
    exact PkCtxRegs.ext (kept _ (by decide)) rdxWord rsiWord (kept _ (by decide))
      (kept _ (by decide)) setWord_here (kept _ (by decide))
      (idtrWords_congr fun disp word => kept disp (extraWords_kept disp word))

end Cki.Start
