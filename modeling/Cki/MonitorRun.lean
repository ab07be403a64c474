import Cki.MonitorRules
import Cki.Run

/-! Runs of the monitor's entry calls. A step is a call that returns: one that
stops at an assertion or faults on a null pointer ends the run. -/
namespace Cki.Monitor

inductive Op where
  | set (kind : SetKind) (ptr : Ptr) (value : Word)
  | alloc (kind : AllocKind) (pfn : Word)
  | release (kind : AllocKind) (pfn : Word)
  | writeCr3 (value : Word)
  deriving DecidableEq, Repr

def Op.call (layout : Layout) : Op → Ksm Unit
  | .set kind ptr value => pkmSet layout kind ptr value
  | .alloc kind pfn => pkmAlloc layout kind pfn
  | .release kind pfn => pkmRelease layout kind pfn
  | .writeCr3 value => pkmWriteCr3 value

def CallStep (layout : Layout) (s : State) (op : Op) (t : State) : Prop :=
  op.call layout s = .ret () t

/-- The frame a page frame number names. -/
def pfnFrame (pfn : Word) : Frame := frameOf (pfn <<< 12)

/-- What a returning call did. -/
def Effect (layout : Layout) (s : State) (op : Op) (t : State) : Prop :=
  match op with
  | .set _ ptr value => Accepted layout s ptr value ∧ t = s.store ptr value
  | .alloc kind pfn => ∃ desc, descOf (pfnFrame pfn) = some desc ∧
      (s.typeOf (pfnFrame pfn) = some .unused ∨ s.typeOf (pfnFrame pfn) = some kind.level) ∧
      t = s.setType desc kind.level
  | .release _ pfn => ∃ desc, descOf (pfnFrame pfn) = some desc ∧ t = s.setType desc .unused
  | .writeCr3 value => s.typeOf (frameOf value) = some .l4 ∧ t = { s with cr3 := dropNoFlush value }

theorem callStep_effect {layout : Layout} {s t : State} {op : Op}
    (initialized : s.mmuIsInitialized ≠ 0) (step : CallStep layout s op t) :
    Effect layout s op t := by
  cases op with
  | set kind ptr value =>
    rw [CallStep,Op.call,pkmSet_eq] at step
    exact updateMapping_ret initialized step
  | alloc kind pfn =>
    rw [CallStep,Op.call,pkmAlloc_eq] at step
    obtain ⟨desc,found,old,result⟩ := svaDeclarePage_ret step
    have type : s.typeOf (pfnFrame pfn) = some (s.pageDesc desc) := by
      simp [State.typeOf,pfnFrame,found]
    refine ⟨desc,found,?_,result⟩
    rw [type]
    exact old.imp (congrArg some) (congrArg some)
  | release kind pfn =>
    rw [CallStep,Op.call,pkmRelease_eq] at step
    exact svaRemovePage_ret step
  | writeCr3 value => exact svaMmLoadPgtable_ret initialized step

/-- The converse for the calls whose return value no walk decides. -/
theorem set_step (layout : Layout) {s : State} (initialized : s.mmuIsInitialized ≠ 0)
    (kind : SetKind) {ptr : Ptr} {value : Word} (accepted : Accepted layout s ptr value) :
    CallStep layout s (.set kind ptr value) (s.store ptr value) := by
  rw [CallStep,Op.call,pkmSet_eq]
  exact (updateMapping_spec layout initialized ptr value).1 accepted

theorem alloc_step (layout : Layout) {s : State} (kind : AllocKind) (pfn : Word)
    {desc : Fin pageDescLength} (found : descOf (pfnFrame pfn) = some desc)
    (old : s.pageDesc desc = .unused ∨ s.pageDesc desc = kind.level) :
    CallStep layout s (.alloc kind pfn) (s.setType desc kind.level) := by
  rw [CallStep,Op.call,pkmAlloc_eq]
  rw [pfnFrame] at found
  have passes : ¬ (s.pageDesc desc ≠ .unused ∧ s.pageDesc desc ≠ kind.level) := fun refused =>
    old.elim refused.1 refused.2
  simp only [svaDeclarePage,getPageDescPtr_eq,found,Call.bind_apply,Call.read_apply,
    Call.stopIf_apply,if_neg passes,Call.modify_apply,initDeclaredPage_apply]

end Cki.Monitor
