import Cki.Run
import Cki.SwitchHost
import Cki.StartSwitch

/-! CR4 and IDTR once the host resumes fast. The check of INIT_LATE is made once; after it
the guest's own register writes go straight to the machine, and a fast call brings what
they left into the host. -/
namespace Cki.Start

open Asm Switch

universe u

variable {Space : Type u}

/-- `native_write_cr4` is the kernel's: CR4 ends up as its function of the value. -/
def pkmWriteCr4 (nativeWriteCr4 : Word → Word) (val : Word) (m : Machine Space) : Machine Space :=
  { m with cr4 := nativeWriteCr4 val }

def pkmLoadIdt (dtr : BitVec 80) (m : Machine Space) : Machine Space := { m with idtr := dtr }

/-- What happens on the vCPU: the guest's two register writes, its other code, an rkcall,
and the host's code up to the next `pk_rkret_fast`. -/
inductive Act where
  | writeCr4 (val : Word)
  | loadIdt (dtr : BitVec 80)
  | code
  | rkcall (type : Variant)
  | resume
  deriving DecidableEq, Repr

/-- Who has the processor. -/
inductive Party (Space : Type u) where
  | guest (m : Machine Space)
  | host (m : Machine Space)

def Party.machine : Party Space → Machine Space
  | .guest m | .host m => m

variable [DecidableEq Space]

/-- A slow call, made before `pk_init_late` goes on, finds the image that the host's last
slow switch saved. -/
inductive Acts (cpu : Cpu Space) (nativeWriteCr4 : Word → Word) (back hostBack : Word)
    (own : Tables) : Party Space → Act → Party Space → Prop where
  | writeCr4 (m : Machine Space) (val : Word) : Acts cpu nativeWriteCr4 back hostBack own
      (.guest m) (.writeCr4 val) (.guest (pkmWriteCr4 nativeWriteCr4 val m))
  | loadIdt (m : Machine Space) (dtr : BitVec 80) : Acts cpu nativeWriteCr4 back hostBack own
      (.guest m) (.loadIdt dtr) (.guest (pkmLoadIdt dtr m))
  | code {m t : Machine Space} : tablesOf t = tablesOf m →
      Acts cpu nativeWriteCr4 back hostBack own (.guest m) .code (.guest t)
  | rkcall (type : Variant) {m : Machine Space} : m.here cpu ≠ hostOf cpu m →
      (type = .slow → (hostExtra cpu m).idtr = own.idtr ∧ (hostExtra cpu m).cr4 = own.cr4) →
      Acts cpu nativeWriteCr4 back hostBack own (.guest m) (.rkcall type)
        (.host (run cpu (pkRkcall type back) m))
  | resume {m t : Machine Space} : tablesOf t = tablesOf m →
      Acts cpu nativeWriteCr4 back hostBack own (.host m) .resume
        (.guest (run cpu (pkRkret .fast hostBack) t))

/-- What an act makes of the two registers. -/
def Act.effect (nativeWriteCr4 : Word → Word) (own tables : Tables) : Act → Tables
  | .writeCr4 val => { tables with cr4 := nativeWriteCr4 val }
  | .loadIdt dtr => { tables with idtr := dtr }
  | .rkcall .slow => own
  | _ => tables

theorem acts_tables {cpu : Cpu Space} {nativeWriteCr4 : Word → Word} {back hostBack : Word}
    {own : Tables} {s t : Party Space} {act : Act}
    (acts : Acts cpu nativeWriteCr4 back hostBack own s act t) :
    tablesOf t.machine = act.effect nativeWriteCr4 own (tablesOf s.machine) := by
  cases acts with
  | writeCr4 m val => rfl
  | loadIdt m dtr => rfl
  | code same => exact same
  | @rkcall type m spaces image =>
    have extra := (pkRkcall_spec cpu type back m spaces).extra
    generalize run cpu (pkRkcall type back) m = t at *
    have inForce := tablesOf_eq extra
    cases type with
    | slow =>
      obtain ⟨idtr,cr4⟩ := image rfl
      simp only [hostExtra] at idtr cr4
      rw [pick_slow,idtr,cr4] at inForce
      exact inForce
    | fast => exact inForce
  | @resume m t same =>
    have extra := (pkRkret_spec cpu .fast hostBack t).extra
    generalize run cpu (pkRkret .fast hostBack) t = u at *
    exact (tablesOf_eq extra).trans same

/-- The registers after a run are its acts' effects in order. -/
theorem run_tables {cpu : Cpu Space} {nativeWriteCr4 : Word → Word} {back hostBack : Word}
    {own : Tables} {s t : Party Space} {acts : List Act}
    (run : Run (Acts cpu nativeWriteCr4 back hostBack own) s acts t) :
    tablesOf t.machine = acts.foldl (Act.effect nativeWriteCr4 own) (tablesOf s.machine) := by
  induction run with
  | nil s => rfl
  | cons head _ ih => rw [ih,acts_tables head,List.foldl_cons]

/-- After INIT_LATE the host always gets its own CR4 and IDTR back exactly when at every
rkcall the guest's writes so far, slow calls aside, have restored both. -/
theorem fast_registers_iff {cpu : Cpu Space} {nativeWriteCr4 : Word → Word} {back hostBack : Word}
    {h : Machine Space} {t : Party Space} {acts : List Act}
    (run : Run (Acts cpu nativeWriteCr4 back hostBack (tablesOf h)) (.host h) acts t) :
    (∀ before type after u, acts = before ++ .rkcall type :: after →
      Run (Acts cpu nativeWriteCr4 back hostBack (tablesOf h)) (.host h)
        (before ++ [.rkcall type]) u →
      Run (Acts cpu nativeWriteCr4 back hostBack (tablesOf h)) u after t →
      tablesOf u.machine = tablesOf h) ↔
    ∀ before after, acts = before ++ .rkcall .fast :: after →
      before.foldl (Act.effect nativeWriteCr4 (tablesOf h)) (tablesOf h) = tablesOf h := by
  constructor
  · intro kept before after split
    have whole := run
    rw [split,List.append_cons] at whole
    obtain ⟨u,first,second⟩ := whole.split
    have own := kept before .fast after u split first second
    rw [run_tables first,List.foldl_append] at own
    exact own
  · intro restored before type after u split first _
    rw [run_tables first,List.foldl_append]
    cases type with
    | slow => rfl
    | fast => exact restored before after split

/-- A fast resume into a guest that goes on as `caller 0`. -/
theorem launcher_resumes : Run (Acts sides id 0x100 0x200 (tablesOf (launcher 0x1000)))
    (.host (launcher 0x1000)) [.resume,.code] (.guest (caller 0)) := by
  have resume : Acts sides id 0x100 0x200 (tablesOf (launcher 0x1000)) (.host (launcher 0x1000))
    .resume (.guest (run sides (pkRkret .fast 0x200) (launcher 0x1000))) := .resume rfl
  have resumed := acts_tables resume
  generalize run sides (pkRkret .fast 0x200) (launcher 0x1000) = m at *
  have same : tablesOf (caller 0) = tablesOf m := resumed.symm
  exact .cons resume (.cons (.code same) (.nil _))

theorem fast_registers_launcher : ∃ t : Party Side,
    ∀ before type after u, [.resume,.code,.rkcall .fast] = before ++ .rkcall type :: after →
      Run (Acts sides id 0x100 0x200 (tablesOf (launcher 0x1000))) (.host (launcher 0x1000))
        (before ++ [.rkcall type]) u →
      Run (Acts sides id 0x100 0x200 (tablesOf (launcher 0x1000))) u after t →
      tablesOf u.machine = tablesOf (launcher 0x1000) := by
  have call : Acts sides id 0x100 0x200 (tablesOf (launcher 0x1000)) (.guest (caller 0))
      (.rkcall .fast) (.host (run sides (pkRkcall .fast 0x100) (caller 0))) :=
    .rkcall .fast (caller_spaces 0) nofun
  refine ⟨_,(fast_registers_iff (launcher_resumes.append (.single call))).mpr ?_⟩
  intro before after split
  rcases before with _ | ⟨first,_ | ⟨second,_ | ⟨third,rest⟩⟩⟩ <;> simp at split
  obtain ⟨rfl,rfl,_⟩ := split
  rfl

/-- An IDT that the guest loads is the host's at the next call. -/
theorem host_on_guest_idt : ¬ ∀ (acts : List Act) (u : Party Side),
    Run (Acts sides id 0x100 0x200 (tablesOf (launcher 0x1000))) (.host (launcher 0x1000))
      (acts ++ [.rkcall .fast]) u → tablesOf u.machine = tablesOf (launcher 0x1000) := by
  intro claim
  have call : Acts sides id 0x100 0x200 (tablesOf (launcher 0x1000))
      (.guest (pkmLoadIdt 1 (caller 0))) (.rkcall .fast)
      (.host (run sides (pkRkcall .fast 0x100) (pkmLoadIdt 1 (caller 0)))) :=
    .rkcall .fast (caller_spaces 0) nofun
  have run := launcher_resumes.append (.cons (.loadIdt (caller 0) 1) (.single call))
  have own := claim [.resume,.code,.loadIdt 1] _ run
  have tables := acts_tables call
  rw [own] at tables
  exact absurd tables (by decide)

end Cki.Start
