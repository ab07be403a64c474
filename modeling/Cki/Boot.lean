import Cki.CreateTables
import Cki.MonitorRoots
import Cki.StartMachine

/-! From CREATE to the guest. `create_cpus` and `init_ctxs` leave a context for every vCPU in the
host's memory. Each START enters the guest first with what `init_ctx` wrote for its vCPU, and then
only behind that guest's calls. -/
namespace Cki.Boot

open Asm Switch Start

universe u

/-- What CREATE takes from the kernel it runs in: three symbols, its CR4 and CR3, and
`sizeof(struct pkm_cntr_cpu)`. -/
structure Kernel where
  secondaryEntry : Word
  initTopPgt : Word
  bootStack : Word
  cr4 : Word
  cr3 : Word
  cpuSize : Nat

variable (kernel : Kernel) (cntr : Create.Cntr)

/-- `&cpus[i].ctx`: the context is an element's first field. -/
def ctxOf (cpus : Word) (i : Nat) : Word := cpus + BitVec.ofNat 64 (i * kernel.cpuSize)

/-- An element holds a context, and the array lies within the addresses. -/
structure Fits (cpus : Word) (n : Nat) : Prop where
  holds : 960 ≤ kernel.cpuSize
  ends : cpus.toNat + n * kernel.cpuSize ≤ 2 ^ 64

/-- The branch of `init_ctx` for the vCPUs that the guest brings up. -/
def secondaryCtx (ctx : Word) : Create.PkCtx where
  rsi := ctx
  rip := kernel.secondaryEntry
  cr3 := Create.pageToPhys cntr.memHpage + kernel.initTopPgt

variable (bootPgtbl : Create.BootPgtbl) (bootParams : Create.BootParams)

/-- Where the guest of a vCPU starts. -/
def entryCtx (ctx : Word) (primary : Bool) : Create.PkCtx :=
  if primary then Create.initCtx cntr bootPgtbl bootParams else secondaryCtx kernel cntr ctx

/-- `init_ctx`: what it assigns, by the fields' displacements. -/
def initCtx (ctx : Word) (primary : Bool) : List (Word × Word) :=
  let regs := entryCtx kernel cntr bootPgtbl bootParams ctx primary
  (pkCtxCr4,kernel.cr4) :: (pkCtxRsi,regs.rsi) :: (pkCtxRip,regs.rip) :: (pkCtxCr3,regs.cr3) ::
    if primary then [] else [(pkCtxRsp,kernel.bootStack)]

variable {Space : Type u} [DecidableEq Space]

/-- `kcalloc` -/
def kcalloc (mem : Space → Word → Word) (host : Space) (start : Word) (size : Nat) :
    Space → Word → Word :=
  fun s a => if s = host ∧ (a - start).toNat < size then 0 else mem s a

/-- The loop over the vCPUs. `num_online_cpus` is an `unsigned int`, as `i` is. -/
def initCtxs (mem : Space → Word → Word) (host : Space) (cpus : Word) (n : Nat) :
    Space → Word → Word :=
  (List.range n).foldl (fun mem i =>
    let ctx := ctxOf kernel cpus i
    setWords mem host ctx (initCtx kernel cntr bootPgtbl bootParams ctx (i == 0))) mem

/-- `create_cpus` and `init_ctxs`, but for the fields behind each context. -/
def createdMem (mem : Space → Word → Word) (host : Space) (cpus : Word) : Space → Word → Word :=
  let n := cntr.nCpus.toNat
  initCtxs kernel cntr bootPgtbl bootParams (kcalloc mem host cpus (n * kernel.cpuSize)) host cpus n

/-! The contexts. -/

omit [DecidableEq Space] in
theorem initCtx_once (ctx : Word) (primary : Bool) :
    ((initCtx kernel cntr bootPgtbl bootParams ctx primary).map Prod.fst).Nodup := by
  cases primary
  · change [pkCtxCr4,pkCtxRsi,pkCtxRip,pkCtxCr3,pkCtxRsp].Nodup
    decide
  · change [pkCtxCr4,pkCtxRsi,pkCtxRip,pkCtxCr3].Nodup
    decide

theorem initCtx_small {ctx : Word} {primary : Bool} :
    ∀ word ∈ initCtx kernel cntr bootPgtbl bootParams ctx primary, word.1 < 480 := by
  cases primary <;> simp [initCtx]

section
variable {kernel} {cpus : Word} {n : Nat} (fits : Fits kernel cpus n)

include fits in
theorem ctxOf_toNat {i : Nat} (bound : i < n) {disp : Word} (small : disp < 960) :
    (ctxOf kernel cpus i + disp).toNat = cpus.toNat + i * kernel.cpuSize + disp.toNat := by
  have holds := fits.holds
  have ends := fits.ends
  have within : (i + 1) * kernel.cpuSize ≤ n * kernel.cpuSize := Nat.mul_le_mul_right _ bound
  rw [Nat.succ_mul] at within
  have small : disp.toNat < 960 := small
  rw [ctxOf,BitVec.toNat_add,BitVec.toNat_add,BitVec.toNat_ofNat]
  omega

include fits in
theorem ctxOf_apart {i j : Nat} (first : i < n) (second : j < n) (other : i ≠ j) {disp disp' : Word}
    (small : disp < 960) (small' : disp' < 960) :
    ctxOf kernel cpus i + disp ≠ ctxOf kernel cpus j + disp' := by
  intro same
  have addr := congrArg BitVec.toNat same
  rw [ctxOf_toNat fits first small,ctxOf_toNat fits second small'] at addr
  have holds := fits.holds
  have small : disp.toNat < 960 := small
  have small' : disp'.toNat < 960 := small'
  rcases Nat.lt_or_gt_of_ne other with below | above
  · have next : (i + 1) * kernel.cpuSize ≤ j * kernel.cpuSize := Nat.mul_le_mul_right _ below
    rw [Nat.succ_mul] at next
    omega
  · have next : (j + 1) * kernel.cpuSize ≤ i * kernel.cpuSize := Nat.mul_le_mul_right _ above
    rw [Nat.succ_mul] at next
    omega

include fits in
/-- Each pass of the loop writes its own vCPU's context. -/
theorem initCtxs_word (mem : Space → Word → Word) (host : Space) {k i : Nat} (most : k ≤ n)
    (bound : i < n) {disp : Word} (small : disp < 960) :
    initCtxs kernel cntr bootPgtbl bootParams mem host cpus k host (ctxOf kernel cpus i + disp) =
      if i < k then
        ((initCtx kernel cntr bootPgtbl bootParams (ctxOf kernel cpus i) (i == 0)).lookup disp).getD
          (mem host (ctxOf kernel cpus i + disp))
      else mem host (ctxOf kernel cpus i + disp) := by
  induction k with
  | zero => rfl
  | succ k ih =>
    rw [initCtxs,List.range_succ,List.foldl_append]
    rw [initCtxs] at ih
    simp only [List.foldl_cons,List.foldl_nil]
    by_cases own : i = k
    · subst own
      rw [setWords_disp _ _ _ (initCtx_once ..),ih (by omega),if_neg (Nat.lt_irrefl i),
        if_pos (Nat.lt_succ_self i)]
    · have apart : ∀ word ∈ initCtx kernel cntr bootPgtbl bootParams (ctxOf kernel cpus k) (k == 0),
          ctxOf kernel cpus i + disp ≠ ctxOf kernel cpus k + word.1 := by
        intro word member
        have within := initCtx_small kernel cntr bootPgtbl bootParams word member
        exact ctxOf_apart fits bound (by omega) own small (by bv_omega)
      have earlier : i < k + 1 ↔ i < k := by omega
      rw [setWords_other apart,ih (by omega)]
      simp only [earlier]

end

/-- A vCPU's context is zero but for what `init_ctx` wrote for it. -/
theorem createdMem_word {cpus : Word} (fits : Fits kernel cpus cntr.nCpus.toNat)
    (mem : Space → Word → Word) (host : Space) {i : Nat} (bound : i < cntr.nCpus.toNat)
    {disp : Word} (small : disp < 960) :
    createdMem kernel cntr bootPgtbl bootParams mem host cpus host (ctxOf kernel cpus i + disp) =
      ((initCtx kernel cntr bootPgtbl bootParams (ctxOf kernel cpus i) (i == 0)).lookup disp).getD
        0 := by
  have zero : kcalloc mem host cpus (cntr.nCpus.toNat * kernel.cpuSize) host
      (ctxOf kernel cpus i + disp) = 0 := by
    apply if_pos
    refine ⟨rfl,?_⟩
    have addr := ctxOf_toNat fits bound small
    have holds := fits.holds
    have ends := fits.ends
    have within : (i + 1) * kernel.cpuSize ≤ cntr.nCpus.toNat * kernel.cpuSize :=
      Nat.mul_le_mul_right _ bound
    rw [Nat.succ_mul] at within
    have small : disp.toNat < 960 := small
    have above : cpus ≤ ctxOf kernel cpus i + disp := by
      rw [BitVec.le_def]
      omega
    rw [BitVec.toNat_sub_of_le above]
    omega
  rw [createdMem,initCtxs_word cntr bootPgtbl bootParams fits _ host (Nat.le_refl _) bound small,
    if_pos bound,zero]

/-- What the macros load from a half of which these words are known. -/
theorem halfAt_of_words {mem initial : Word → Word} {base : Word}
    (words : ∀ disp < 480, disp ≠ pkCtxCr3 → mem (base + disp) = initial disp) :
    contextAt mem base = contextAt initial 0 ∧ extraAt mem base = extraAt initial 0 := by
  have zero (disp : Word) : 0 + disp = disp := BitVec.zero_add disp
  constructor
  · simp (disch := decide) only [contextAt,BitVec.add_assoc,zero,words]
  · simp (disch := decide) only [extraAt,BitVec.add_assoc,zero,words]

/-! The runs of START. -/

/-- START's thread of a vCPU with this context. -/
structure Created (cpu : Cpu Space) (host : Space) (ctx : Word) (mem : Space → Word → Word)
    (c : OnMachine Space) : Prop where
  control : ∃ result copied, c.control = .launcher result copied
  pkRkret : c.pkRkret = .slow
  caller : c.caller = none
  here : c.machine.here cpu = host
  context : ∀ disp < 960, c.machine.mem host (ctx + disp) = mem host (ctx + disp)

/-- The guest has not run yet. -/
structure Fresh (host : Space) (ctx : Word) (initial : Word → Word) (c : OnMachine Space) : Prop where
  control : (∃ result copied, c.control = .launcher result copied) ∨ c.control = .loop
  pkRkret : c.pkRkret = .slow
  caller : c.caller = none
  words : ∀ disp < 480, c.machine.mem host (ctx + disp) = initial disp

/-- Outside the guest a call of it waits. -/
def Entered (c : OnMachine Space) : Prop := c.control ≠ .guest → c.caller ≠ none

/-- The guest's registers at its first instruction. -/
structure Starts (regs : Create.PkCtx) (rsp cr4 pcid : Word) (m : Machine Space) : Prop where
  rip : m.rip = regs.rip
  rsi : m.gpr .rsi = regs.rsi
  rdx : m.gpr .rdx = 0
  cr3 : m.cr3 = dropNoFlush (withPcid regs.cr3 pcid)
  context : contextOf m = ⟨0,0,0,0,0,0,rsp,0,0,0⟩
  extra : extraOf m = ⟨0,0,cr4⟩

section
variable {cpu : Cpu Space} {served : Start.Cntr} {host : Space} {ctx : Word} {c d : OnMachine Space}
  {event : MachineEvent} {events : List MachineEvent}

omit [DecidableEq Space] in
theorem Fresh.away {initial : Word → Word} (fresh : Fresh host ctx initial c) :
    c.control ≠ .guest := by
  rcases fresh.control with ⟨_,_,away⟩ | away <;> simp [away]

theorem Fresh.step {initial : Word → Word} (fresh : Fresh host ctx initial c)
    (step : MachineStep cpu served host ctx c event d) (other : ∀ back, event ≠ .resume back) :
    Fresh host ctx initial d := by
  cases step with
  | start kargs ret away => exact { fresh with control := .inr rfl }
  | wakeup => exact { fresh with }
  | resume back top => exact absurd rfl (other back)
  | rkcall type back running root rsi apart => exact absurd running fresh.away
  | @host s step =>
    rcases fresh.control with ⟨_,_,away⟩ | away <;>
      simp [OnMachine.state,State.host,away] at step
  | copied ok ends => rcases fresh.control with ⟨_,_,away⟩ | away <;> cases ends.symm.trans away
  | code running kept => exact absurd running fresh.away
  | own away here kept =>
    exact { fresh with words := fun disp small => (kept.pmode small).trans (fresh.words disp small) }

theorem Fresh.kept {initial : Word → Word} (fresh : Fresh host ctx initial c)
    (run : Run (MachineStep cpu served host ctx) c events d)
    (first : ∀ back, .resume back ∉ events) : Fresh host ctx initial d := by
  refine run.invariant_without (Fresh host ctx initial) (fun event => ∃ back, event = .resume back)
    (fun _ _ _ fresh other step => fresh.step step fun back same => other ⟨back,same⟩) ?_ fresh
  rintro _ member ⟨back,rfl⟩
  exact first back member

theorem Entered.step (entered : Entered c) (step : MachineStep cpu served host ctx c event d) :
    Entered d := by
  cases step with
  | start kargs ret away => exact fun _ => entered (by simp [away])
  | wakeup => exact entered
  | resume back top => exact fun away => absurd rfl away
  | rkcall type back running root rsi apart => exact fun _ none => by cases none
  | @host s step => exact fun _ => entered (host_stores step).away.1
  | copied ok ends => exact fun _ => entered (by simp [ends])
  | code running kept => exact entered
  | own away here kept => exact entered

theorem run_entered (run : Run (MachineStep cpu served host ctx) c events d)
    (resumed : ∃ back, .resume back ∈ events) : Entered d := by
  obtain ⟨back,member⟩ := resumed
  refine run.invariant_after Entered (· = .resume back) (fun _ _ _ entered step => entered.step step)
    ?_ ⟨_,member,rfl⟩
  rintro c _ d rfl step
  cases step with
  | resume _ top => exact fun away => absurd rfl away

theorem Fresh.ready {initial : Word → Word} (fresh : Fresh host ctx initial c) {disp : Word}
    (small : disp < 480) (other : disp ≠ pkCtxCr3) :
    (c.ready served host ctx).mem host (ctx + disp) = initial disp :=
  (ready_word c served other).trans (fresh.words disp small)

variable (served) in
/-- The first resume restores what `init_ctx` left. -/
theorem Fresh.starts {primary : Bool} (fresh : Fresh host ctx
      (fun disp => ((initCtx kernel cntr bootPgtbl bootParams ctx primary).lookup disp).getD 0) c)
    (here : c.machine.here cpu = host) (back : Word) :
    Starts (entryCtx kernel cntr bootPgtbl bootParams ctx primary)
      (if primary then 0 else kernel.bootStack) kernel.cr4 served.pcid
      (run cpu (Switch.pkRkret c.pkRkret back) (c.ready served host ctx)) := by
  have at' : (c.ready served host ctx).here cpu = host := here
  have rdi : (c.ready served host ctx).gpr .rdi = ctx := c.machine.set_same .rdi ctx
  have resumed := pkRkret_spec cpu c.pkRkret back (c.ready served host ctx)
  obtain ⟨context,extra,rsi,rdx,rip,cr3,_,_,_,_,_⟩ := resumed
  rw [at',rdi] at context extra rsi rdx rip cr3
  rw [fresh.pkRkret,pick_slow] at extra
  rw [fresh.pkRkret] at context rsi rdx rip cr3 ⊢
  have root : (c.ready served host ctx).mem host (ctx + pkCtxCr3) =
      withPcid (entryCtx kernel cntr bootPgtbl bootParams ctx primary).cr3 served.pcid := by
    refine setWord_here.trans ?_
    rw [fresh.words pkCtxCr3 (by decide)]
    rfl
  rw [fresh.ready (by decide) (by decide)] at rsi rdx rip
  rw [root] at cr3
  obtain ⟨context',extra'⟩ := halfAt_of_words fun disp small other =>
    fresh.ready small other
  rw [context'] at context
  rw [extra'] at extra
  exact {
    rip := rip
    rsi := rsi
    rdx := rdx.trans (by cases primary <;> rfl)
    cr3 := cr3
    context := context.trans (by cases primary <;> simp [contextAt,initCtx,List.lookup_cons,tableOf])
    extra := extra.trans (by cases primary <;> simp [extraAt,initCtx,List.lookup_cons,tableOf]) }

theorem run_waits {s : State} (shows : Shows cpu host ctx c s) (waits : Waits host ctx c)
    (run : Run (MachineStep cpu served host ctx) c events d) :
    Waits host ctx d ∧ ∃ t, Shows cpu host ctx d t := by
  refine run.invariant (fun c => Waits host ctx c ∧ ∃ s, Shows cpu host ctx c s) ?_ ⟨waits,s,shows⟩
  rintro c event d ⟨waits,s,shows⟩ step
  obtain ⟨_,t,_,reached,_⟩ := shows.follow step
  exact ⟨waits.step step,t,reached⟩

omit [DecidableEq Space] in
theorem Created.shows {mem : Space → Word → Word} (created : Created cpu host ctx mem c) :
    Shows cpu host ctx c (c.state host ctx) where
  view := ⟨rfl,rfl,rfl⟩
  virtioEventCnt := rfl
  pkRkret := rfl
  virtio := rfl
  control := rfl
  ret := rfl
  kargs := rfl
  here _ := created.here

omit [DecidableEq Space] in
theorem Created.waits {mem : Space → Word → Word} (created : Created cpu host ctx mem c) :
    Waits host ctx c where
  context _ _ caller := by cases created.caller.symm.trans caller
  away _ := created.caller

end

/-! The container that a creation returns. -/

/-- What START reads of the container. -/
def serving : Start.Cntr where
  pcid := cntr.pcid
  memPaddr := Create.pageToPhys cntr.memHpage
  mem2Paddr := Create.pageToPhys cntr.mem2Hpage
  initrdPaddr := Create.pageToPhys cntr.initrdHpage

/-- What the container's pointers lead to. -/
structure Parts (cpus : Word) : Prop where
  table : cntr.bootPgtbl = some bootPgtbl
  params : cntr.bootParams = some bootParams
  array : cntr.cpus = some cpus

/-- The guest is at its first instruction, under its own table. That of the primary vCPU maps what
it starts with to itself as far as the host's tables and the first 512 GiB reach. -/
structure Boots (cpus : Word) (i : Nat) (m : Machine Space) : Prop where
  starts : Starts (entryCtx kernel cntr bootPgtbl bootParams (ctxOf kernel cpus i) (i == 0))
    (if i == 0 then 0 else kernel.bootStack) kernel.cr4 cntr.pcid m
  root : frameOf m.cr3 =
    frameOf (entryCtx kernel cntr bootPgtbl bootParams (ctxOf kernel cpus i) (i == 0)).cr3
  maps : i = 0 → ∀ (pages : Slot → Word) (current : Frame),
    Create.Free pages current (frameOf bootPgtbl.addr) (frameOf bootPgtbl.entry0) →
    let ranges := Create.firstRanges cntr bootParams ⟨m.gpr .rsi,m.rip,m.cr3⟩
    (∀ range ∈ ranges,
      Create.MapsSelf (Create.bootTables pages current bootPgtbl) (frameOf m.cr3) range) ↔
    ∀ range ∈ ranges, Create.Reached pages current range

/-- The guest goes on behind its call, with its registers and the answer. -/
def GoesOn (host : Space) (ctx : Word) (d t : OnMachine Space) : Prop :=
  ∃ context own, d.caller = some (context,own) ∧ contextOf t.machine = context ∧
    t.machine.rip = own ∧ t.machine.gpr .rsi = (d.state host ctx).vcpu.pmode.rsi ∧
    t.machine.gpr .rdx = (d.state host ctx).vcpu.pmode.rdx

/-! The guest's side. -/

def pkBootMagic : Word := 12345

structure PkBootParams where
  nCpus : Word
  magic : Word
  pcid : Word
  rkCr3 : Word
  rkCtx : Word

/-- The last lines of `create_boot_params`. -/
def pkBootParams (cpus : Word) : PkBootParams where
  magic := pkBootMagic
  pcid := cntr.pcid
  rkCr3 := kernel.cr3
  rkCtx := ctxOf kernel cpus 0
  nCpus := cntr.nCpus

/-- The guest's variables. -/
structure Pk where
  pkCntrFlag : Bool
  pcid : Word
  rkCr3 : Word
  cpu0RkCtx : Word
  nCpus : Word

def pkInit (pk : Pk) (params : PkBootParams) : Pk :=
  if params.magic ≠ pkBootMagic then { pk with pkCntrFlag := false } else
    { pkCntrFlag := true
      pcid := params.pcid
      rkCr3 := params.rkCr3
      nCpus := params.nCpus
      cpu0RkCtx := params.rkCtx }

/-- `pk_rkcall` calls `__pk_rkcall`, with `per_cpu_init_done` unset as everywhere. -/
def pkRkcall (pk : Pk) (call : Start.Call) (m : Machine Space) : Machine Space :=
  poised m pk.rkCr3 pk.cpu0RkCtx m.cr3 call (tablesOf m)

section
variable {kernel} {cntr} {bootPgtbl} {bootParams} {cpu : Cpu Space} {host : Space} {cpus : Word}
  {i : Nat} {c d t : OnMachine Space} {events : List MachineEvent}

theorem Created.fresh (fits : Fits kernel cpus cntr.nCpus.toNat) (bound : i < cntr.nCpus.toNat)
    {mem : Space → Word → Word} (created : Created cpu host (ctxOf kernel cpus i)
      (createdMem kernel cntr bootPgtbl bootParams mem host cpus) c) :
    Fresh host (ctxOf kernel cpus i)
      (fun disp => ((initCtx kernel cntr bootPgtbl bootParams (ctxOf kernel cpus i)
        (i == 0)).lookup disp).getD 0) c where
  control := .inl created.control
  pkRkret := created.pkRkret
  caller := created.caller
  words disp small := by
    have small : disp < 960 := by bv_omega
    exact (created.context disp small).trans
      (createdMem_word kernel cntr bootPgtbl bootParams fits mem host bound small)

omit [DecidableEq Space] in
theorem starts_boots {env : Create.Env} {memory : Create.Cntr} {r : Int} {k k' : Create.Kmod}
    (made : Create.pkmDevIoctlCreateCntr env memory k = .ret (r,some cntr) k')
    (parts : Parts cntr bootPgtbl bootParams cpus) {m : Machine Space}
    (starts : Starts (entryCtx kernel cntr bootPgtbl bootParams (ctxOf kernel cpus i) (i == 0))
      (if i == 0 then 0 else kernel.bootStack) kernel.cr4 cntr.pcid m) :
    Boots kernel cntr bootPgtbl bootParams cpus i m := by
  have small : cntr.pcid &&& ~~~0xfff = 0#64 :=
    Monitor.Pcid.small ⟨cntr.pcid,Create.create_within made⟩
  have root : frameOf m.cr3 =
      frameOf (entryCtx kernel cntr bootPgtbl bootParams (ctxOf kernel cpus i) (i == 0)).cr3 := by
    rw [starts.cr3,frameOf_dropNoFlush]
    exact frameOf_of_root (withPcid_root _ small)
  refine ⟨starts,root,?_⟩
  rintro rfl pages current free
  obtain ⟨page,pud,linked⟩ := Create.create_linked made
  have table := parts.table
  rw [linked] at table
  cases table
  obtain ⟨present,writable⟩ := Create.entry0_bits pud
  rw [root]
  refine forall_congr' fun range => forall_congr' fun _ => ?_
  exact forall_congr' fun i => forall_congr' fun _ => Create.mapsRw_iff free present writable

/-- A guest that has its variables from the boot parameters reaches START's context. -/
theorem pkRkcall_arrives (running : d.control = .guest) (root : cpu.space (frameOf kernel.cr3) = host)
    (apart : d.machine.here cpu ≠ host) (pk : Pk) (call : Start.Call) (type : Variant) (back : Word) :
    let ctx := ctxOf kernel cpus 0
    let own := pkRkcall (pkInit pk (pkBootParams kernel cntr cpus)) call d.machine
    MachineStep cpu (serving cntr) host ctx d .code { d with machine := own } ∧
    ∃ t, MachineStep cpu (serving cntr) host ctx { d with machine := own } (.rkcall type back) t ∧
      (t.state host ctx).vcpu.call = call := by
  intro ctx own
  have rdi : own.gpr .rdi = kernel.cr3 := by simp [own,pkRkcall,poised,pkInit,pkBootParams]
  have rsi : own.gpr .rsi = ctx := by simp [own,pkRkcall,poised,pkInit,pkBootParams,ctx]
  have hostRoot : hostOf cpu own = host := by rw [hostOf,rdi,root]
  have apart' : own.here cpu ≠ hostOf cpu own := by
    rw [hostRoot]
    exact apart
  have entered := pkRkcall_spec cpu type back own apart'
  have rdx := entered.rdx
  have rcx := entered.rcx
  have r8 := entered.r8
  have r9 := entered.r9
  rw [hostRoot,rsi] at rdx rcx r8 r9
  rw [hostRoot] at apart'
  refine ⟨.code running (ctxKept_rfl rfl),_,.rkcall type back running hostRoot rsi apart',?_⟩
  have given : callOf own = call := poised_callOf ..
  rw [← given]
  exact congr (congr (congr (congrArg Start.Call.mk rdx) rcx) r8) r9

/-- Every START of a created container's vCPU resumes the guest at its entry first, and later only
behind the guest's own calls; and these reach START. -/
theorem created_boots {env : Create.Env} {memory : Create.Cntr} {r : Int} {k k' : Create.Kmod}
    (made : Create.pkmDevIoctlCreateCntr env memory k = .ret (r,some cntr) k')
    (parts : Parts cntr bootPgtbl bootParams cpus) (fits : Fits kernel cpus cntr.nCpus.toNat)
    (bound : i < cntr.nCpus.toNat) {mem : Space → Word → Word}
    (created : Created cpu host (ctxOf kernel cpus i)
      (createdMem kernel cntr bootPgtbl bootParams mem host cpus) c)
    (run : Run (MachineStep cpu (serving cntr) host (ctxOf kernel cpus i)) c events d) :
    (∀ back t, MachineStep cpu (serving cntr) host (ctxOf kernel cpus i) d (.resume back) t →
      ((∀ own, .resume own ∉ events) → Boots kernel cntr bootPgtbl bootParams cpus i t.machine) ∧
      ((∃ own, .resume own ∈ events) → GoesOn host (ctxOf kernel cpus i) d t)) ∧
    (i = 0 → d.control = .guest → cpu.space (frameOf kernel.cr3) = host →
      d.machine.here cpu ≠ host → ∀ pk call type back,
      let own := pkRkcall (pkInit pk (pkBootParams kernel cntr cpus)) call d.machine
      MachineStep cpu (serving cntr) host (ctxOf kernel cpus i) d .code { d with machine := own } ∧
      ∃ t, MachineStep cpu (serving cntr) host (ctxOf kernel cpus i) { d with machine := own }
        (.rkcall type back) t ∧ (t.state host (ctxOf kernel cpus i)).vcpu.call = call) := by
  obtain ⟨waits,s,shows⟩ := run_waits created.shows created.waits run
  refine ⟨fun back t step => ⟨fun first => ?_,fun resumed => ?_⟩,?_⟩
  · have fresh := (created.fresh fits bound).kept run first
    cases step with
    | resume _ top =>
      have here := shows.here (by simp [top])
      exact starts_boots made parts (fresh.starts kernel cntr bootPgtbl bootParams (serving cntr) here back)
  · have resumes := shows.resumes waits step
    have entered := run_entered run resumed
    cases step with
    | resume _ top =>
      obtain ⟨⟨context,own⟩,caller⟩ := Option.ne_none_iff_exists'.mp (entered (by simp [top]))
      exact ⟨context,own,caller,resumes back context own rfl caller⟩
  · -- A call before the guest has set its per-CPU contexts goes to that of vCPU 0.
    rintro rfl running root apart pk call type back
    exact pkRkcall_arrives running root apart pk call type back

end

/-- A kernel, with 1024 bytes for a vCPU. -/
def patchedKernel : Kernel := ⟨0xffffffff81000000,0x2610000,0xffffffff82a00000,0x3006f0,0x1000,1024⟩

def launcherThread (cntr : Create.Cntr) (bootParams : Create.BootParams) : OnMachine Side :=
  { freshOnMachine with
    machine := { launcher 0x1000 with
      mem := createdMem patchedKernel cntr Create.grantedPgtbl bootParams (fun _ _ => 7) .host 0x4000 } }

theorem created_boots_granted : ∃ (cntr : Create.Cntr) (bootParams : Create.BootParams)
    (d t : OnMachine Side),
    MachineStep sides (serving cntr) .host (ctxOf patchedKernel 0x4000 0) d (.resume 0) t ∧
    Boots patchedKernel cntr Create.grantedPgtbl bootParams 0x4000 0 t.machine := by
  obtain ⟨cntr,bootParams,k,made,parts,four⟩ : ∃ (cntr : Create.Cntr)
      (bootParams : Create.BootParams) (k : Create.Kmod),
      Create.pkmDevIoctlCreateCntr Create.grants Create.blankCntr ⟨[],Create.pkmCntrMinPcid⟩ =
        .ret (3,some cntr) k ∧
      Parts cntr Create.grantedPgtbl bootParams 0x4000 ∧ cntr.nCpus.toNat = 4 :=
    ⟨_,_,_,rfl,⟨rfl,rfl,rfl⟩,rfl⟩
  have fits : Fits patchedKernel 0x4000 cntr.nCpus.toNat := by
    rw [four]
    exact ⟨by decide,by decide⟩
  have created : Created sides .host (ctxOf patchedKernel 0x4000 0)
      (createdMem patchedKernel cntr Create.grantedPgtbl bootParams (fun _ _ => 7) .host 0x4000)
      (launcherThread cntr bootParams) :=
    ⟨⟨_,_,rfl⟩,rfl,rfl,(by decide : sides.space (frameOf 0x1000) = .host),fun _ _ => rfl⟩
  have first : MachineStep sides (serving cntr) .host (ctxOf patchedKernel 0x4000 0)
      (launcherThread cntr bootParams) (.start (0,0) 0)
      { launcherThread cntr bootParams with kargs := (0,0), ret := 0, control := .loop } :=
    .start (0,0) 0 rfl
  have resume : MachineStep sides (serving cntr) .host (ctxOf patchedKernel 0x4000 0)
      { launcherThread cntr bootParams with kargs := (0,0), ret := 0, control := .loop }
      (.resume 0) _ := .resume 0 rfl
  have boots := created_boots made parts fits (by rw [four]; decide) created (.single first)
  exact ⟨cntr,bootParams,_,_,resume,(boots.1 0 _ resume).1 fun own => by simp⟩

end Cki.Boot
