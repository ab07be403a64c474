import Cki.LauncherRanges
import Cki.StartAccesses

/-! What a guest writes to its tty and what the launcher prints. `iterate_tty_write` copies a
chunk into its buffer and hands it on with PK_RKCALL_PRINT, START returns to `percpu_routine`
with the buffer's address and length, and the launcher prints it and calls START again. -/
namespace Cki.Launcher

open Bytes Start Switch

/-- Where the blocks lie, with no frame in both. -/
structure Laid (g : Globals) : Prop extends Placed g where
  phys2 : g.physBase2.toNat + blockBytes ≤ 2 ^ 64
  physApart : ∀ addr, Within g.physBase blockBytes addr → ¬ Within g.physBase2 blockBytes addr

/-- What a vCPU has handed on and the launcher has not printed. -/
structure Chunk where
  cpu : Nat
  buf : Word
  text : List Byte

structure Console where
  container : Container
  memory : Memory
  chunk : Option Chunk
  written : List Byte
  printed : List Byte

/-- Something happens in the container, a vCPU writes a chunk, a byte of memory is stored, or
the launcher prints for a vCPU and calls START for it again. -/
inductive ConsoleEvent where
  | container (event : ContainerEvent)
  | write (k : Nat) (type : Variant) (buf : Word) (text : List Byte) (arg3 cr3 : Word)
    (tables : Tables)
  | store (addr : Word) (byte : Byte)
  | print (k : Nat) (ret : Word)

/-- `pk_rkcall2` with the buffer and its length leaves the third argument as it is. -/
def printCall (buf : Word) (text : List Byte) (arg3 : Word) : Start.Call :=
  ⟨Rkcall.print.number,buf,BitVec.ofNat 64 text.length,arg3⟩

/-- The launcher's thread of a vCPU that is lost does not print. -/
def remaining (chunk : Option Chunk) : ContainerEvent → Option Chunk
  | .cpu k (.copied false) => chunk.filter (·.cpu ≠ k)
  | _ => chunk

section
variable (g : Globals) (own : Memory) (cntr : Start.Cntr)

/-- The launcher has the container's blocks in its address space, and memory of its own. -/
def launcherMemory (memory : Memory) : Memory := fun addr =>
  if Within g.virtBase blockBytes addr then memory (addr - g.virtBase + g.physBase)
  else if Within g.virtBase2 blockBytes addr then memory (addr - g.virtBase2 + g.physBase2)
  else own addr

def handleExitPrint (memory : Memory) (bufPhys size : Word) : List Byte :=
  printf (launcherMemory g own memory) (phys2virt g bufPhys) (printSize size)

def InBlocks (buf : Word) (text : List Byte) : Prop :=
  Inside g.physBase blockBytes buf (· < text.length) ∨
    Inside g.physBase2 blockBytes buf (· < text.length)

/-- What is printed for a vCPU that has handed a chunk on; what `printk` hands on is not
counted. -/
def Console.print (s : Console) (k : Nat) (text : List Byte) : Console :=
  match s.chunk with
  | some chunk =>
    if chunk.cpu = k then { s with chunk := none, printed := s.printed ++ text } else s
  | none => s

/-- The tty's lock is held until the chunk is printed, and the buffer kept. START is called for
a vCPU again when its PRINT exit has been handled. -/
inductive ConsoleStep (s : Console) : ConsoleEvent → Console → Prop where
  | container {event : ContainerEvent} {d : Container} :
      (∀ k kargs ret args, event = .cpu k (.start kargs ret) →
        (s.container.cpus k).control ≠ .launcher pkmCntrExitPrint (some args)) →
      Container.Step cntr s.container event d →
      ConsoleStep s (.container event) { s with container := d, chunk := remaining s.chunk event }
  | write {k : Nat} {type : Variant} {buf : Word} {text : List Byte} {arg3 cr3 : Word}
      {tables : Tables} {d : Container} : s.chunk = none → InBlocks g buf text →
      Container.Step cntr s.container (.cpu k (.rkcall type (printCall buf text arg3) cr3 tables)) d →
      ConsoleStep s (.write k type buf text arg3 cr3 tables)
        { container := d
          memory := copy s.memory buf text
          chunk := some ⟨k,buf,text⟩
          written := s.written ++ text
          printed := s.printed }
  | store {addr : Word} {byte : Byte} :
      (∀ chunk, s.chunk = some chunk → ∀ i < chunk.text.length, after chunk.buf i ≠ addr) →
      ConsoleStep s (.store addr byte) { s with memory := Function.update s.memory addr byte }
  | print {k : Nat} {ret buf size : Word} {d : Container} :
      (s.container.cpus k).control = .launcher pkmCntrExitPrint (some (buf,size)) →
      Container.Step cntr s.container (.cpu k (.start (buf,size) ret)) d →
      ConsoleStep s (.print k ret)
        { s.print k (handleExitPrint g own s.memory buf size) with container := d }

end

/-- The bytes that are on their way. -/
def Console.waiting (s : Console) : List Byte := (s.chunk.map Chunk.text).getD []

/-- What has been printed, followed by what is on its way, is what has been written. -/
def Console.Faithful (s : Console) : Prop := s.printed ++ s.waiting = s.written

/-- No zero is printed, and the exit of a chunk is copied out. -/
def PrintsWhole (s : Console) : ConsoleEvent → Prop
  | .print k _ => ∀ chunk, s.chunk = some chunk → chunk.cpu = k → ∀ byte ∈ chunk.text, byte ≠ 0
  | .container (.cpu k (.copied false)) =>
    ∀ chunk, s.chunk = some chunk → chunk.cpu = k → chunk.text = []
  | _ => True

variable {g : Globals} {own : Memory} {cntr : Start.Cntr}

/-! What is printed for a buffer. -/

theorem InBlocks.length_le (laid : Laid g) {buf : Word} {text : List Byte} (inBlocks : InBlocks g buf text) :
    text.length ≤ blockBytes := by
  have ends {base : Word} (fits : base.toNat + blockBytes ≤ 2 ^ 64)
      (inside : Inside base blockBytes buf (· < text.length)) : text.length ≤ blockBytes := by
    rcases (inside_iff fits (by decide) (inTurn_below _) buf).mp inside with none | ⟨_,ends⟩
    · omega
    · omega
  rcases inBlocks with first | second
  · exact ends (Nat.le_of_lt laid.phys) first
  · exact ends laid.phys2 second

theorem precision_size {n : Nat} (bound : n ≤ blockBytes) :
    precision (printSize (BitVec.ofNat 64 n)) = n := by
  have small : n ≤ 2 ^ 30 := bound
  have value : printSize (BitVec.ofNat 64 n) = n := by
    have low : ((BitVec.ofNat 64 n).setWidth 32).toNat = n := by
      rw [BitVec.toNat_setWidth,BitVec.toNat_ofNat]
      omega
    rw [printSize,BitVec.toInt_eq_toNat_of_lt (by omega),low]
  rw [value,precision,if_neg (by omega),Int.toNat_natCast]

/-- The launcher sees a byte of a block where `phys2virt` takes its address. -/
theorem launcherMemory_block (laid : Laid g) (own memory : Memory) {buf : Word} {text : List Byte}
    (inBlocks : InBlocks g buf text) {i : Nat} (below : i < text.length) :
    launcherMemory g own memory (after (phys2virt g buf) i) = memory (after buf i) := by
  have starts {base : Word} (inside : Inside base blockBytes buf (· < text.length)) :
      Within base blockBytes buf := by
    have first := inside 0 (Nat.lt_of_le_of_lt (Nat.zero_le i) below)
    rwa [after,BitVec.add_zero] at first
  rcases inBlocks with first | second
  · have value : after (phys2virt g buf) i - g.virtBase = after buf i - g.physBase := by
      have moved := phys2virt_first laid.toPlaced (starts first)
      simp only [after]
      grind
    have here : Within g.virtBase blockBytes (after (phys2virt g buf) i) := by
      rw [within_iff laid.virt,value,← within_iff (Nat.le_of_lt laid.phys)]
      exact first i below
    rw [launcherMemory,if_pos here,value,BitVec.sub_add_cancel]
  · have value : after (phys2virt g buf) i - g.virtBase2 = after buf i - g.physBase2 := by
      have moved := (phys2virt_other laid.toPlaced fun other => laid.physApart _ other (starts second)).1
      simp only [after]
      grind
    have here : Within g.virtBase2 blockBytes (after (phys2virt g buf) i) := by
      rw [within_iff laid.virt2,value,← within_iff laid.phys2]
      exact second i below
    have apart : ¬ Within g.virtBase blockBytes (after (phys2virt g buf) i) := fun other =>
      laid.apart _ other here
    rw [launcherMemory,if_neg apart,if_pos here,value,BitVec.sub_add_cancel]

/-- A buffer in a block is printed up to its first zero. -/
theorem handleExitPrint_text (laid : Laid g) (own : Memory) {memory : Memory} {buf : Word}
    {text : List Byte} (inBlocks : InBlocks g buf text)
    (holds : bytes memory buf text.length = text) :
    handleExitPrint g own memory buf (BitVec.ofNat 64 text.length) = text.takeWhile (· ≠ 0) := by
  have seen := bytes_congr fun i below => launcherMemory_block laid own memory inBlocks below
  rw [handleExitPrint,printf,precision_size (inBlocks.length_le laid),seen,holds]

/-! A chunk on its way. -/

/-- How far the call of a buffer has got on a vCPU. -/
inductive Carries (buf size : Word) (s : Start.State) : Prop where
  | called (arg3 : Word) : s.control = .dispatch →
      s.vcpu.call = ⟨Rkcall.print.number,buf,size,arg3⟩ → Carries buf size s
  | copying : s.control = .copying pkmCntrExitPrint → s.kargs = (buf,size) → Carries buf size s
  | returned : s.control = .launcher pkmCntrExitPrint (some (buf,size)) → Carries buf size s

theorem dispatch_carries (cntr : Start.Cntr) {s : Start.State} {buf size arg3 : Word}
    (call : s.vcpu.call = ⟨Rkcall.print.number,buf,size,arg3⟩) :
    Carries buf size (s.dispatch cntr) := by
  have printed : s.dispatch cntr =
      { s with kargs := (buf,size), control := .copying pkmCntrExitPrint } := by
    simp only [State.dispatch,call,Rkcall.ofNumber_number]
  rw [printed]
  exact .copying rfl rfl

theorem step_carries {s t : Start.State} {event : Start.Event} {buf size : Word}
    (carries : Carries buf size s) (step : Start.Step cntr s event t)
    (handled : ∀ kargs ret, event = .start kargs ret →
      s.control ≠ .launcher pkmCntrExitPrint (some (buf,size)))
    (kept : event ≠ .copied false) : Carries buf size t := by
  obtain ⟨vcpu,virtio,control,ret,kargs,unanswered⟩ := s
  cases carries with
  | called arg3 control call =>
    cases control
    cases event with
    | wakeup =>
      cases step
      exact .called arg3 rfl call
    | host =>
      cases step
      exact dispatch_carries cntr call
    | _ => cases step
  | copying control args =>
    cases control
    cases event with
    | wakeup =>
      cases step
      exact .copying rfl args
    | copied ok =>
      cases ok
      · exact absurd rfl kept
      · cases step
        cases args
        exact .returned rfl
    | _ => cases step
  | returned control =>
    cases control
    cases event with
    | wakeup =>
      cases step
      exact .returned rfl
    | start kargs ret => exact absurd rfl (handled kargs ret rfl)
    | _ => cases step

/-- What a vCPU carries does not depend on the device. -/
theorem Carries.withVirtio {s : Start.State} {buf size : Word} (carries : Carries buf size s)
    (virtio : Virtio.VirtioNet) : Carries buf size { s with virtio := virtio } := by
  obtain ⟨arg3,control,call⟩ | ⟨control,args⟩ | control := carries
  · exact .called arg3 control call
  · exact .copying control args
  · exact .returned control

theorem container_carries {c d : Container} {event : ContainerEvent} {k : Nat} {buf size : Word}
    (carries : Carries buf size (c.cpus k)) (step : Container.Step cntr c event d)
    (handled : ∀ kargs ret, event = .cpu k (.start kargs ret) →
      (c.cpus k).control ≠ .launcher pkmCntrExitPrint (some (buf,size)))
    (kept : event ≠ .cpu k (.copied false)) : Carries buf size (d.cpus k) := by
  cases event with
  | cpu j event =>
    obtain ⟨t,moved,rfl⟩ := Option.map_eq_some_iff.mp step
    by_cases own : k = j
    · subst own
      dsimp only
      rw [Function.update_self]
      have carries' := carries.withVirtio c.virtio
      exact step_carries carries' moved (fun kargs ret start => handled kargs ret (by rw [start]))
        fun lost => kept (by rw [lost])
    · dsimp only
      rwa [Function.update_of_ne own]
  | setVringEfds env =>
    simp only [Container.Step,Container.step] at step
    cases found : env.installs with
    | none =>
      rw [found] at step
      cases step
      exact carries
    | some pair =>
      rw [found] at step
      cases step
      exact carries
  | inquire =>
    cases step
    exact carries

/-- What START has returned for the call. -/
theorem Carries.of_launcher {s : Start.State} {buf size buf' size' : Word} (carries : Carries buf size s)
    (returned : s.control = .launcher pkmCntrExitPrint (some (buf',size'))) :
    buf' = buf ∧ size' = size := by
  obtain ⟨arg3,control,call⟩ | ⟨control,args⟩ | control := carries
  all_goals
    rw [control] at returned
    cases returned
  exact ⟨rfl,rfl⟩

/-- The chunk lies in the buffer, and its vCPU's call has the buffer and the length. -/
structure Console.OnItsWay (g : Globals) (s : Console) (chunk : Chunk) : Prop where
  inBlocks : InBlocks g chunk.buf chunk.text
  holds : bytes s.memory chunk.buf chunk.text.length = chunk.text
  carries : Carries chunk.buf (BitVec.ofNat 64 chunk.text.length) (s.container.cpus chunk.cpu)

def Console.Orderly (g : Globals) (s : Console) : Prop :=
  ∀ chunk, s.chunk = some chunk → s.OnItsWay g chunk

theorem remaining_some {chunk : Option Chunk} {event : ContainerEvent} {c : Chunk}
    (left : remaining chunk event = some c) :
    chunk = some c ∧ event ≠ .cpu c.cpu (.copied false) := by
  cases event with
  | cpu k event =>
    cases event with
    | copied ok =>
      cases ok
      · obtain ⟨same,other⟩ := Option.filter_eq_some_iff.mp left
        refine ⟨same,?_⟩
        rintro ⟨⟩
        exact of_decide_eq_true other rfl
      · exact ⟨left,nofun⟩
    | _ => exact ⟨left,nofun⟩
  | _ => exact ⟨left,nofun⟩

theorem print_some {s : Console} {k : Nat} {text : List Byte} {chunk : Chunk}
    (left : (s.print k text).chunk = some chunk) : s.chunk = some chunk ∧ chunk.cpu ≠ k := by
  rw [Console.print] at left
  split at left
  · rename_i c here
    split at left
    · cases left
    · rename_i other
      rw [here] at left
      cases left
      exact ⟨here,other⟩
  · rename_i none
    rw [none] at left
    cases left

theorem print_memory (s : Console) (k : Nat) (text : List Byte) :
    (s.print k text).memory = s.memory ∧ (s.print k text).written = s.written := by
  rw [Console.print]
  split
  · split <;> exact ⟨rfl,rfl⟩
  · exact ⟨rfl,rfl⟩

theorem rkcall_carries {c d : Container} {k : Nat} {type : Variant} {buf size arg3 cr3 : Word}
    {tables : Tables}
    (step : Container.Step cntr c
      (.cpu k (.rkcall type ⟨Rkcall.print.number,buf,size,arg3⟩ cr3 tables)) d) :
    Carries buf size (d.cpus k) := by
  obtain ⟨t,moved,rfl⟩ := Option.map_eq_some_iff.mp step
  dsimp only
  rw [Function.update_self]
  cases step_moves moved with
  | rkcall _ _ _ _ guest => exact .called arg3 rfl rfl

theorem step_orderly (laid : Laid g) {s t : Console} {event : ConsoleEvent} (orderly : s.Orderly g)
    (step : ConsoleStep g own cntr s event t) : t.Orderly g := by
  cases step with
  | container handled moved =>
    intro chunk left
    obtain ⟨here,kept⟩ := remaining_some left
    obtain ⟨inBlocks,holds,carries⟩ := orderly chunk here
    have carries' := container_carries carries moved (fun kargs ret => handled _ kargs ret _) kept
    exact ⟨inBlocks,holds,carries'⟩
  | @write k type buf text arg3 cr3 tables d free inBlocks moved =>
    rintro chunk ⟨⟩
    have bound := inBlocks.length_le laid
    have small : blockBytes ≤ 2 ^ 64 := by decide
    exact ⟨inBlocks,bytes_copy _ _ (Nat.le_trans bound small),rkcall_carries moved⟩
  | @store addr byte apart =>
    intro chunk here
    obtain ⟨inBlocks,holds,carries⟩ := orderly chunk here
    refine ⟨inBlocks,?_,carries⟩
    refine Eq.trans (bytes_congr fun i below => ?_) holds
    exact Function.update_of_ne (apart chunk here i below) _ _
  | @print k ret buf size d waits moved =>
    intro chunk left
    obtain ⟨here,other⟩ := print_some left
    obtain ⟨inBlocks,holds,carries⟩ := orderly chunk here
    refine ⟨inBlocks,?_,?_⟩
    · dsimp only
      rw [(print_memory s k _).1]
      exact holds
    · refine container_carries carries moved (fun kargs ret start => ?_) nofun
      cases start
      exact absurd rfl other

/-! One step. -/

theorem lost_faithful_iff {s : Console} (faithful : s.Faithful) (k : Nat) (d : Container) :
    PrintsWhole s (.container (.cpu k (.copied false))) ↔
      ({ s with container := d, chunk := s.chunk.filter (·.cpu ≠ k) } : Console).Faithful := by
  rw [Console.Faithful,Console.waiting] at faithful ⊢
  rw [PrintsWhole]
  cases here : s.chunk with
  | none =>
    rw [here] at faithful
    exact iff_of_true nofun faithful
  | some chunk =>
    rw [here] at faithful
    by_cases own : chunk.cpu = k
    · have lost : (some chunk).filter (fun c => c.cpu ≠ k) = none := by simp [own]
      dsimp only
      rw [lost,← faithful]
      simp [own,eq_comm]
    · have kept : (some chunk).filter (fun c => c.cpu ≠ k) = some chunk := by simp [own]
      dsimp only
      rw [kept]
      refine iff_of_true (fun c same own' => ?_) faithful
      cases same
      exact absurd own' own

theorem print_faithful_iff {s : Console} (faithful : s.Faithful) {k : Nat} (ret : Word)
    {text : List Byte} (d : Container)
    (prints : ∀ chunk, s.chunk = some chunk → chunk.cpu = k → text = chunk.text.takeWhile (· ≠ 0)) :
    PrintsWhole s (.print k ret) ↔ ({ s.print k text with container := d } : Console).Faithful := by
  rw [PrintsWhole]
  cases here : s.chunk with
  | none =>
    refine iff_of_true nofun ?_
    simpa only [Console.print,here,Console.Faithful,Console.waiting] using faithful
  | some chunk =>
    have step := prints chunk here
    simp only [Console.Faithful,Console.waiting,here,Option.map_some,Option.getD_some] at faithful
    by_cases own : chunk.cpu = k
    · rw [step own]
      simp only [Console.print,here,if_pos own,Console.Faithful,Console.waiting,Option.map_none,
        Option.getD_none,List.append_nil,← faithful,List.append_cancel_left_eq,takeWhile_eq_iff]
      constructor
      · exact fun all => all chunk rfl own
      · rintro all c ⟨⟩ _
        exact all
    · simp only [Console.print,here,if_neg own,Console.Faithful,Console.waiting,Option.map_some,
        Option.getD_some]
      refine iff_of_true (fun c same own' => ?_) faithful
      cases same
      exact absurd own' own

theorem step_faithful_iff (laid : Laid g) {s t : Console} {event : ConsoleEvent}
    (orderly : s.Orderly g) (faithful : s.Faithful) (step : ConsoleStep g own cntr s event t) :
    PrintsWhole s event ↔ t.Faithful := by
  cases step with
  | @container event d handled moved =>
    cases event with
    | cpu k event =>
      cases event with
      | copied ok =>
        cases ok
        · exact lost_faithful_iff faithful k d
        · exact iff_of_true trivial faithful
      | _ => exact iff_of_true trivial faithful
    | _ => exact iff_of_true trivial faithful
  | write free inBlocks moved =>
    refine iff_of_true trivial ?_
    rw [Console.Faithful,Console.waiting,free] at faithful
    simp only [Option.map_none,Option.getD_none,List.append_nil] at faithful
    simp only [Console.Faithful,Console.waiting,Option.map_some,Option.getD_some,faithful]
  | store apart => exact iff_of_true trivial faithful
  | @print k ret buf size d waits moved =>
    refine print_faithful_iff faithful ret d fun chunk here own' => ?_
    obtain ⟨inBlocks,holds,carries⟩ := orderly chunk here
    rw [own'] at carries
    obtain ⟨rfl,rfl⟩ := carries.of_launcher waits
    exact handleExitPrint_text laid own inBlocks holds

/-- In a run from where all is printed, the launcher prints what the guest writes exactly if it
prints whole chunks. -/
theorem run_faithful_iff (laid : Laid g) {s t : Console} {events : List ConsoleEvent}
    (none : s.chunk = none) (printed : s.printed = s.written) :
    Run (Guarded PrintsWhole (ConsoleStep g own cntr)) s events t ↔
      Run (fun s event t => ConsoleStep g own cntr s event t ∧ t.Faithful) s events t := by
  refine Run.guarded_iff_of_kept (Console.Orderly g) Console.Faithful PrintsWhole
    (fun s event t => step_orderly laid) (fun s event t => step_faithful_iff laid) ?_ ?_
  · intro chunk here
    rw [none] at here
    cases here
  · simp only [Console.Faithful,Console.waiting,none,Option.map_none,Option.getD_none,List.append_nil,
      printed]

theorem globals_laid : Laid globals where
  toPlaced := globals_placed
  phys2 := by decide
  physApart := by
    rintro addr ⟨_,high⟩ ⟨low,_⟩
    have base : globals.physBase.toNat + blockBytes = 0x80000000 := rfl
    have base2 : globals.physBase2.toNat = 0x80000000 := rfl
    omega

/-- Nothing has been written on vCPUs that have not run. -/
def quiet : Console := ⟨blank,fun _ => 0,none,[],[]⟩

/-- The guest of vCPU 0 writes a chunk, and START returns with it. -/
def handing (text : List Byte) : List ConsoleEvent :=
  [.container (.cpu 0 (.start (0,0) 0)),.container (.cpu 0 (.resume ⟨0,0⟩)),
    .write 0 .slow 0x40001000 text 0 0 ⟨0,0⟩,.container (.cpu 0 .host),
    .container (.cpu 0 (.copied true))]

theorem short_inBlocks {text : List Byte} (short : text.length ≤ 3) :
    InBlocks globals 0x40001000 text := by
  refine .inl ((inside_iff (by decide) (by decide) (inTurn_below _) _).mpr (.inr ⟨by decide,?_⟩))
  have room : blockBytes - ((0x40001000 : Word) - globals.physBase).toNat = 2 ^ 30 - 0x1000 := rfl
  omega

theorem handing_run (own : Memory) (text : List Byte) (short : text.length ≤ 3) : ∃ s t,
    Run (Guarded PrintsWhole (ConsoleStep globals own block)) quiet (handing text) s ∧
      s.chunk = some ⟨0,0x40001000,text⟩ ∧ ConsoleStep globals own block s (.print 0 0) t := by
  refine ⟨_,_,.cons ⟨trivial,.container nofun rfl⟩ (.cons ⟨trivial,.container nofun rfl⟩ (.cons
    ⟨trivial,.write rfl (short_inBlocks short) rfl⟩ (.cons ⟨trivial,.container nofun rfl⟩
    (.single ⟨trivial,.container nofun rfl⟩)))),rfl,.print rfl rfl⟩

/-- Two letters. -/
theorem letters_printed : ∃ t, Run (fun s event t =>
    ConsoleStep globals (fun _ => 0) block s event t ∧ t.Faithful) quiet
      (handing [0x68,0x69] ++ [.print 0 0]) t := by
  obtain ⟨s,t,run,chunk,print⟩ := handing_run (fun _ => 0) [0x68,0x69] (by decide)
  have whole : PrintsWhole s (.print 0 0) := by
    intro c here _
    rw [chunk] at here
    cases here
    decide
  exact ⟨t,(run_faithful_iff globals_laid rfl rfl).mp (run.append (.single ⟨whole,print⟩))⟩

/-- A zero between two letters. -/
theorem zero_stops : ¬ ∀ (g : Globals) (own : Memory) (cntr : Start.Cntr) (s t : Console)
    (events : List ConsoleEvent), Laid g → s.chunk = none → s.printed = s.written →
    Run (ConsoleStep g own cntr) s events t → t.Faithful := by
  intro claim
  obtain ⟨s,t,run,chunk,print⟩ := handing_run (fun _ => 0) [0x68,0,0x69] (by decide)
  have run' := run.weaken fun _ _ _ guarded => guarded.2
  have start : quiet.Orderly globals := by
    intro chunk here
    cases here
  have orderly := run'.invariant (Console.Orderly globals) (fun _ _ _ => step_orderly globals_laid) start
  have before := claim _ _ _ _ _ _ globals_laid rfl rfl run'
  have after := claim _ _ _ _ _ _ globals_laid rfl rfl (run'.append (.single print))
  have whole := (step_faithful_iff globals_laid orderly before print).mpr after
  exact whole _ chunk rfl 0 (by decide) rfl

end Cki.Launcher
