import Cki.SwitchMacros

/-! From one side of the switch to the other. Each template saves one side's
registers into its own half of the context and loads the other side's, so the two
specifications differ in the halves, the words they note down and the root they
load. -/
namespace Cki.Switch

open Asm

universe u

/-! The two halves of a context do not meet, and the macros push above the words
that hold registers. -/

theorem half_disjoint {base addr : Word} (low : Half base addr) :
    ¬ Half (base + pkCtxSize) addr := by
  rw [Half,pkCtxSize] at *
  bv_omega

theorem spilled_half {base addr : Word} (spilled : Spilled (base + pkCtxSize) addr) :
    Half base addr := by
  simp only [Spilled,Half,pkCtxSize] at *
  bv_omega

theorem not_spilled (base : Word) {disp : Word} (small : disp < 248) :
    ¬ Spilled (base + pkCtxSize) (base + disp) := by
  simp only [Spilled,pkCtxSize]
  bv_omega

theorem not_half_of_apart {own other : Word} (apart : ∀ a, Half other a → ¬ Half own a)
    {disp : Word} (small : disp < 248) : ¬ Half own (other + disp) := by
  refine apart _ ((half_add other disp).mpr ?_)
  bv_omega

/-- The words of a half that hold the registers of both types, and of the slow one. -/
def contextWords : List Word :=
  [pkCtxRbx,pkCtxRbp,pkCtxR12,pkCtxR13,pkCtxR14,pkCtxR15,pkCtxRsp,pkCtxFs,pkCtxGs,pkCtxGdtr,
    pkCtxGdtr + 8]

def extraWords : List Word := [pkCtxKgs,pkCtxIdtr,pkCtxIdtr + 8,pkCtxCr4]

/-- The words of the own half that only the macros may write. -/
def ownWords : List Word := pkCtxRsi :: (contextWords ++ extraWords)

theorem contextWords_small : ∀ disp ∈ contextWords, disp < 248 := by simp [contextWords]
theorem extraWords_small : ∀ disp ∈ extraWords, disp < 248 := by simp [extraWords]

theorem contextWords_own : ∀ disp ∈ contextWords, disp ∈ ownWords :=
  fun _ word => List.mem_cons_of_mem _ (List.mem_append_left _ word)

theorem extraWords_own : ∀ disp ∈ extraWords, disp ∈ ownWords :=
  fun _ word => List.mem_cons_of_mem _ (List.mem_append_right _ word)

theorem contextAt_congr {f g : Word → Word} {base : Word}
    (same : ∀ disp ∈ contextWords, f (base + disp) = g (base + disp)) :
    contextAt f base = contextAt g base := by
  simp only [contextWords,List.forall_mem_cons] at same
  simp only [contextAt,BitVec.add_assoc,same]

theorem extraAt_congr {f g : Word → Word} {base : Word}
    (same : ∀ disp ∈ extraWords, f (base + disp) = g (base + disp)) :
    extraAt f base = extraAt g base := by
  simp only [extraWords,List.forall_mem_cons] at same
  simp only [extraAt,BitVec.add_assoc,same]

theorem idtrWords_congr {f g : Word → Word} {base : Word}
    (same : ∀ disp ∈ extraWords, f (base + disp) = g (base + disp)) :
    idtrWords f base = idtrWords g base := by
  simp only [extraWords,List.forall_mem_cons] at same
  simp only [idtrWords,BitVec.add_assoc,same]

variable {Space : Type u}

theorem contextOf_congr {m t : Machine Space}
    (gpr : ∀ r ∈ [.rbx,.rbp,.r12,.r13,.r14,.r15,.rsp], t.gpr r = m.gpr r) (msr : t.msr = m.msr)
    (gdtr : t.gdtr = m.gdtr) : contextOf t = contextOf m := by
  simp only [List.forall_mem_cons] at gpr
  simp only [contextOf,gpr,msr,gdtr]

theorem here_congr {cpu : Cpu Space} {m t : Machine Space} (cr3 : t.cr3 = m.cr3) :
    t.here cpu = m.here cpu := by
  simp only [Machine.here,cr3]

/-! The two macros together. -/

/-- Between the macros only words of the own half that hold no register change. -/
structure Noted (cpu : Cpu Space) (own : Word) (m t : Machine Space) : Prop where
  cr3 : t.cr3 = m.cr3
  rsp : t.gpr .rsp = m.gpr .rsp
  extra : extraOf t = extraOf m
  words : ∀ disp ∈ ownWords,
    t.mem (m.here cpu) (own + disp) = m.mem (m.here cpu) (own + disp)
  frame : ∀ s a, (s = m.here cpu → ¬ Half own a) → t.mem s a = m.mem s a

/-- One side's registers lie in its own half and the other side's are in force. -/
structure Swapped (cpu : Cpu Space) (type : Variant) (own other : Word)
    (m noted t : Machine Space) : Prop where
  cr3 : t.cr3 = m.cr3
  context : contextOf t = contextAt (m.mem (m.here cpu)) other
  extra : extraOf t = type.pick (extraAt (m.mem (m.here cpu)) other) (extraOf m)
  saved : contextAt (t.mem (m.here cpu)) own = contextOf m
  savedExtra : extraAt (t.mem (m.here cpu)) own =
    type.pick (extraOf m) (extraAt (m.mem (m.here cpu)) own)
  savedIdtr : idtrWords (t.mem (m.here cpu)) own =
    type.pick (tableWords m.idtr (m.mem (m.here cpu) (own + pkCtxIdtr + 8)))
      (idtrWords (m.mem (m.here cpu)) own)
  rsi : t.mem (m.here cpu) (own + pkCtxRsi) = m.mem (m.here cpu) (own + pkCtxRsi)
  notes : ∀ disp, disp < 248 →
    t.mem (m.here cpu) (own + disp) = noted.mem (m.here cpu) (own + disp)
  frame : ∀ s a, (s = m.here cpu → ¬ Half own a) → t.mem s a = m.mem s a

theorem Noted.clear {cpu : Cpu Space} {type : Variant} {own other : Word} {m m1 m2 : Machine Space}
    (noted : Noted cpu own m1 m2) (saved : Saved cpu type own m m1)
    (apart : ∀ a, Half other a → ¬ Half own a) :
    type = .slow → ∀ a, Half other a → ¬ Spilled (m2.gpr .rsp) a := by
  intro slow a inside spilled
  rw [noted.rsp,saved.stack slow] at spilled
  exact apart a inside (spilled_half spilled)

theorem swapped {cpu : Cpu Space} {type : Variant} {own other : Word} {m m1 m2 m3 : Machine Space}
    (apart : ∀ a, Half other a → ¬ Half own a) (saved : Saved cpu type own m m1)
    (noted : Noted cpu own m1 m2) (restored : Restored cpu type other m2 m3) :
    Swapped cpu type own other m m2 m3 := by
  have here1 : m1.here cpu = m.here cpu := here_congr saved.cr3
  have here2 : m2.here cpu = m.here cpu := (here_congr noted.cr3).trans here1
  have notedFrame := noted.frame
  have notedWords := noted.words
  have restoredFrame := restored.frame
  rw [here1] at notedFrame notedWords
  rw [here2] at restoredFrame
  have frame2 : ∀ s a, (s = m.here cpu → ¬ Half own a) → m2.mem s a = m.mem s a := by
    intro s a outside
    rw [notedFrame s a outside,saved.frame s a outside]
  have others : ∀ disp, disp < 248 →
      m2.mem (m.here cpu) (other + disp) = m.mem (m.here cpu) (other + disp) :=
    fun disp small => frame2 _ _ fun _ => not_half_of_apart apart small
  have notes : ∀ disp, disp < 248 →
      m3.mem (m.here cpu) (own + disp) = m2.mem (m.here cpu) (own + disp) := by
    intro disp small
    apply restoredFrame _ _
    intro slow _
    rw [noted.rsp,saved.stack slow]
    exact not_spilled own small
  have extras : ∀ disp ∈ extraWords,
      m3.mem (m.here cpu) (own + disp) = m1.mem (m.here cpu) (own + disp) := by
    intro disp word
    rw [notes disp (extraWords_small disp word),notedWords disp (extraWords_own disp word)]
  exact {
    cr3 := by rw [restored.cr3,noted.cr3,saved.cr3]
    context := by
      rw [restored.context,here2]
      exact contextAt_congr fun disp word => others disp (contextWords_small disp word)
    extra := by
      have other := extraAt_congr fun disp word => others disp (extraWords_small disp word)
      rw [restored.extra,here2,other,noted.extra,saved.kept]
    saved := by
      rw [← saved.context]
      refine contextAt_congr fun disp word => ?_
      rw [notes disp (contextWords_small disp word),notedWords disp (contextWords_own disp word)]
    savedExtra := by
      rw [← saved.extra]
      exact extraAt_congr extras
    savedIdtr := by
      rw [← saved.idtr]
      exact idtrWords_congr extras
    rsi := by
      rw [notes pkCtxRsi (by decide),notedWords pkCtxRsi (List.mem_cons_self ..),
        saved.notes pkCtxRsi (List.mem_cons_self ..)]
    notes := notes
    frame := by
      intro s a outside
      rw [restoredFrame s a,frame2 s a outside]
      intro slow here spilled
      rw [noted.rsp,saved.stack slow] at spilled
      exact outside here (spilled_half spilled) }

variable [DecidableEq Space]

/-- A store into a half is not seen outside it, nor under another displacement. -/
theorem setWord_half {mem : Space → Word → Word} {space s : Space} {own disp value a : Word}
    (small : disp < 480#64) (outside : s = space → ¬ Half own a) :
    setWord mem space (own + disp) value s a = mem s a := by
  apply if_neg
  rintro ⟨same,rfl⟩
  exact outside same ((half_add own disp).mpr small)

omit [DecidableEq Space] in
/-- The address of the own half may be put into a register of neither type first. -/
theorem Saved.of_set {cpu : Cpu Space} {type : Variant} {own : Word} {m t : Machine Space}
    {reg : Gpr} {value : Word} (other : reg ∉ [.rbx,.rbp,.r12,.r13,.r14,.r15,.rsp])
    (saved : Saved cpu type own (m.set reg value) t) : Saved cpu type own m t where
  stack := saved.stack
  cr3 := saved.cr3
  kept := saved.kept
  context := by
    refine Eq.trans saved.context (contextOf_congr ?_ rfl rfl)
    intro r context
    have apart : r ≠ reg := by
      rintro rfl
      exact other context
    exact if_neg apart
  extra := saved.extra
  idtr := saved.idtr
  notes := saved.notes
  frame := saved.frame

/-! `pk_rkret`. -/

/-- What `pk_rkret` has done when it jumps into the guest. -/
structure Resumed (cpu : Cpu Space) (type : Variant) (back : Word) (m t : Machine Space) : Prop where
  context : contextOf t = contextAt (m.mem (m.here cpu)) (m.gpr .rdi)
  extra : extraOf t = type.pick (extraAt (m.mem (m.here cpu)) (m.gpr .rdi)) (extraOf m)
  rsi : t.gpr .rsi = m.mem (m.here cpu) (m.gpr .rdi + pkCtxRsi)
  rdx : t.gpr .rdx = m.mem (m.here cpu) (m.gpr .rdi + pkCtxRdx)
  rip : t.rip = m.mem (m.here cpu) (m.gpr .rdi + pkCtxRip)
  cr3 : t.cr3 = dropNoFlush (m.mem (m.here cpu) (m.gpr .rdi + pkCtxCr3))
  saved : contextAt (t.mem (m.here cpu)) (m.gpr .rdi + pkCtxSize) = contextOf m
  savedExtra : extraAt (t.mem (m.here cpu)) (m.gpr .rdi + pkCtxSize) =
    type.pick (extraOf m) (extraAt (m.mem (m.here cpu)) (m.gpr .rdi + pkCtxSize))
  savedIdtr : idtrWords (t.mem (m.here cpu)) (m.gpr .rdi + pkCtxSize) =
    type.pick (tableWords m.idtr (m.mem (m.here cpu) (m.gpr .rdi + pkCtxSize + pkCtxIdtr + 8)))
      (idtrWords (m.mem (m.here cpu)) (m.gpr .rdi + pkCtxSize))
  savedRip : t.mem (m.here cpu) (m.gpr .rdi + pkCtxSize + pkCtxRip) = back
  frame : ∀ s a, (s = m.here cpu → ¬ Half (m.gpr .rdi + pkCtxSize) a) → t.mem s a = m.mem s a

/-- The words written between the macros. -/
def rkretNotes (back : Word) : List Instr := [.leaRip back .r8,.store .r8 pkCtxRip .rax]

theorem rkretNotes_noted (cpu : Cpu Space) (back : Word) (m : Machine Space) :
    Noted cpu (m.gpr .rax) m (run cpu (rkretNotes back) m) where
  cr3 := rfl
  rsp := rfl
  extra := rfl
  words := by
    intro disp word
    apply setWord_disp
    rintro rfl
    simp [ownWords,contextWords,extraWords] at word
  frame := by
    intro s a outside
    exact setWord_half (by decide) outside

/-- The loads after the macros. -/
def rkretLoads : List Instr :=
  [.load pkCtxRsi .rdi .rsi,.load pkCtxRdx .rdi .rdx,.load pkCtxCr3 .rdi .rax,
    .load pkCtxRip .rdi .rcx]

theorem rkretLoads_context (cpu : Cpu Space) (m : Machine Space) :
    contextOf (run cpu rkretLoads m) = contextOf m := by
  refine contextOf_congr ?_ rfl rfl
  intro r context
  simp only [List.mem_cons,List.not_mem_nil,or_false] at context
  rcases context with rfl | rfl | rfl | rfl | rfl | rfl | rfl <;> rfl

omit [DecidableEq Space] in
theorem Rooted.context {root : Word} {regs : List Gpr} {m t : Machine Space}
    (rooted : Rooted root regs m t)
    (temps : ∀ r ∈ regs, r ∉ [.rbx,.rbp,.r12,.r13,.r14,.r15,.rsp]) : contextOf t = contextOf m :=
  contextOf_congr (fun r context => rooted.gpr r fun temp => temps r temp context) rooted.msr
    rooted.gdtr

theorem pkRkret_spec (cpu : Cpu Space) (type : Variant) (back : Word) (m : Machine Space) :
    Resumed cpu type back m (run cpu (pkRkret type back) m) := by
  have apart : ∀ a, Half (m.gpr .rdi) a → ¬ Half (m.gpr .rdi + pkCtxSize) a :=
    fun a => half_disjoint
  have lea : run cpu [.lea pkCtxSize .rdi .rax] m = m.set .rax (m.gpr .rdi + pkCtxSize) := rfl
  have split : run cpu (pkRkret type back) m = run cpu [.jmp .rcx]
      (run cpu (writeCr3 type .rax .r9 .r10) (run cpu rkretLoads
      (run cpu (rstorCtx type .rdi .r11) (run cpu (rkretNotes back)
      (run cpu (saveCtx type .rax .r11) (m.set .rax (m.gpr .rdi + pkCtxSize))))))) := by
    simp only [pkRkret,run_append,lea,rkretNotes,rkretLoads]
  rw [split]
  have saved := (saveCtx_spec cpu (m.set .rax (m.gpr .rdi + pkCtxSize)) type .rax
    (m.set_same ..) (by decide) (by decide)).of_set (by decide)
  have rax1 := (saveCtx_gpr cpu (m.set .rax (m.gpr .rdi + pkCtxSize)) type .rax
    (by decide) (by decide)).trans (m.set_same .rax (m.gpr .rdi + pkCtxSize))
  have rdi1 := (saveCtx_gpr cpu (m.set .rax (m.gpr .rdi + pkCtxSize)) type .rax
    (by decide) (by decide)).trans (m.set_other (m.gpr .rdi + pkCtxSize) (by decide : Gpr.rdi ≠ .rax))
  generalize run cpu (saveCtx type .rax .r11) _ = m1 at *
  have noted := rkretNotes_noted cpu back m1
  have rip2 : (run cpu (rkretNotes back) m1).mem (m1.here cpu) (m1.gpr .rax + pkCtxRip) = back :=
    setWord_here
  have rdi2 : (run cpu (rkretNotes back) m1).gpr .rdi = m.gpr .rdi := rdi1
  rw [rax1] at noted rip2
  generalize run cpu (rkretNotes back) m1 = m2 at *
  have restored := rstorCtx_spec cpu m2 type .rdi rdi2 (by decide) (noted.clear saved apart)
  have rdi3 := (restored.gpr .rdi (by decide)).trans rdi2
  have swap := swapped apart saved noted restored
  generalize run cpu (rstorCtx type .rdi .r11) m2 = m3 at *
  have word3 : ∀ disp, disp < 248 → m3.mem (m3.here cpu) (m3.gpr .rdi + disp) =
      m.mem (m.here cpu) (m.gpr .rdi + disp) := by
    intro disp small
    rw [here_congr swap.cr3,rdi3]
    exact swap.frame _ _ fun _ => not_half_of_apart apart small
  have context4 := (rkretLoads_context cpu m3).trans swap.context
  have rax4 : (run cpu rkretLoads m3).gpr .rax = m.mem (m.here cpu) (m.gpr .rdi + pkCtxCr3) :=
    word3 pkCtxCr3 (by decide)
  have rcx4 : (run cpu rkretLoads m3).gpr .rcx = m.mem (m.here cpu) (m.gpr .rdi + pkCtxRip) :=
    word3 pkCtxRip (by decide)
  have rsi4 : (run cpu rkretLoads m3).gpr .rsi = m.mem (m.here cpu) (m.gpr .rdi + pkCtxRsi) :=
    word3 pkCtxRsi (by decide)
  have rdx4 : (run cpu rkretLoads m3).gpr .rdx = m.mem (m.here cpu) (m.gpr .rdi + pkCtxRdx) :=
    word3 pkCtxRdx (by decide)
  have mem4 : (run cpu rkretLoads m3).mem = m3.mem := rfl
  have extra4 : extraOf (run cpu rkretLoads m3) = extraOf m3 := rfl
  generalize run cpu rkretLoads m3 = m4 at *
  have rooted := writeCr3_spec cpu m4 type .rax .r9 .r10 rax4 (by decide) (by decide)
  have mem5 := rooted.mem.trans mem4
  generalize run cpu (writeCr3 type .rax .r9 .r10) m4 = m5 at *
  exact {
    context := (rooted.context (by decide)).trans context4
    extra := rooted.extra.trans (extra4.trans swap.extra)
    rsi := (rooted.gpr .rsi (by decide)).trans rsi4
    rdx := (rooted.gpr .rdx (by decide)).trans rdx4
    rip := (rooted.gpr .rcx (by decide)).trans rcx4
    cr3 := rooted.cr3
    saved := by
      rw [← swap.saved,← mem5]
      rfl
    savedExtra := by
      rw [← swap.savedExtra,← mem5]
      rfl
    savedIdtr := by
      rw [← swap.savedIdtr,← mem5]
      rfl
    savedRip := by
      have noted := swap.notes pkCtxRip (by decide)
      rw [← here_congr saved.cr3,rip2,here_congr saved.cr3,← mem5] at noted
      exact noted
    frame := by
      intro s a outside
      rw [← swap.frame s a outside,← mem5]
      rfl }

/-! `__pk_rkcall`. -/

/-- The space the call switches to. -/
def hostOf (cpu : Cpu Space) (m : Machine Space) : Space := cpu.space (frameOf (m.gpr .rdi))

/-- What `__pk_rkcall` has done when it jumps into the host. -/
structure Entered (cpu : Cpu Space) (type : Variant) (back : Word) (m t : Machine Space) : Prop where
  context : contextOf t = contextAt (m.mem (hostOf cpu m)) (m.gpr .rsi + pkCtxSize)
  extra : extraOf t =
    type.pick (extraAt (m.mem (hostOf cpu m)) (m.gpr .rsi + pkCtxSize)) (extraOf m)
  rip : t.rip = m.mem (hostOf cpu m) (m.gpr .rsi + pkCtxSize + pkCtxRip)
  cr3 : t.cr3 = dropNoFlush (m.gpr .rdi)
  saved : contextAt (t.mem (hostOf cpu m)) (m.gpr .rsi) =
    { contextOf m with rsp := m.gpr .rsp - 8 }
  savedExtra : extraAt (t.mem (hostOf cpu m)) (m.gpr .rsi) =
    type.pick (extraOf m) (extraAt (m.mem (hostOf cpu m)) (m.gpr .rsi))
  savedIdtr : idtrWords (t.mem (hostOf cpu m)) (m.gpr .rsi) =
    type.pick (tableWords m.idtr (m.mem (hostOf cpu m) (m.gpr .rsi + pkCtxIdtr + 8)))
      (idtrWords (m.mem (hostOf cpu m)) (m.gpr .rsi))
  rsi : t.mem (hostOf cpu m) (m.gpr .rsi + pkCtxRsi) = m.mem (hostOf cpu m) (m.gpr .rsi + pkCtxRsi)
  rdx : t.mem (hostOf cpu m) (m.gpr .rsi + pkCtxRdx) = m.gpr .rdx
  rcx : t.mem (hostOf cpu m) (m.gpr .rsi + pkCtxRcx) = m.gpr .rcx
  r8 : t.mem (hostOf cpu m) (m.gpr .rsi + pkCtxR8) = m.gpr .r8
  r9 : t.mem (hostOf cpu m) (m.gpr .rsi + pkCtxR9) = m.gpr .r9
  savedCr3 : t.mem (hostOf cpu m) (m.gpr .rsi + pkCtxCr3) = m.cr3
  savedRip : t.mem (hostOf cpu m) (m.gpr .rsi + pkCtxRip) = back
  savedFlags : t.mem (m.here cpu) (m.gpr .rsp - 8) = m.rflags
  frame : ∀ s a, (s = hostOf cpu m → ¬ Half (m.gpr .rsi) a) →
    (s = m.here cpu → a ≠ m.gpr .rsp - 8) → t.mem s a = m.mem s a

def rkcallNotes (back : Word) : List Instr :=
  [.store .rdx pkCtxRdx .rsi,.store .rcx pkCtxRcx .rsi,.store .r8 pkCtxR8 .rsi,
    .store .r9 pkCtxR9 .rsi,.store .rax pkCtxCr3 .rsi,.leaRip back .rax,
    .store .rax pkCtxRip .rsi,.lea pkCtxSize .rsi .rcx]

theorem noteWords_apart : ∀ disp ∈ ownWords, ∀ note ∈ noteWords, disp ≠ note := by
  simp [ownWords,contextWords,extraWords,noteWords]

/-- The arguments, the root and the resume address, noted in the half at `own`. -/
def rkcallWords (m : Machine Space) (mem : Space → Word → Word) (space : Space) (own back : Word) :
    Space → Word → Word :=
  setWord (setWord (setWord (setWord (setWord (setWord mem
    space (own + pkCtxRdx) (m.gpr .rdx)) space (own + pkCtxRcx) (m.gpr .rcx))
    space (own + pkCtxR8) (m.gpr .r8)) space (own + pkCtxR9) (m.gpr .r9))
    space (own + pkCtxCr3) (m.gpr .rax)) space (own + pkCtxRip) back

theorem rkcallWords_word (m : Machine Space) (mem : Space → Word → Word) (space s : Space)
    (own back : Word) {disp : Word} (word : disp ∈ ownWords) :
    rkcallWords m mem space own back s (own + disp) = mem s (own + disp) := by
  have apart := noteWords_apart disp word
  simp only [noteWords,List.forall_mem_cons] at apart
  obtain ⟨rdx,rcx,r8,r9,cr3,rip,_⟩ := apart
  rw [rkcallWords,setWord_disp rip,setWord_disp cr3,setWord_disp r9,setWord_disp r8,
    setWord_disp rcx,setWord_disp rdx]

theorem rkcallWords_frame (m : Machine Space) (mem : Space → Word → Word) {space s : Space}
    {own a : Word} (back : Word) (outside : s = space → ¬ Half own a) :
    rkcallWords m mem space own back s a = mem s a := by
  rw [rkcallWords,setWord_half (by decide) outside,setWord_half (by decide) outside,
    setWord_half (by decide) outside,setWord_half (by decide) outside,
    setWord_half (by decide) outside,setWord_half (by decide) outside]

theorem rkcallWords_notes (m : Machine Space) (mem : Space → Word → Word) (space : Space)
    (own back : Word) :
    let noted := rkcallWords m mem space own back space
    noted (own + pkCtxRdx) = m.gpr .rdx ∧ noted (own + pkCtxRcx) = m.gpr .rcx ∧
    noted (own + pkCtxR8) = m.gpr .r8 ∧ noted (own + pkCtxR9) = m.gpr .r9 ∧
    noted (own + pkCtxCr3) = m.gpr .rax ∧ noted (own + pkCtxRip) = back := by
  refine ⟨?_,?_,?_,?_,?_,setWord_here⟩
  · rw [rkcallWords,setWord_disp (by decide),setWord_disp (by decide),setWord_disp (by decide),
      setWord_disp (by decide),setWord_disp (by decide),setWord_here]
  · rw [rkcallWords,setWord_disp (by decide),setWord_disp (by decide),setWord_disp (by decide),
      setWord_disp (by decide),setWord_here]
  · rw [rkcallWords,setWord_disp (by decide),setWord_disp (by decide),setWord_disp (by decide),
      setWord_here]
  · rw [rkcallWords,setWord_disp (by decide),setWord_disp (by decide),setWord_here]
  · rw [rkcallWords,setWord_disp (by decide),setWord_here]

theorem rkcallNotes_run (cpu : Cpu Space) (back : Word) (m : Machine Space) :
    run cpu (rkcallNotes back) m = { m with
      gpr := setReg (setReg m.gpr .rax back) .rcx (m.gpr .rsi + pkCtxSize)
      mem := rkcallWords m m.mem (m.here cpu) (m.gpr .rsi) back } := by
  simp -implicitDefEqProofs [rkcallNotes,rkcallWords]

theorem rkcallNotes_noted (cpu : Cpu Space) (back : Word) (m : Machine Space) :
    Noted cpu (m.gpr .rsi) m (run cpu (rkcallNotes back) m) := by
  rw [rkcallNotes_run]
  exact {
    cr3 := rfl
    rsp := rfl
    extra := rfl
    words := fun disp word => rkcallWords_word m m.mem _ _ _ back word
    frame := fun s a outside => rkcallWords_frame m m.mem back outside }

def rkcallStart : List Instr := [.pushfq,.cli,.readCr3 .rax]

/-- The call has pushed the flags and runs on the host's page tables. -/
structure Started (cpu : Cpu Space) (m t : Machine Space) : Prop where
  gpr : ∀ r, r ∉ [.rdi,.r10,.r11,.rsp,.rax] → t.gpr r = m.gpr r
  rax : t.gpr .rax = m.cr3
  cr3 : t.cr3 = dropNoFlush (m.gpr .rdi)
  context : contextOf t = { contextOf m with rsp := m.gpr .rsp - 8 }
  extra : extraOf t = extraOf m
  mem : t.mem = setWord m.mem (m.here cpu) (m.gpr .rsp - 8) m.rflags

theorem rkcallStart_spec (cpu : Cpu Space) (type : Variant) (m : Machine Space) :
    Started cpu m (run cpu (writeCr3 type .rdi .r10 .r11) (run cpu rkcallStart m)) := by
  have rooted := writeCr3_spec cpu (run cpu rkcallStart m) type .rdi .r10 .r11 rfl (by decide)
    (by decide)
  exact {
    gpr := by
      intro r other
      simp only [List.mem_cons,List.not_mem_nil,or_false,not_or] at other
      rw [rooted.gpr r (by simp [other])]
      simp -implicitDefEqProofs [rkcallStart,other]
    rax := rooted.gpr .rax (by decide)
    cr3 := rooted.cr3
    context := rooted.context (by decide)
    extra := rooted.extra
    mem := rooted.mem }

theorem pkRkcall_spec (cpu : Cpu Space) (type : Variant) (back : Word) (m : Machine Space)
    (apartSpaces : m.here cpu ≠ hostOf cpu m) :
    Entered cpu type back m (run cpu (pkRkcall type back) m) := by
  have apart : ∀ a, Half (m.gpr .rsi + pkCtxSize) a → ¬ Half (m.gpr .rsi) a :=
    fun a high low => half_disjoint low high
  have split : run cpu (pkRkcall type back) m = run cpu [.load pkCtxRip .rcx .rcx,.jmp .rcx]
      (run cpu (rstorCtx type .rcx .r11) (run cpu (rkcallNotes back)
      (run cpu (saveCtx type .rsi .r11) (run cpu (writeCr3 type .rdi .r10 .r11)
      (run cpu rkcallStart m))))) := by
    simp only [pkRkcall,run_append,rkcallNotes,rkcallStart]
  rw [split]
  have started := rkcallStart_spec cpu type m
  generalize run cpu (writeCr3 type .rdi .r10 .r11) (run cpu rkcallStart m) = m1 at *
  have here1 : m1.here cpu = hostOf cpu m := by
    rw [Machine.here,started.cr3,frameOf_dropNoFlush,hostOf]
  have rsi1 := started.gpr .rsi (by decide)
  have mem1 : ∀ s a, (s = m.here cpu → a ≠ m.gpr .rsp - 8) → m1.mem s a = m.mem s a := by
    intro s a other
    rw [started.mem]
    exact if_neg fun same => other same.1 same.2
  have hostMem : ∀ a, m1.mem (m1.here cpu) a = m.mem (hostOf cpu m) a := by
    intro a
    rw [here1]
    exact mem1 _ a fun same => absurd same.symm apartSpaces
  have saved := saveCtx_spec cpu m1 type .rsi rsi1 (by decide) (by decide)
  have gpr2 : ∀ r, r ≠ .rsp → r ≠ .r11 →
      (run cpu (saveCtx type .rsi .r11) m1).gpr r = m1.gpr r :=
    fun r notRsp notR11 => saveCtx_gpr cpu m1 type .rsi notRsp notR11
  generalize run cpu (saveCtx type .rsi .r11) m1 = m2 at *
  have rsi2 : m2.gpr .rsi = m.gpr .rsi := (gpr2 .rsi (by decide) (by decide)).trans rsi1
  have noted := rkcallNotes_noted cpu back m2
  have rcx3 : (run cpu (rkcallNotes back) m2).gpr .rcx = m.gpr .rsi + pkCtxSize := by
    rw [rkcallNotes_run,← rsi2]
    rfl
  have mem3 : (run cpu (rkcallNotes back) m2).mem =
      rkcallWords m2 m2.mem (m2.here cpu) (m2.gpr .rsi) back := by
    rw [rkcallNotes_run]
  rw [rsi2] at noted mem3
  generalize run cpu (rkcallNotes back) m2 = m3 at *
  have restored := rstorCtx_spec cpu m3 type .rcx rcx3 (by decide) (noted.clear saved apart)
  have rcx4 := (restored.gpr .rcx (by decide)).trans rcx3
  have swap := swapped apart saved noted restored
  generalize run cpu (rstorCtx type .rcx .r11) m3 = m4 at *
  have here2 : m2.here cpu = m1.here cpu := here_congr saved.cr3
  have hostMem4 : m1.mem (m1.here cpu) = m.mem (hostOf cpu m) := funext hostMem
  have notes : ∀ disp, disp < 248 → m4.mem (hostOf cpu m) (m.gpr .rsi + disp) =
      rkcallWords m2 m2.mem (hostOf cpu m) (m.gpr .rsi) back (hostOf cpu m) (m.gpr .rsi + disp) := by
    intro disp small
    have noted := swap.notes disp small
    rwa [mem3,here2,here1] at noted
  obtain ⟨rdx,rcx,r8,r9,cr3,rip⟩ :=
    rkcallWords_notes m2 m2.mem (hostOf cpu m) (m.gpr .rsi) back
  have frame4 : ∀ s a, (s = hostOf cpu m → ¬ Half (m.gpr .rsi) a) →
      (s = m.here cpu → a ≠ m.gpr .rsp - 8) → m4.mem s a = m.mem s a := by
    intro s a outside other
    rw [swap.frame s a (by rwa [here1]),mem1 s a other]
  have arg : ∀ r, r ∉ [.rdi,.r10,.r11,.rsp,.rax] → m2.gpr r = m.gpr r := by
    intro r other
    have kept := started.gpr r other
    simp only [List.mem_cons,List.not_mem_nil,or_false,not_or] at other
    rw [gpr2 r other.2.2.2.1 other.2.2.1,kept]
  exact {
    context := by
      rw [← hostMem4,← swap.context]
      rfl
    extra := by
      rw [← hostMem4,← started.extra,← swap.extra]
      rfl
    rip := by
      have value : (run cpu [.load pkCtxRip .rcx .rcx,.jmp .rcx] m4).rip =
        m4.mem (m4.here cpu) (m4.gpr .rcx + pkCtxRip) := rfl
      rw [value,rcx4,here_congr swap.cr3,here1]
      exact frame4 _ _ (fun _ => not_half_of_apart apart (by decide))
        fun same => absurd same.symm apartSpaces
    cr3 := swap.cr3.trans started.cr3
    saved := by
      rw [← started.context,← swap.saved,here1]
      rfl
    savedExtra := by
      rw [← hostMem4,← started.extra,← here1,← swap.savedExtra]
      rfl
    savedIdtr := by
      have idtr : m1.idtr = m.idtr := congrArg Extra.idtr started.extra
      rw [← hostMem4,← here1,← idtr,← swap.savedIdtr]
      rfl
    rsi := by
      rw [← hostMem4,← swap.rsi,here1]
      rfl
    rdx := ((notes _ (by decide)).trans rdx).trans (arg .rdx (by decide))
    rcx := ((notes _ (by decide)).trans rcx).trans (arg .rcx (by decide))
    r8 := ((notes _ (by decide)).trans r8).trans (arg .r8 (by decide))
    r9 := ((notes _ (by decide)).trans r9).trans (arg .r9 (by decide))
    savedCr3 := ((notes _ (by decide)).trans cr3).trans
      ((gpr2 .rax (by decide) (by decide)).trans started.rax)
    savedRip := (notes _ (by decide)).trans rip
    savedFlags := by
      have flags := swap.frame (m.here cpu) (m.gpr .rsp - 8)
        fun same => absurd (same.trans here1) apartSpaces
      rw [started.mem,setWord_here] at flags
      exact flags
    frame := frame4 }

end Cki.Switch
