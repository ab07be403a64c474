import Cki.PageTable

/-! A part of the x86-64 machine at privilege level 0: the general registers, the
system registers a world switch touches, and one memory for each address space.
Operands stand in AT&T order. Memory is read and written in 8-byte words under
their address, which is exact for code whose accesses are all aligned alike. The
flags that POPFQ does not load are constant in 64-bit kernel code. -/
namespace Cki.Asm

universe u

inductive Gpr where
  | rax | rcx | rdx | rbx | rsp | rbp | rsi | rdi
  | r8 | r9 | r10 | r11 | r12 | r13 | r14 | r15
  deriving DecidableEq, Repr

structure Machine (Space : Type u) where
  gpr : Gpr → Word
  rflags : Word
  rip : Word
  cr3 : Word
  cr4 : Word
  msr : BitVec 32 → Word
  idtr : BitVec 80
  gdtr : BitVec 80
  mem : Space → Word → Word

/-- The address space under a page-table base, and the status flags an arithmetic
instruction leaves for its operands. -/
structure Cpu (Space : Type u) where
  space : Frame → Space
  status : Word → Word → Word

def msrFsBase : BitVec 32 := 0xc0000100
def msrGsBase : BitVec 32 := 0xc0000101
def msrKernelGsBase : BitVec 32 := 0xc0000102

/-- CF, PF, AF, ZF, SF and OF. -/
def statusMask : Word := 0x8d5
def interruptFlag : Word := 0x200

def setReg (gpr : Gpr → Word) (reg : Gpr) (value : Word) : Gpr → Word :=
  fun other => if other = reg then value else gpr other

@[simp] theorem setReg_apply (gpr : Gpr → Word) (reg other : Gpr) (value : Word) :
    setReg gpr reg value other = if other = reg then value else gpr other := rfl

def setMsr (msr : BitVec 32 → Word) (number : BitVec 32) (value : Word) : BitVec 32 → Word :=
  fun other => if other = number then value else msr other

inductive Instr where
  | mov (src dst : Gpr)
  | movImm (imm : Word) (dst : Gpr)
  | movl (src dst : Gpr)
  | movlImm (imm : BitVec 32) (dst : Gpr)
  | load (disp : Word) (base dst : Gpr)
  | store (src : Gpr) (disp : Word) (base : Gpr)
  | lea (disp : Word) (base dst : Gpr)
  | leaRip (target : Word) (dst : Gpr)
  | xorImm (imm : Word) (dst : Gpr)
  | or (src dst : Gpr)
  | shlImm (count : Nat) (dst : Gpr)
  | shrImm (count : Nat) (dst : Gpr)
  | push (src : Gpr)
  | pop (dst : Gpr)
  | pushfq
  | popfq
  | cli
  | readCr3 (dst : Gpr)
  | writeCr3 (src : Gpr)
  | readCr4 (dst : Gpr)
  | writeCr4 (src : Gpr)
  | rdmsr
  | wrmsr
  | rdfsbase (dst : Gpr)
  | wrfsbase (src : Gpr)
  | rdgsbase (dst : Gpr)
  | wrgsbase (src : Gpr)
  | sidt (disp : Word) (base : Gpr)
  | lidt (disp : Word) (base : Gpr)
  | sgdt (disp : Word) (base : Gpr)
  | lgdt (disp : Word) (base : Gpr)
  | jmp (target : Gpr)
  | call (back target : Word)
  | ret
  deriving DecidableEq, Repr

variable {Space : Type u}

/-- The address space in force. -/
@[simp] def Machine.here (m : Machine Space) (cpu : Cpu Space) : Space := cpu.space (frameOf m.cr3)

@[simp] def Machine.word (m : Machine Space) (cpu : Cpu Space) (addr : Word) : Word :=
  m.mem (m.here cpu) addr

@[simp] def Machine.set (m : Machine Space) (reg : Gpr) (value : Word) : Machine Space :=
  { m with gpr := setReg m.gpr reg value }

theorem Machine.set_same (m : Machine Space) (reg : Gpr) (value : Word) :
    (m.set reg value).gpr reg = value := if_pos rfl

theorem Machine.set_other (m : Machine Space) {reg other : Gpr} (value : Word)
    (apart : other ≠ reg) : (m.set reg value).gpr other = m.gpr other := if_neg apart

variable [DecidableEq Space]

def setWord (mem : Space → Word → Word) (space : Space) (addr value : Word) :
    Space → Word → Word :=
  fun s a => if s = space ∧ a = addr then value else mem s a

@[simp] theorem setWord_apply (mem : Space → Word → Word) (space s : Space) (addr value a : Word) :
    setWord mem space addr value s a = if s = space ∧ a = addr then value else mem s a := rfl

theorem setWord_disp {mem : Space → Word → Word} {space s : Space} {own disp other value : Word}
    (apart : other ≠ disp) :
    setWord mem space (own + disp) value s (own + other) = mem s (own + other) := by
  apply if_neg
  rintro ⟨_,same⟩
  exact apart ((BitVec.add_right_inj own).mp same)

theorem setWord_space {mem : Space → Word → Word} {space s : Space} {addr value a : Word}
    (apart : s ≠ space) : setWord mem space addr value s a = mem s a :=
  if_neg fun same => apart same.1

theorem setWord_here {mem : Space → Word → Word} {space : Space} {addr value : Word} :
    setWord mem space addr value space addr = value := if_pos ⟨rfl,rfl⟩

/-- Words stored one after the other, at their displacements from a base. -/
def setWords (mem : Space → Word → Word) (space : Space) (base : Word) (words : List (Word × Word)) :
    Space → Word → Word :=
  words.foldl (fun mem word => setWord mem space (base + word.1) word.2) mem

theorem setWords_disp (mem : Space → Word → Word) (space : Space) (base : Word)
    {words : List (Word × Word)} (once : (words.map Prod.fst).Nodup) (disp : Word) :
    setWords mem space base words space (base + disp) =
      (words.lookup disp).getD (mem space (base + disp)) := by
  induction words generalizing mem with
  | nil => rfl
  | cons word words ih =>
    obtain ⟨own,value⟩ := word
    rw [List.map_cons,List.nodup_cons] at once
    rw [setWords,List.foldl_cons]
    refine (ih _ once.2).trans ?_
    by_cases same : disp = own
    · subst same
      have later : words.lookup disp = none := by
        rw [List.lookup_eq_none_iff]
        intro word member
        have apart : disp ≠ word.1 := by
          rintro rfl
          exact once.1 (List.mem_map.mpr ⟨word,member,rfl⟩)
        exact bne_iff_ne.mpr apart
      rw [later,List.lookup_cons_self]
      exact setWord_here
    · rw [List.lookup_cons,beq_false_of_ne same,setWord_disp same]

theorem setWords_other {mem : Space → Word → Word} {space s : Space} {base a : Word}
    {words : List (Word × Word)} (apart : ∀ word ∈ words, a ≠ base + word.1) :
    setWords mem space base words s a = mem s a := by
  induction words generalizing mem with
  | nil => rfl
  | cons word words ih =>
    rw [setWords,List.foldl_cons]
    refine (ih fun word member => apart word (List.mem_cons_of_mem _ member)).trans ?_
    exact if_neg fun same => apart word List.mem_cons_self same.2

@[simp] def Machine.setWord (m : Machine Space) (cpu : Cpu Space) (addr value : Word) : Machine Space :=
  { m with mem := Asm.setWord m.mem (m.here cpu) addr value }

/-- Arithmetic replaces the status flags and keeps the others. -/
def Cpu.flags (cpu : Cpu Space) (rflags left right : Word) : Word :=
  rflags &&& ~~~statusMask ||| cpu.status left right &&& statusMask

@[simp] def Machine.arith (m : Machine Space) (cpu : Cpu Space) (dst : Gpr) (operand value : Word) :
    Machine Space :=
  { m with gpr := setReg m.gpr dst value, rflags := cpu.flags m.rflags (m.gpr dst) operand }

/-- The 10 bytes of a descriptor-table register in two words of memory. -/
def tableWords (table : BitVec 80) (old : Word) : Word × Word :=
  (table.extractLsb' 0 64,old.extractLsb' 16 48 ++ table.extractLsb' 64 16)

def tableOf (low high : Word) : BitVec 80 := high.extractLsb' 0 16 ++ low

theorem tableOf_tableWords (table : BitVec 80) (old : Word) :
    tableOf (tableWords table old).1 (tableWords table old).2 = table := by
  apply BitVec.eq_of_getLsbD_eq
  intro i hi
  simp only [tableOf,tableWords]
  grind

theorem tableWords_upper (table : BitVec 80) (old : Word) :
    (tableWords table old).2.extractLsb' 16 48 = old.extractLsb' 16 48 := by
  apply BitVec.eq_of_getLsbD_eq
  intro i hi
  simp only [tableWords]
  grind

@[simp] def Machine.storeTable (m : Machine Space) (cpu : Cpu Space) (addr : Word) (table : BitVec 80) :
    Machine Space :=
  let words := tableWords table (m.word cpu (addr + 8))
  (m.setWord cpu addr words.1).setWord cpu (addr + 8) words.2

@[simp] def Machine.loadTable (m : Machine Space) (cpu : Cpu Space) (addr : Word) : BitVec 80 :=
  tableOf (m.word cpu addr) (m.word cpu (addr + 8))

@[simp] def Machine.pushWord (m : Machine Space) (cpu : Cpu Space) (value : Word) : Machine Space :=
  (m.setWord cpu (m.gpr .rsp - 8) value).set .rsp (m.gpr .rsp - 8)

/-! The model-specific registers pass through EDX:EAX. -/

theorem halves_read (value : Word) :
    value >>> 32 <<< 32 ||| (value.setWidth 32).setWidth 64 = value := by
  apply BitVec.eq_of_getLsbD_eq
  intro i hi
  grind

theorem halves_write (value : Word) :
    (value >>> 32).setWidth 32 ++ value.setWidth 32 = value := by
  apply BitVec.eq_of_getLsbD_eq
  intro i hi
  grind

@[simp] def exec (cpu : Cpu Space) (m : Machine Space) : Instr → Machine Space
  | .mov src dst => m.set dst (m.gpr src)
  | .movImm imm dst => m.set dst imm
  | .movl src dst => m.set dst ((m.gpr src).setWidth 32 |>.setWidth 64)
  | .movlImm imm dst => m.set dst (imm.setWidth 64)
  | .load disp base dst => m.set dst (m.word cpu (m.gpr base + disp))
  | .store src disp base => m.setWord cpu (m.gpr base + disp) (m.gpr src)
  | .lea disp base dst => m.set dst (m.gpr base + disp)
  | .leaRip target dst => m.set dst target
  | .xorImm imm dst => m.arith cpu dst imm (m.gpr dst ^^^ imm)
  | .or src dst => m.arith cpu dst (m.gpr src) (m.gpr dst ||| m.gpr src)
  | .shlImm count dst => m.arith cpu dst (.ofNat 64 count) (m.gpr dst <<< count)
  | .shrImm count dst => m.arith cpu dst (.ofNat 64 count) (m.gpr dst >>> count)
  | .push src => m.pushWord cpu (m.gpr src)
  | .pop dst => (m.set .rsp (m.gpr .rsp + 8)).set dst (m.word cpu (m.gpr .rsp))
  | .pushfq => m.pushWord cpu m.rflags
  | .popfq => { m.set .rsp (m.gpr .rsp + 8) with rflags := m.word cpu (m.gpr .rsp) }
  | .cli => { m with rflags := m.rflags &&& ~~~interruptFlag }
  | .readCr3 dst => m.set dst m.cr3
  | .writeCr3 src => { m with cr3 := dropNoFlush (m.gpr src) }
  | .readCr4 dst => m.set dst m.cr4
  | .writeCr4 src => { m with cr4 := m.gpr src }
  | .rdmsr =>
    let value := m.msr ((m.gpr .rcx).setWidth 32)
    (m.set .rax (value.setWidth 32 |>.setWidth 64)).set .rdx (value >>> 32)
  | .wrmsr =>
    let value := (m.gpr .rdx).setWidth 32 ++ (m.gpr .rax).setWidth 32
    { m with msr := setMsr m.msr ((m.gpr .rcx).setWidth 32) value }
  | .rdfsbase dst => m.set dst (m.msr msrFsBase)
  | .wrfsbase src => { m with msr := setMsr m.msr msrFsBase (m.gpr src) }
  | .rdgsbase dst => m.set dst (m.msr msrGsBase)
  | .wrgsbase src => { m with msr := setMsr m.msr msrGsBase (m.gpr src) }
  | .sidt disp base => m.storeTable cpu (m.gpr base + disp) m.idtr
  | .lidt disp base => { m with idtr := m.loadTable cpu (m.gpr base + disp) }
  | .sgdt disp base => m.storeTable cpu (m.gpr base + disp) m.gdtr
  | .lgdt disp base => { m with gdtr := m.loadTable cpu (m.gpr base + disp) }
  | .jmp target => { m with rip := m.gpr target }
  | .call back target => { m.pushWord cpu back with rip := target }
  | .ret => { m.set .rsp (m.gpr .rsp + 8) with rip := m.word cpu (m.gpr .rsp) }

/-- Straight-line code: `rip` is the target of its last transfer. -/
def run (cpu : Cpu Space) (code : List Instr) (m : Machine Space) : Machine Space :=
  code.foldl (exec cpu) m

@[simp] theorem run_nil (cpu : Cpu Space) (m : Machine Space) : run cpu [] m = m := rfl

@[simp] theorem run_cons (cpu : Cpu Space) (i : Instr) (code : List Instr) (m : Machine Space) :
    run cpu (i :: code) m = run cpu code (exec cpu m i) := rfl

theorem run_append (cpu : Cpu Space) (first second : List Instr) (m : Machine Space) :
    run cpu (first ++ second) m = run cpu second (run cpu first m) := List.foldl_append ..

end Cki.Asm
