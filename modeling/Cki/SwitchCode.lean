import Cki.Machine

/-! The world switch (pkernel-asm.S): the macros and the two templates, each for
the slow and the fast type. `back` is the address of a template's label 1. -/
namespace Cki.Switch

open Asm

/-- `PK_CTX_NLONGS * 8`, with 60 longs. -/
@[simp] def pkCtxSize : Word := 480
@[simp] def pkCtxR15 : Word := 0x00
@[simp] def pkCtxR14 : Word := 0x08
@[simp] def pkCtxR13 : Word := 0x10
@[simp] def pkCtxR12 : Word := 0x18
@[simp] def pkCtxRbp : Word := 0x20
@[simp] def pkCtxRbx : Word := 0x28
@[simp] def pkCtxR9 : Word := 0x40
@[simp] def pkCtxR8 : Word := 0x48
@[simp] def pkCtxRcx : Word := 0x58
@[simp] def pkCtxRdx : Word := 0x60
@[simp] def pkCtxRsi : Word := 0x68
@[simp] def pkCtxRip : Word := 0x80
@[simp] def pkCtxRsp : Word := 0xa8
@[simp] def pkCtxFs : Word := 0xb0
@[simp] def pkCtxGs : Word := 0xb8
@[simp] def pkCtxKgs : Word := 0xc0
@[simp] def pkCtxCr3 : Word := 0xc8
@[simp] def pkCtxCr4 : Word := 0xd0
@[simp] def pkCtxIdtr : Word := 0xd8
@[simp] def pkCtxGdtr : Word := 0xe8

def x86Cr4Pge : Word := 1 <<< 7

inductive Variant where
  | slow | fast
  deriving DecidableEq, Repr

def writeCr3Slow (reg1 reg2 reg3 : Gpr) : List Instr :=
  [.writeCr3 reg1,
   .readCr4 reg2,
   .mov reg2 reg3,
   .xorImm x86Cr4Pge reg3,
   .writeCr4 reg3,
   .writeCr4 reg2]

def writeCr3Fast (reg1 reg2 _reg3 : Gpr) : List Instr :=
  [.movImm 1 reg2,
   .shlImm 63 reg2,
   .or reg2 reg1,
   .writeCr3 reg1]

def writeMsr (reg : Gpr) (addr : BitVec 32) : List Instr :=
  [.push .rcx,
   .push .rax,
   .push .rdx,
   .movlImm addr .rcx,
   .mov reg .rax,
   .mov .rax .rdx,
   .shrImm 0x20 .rdx,
   .wrmsr,
   .pop .rdx,
   .pop .rax,
   .pop .rcx]

def readMsr (reg : Gpr) (addr : BitVec 32) : List Instr :=
  [.push .rcx,
   .push .rax,
   .push .rdx,
   .movlImm addr .rcx,
   .rdmsr,
   .shlImm 0x20 .rdx,
   .movl .rax .rax,
   .or .rax .rdx,
   .mov .rdx reg,
   .pop .rdx,
   .pop .rax,
   .pop .rcx]

def saveCtxSlow (base temp : Gpr) : List Instr :=
  [.store .rsp pkCtxRsp base,
   .lea pkCtxSize base .rsp,
   .store .rbx pkCtxRbx base,
   .store .rbp pkCtxRbp base,
   .store .r12 pkCtxR12 base,
   .store .r13 pkCtxR13 base,
   .store .r14 pkCtxR14 base,
   .store .r15 pkCtxR15 base]
  ++ readMsr temp msrFsBase ++ [.store temp pkCtxFs base]
  ++ readMsr temp msrGsBase ++ [.store temp pkCtxGs base]
  ++ readMsr temp msrKernelGsBase ++ [.store temp pkCtxKgs base]
  ++ [.sidt pkCtxIdtr base,
      .sgdt pkCtxGdtr base,
      .readCr4 temp,
      .store temp pkCtxCr4 base]

def rstorCtxSlow (base temp : Gpr) : List Instr :=
  [.load pkCtxRbx base .rbx,
   .load pkCtxRbp base .rbp,
   .load pkCtxR12 base .r12,
   .load pkCtxR13 base .r13,
   .load pkCtxR14 base .r14,
   .load pkCtxR15 base .r15,
   .load pkCtxCr4 base temp,
   .writeCr4 temp,
   .lidt pkCtxIdtr base,
   .lgdt pkCtxGdtr base,
   .load pkCtxFs base temp]
  ++ writeMsr temp msrFsBase ++ [.load pkCtxGs base temp]
  ++ writeMsr temp msrGsBase ++ [.load pkCtxKgs base temp]
  ++ writeMsr temp msrKernelGsBase ++ [.load pkCtxRsp base .rsp]

def saveCtxFast (base temp : Gpr) : List Instr :=
  [.store .rsp pkCtxRsp base,
   .store .rbx pkCtxRbx base,
   .store .rbp pkCtxRbp base,
   .store .r12 pkCtxR12 base,
   .store .r13 pkCtxR13 base,
   .store .r14 pkCtxR14 base,
   .store .r15 pkCtxR15 base,
   .sgdt pkCtxGdtr base,
   .rdfsbase temp,
   .store temp pkCtxFs base,
   .rdgsbase temp,
   .store temp pkCtxGs base]

def rstorCtxFast (base temp : Gpr) : List Instr :=
  [.load pkCtxRbx base .rbx,
   .load pkCtxRbp base .rbp,
   .load pkCtxR12 base .r12,
   .load pkCtxR13 base .r13,
   .load pkCtxR14 base .r14,
   .load pkCtxR15 base .r15,
   .lgdt pkCtxGdtr base,
   .load pkCtxFs base temp,
   .wrfsbase temp,
   .load pkCtxGs base temp,
   .wrgsbase temp,
   .load pkCtxRsp base .rsp]

def writeCr3 : Variant → Gpr → Gpr → Gpr → List Instr
  | .slow => writeCr3Slow
  | .fast => writeCr3Fast

def saveCtx : Variant → Gpr → Gpr → List Instr
  | .slow => saveCtxSlow
  | .fast => saveCtxFast

def rstorCtx : Variant → Gpr → Gpr → List Instr
  | .slow => rstorCtxSlow
  | .fast => rstorCtxFast

/-- RDI = CTX -/
def pkRkret (type : Variant) (back : Word) : List Instr :=
  [.lea pkCtxSize .rdi .rax]
  ++ saveCtx type .rax .r11
  ++ [.leaRip back .r8,
      .store .r8 pkCtxRip .rax]
  ++ rstorCtx type .rdi .r11
  ++ [.load pkCtxRsi .rdi .rsi,
      .load pkCtxRdx .rdi .rdx,
      .load pkCtxCr3 .rdi .rax,
      .load pkCtxRip .rdi .rcx]
  ++ writeCr3 type .rax .r9 .r10
  ++ [.jmp .rcx]

def pkRkretBack : List Instr := [.ret]

/-- RDI = CR3, RSI = CTX, RDX = ARG1, RCX = ARG2, R8 = ARG3, R9 = ARG4 -/
def pkRkcall (type : Variant) (back : Word) : List Instr :=
  [.pushfq,
   .cli,
   .readCr3 .rax]
  ++ writeCr3 type .rdi .r10 .r11
  ++ saveCtx type .rsi .r11
  ++ [.store .rdx pkCtxRdx .rsi,
      .store .rcx pkCtxRcx .rsi,
      .store .r8 pkCtxR8 .rsi,
      .store .r9 pkCtxR9 .rsi,
      .store .rax pkCtxCr3 .rsi,
      .leaRip back .rax,
      .store .rax pkCtxRip .rsi,
      .lea pkCtxSize .rsi .rcx]
  ++ rstorCtx type .rcx .r11
  ++ [.load pkCtxRip .rcx .rcx,
      .jmp .rcx]

/-- Label 1 of `__pk_rkcall`, up to the call of `pk_handle_events` which returns to
`handled`. -/
def pkRkcallBack (handled pkHandleEvents : Word) : List Instr :=
  [.popfq,
   .push .rsi,
   .mov .rdx .rdi,
   .call handled pkHandleEvents]

def pkRkcallHandled : List Instr :=
  [.pop .rax,
   .ret]

end Cki.Switch
