import Cki.SwitchTrips

/-! Running the guest, seen from the host. The host's half of the context is saved
afresh at every resume; the root the guest loads on its way out is the one that was
read when the container was created. -/
namespace Cki.Switch

open Asm

universe u

variable {Space : Type u} [DecidableEq Space]

/-- A call of `pk_rkret` at `pkRkret`, a guest run and the `__pk_rkcall` that ends it.
The guest passes the root it was given at creation and the context. Meanwhile the host
keeps its own half of the context and the calling thread its stack. -/
structure HostTrip (cpu : Cpu Space) (type callType : Variant) (rkCr3 : Word)
    (ret target hostBack back : Word) (h resumed called host t : Machine Space) : Prop where
  resume : resumed = run cpu (.call ret target :: pkRkret type hostBack) h
  root : called.gpr .rdi = rkCr3
  ctx : called.gpr .rsi = h.gpr .rdi
  hostSpace : cpu.space (frameOf rkCr3) = h.here cpu
  spaces : called.here cpu ≠ h.here cpu
  half : ∀ disp, disp < 248 → called.mem (h.here cpu) (h.gpr .rdi + pkCtxSize + disp) =
    resumed.mem (h.here cpu) (h.gpr .rdi + pkCtxSize + disp)
  stack : called.mem (h.here cpu) (h.gpr .rsp - 8) = resumed.mem (h.here cpu) (h.gpr .rsp - 8)
  stackLow : ¬ Half (h.gpr .rdi) (h.gpr .rsp - 8)
  stackHigh : ¬ Half (h.gpr .rdi + pkCtxSize) (h.gpr .rsp - 8)
  enter : host = run cpu (pkRkcall callType back) called
  back : t = run cpu pkRkretBack host

namespace HostTrip

variable {cpu : Cpu Space} {type callType : Variant} {rkCr3 ret target hostBack back : Word}
  {h resumed called host t : Machine Space}

variable (trip : HostTrip cpu type callType rkCr3 ret target hostBack back h resumed called host t)
include trip

theorem called_host : hostOf cpu called = h.here cpu := by
  rw [hostOf,trip.root,trip.hostSpace]

theorem resumed_spec : Resumed cpu type hostBack (exec cpu h (.call ret target)) resumed := by
  rw [trip.resume,run_cons]
  exact pkRkret_spec cpu type hostBack _

theorem entered : Entered cpu callType back called host := by
  rw [trip.enter]
  apply pkRkcall_spec cpu callType back called
  rw [trip.called_host]
  exact trip.spaces

/-- The host's half still holds what the host had right after the call instruction. -/
theorem host_context : contextOf host = { contextOf h with rsp := h.gpr .rsp - 8 } := by
  have saved : contextAt (resumed.mem (h.here cpu)) (h.gpr .rdi + pkCtxSize) =
      { contextOf h with rsp := h.gpr .rsp - 8 } := trip.resumed_spec.saved
  rw [trip.entered.context,trip.called_host,trip.ctx,← saved]
  exact contextAt_congr fun disp word => trip.half disp (contextWords_small disp word)

theorem host_rip : host.rip = hostBack := by
  have saved : resumed.mem (h.here cpu) (h.gpr .rdi + pkCtxSize + pkCtxRip) = hostBack :=
    trip.resumed_spec.savedRip
  rw [trip.entered.rip,trip.called_host,trip.ctx,trip.half pkCtxRip (by decide),saved]

/-- The return address is where the call instruction pushed it. -/
theorem host_stack : host.mem (h.here cpu) (h.gpr .rsp - 8) = ret := by
  have pushed : (exec cpu h (.call ret target)).mem (h.here cpu) (h.gpr .rsp - 8) = ret :=
    setWord_here
  have resumed : resumed.mem (h.here cpu) (h.gpr .rsp - 8) = ret :=
    (trip.resumed_spec.frame _ _ fun _ => trip.stackHigh).trans pushed
  rw [trip.entered.frame,trip.stack,resumed]
  · intro _
    rw [trip.ctx]
    exact trip.stackLow
  · intro same
    exact absurd same.symm trip.spaces

theorem host_rsp : host.gpr .rsp = h.gpr .rsp - 8 := congrArg Context.rsp trip.host_context

theorem context : contextOf t = contextOf h := by
  have returned : contextOf t = { contextOf host with rsp := host.gpr .rsp + 8 } := by
    rw [trip.back]
    rfl
  rw [returned,trip.host_context,trip.host_rsp,BitVec.sub_add_cancel]
  rfl

theorem cr3 : t.cr3 = dropNoFlush rkCr3 := by
  rw [trip.back,← trip.root,← trip.entered.cr3]
  rfl

theorem rip : t.rip = ret := by
  have here : host.here cpu = h.here cpu := by
    rw [Machine.here,trip.entered.cr3,frameOf_dropNoFlush,trip.root,trip.hostSpace]
  have returned : t.rip = host.mem (host.here cpu) (host.gpr .rsp) := by
    rw [trip.back]
    rfl
  rw [returned,here,trip.host_rsp,trip.host_stack]

end HostTrip

/-- What the host has again when `pk_rkret` returns. -/
structure HostRestored (ret hostBack : Word) (h host t : Machine Space) : Prop where
  landed : host.rip = hostBack
  rip : t.rip = ret
  context : contextOf t = contextOf h
  cr3 : t.cr3 = h.cr3

/-- The host has its registers again exactly when it called on the root that was read
at creation. -/
theorem hostRestored_iff {cpu : Cpu Space} {type callType : Variant}
    {rkCr3 ret target hostBack back : Word} {h resumed called host t : Machine Space}
    (trip : HostTrip cpu type callType rkCr3 ret target hostBack back h resumed called host t) :
    HostRestored ret hostBack h host t ↔ h.cr3 = dropNoFlush rkCr3 := by
  constructor
  · intro restored
    rw [← restored.cr3,trip.cr3]
  · intro same
    exact ⟨trip.host_rip,trip.rip,trip.context,trip.cr3.trans same.symm⟩

/-- A host thread on the root `cr3` about to call, with its stack at 0x800. -/
def launcher (cr3 : Word) : Machine Side :=
  { caller 0 with
    gpr := fun reg => if reg = .rdi then 0x9000 else 0x800
    cr3 := cr3 }

/-- A guest that calls back on the root 0x1000 whatever happened before. -/
def callBack (m : Machine Side) : Machine Side :=
  { m with
    gpr := (caller 0).gpr
    cr3 := 0x5000 }

theorem callBack_here (m : Machine Side) : (callBack m).here sides = .guest :=
  (by decide : sides.space (frameOf 0x5000) = .guest)

def launcherResumed (cr3 : Word) : Machine Side :=
  run sides (.call 0x40 0x50 :: pkRkret .slow 0x200) (launcher cr3)

def launcherEntered (cr3 : Word) : Machine Side :=
  run sides (pkRkcall .slow 0x100) (callBack (launcherResumed cr3))

theorem launcher_trip {cr3 : Word} (host : sides.space (frameOf cr3) = .host) :
    HostTrip sides .slow .slow 0x1000 0x40 0x50 0x200 0x100 (launcher cr3) (launcherResumed cr3)
      (callBack (launcherResumed cr3)) (launcherEntered cr3)
      (run sides pkRkretBack (launcherEntered cr3)) where
  resume := rfl
  root := rfl
  ctx := rfl
  hostSpace := host.symm
  spaces := by
    intro same
    rw [callBack_here] at same
    exact absurd (same.trans host) (by decide)
  half _ _ := rfl
  stack := rfl
  stackLow := (by decide : ¬ (0x800 - 8 - 0x9000 : Word) < 480)
  stackHigh := (by decide : ¬ (0x800 - 8 - (0x9000 + 480) : Word) < 480)
  enter := rfl
  back := rfl

theorem hostRestored_launcher : HostRestored 0x40 0x200 (launcher 0x1000) (launcherEntered 0x1000)
    (run sides pkRkretBack (launcherEntered 0x1000)) :=
  (hostRestored_iff (launcher_trip (by decide))).mpr (by decide)

/-- A thread of another process returns on the creator's root. -/
theorem host_loses_cr3 : ¬ ∀ (h resumed called host t : Machine Side),
    HostTrip sides .slow .slow 0x1000 0x40 0x50 0x200 0x100 h resumed called host t →
    HostRestored 0x40 0x200 h host t := by
  intro claim
  have trip := launcher_trip (by decide : sides.space (frameOf 0x2000) = .host)
  have root := (claim _ _ _ _ _ trip).cr3.symm.trans trip.cr3
  exact absurd root (by decide : (0x2000 : Word) ≠ dropNoFlush 0x1000)

end Cki.Switch
