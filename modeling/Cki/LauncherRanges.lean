import Cki.LauncherRings

/-! The addresses a guest gives the launcher. `phys2virt` tests the first block only and takes
every other address to lie in the second, and no length is tested. -/
namespace Cki.Launcher

open Bytes Create Virtio

def blockBytes : Nat := 2 ^ 30

/-- Where the blocks lie: none reaches over the end of the address space, and no address is
mapped twice. -/
structure Placed (g : Globals) : Prop where
  phys : g.physBase.toNat + blockBytes < 2 ^ 64
  virt : g.virtBase.toNat + blockBytes ≤ 2 ^ 64
  virt2 : g.virtBase2.toNat + blockBytes ≤ 2 ^ 64
  apart : ∀ addr, Within g.virtBase blockBytes addr → ¬ Within g.virtBase2 blockBytes addr

/-- What an exit with addresses of a guest asks for. -/
inductive GuestExit where
  | print (arg1 arg2 : Word)
  | vringReady (idx : BitVec 32)
  deriving DecidableEq, Repr

/-- Bytes of the launcher, by where they start and how far they lie from there. -/
structure Touched where
  start : Word
  offsets : Nat → Prop

/-- A ring of `num` descriptors, with the two event fields that the features ask for. -/
def Vring.touched (ring : Vring) : List Touched :=
  [⟨ring.addr.descUserAddr,(· < 16 * ring.num.toNat)⟩,
    ⟨ring.addr.availUserAddr,(· < 6 + 2 * ring.num.toNat)⟩,
    ⟨ring.addr.usedUserAddr,(· < 6 + 8 * ring.num.toNat)⟩]

/-- `handle_exit_print` is passed the second argument as an int. -/
def printSize (arg2 : Word) : Int := (arg2.setWidth 32).toInt

section
variable (g : Globals) (memory : Memory) (vhost : Vhost) (virtio : VirtioNet)

/-- What the launcher reads or hands to vhost for an exit. -/
def touches (fds : RingFds) : GuestExit → List Touched
  | .print arg1 arg2 => [⟨phys2virt g arg1,PrintfReads memory (phys2virt g arg1) (printSize arg2)⟩]
  | .vringReady idx => ((vhost.ioctls (handleExitVringReady g virtio idx fds)).vrings idx).touched

/-- Bytes of one of the blocks. -/
def Confined (touched : Touched) : Prop :=
  Inside g.virtBase blockBytes touched.start touched.offsets ∨
    Inside g.virtBase2 blockBytes touched.start touched.offsets

/-- The physical address that `phys2virt` takes to the start of the first block as if it lay in
the second. -/
def strayBase : Word := g.physBase2 + (g.virtBase - g.virtBase2)

/-- From an address of the first block on, what is touched ends there, and from another one in
the second block or at the addresses that are taken for the first. -/
def Fits (phys : Word) (touched : Word → Nat → Prop) : Prop :=
  let offset := phys - g.physBase
  let offset2 := phys - g.physBase2
  if Within g.physBase blockBytes phys then
    EndsWithin blockBytes offset.toNat (touched (offset + g.virtBase))
  else EndsWithin blockBytes offset2.toNat (touched (offset2 + g.virtBase2)) ∨
    EndsWithin blockBytes (phys - strayBase g).toNat (touched (offset2 + g.virtBase2))

def GuestExit.Fits : GuestExit → Prop
  | .print arg1 arg2 => Launcher.Fits g arg1 fun buf => PrintfReads memory buf (printSize arg2)
  | .vringReady idx =>
    let args := vringInfo virtio ⟨idx,0,0,0,0⟩
    Launcher.Fits g args.descTable (fun _ i => i < 16 * args.size.toNat) ∧
    Launcher.Fits g args.availRing (fun _ i => i < 6 + 2 * args.size.toNat) ∧
    Launcher.Fits g args.usedRing (fun _ i => i < 6 + 8 * args.size.toNat)

end

variable {g : Globals}

theorem phys2virt_eq (placed : Placed g) (phys : Word) : phys2virt g phys =
    if Within g.physBase blockBytes phys then phys2virt1 g phys else phys2virt2 g phys := by
  have size : pkmCntrMemSize.toNat = blockBytes := by decide
  have first : phys ≥ g.physBase ∧ phys < g.physBase + pkmCntrMemSize ↔
      Within g.physBase blockBytes phys := by
    rw [ge_iff_le,bounds_iff (by rw [size]; exact placed.phys),size,Within]
  rw [phys2virt]
  exact if_congr first rfl rfl

theorem phys2virt_first (placed : Placed g) {phys : Word} (first : Within g.physBase blockBytes phys) :
    phys2virt g phys - g.virtBase = phys - g.physBase := by
  rw [phys2virt_eq placed,if_pos first,phys2virt1,BitVec.add_sub_cancel]

theorem phys2virt_other (placed : Placed g) {phys : Word}
    (other : ¬ Within g.physBase blockBytes phys) :
    phys2virt g phys - g.virtBase2 = phys - g.physBase2 ∧
      phys2virt g phys - g.virtBase = phys - strayBase g := by
  rw [phys2virt_eq placed,if_neg other,phys2virt2,strayBase]
  constructor
  · exact BitVec.add_sub_cancel _ _
  · grind

/-- What starts in one block does not lie in the other. -/
theorem confined_iff (placed : Placed g) (phys : Word) {offsets : Word → Nat → Prop}
    (inTurn : ∀ start, InTurn (offsets start)) :
    Confined g ⟨phys2virt g phys,offsets (phys2virt g phys)⟩ ↔ Fits g phys offsets := by
  have inside := inside_iff placed.virt (by decide) (inTurn (phys2virt g phys)) (phys2virt g phys)
  have inside2 := inside_iff placed.virt2 (by decide) (inTurn (phys2virt g phys)) (phys2virt g phys)
  have value := phys2virt_eq placed phys
  rw [Confined,Fits,inside,inside2]
  by_cases first : Within g.physBase blockBytes phys
  · rw [if_pos first] at value
    rw [if_pos first,← phys2virt1,← value,← phys2virt_first placed first]
    refine or_iff_left_of_imp ?_
    rintro (none | ⟨starts,_⟩)
    · exact .inl none
    · have here : Within g.virtBase blockBytes (phys2virt g phys) := by
        rw [within_iff placed.virt,phys2virt_first placed first,← within_iff (Nat.le_of_lt placed.phys)]
        exact first
      rw [← within_iff placed.virt2] at starts
      exact absurd starts (placed.apart _ here)
  · obtain ⟨second,stray⟩ := phys2virt_other placed first
    rw [if_neg first] at value
    rw [if_neg first,← phys2virt2,← value,← second,← stray,or_comm]

/-- The launcher stays inside the guest's memory exactly for the exits whose addresses and
lengths fit. -/
theorem touches_confined_iff (placed : Placed g) (memory : Memory) (vhost : Vhost)
    (virtio : VirtioNet) (fds : RingFds) (exit : GuestExit) :
    (∀ touched ∈ touches g memory vhost virtio fds exit, Confined g touched) ↔
      exit.Fits g memory virtio := by
  cases exit with
  | print arg1 arg2 =>
    simp only [touches,List.forall_mem_singleton,GuestExit.Fits]
    exact confined_iff placed arg1 fun buf => printfReads_inTurn memory buf _
  | vringReady idx =>
    obtain ⟨num,addr⟩ := handleExitVringReady_vring (g := g) vhost virtio idx fds
    have bytes : ((vringInfo virtio ⟨idx,0,0,0,0⟩).size.setWidth 32).toNat =
        (vringInfo virtio ⟨idx,0,0,0,0⟩).size.toNat :=
      BitVec.toNat_setWidth_of_le (by decide)
    have desc := confined_iff placed (vringInfo virtio ⟨idx,0,0,0,0⟩).descTable
      fun _ => inTurn_below (16 * (vringInfo virtio ⟨idx,0,0,0,0⟩).size.toNat)
    have avail := confined_iff placed (vringInfo virtio ⟨idx,0,0,0,0⟩).availRing
      fun _ => inTurn_below (6 + 2 * (vringInfo virtio ⟨idx,0,0,0,0⟩).size.toNat)
    have used := confined_iff placed (vringInfo virtio ⟨idx,0,0,0,0⟩).usedRing
      fun _ => inTurn_below (6 + 8 * (vringInfo virtio ⟨idx,0,0,0,0⟩).size.toNat)
    simp only [touches,Vring.touched,num,addr,bytes,vringAddr,List.forall_mem_cons,
      List.not_mem_nil,false_implies,implies_true,and_true,GuestExit.Fits,desc,avail,used]

theorem globals_placed : Placed globals where
  phys := by decide
  virt := by decide
  virt2 := by decide
  apart := by
    rintro addr ⟨low,_⟩ ⟨_,high⟩
    have base : globals.virtBase.toNat = 0x7f0000000000 := rfl
    have base2 : globals.virtBase2.toNat + blockBytes = 0x7e0040000000 := rfl
    omega

/-- A line of five bytes in the middle of the first block. -/
theorem line_confined (memory : Memory) : (GuestExit.print 0x40001000 5).Fits globals memory blankDevice := by
  have first : Within globals.physBase blockBytes 0x40001000 := by decide
  rw [GuestExit.Fits,Launcher.Fits,if_pos first]
  refine .inr ⟨by decide,fun reads => ?_⟩
  exact absurd reads.1 (by decide)

theorem line_inside : Placed globals ∧ ∀ touched ∈ touches globals (fun _ => 0x61) setUpVhost
    blankDevice ⟨5,6,7⟩ (.print 0x40001000 5), Confined globals touched :=
  ⟨globals_placed,(touches_confined_iff globals_placed _ _ _ _ _).mpr (line_confined _)⟩

/-- The address 0 lies in no block, and is read as if it lay before the second one. -/
theorem null_strays : ¬ ∀ (g : Globals) (memory : Memory) (vhost : Vhost) (virtio : VirtioNet)
    (fds : RingFds) (exit : GuestExit), Placed g →
    ∀ touched ∈ touches g memory vhost virtio fds exit, Confined g touched := by
  intro claim
  have confined := claim globals (fun _ => 0x61) setUpVhost blankDevice ⟨5,6,7⟩ (.print 0 1)
    globals_placed _ (List.mem_singleton_self _)
  have reads : PrintfReads (fun _ => 0x61) (phys2virt globals 0) (printSize 1) 0 :=
    ⟨by decide,fun j below => absurd below (Nat.not_lt_zero j)⟩
  obtain inside | inside := confined
  · exact absurd (inside 0 reads) (by decide)
  · exact absurd (inside 0 reads) (by decide)

end Cki.Launcher
