import Cki.Bytes
import Cki.Launcher
import Cki.VirtioRings

/-! The launcher on PKM_CNTR_EXIT_VRING_READY: it asks the module for the ring and programs
vhost with it. Of vhost there is what its ioctls set. -/
namespace Cki.Launcher

open Create Virtio

structure VringAddr where
  index : BitVec 32
  flags : BitVec 32
  descUserAddr : Word
  usedUserAddr : Word
  availUserAddr : Word
  logGuestAddr : Word
  deriving DecidableEq, Repr

/-- An ioctl on vhost-net, with a ring by its index. -/
inductive VhostIoctl where
  | setOwner
  | setFeatures (features : Word)
  | setMemTable (regions : List VhostMemoryRegion)
  | setVringNum (index num : BitVec 32)
  | setVringBase (index num : BitVec 32)
  | setVringAddr (addr : VringAddr)
  | setBackend (index fd : BitVec 32)
  | setVringKick (index fd : BitVec 32)
  | setVringCall (index fd : BitVec 32)
  deriving DecidableEq, Repr

structure Vring where
  num : BitVec 32
  base : BitVec 32
  addr : VringAddr
  backend : BitVec 32
  kick : BitVec 32
  call : BitVec 32
  deriving DecidableEq, Repr

structure Vhost where
  features : Word
  memTable : List VhostMemoryRegion
  vrings : BitVec 32 → Vring

def Vhost.setVring (vhost : Vhost) (index : BitVec 32) (write : Vring → Vring) : Vhost :=
  { vhost with vrings := fun other =>
      if other = index then write (vhost.vrings other) else vhost.vrings other }

def Vhost.ioctl (vhost : Vhost) : VhostIoctl → Vhost
  | .setOwner => vhost
  | .setFeatures features => { vhost with features := features }
  | .setMemTable regions => { vhost with memTable := regions }
  | .setVringNum index num => vhost.setVring index fun ring => { ring with num := num }
  | .setVringBase index num => vhost.setVring index fun ring => { ring with base := num }
  | .setVringAddr addr => vhost.setVring addr.index fun ring => { ring with addr := addr }
  | .setBackend index fd => vhost.setVring index fun ring => { ring with backend := fd }
  | .setVringKick index fd => vhost.setVring index fun ring => { ring with kick := fd }
  | .setVringCall index fd => vhost.setVring index fun ring => { ring with call := fd }

def Vhost.ioctls (vhost : Vhost) (calls : List VhostIoctl) : Vhost := calls.foldl Vhost.ioctl vhost

/-- VIRTIO_NET_F_MRG_RXBUF, VIRTIO_RING_F_INDIRECT_DESC, VIRTIO_RING_F_EVENT_IDX and
VIRTIO_F_VERSION_1. -/
def initVhostFeatures : Word := 0x130008000

variable (g : Globals)

/-- The ioctls of `init_vhost_net` on vhost. -/
def initVhostNetIoctls : List VhostIoctl :=
  [.setOwner,.setFeatures initVhostFeatures,.setMemTable (initVhostNet g)]

def vringAddr (args : VringArgs) : VringAddr where
  index := args.idx
  flags := 0
  descUserAddr := phys2virt g args.descTable
  usedUserAddr := phys2virt g args.usedRing
  availUserAddr := phys2virt g args.availRing
  logGuestAddr := 0

/-- The files that the launcher has opened for a ring. -/
structure RingFds where
  tap : BitVec 32
  kick : BitVec 32
  call : BitVec 32
  deriving DecidableEq, Repr

/-- The ioctls of `handle_exit_vring_ready` on vhost, between which only the eventfds are
created and set. One that fails ends the launcher. -/
def handleExitVringReady (virtio : VirtioNet) (idx : BitVec 32) (fds : RingFds) : List VhostIoctl :=
  let args := vringInfo virtio ⟨idx,0,0,0,0⟩
  [.setVringNum idx (args.size.setWidth 32),.setVringBase idx 0,.setVringAddr (vringAddr g args),
    .setBackend idx fds.tap,.setVringKick idx fds.kick,.setVringCall idx fds.call]

/-- vhost as the launcher has set it up, after any number of rings. -/
inductive SetUp : Vhost → Prop where
  | init (vhost : Vhost) : SetUp (vhost.ioctls (initVhostNetIoctls g))
  | ring {vhost : Vhost} (virtio : VirtioNet) (idx : BitVec 32) (fds : RingFds) : SetUp vhost →
      SetUp (vhost.ioctls (handleExitVringReady g virtio idx fds))

variable {g}

theorem handleExitVringReady_features (vhost : Vhost) (virtio : VirtioNet) (idx : BitVec 32)
    (fds : RingFds) :
    (vhost.ioctls (handleExitVringReady g virtio idx fds)).features = vhost.features := rfl

/-- No ring changes the features. -/
theorem SetUp.features {vhost : Vhost} (setUp : SetUp g vhost) : vhost.features = initVhostFeatures := by
  induction setUp with
  | init vhost => rfl
  | ring virtio idx fds _ ih => exact ih

/-- The ring that vhost is left with. -/
theorem handleExitVringReady_vring (vhost : Vhost) (virtio : VirtioNet) (idx : BitVec 32)
    (fds : RingFds) :
    let args := vringInfo virtio ⟨idx,0,0,0,0⟩
    ((vhost.ioctls (handleExitVringReady g virtio idx fds)).vrings idx).num = args.size.setWidth 32 ∧
    ((vhost.ioctls (handleExitVringReady g virtio idx fds)).vrings idx).addr = vringAddr g args := by
  simp [handleExitVringReady,Vhost.ioctls,Vhost.ioctl,Vhost.setVring,vringAddr,vringInfo]

/-- Two blocks, and vhost before any ring. -/
def globals : Globals := ⟨0x7f0000000000,0x7e0000000000,0x40000000,0x80000000⟩

def noRing : Vring := ⟨0,0,⟨0,0,0,0,0,0⟩,0,0,0⟩

def setUpVhost : Vhost := (⟨0,[],fun _ => noRing⟩ : Vhost).ioctls (initVhostNetIoctls globals)

theorem setUpVhost_setUp : SetUp globals setUpVhost := .init _

end Cki.Launcher
