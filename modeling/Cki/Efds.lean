import Cki.Create
import Cki.Links
import Cki.Run

/-! The eventfds of a container. PKM_CNTR_SET_VRING_EFDS takes a reference to each of a pair
and hooks the queue to the second; `pkm_cntr_release` gives the references back that the
queues record and takes their hooks off. -/
namespace Cki.Efds

open Ledger Virtio Create

/-- What lies on wait queues: the head of the one that an eventfd has, the `wait` of a queue
of the container, and what others wait with. -/
inductive Waiter where
  | head (ctx : Eventfd)
  | wait (i : Fin pkmVirtioNetQueueNum)
  | other (id : Nat)
  deriving DecidableEq, Repr

structure State where
  cntr : Cntr
  kmod : Kmod
  waits : Links Waiter

/-- A part that works on the log alone. -/
def onKmod {α : Type} (c : Call Kmod α) : Call State α := fun s =>
  match c s.kmod with
  | .ret a k => .ret a { s with kmod := k }
  | .bug k => .bug { s with kmod := k }
  | .fault k => .fault { s with kmod := k }

/-! Setting the eventfds. -/

def efault : Int := 14

/-- struct pkm_cntr_vring_efds -/
structure VringEfds where
  idx : BitVec 32
  kick : BitVec 32
  call : BitVec 32
  deriving DecidableEq, Repr

/-- The arguments, unless they cannot be read, and what each of the three lookups finds under
a file descriptor: an eventfd or an error. -/
structure EfdsEnv where
  args : Option VringEfds
  kick : BitVec 32 → Except Int Eventfd
  call : BitVec 32 → Except Int Eventfd
  file : BitVec 32 → Except Int Eventfd

/-- `eventfd_ctx_fdget` takes a reference. -/
def eventfdCtxFdget (found : Except Int Eventfd) : Call State (Except Int Eventfd) := do
  match found with
  | .error r => return .error r
  | .ok ctx =>
    onKmod (acquire (.eventfd ctx))
    return .ok ctx

def eventfdCtxPut (ctx : Eventfd) : Call State Unit := onKmod (release (.eventfd ctx))

/-- `vfs_poll` calls `virtio_ptable_queue_proc`, which puts `wait` on the wait queue of the
file's eventfd. What `wait` pointed to before is overwritten. -/
def vfsPoll (file : Eventfd) (i : Fin pkmVirtioNetQueueNum) : Call State Unit :=
  Call.modify fun s => { s with waits := s.waits.add (.wait i) (.head file) }

def outPutKick (kick : Eventfd) (r : Int) : Call State Int := do
  eventfdCtxPut kick
  return r

def outPutCall (kick call : Eventfd) (r : Int) : Call State Int := do
  eventfdCtxPut call
  outPutKick kick r

def pkmCntrIoctlSetVringEfds (env : EfdsEnv) : Call State Int := do
  match env.args with
  | none => return -efault
  | some kefds =>
    if bound : kefds.idx.toNat < pkmVirtioNetQueueNum then
      match ← eventfdCtxFdget (env.kick kefds.kick) with
      | .error r => return r
      | .ok kick =>
        match ← eventfdCtxFdget (env.call kefds.call) with
        | .error r => outPutKick kick r
        | .ok call =>
          match env.file kefds.call with
          | .error r => outPutCall kick call r
          | .ok file =>
            vfsPoll file ⟨kefds.idx.toNat,bound⟩
            Call.modify fun s => { s with
              cntr := { s.cntr with virtioNet := setVringEfds s.cntr.virtioNet kefds.idx kick call } }
            return 0
    else return -einval

/-! The release, step by step. -/

inductive ReleaseStep where
  | putMemHpage | putMem2Hpage | putInitrdHpage | freeBootPgtbl | freeBootParams | freeCpus
  | putKick (i : Fin pkmVirtioNetQueueNum)
  | removeWaitQueue (i : Fin pkmVirtioNetQueueNum)
  | putCall (i : Fin pkmVirtioNetQueueNum)
  | freeCntr
  deriving DecidableEq, Repr

/-- `eventfd_ctx_remove_wait_queue`, where an eventfd is recorded. -/
def removeWaitQueue (cntr : Cntr) (i : Fin pkmVirtioNetQueueNum) : Call State Unit :=
  match (cntr.virtioNet.queues i).call with
  | none => pure ()
  | some _ => Call.modify fun s => { s with waits := s.waits.del (.wait i) }

def ReleaseStep.run (cntr : Cntr) : ReleaseStep → Call State Unit
  | .putMemHpage => onKmod (release (.hpage cntr.memHpage))
  | .putMem2Hpage => onKmod (release (.hpage cntr.mem2Hpage))
  | .putInitrdHpage => onKmod (release (.hpage cntr.initrdHpage))
  | .freeBootPgtbl => onKmod (Create.freeBootPgtbl cntr.bootPgtbl)
  | .freeBootParams => onKmod (Create.freeBootParams cntr.bootParams)
  | .freeCpus => onKmod (Create.freeCpus cntr.cpus)
  | .putKick i => onKmod (putEventfd (cntr.virtioNet.queues i).kick)
  | .removeWaitQueue i => Efds.removeWaitQueue cntr i
  | .putCall i => onKmod (putEventfd (cntr.virtioNet.queues i).call)
  | .freeCntr => onKmod (release (.kmem cntr.addr))

/-- The loop of `deinit_virtio_net`. -/
def deinitSteps : List (Fin pkmVirtioNetQueueNum) → List ReleaseStep
  | [] => []
  | i :: rest => .putKick i :: .removeWaitQueue i :: .putCall i :: deinitSteps rest

/-- `pkm_cntr_release` -/
def releaseSteps : List ReleaseStep :=
  [.putMemHpage,.putMem2Hpage,.putInitrdHpage,.freeBootPgtbl,.freeBootParams,.freeCpus] ++
    deinitSteps [⟨0,zero_lt_queueNum⟩,⟨1,one_lt_queueNum⟩] ++ [.freeCntr]

def runSteps (cntr : Cntr) : List ReleaseStep → Call State Unit
  | [] => pure ()
  | step :: rest => do
    step.run cntr
    runSteps cntr rest

def pkmCntrRelease : Call State Unit := do
  let cntr ← Call.read (·.cntr)
  runSteps cntr releaseSteps

end Cki.Efds
