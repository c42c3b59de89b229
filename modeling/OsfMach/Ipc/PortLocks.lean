import OsfMach.Ipc.PortSet

/-
  The locks that operations on port sets take, from
  `ipc/ipc_port.c` and `ipc/ipc_pset.c`.

  A lock is held or free. Who takes a lock that nobody will
  ever drop waits forever, so taking a lock that is held is a
  fault; a lock that another thread will drop counts as free.
  What the routines do to ports, sets and queues is the
  model's of port sets, between the locks where the source
  does it.

  Key definitions include:
    * `IpcLock`, `LockFault`, `LockedPorts`
    * `ipcPsetAdd`, `ipcPsetRemove`
    * `ipcPortSetQlimit`, `ipcPortSetSeqno`,
      `ipcPortClearReceiver`
    * `ipcPsetMove`, `ipcPsetDestroy`
    * `PsetOp`, `LockedPorts.perform`, `LockedPorts.call`
-/

------
-- Locks
------

namespace OsfMach

namespace Ipc

open Function

/- The locks of a space, of ports, of sets and of queues. -/
inductive IpcLock where
| space
| port (i : Nat)
| pset (q : Nat)
| mqueue (r : MqueueRef)
deriving DecidableEq, Repr

/- Where a routine does not go on. -/
inductive LockFault where
-- the lock is held already
| deadlock
-- a lock is dropped that is not held
| notHeld
| assertion
-- the set's memory was given back
| freed
deriving DecidableEq, Repr

/-
  Ports and sets with the references of the sets, the sets
  that were freed, and the locks that are held.
-/
structure LockedPorts where
  rcv : RcvSystem
  senders : Nat → PortQueue
  ipMscount : Nat → Nat
  ipsReferences : Nat → Nat
  ipsFreed : Nat → Bool
  held : IpcLock → Bool

namespace LockedPorts

/- Every set has the reference of its entry. -/
def init : LockedPorts :=
  { rcv := RcvSystem.init
    senders := fun _ => PortQueue.init
    ipMscount := fun _ => 0
    ipsReferences := fun _ => 1
    ipsFreed := fun _ => false
    held := fun _ => false }

def setHeld
    (s : LockedPorts)
    (l : IpcLock)
    (b : Bool) : LockedPorts :=
  { s with held := update s.held l b }

/- `mutex_lock`. -/
def lock
    (s : LockedPorts)
    (l : IpcLock) : Except LockFault LockedPorts :=
  if s.held l then .error .deadlock
  else .ok (s.setHeld l true)

/- `mutex_unlock`. -/
def unlock
    (s : LockedPorts)
    (l : IpcLock) : Except LockFault LockedPorts :=
  if s.held l then .ok (s.setHeld l false)
  else .error .notHeld

def require
    (c : Prop)
    [Decidable c] : Except LockFault Unit :=
  if c then .ok () else .error .assertion

section

variable (s : LockedPorts)

/- `ips_lock`. -/
def ipsLock
    (q : Nat) : Except LockFault LockedPorts :=
  if s.ipsFreed q then .error .freed
  else s.lock (.pset q)

/- `ips_unlock`. -/
def ipsUnlock
    (q : Nat) : Except LockFault LockedPorts :=
  s.unlock (.pset q)

/- `ips_check_unlock`: free a set without references. -/
def ipsCheckUnlock
    (q : Nat) : Except LockFault LockedPorts := do
  let refs := s.ipsReferences q
  let s ← s.unlock (.pset q)
  if refs = 0 then
    .ok { s with ipsFreed := update s.ipsFreed q true }
  else .ok s

/- `ips_reference`. -/
def ipsReference
    (q : Nat) : LockedPorts :=
  { s with
    ipsReferences := update s.ipsReferences q
      (s.ipsReferences q + 1) }

/- `ips_release`. -/
def ipsRelease
    (q : Nat) : Except LockFault LockedPorts := do
  require (0 < s.ipsReferences q)
  .ok { s with
    ipsReferences := update s.ipsReferences q
      (s.ipsReferences q - 1) }

/- `port->ip_pset = pset`. -/
def setPset
    (i : Nat)
    (pset : Option Nat) : LockedPorts :=
  { s with
    rcv := s.rcv.setPort i
      { s.rcv.ports i with ipPset := pset } }

/- `port->ip_seqno = seqno`. -/
def setSeqno
    (i seqno : Nat) : LockedPorts :=
  { s with
    rcv := s.rcv.setPort i
      { s.rcv.ports i with ipSeqno := seqno } }

/- `ipc_mqueue_move`. -/
def mqueueMove
    (dest source : MqueueRef)
    (i : Nat) : LockedPorts :=
  { s with rcv := (s.rcv.ipcMqueueMove dest source i).1 }

/- `ipc_mqueue_changed`. -/
def mqueueChanged
    (r : MqueueRef)
    (mr : RcvState) : LockedPorts :=
  { s with rcv := s.rcv.ipcMqueueChanged r mr }

end

------
-- Members of Sets
------

/- `ipc_pset_add`. -/
def ipcPsetAdd
    (s : LockedPorts)
    (q i : Nat) : Except LockFault LockedPorts := do
  require (s.rcv.ipsActive q = true)
  require ((s.rcv.ports i).ipActive = true)
  require ((s.rcv.ports i).ipPset = none)
  let s := s.setPset i (some q)
  let s := s.ipsReference q
  let s ← s.lock (.mqueue (.ofPort i))
  let s ← s.lock (.mqueue (.ofPset q))
  let s := s.mqueueMove (.ofPset q) (.ofPort i) i
  let s ← s.unlock (.mqueue (.ofPset q))
  require ((s.rcv.mqueues (.ofPort i)).imqMessages = [])
  let s := s.mqueueChanged (.ofPort i) .portChanged
  require ((s.rcv.mqueues (.ofPort i)).imqThreads = [])
  s.unlock (.mqueue (.ofPort i))

/- `ipc_pset_remove`. -/
def ipcPsetRemove
    (s : LockedPorts)
    (q i : Nat) : Except LockFault LockedPorts := do
  require ((s.rcv.ports i).ipActive = true)
  require ((s.rcv.ports i).ipPset = some q)
  let s := s.setPset i none
  let s ← s.ipsRelease q
  let s ← s.lock (.mqueue (.ofPort i))
  let s ← s.lock (.mqueue (.ofPset q))
  let s := s.mqueueMove (.ofPort i) (.ofPset q) i
  let s ← s.unlock (.mqueue (.ofPset q))
  s.unlock (.mqueue (.ofPort i))

/- A set is locked, a port leaves it, it is unlocked. -/
def leaveSet
    (s : LockedPorts)
    (q i : Nat) : Except LockFault LockedPorts := do
  let s ← s.ipsLock q
  let s ← s.ipcPsetRemove q i
  s.ipsCheckUnlock q

/- Store a sequence number under the lock of a queue. -/
def seqnoUnder
    (s : LockedPorts)
    (r : MqueueRef)
    (i seqno : Nat) : Except LockFault LockedPorts := do
  let s ← s.lock (.mqueue r)
  let s := s.setSeqno i seqno
  s.unlock (.mqueue r)

------
-- Operations
------

section

variable (s : LockedPorts)

/- `ipc_port_set_qlimit`. -/
def ipcPortSetQlimit
    (i qlimit : Nat) : Except LockFault LockedPorts := do
  require ((s.rcv.ports i).ipActive = true)
  .ok { s with
    senders := update s.senders i
      (Ipc.ipcPortSetQlimit (s.senders i) qlimit) }

/-
  `ipc_port_set_seqno`. The lock of a set that is active is
  not dropped.
-/
def ipcPortSetSeqno
    (i seqno : Nat) : Except LockFault LockedPorts :=
  match (s.rcv.ports i).ipPset with
  | some q => do
      let s ← s.ipsLock q
      if s.rcv.ipsActive q = false then do
        let s ← s.ipcPsetRemove q i
        let s ← s.ipsCheckUnlock q
        s.seqnoUnder (.ofPort i) i seqno
      else s.seqnoUnder (.ofPset q) i seqno
  | none => s.seqnoUnder (.ofPort i) i seqno

/-
  The first part of `ipc_port_clear_receiver`: leave the set,
  or tell the receivers.
-/
def clearPset
    (i : Nat) : Except LockFault LockedPorts :=
  match (s.rcv.ports i).ipPset with
  | some q => s.leaveSet q i
  | none => do
      let s ← s.lock (.mqueue (.ofPort i))
      let s := s.mqueueChanged (.ofPort i) .portDied
      s.unlock (.mqueue (.ofPort i))

/- `ipc_port_clear_receiver`. -/
def ipcPortClearReceiver
    (i : Nat) : Except LockFault LockedPorts := do
  require ((s.rcv.ports i).ipActive = true)
  let s ← s.clearPset i
  require ((s.rcv.ports i).ipActive = true)
  let s := { s with ipMscount := update s.ipMscount i 0 }
  s.seqnoUnder (.ofPort i) i 0

/- Lock two sets, the one at the lower address first. -/
def lockBoth
    (oset nset : Nat) : Except LockFault LockedPorts :=
  if oset < nset then do
    let s ← s.ipsLock oset
    s.ipsLock nset
  else do
    let s ← s.ipsLock nset
    s.ipsLock oset

/- `ipc_pset_move` between `ip_lock` and `ip_unlock`. -/
def movePset
    (i : Nat)
    (oset nset : Option Nat) :
    Except LockFault (Option Nat × LockedPorts) :=
  if oset = nset then do
    let s ← s.unlock .space
    .ok (oset, s)
  else
    match oset, nset with
    | none, none => .ok (oset, s)
    | none, some nset => do
        let s ← s.ipsLock nset
        require (s.rcv.ipsActive nset = true)
        let s ← s.unlock .space
        let s ← s.ipcPsetAdd nset i
        let s ← s.ipsUnlock nset
        .ok (none, s)
    | some oset, none => do
        let s ← s.unlock .space
        let s ← s.ipsLock oset
        let s ← s.ipcPsetRemove oset i
        if s.rcv.ipsActive oset = true then do
          let s ← s.ipsUnlock oset
          .ok (some oset, s)
        else do
          let s ← s.ipsCheckUnlock oset
          .ok (none, s)
    | some oset, some nset => do
        let s ← s.lockBoth oset nset
        let s ← s.unlock .space
        require (s.rcv.ipsActive nset = true)
        let s ← s.ipcPsetRemove oset i
        let s ← s.ipcPsetAdd nset i
        let s ← s.ipsUnlock nset
        let s ← s.ipsCheckUnlock oset
        .ok (some oset, s)

/- `ipc_pset_move`; `false` is `KERN_NOT_IN_SET`. -/
def ipcPsetMove
    (i : Nat)
    (nset : Option Nat) :
    Except LockFault (Bool × LockedPorts) := do
  let s ← s.lock (.port i)
  require ((s.rcv.ports i).ipActive = true)
  let (oset, s) ← s.movePset i (s.rcv.ports i).ipPset nset
  let s ← s.unlock (.port i)
  .ok (!(nset.isNone && oset.isNone), s)

/- `ipc_pset_destroy`. -/
def ipcPsetDestroy
    (q : Nat) : Except LockFault LockedPorts := do
  require (s.rcv.ipsActive q = true)
  let s :=
    { s with
      rcv :=
        { s.rcv with
          ipsActive := update s.rcv.ipsActive q false } }
  let s ← s.lock (.mqueue (.ofPset q))
  let s := s.mqueueChanged (.ofPset q) .portDied
  let s ← s.unlock (.mqueue (.ofPset q))
  let s ← s.ipsRelease q
  s.ipsCheckUnlock q

end

end LockedPorts

------
-- Callers
------

/- Calls of these routines, and what others do meanwhile. -/
inductive PsetOp where
| setQlimit (i qlimit : Nat)
| setSeqno (i seqno : Nat)
| clearReceiver (i : Nat)
| psetMove (i : Nat) (nset : Option Nat)
| psetDestroy (q : Nat)
| other (op : RcvOp)
deriving DecidableEq, Repr

/- The locks with which a routine is called. -/
def PsetOp.entryLocks : PsetOp → List IpcLock
| .setQlimit i _ => [.port i]
| .setSeqno i _ => [.port i]
| .clearReceiver i => [.port i]
| .psetMove _ _ => [.space]
| .psetDestroy q => [.pset q]
| .other _ => []

/- The locks with which its contract says it returns. -/
def PsetOp.exitLocks : PsetOp → List IpcLock
| .setQlimit i _ => [.port i]
| .setSeqno i _ => [.port i]
| .clearReceiver i => [.port i]
| .psetMove _ _ => []
| .psetDestroy _ => []
| .other _ => []

namespace LockedPorts

/- One call, from its entry to its return. -/
def perform
    (s : LockedPorts) :
    PsetOp → Except LockFault LockedPorts
| .setQlimit i qlimit => s.ipcPortSetQlimit i qlimit
| .setSeqno i seqno => s.ipcPortSetSeqno i seqno
| .clearReceiver i => s.ipcPortClearReceiver i
| .psetMove i nset => do
    let (_, s) ← s.ipcPsetMove i nset
    .ok s
| .psetDestroy q => s.ipcPsetDestroy q
| .other op => .ok { s with rcv := (s.rcv.step op).1 }

/- Take locks, one after the other. -/
def lockAll :
    List IpcLock → LockedPorts → Except LockFault LockedPorts
| [], s => .ok s
| l :: ls, s => do
    let s ← s.lock l
    lockAll ls s

def unlockAll :
    List IpcLock → LockedPorts → Except LockFault LockedPorts
| [], s => .ok s
| l :: ls, s => do
    let s ← s.unlock l
    unlockAll ls s

/-
  What callers do to the port before they unlock it: a right
  that is cleared leaves its space.
-/
def settle
    (s : LockedPorts) : PsetOp → LockedPorts
| .clearReceiver i =>
    { s with
      rcv := s.rcv.setPort i
        { s.rcv.ports i with ipReceiver := false } }
| _ => s

/-
  What a caller does: take the locks of the contract, call,
  drop the locks that the contract leaves.
-/
def call
    (s : LockedPorts)
    (op : PsetOp) : Except LockFault LockedPorts := do
  let s ← lockAll op.entryLocks s
  let s ← s.perform op
  unlockAll op.exitLocks (s.settle op)

end LockedPorts

end Ipc

end OsfMach
