import OsfMach.Ipc.Mqueue
import Mathlib.Algebra.Group.Nat.Defs

/-
  Message queues of ports and port sets, and the threads
  that receive from them, from `ipc/ipc_mqueue.c`,
  `ipc/ipc_pset.c` and `ipc/ipc_port.c`.

  A port outside a set queues its messages itself, and a
  port in a set puts them on the queue of the set. A step is
  what one thread does between taking the locks of the ports
  and queues it needs and dropping them. Steps report what
  happened to messages: a delivery, a message given to a
  receiver with its sequence number, a receiver returning
  with it.

  Key definitions include:
    * `RcvSystem`, `Mqueue`, `QueueEvent`
    * `ipcMqueueDeliver`, `ipcMqueueReceive`,
      `ipcMqueueMove`
    * `ipcPsetAdd`, `ipcPsetRemove`, `ipcPsetMove`
    * `RcvSystem.step`, `RcvSystem.Legal`
-/

------
-- Data
------

namespace OsfMach

namespace Ipc

open Function

/- A message and the port it was sent to. -/
structure Kmsg where
  ikmId : Nat
  msghRemotePort : Nat
deriving DecidableEq, Repr

/- The queue of a port or of a port set. -/
inductive MqueueRef where
| ofPort (i : Nat)
| ofPset (q : Nat)
deriving DecidableEq, Repr

/- `struct ipc_mqueue`. -/
structure Mqueue where
  imqMessages : List Kmsg
  imqThreads : List Nat
deriving DecidableEq, Repr

/- The field `ith_state` of a receiver, with what it has. -/
inductive RcvState where
| idle
| inProgress (timed : Bool)
| msgSuccess (ithKmsg : Kmsg) (ithSeqno : Nat)
| portDied
| portChanged
deriving DecidableEq, Repr

/- A receiving thread and the queue it waits on. -/
structure RcvThread where
  phase : SendPhase
  ithState : RcvState
  mqueue : MqueueRef
deriving DecidableEq, Repr

/-
  What the queues need of a port. `ipReceiver` says that the
  receive right is in a space, and not in transit.
-/
structure RcvPort where
  ipActive : Bool
  ipReceiver : Bool
  ipPset : Option Nat
  ipSeqno : Nat
deriving DecidableEq, Repr

/- Ports, port sets with `ips_active`, queues and threads. -/
structure RcvSystem where
  ports : Nat → RcvPort
  ipsActive : Nat → Bool
  mqueues : MqueueRef → Mqueue
  threads : Nat → RcvThread

/- What happens to the messages of a port. -/
inductive QueueEvent where
| delivered (port kmsg : Nat)
| taken (t port kmsg seqno : Nat)
| returned (t port kmsg seqno : Nat)
| seqnoSet (port seqno : Nat)
| destroyed (port : Nat)
deriving DecidableEq, Repr

/- Sequence numbers are unsigned 32-bit words. -/
def seqnoModulus : Nat := 2 ^ 32

def RcvThread.idle : RcvThread :=
  ⟨.outside, .idle, .ofPort 0⟩

namespace RcvSystem

/- Every port and set as it is allocated. -/
def init : RcvSystem :=
  { ports := fun _ => ⟨true, true, none, 0⟩
    ipsActive := fun _ => true
    mqueues := fun _ => ⟨[], []⟩
    threads := fun _ => RcvThread.idle }

section

variable (s : RcvSystem) (r : MqueueRef)

def setMqueue
    (q : Mqueue) : RcvSystem :=
  { s with mqueues := update s.mqueues r q }

def setMessages
    (kmsgs : List Kmsg) : RcvSystem :=
  s.setMqueue r { s.mqueues r with imqMessages := kmsgs }

def setThreads
    (ths : List Nat) : RcvSystem :=
  s.setMqueue r { s.mqueues r with imqThreads := ths }

end

def setThread
    (s : RcvSystem)
    (t : Nat)
    (thread : RcvThread) : RcvSystem :=
  { s with threads := update s.threads t thread }

def setPort
    (s : RcvSystem)
    (i : Nat)
    (port : RcvPort) : RcvSystem :=
  { s with ports := update s.ports i port }

/- `port->ip_seqno++`. -/
def countSeqno (s : RcvSystem) (i : Nat) : RcvSystem :=
  s.setPort i
    { s.ports i with
      ipSeqno := ((s.ports i).ipSeqno + 1) % seqnoModulus }

/- The queue that the messages of a port are on. -/
def queueOf (s : RcvSystem) (i : Nat) : MqueueRef :=
  match (s.ports i).ipPset with
  | none => .ofPort i
  | some q => .ofPset q

end RcvSystem

/- `thread_go`. -/
def rcvGo (thread : RcvThread) : RcvThread :=
  if thread.phase = .waiting then
    { thread with phase := .resuming .awakened }
  else thread

------
-- Messages
------

namespace RcvSystem

/- Hand a message to a receiver taken off its queue. -/
def handOver
    (s : RcvSystem)
    (th : Nat)
    (kmsg : Kmsg) : RcvSystem × List QueueEvent :=
  let port := kmsg.msghRemotePort
  let seqno := (s.ports port).ipSeqno
  ((s.countSeqno port).setThread th
      (rcvGo { s.threads th with
        ithState := .msgSuccess kmsg seqno }),
    [.taken th port kmsg.ikmId seqno])

/- Give a message to the first receiver, or queue it. -/
def giveKmsg
    (s : RcvSystem)
    (r : MqueueRef)
    (kmsg : Kmsg) : RcvSystem × List QueueEvent :=
  match (s.mqueues r).imqThreads with
  | [] =>
      (s.setMessages r ((s.mqueues r).imqMessages ++ [kmsg]),
        [])
  | th :: ths => (s.setThreads r ths).handOver th kmsg

/- `ipc_mqueue_deliver`. -/
def ipcMqueueDeliver
    (s : RcvSystem)
    (i kmsg : Nat) : RcvSystem × List QueueEvent :=
  let r := s.giveKmsg (s.queueOf i) ⟨kmsg, i⟩
  (r.1, .delivered i kmsg :: r.2)

/- The loop of `ipc_mqueue_move` over the messages left. -/
def moveLoop
    (dest source : MqueueRef)
    (port : Nat) :
    List Kmsg → RcvSystem → RcvSystem × List QueueEvent
| [], s => (s, [])
| kmsg :: next, s =>
    if kmsg.msghRemotePort ≠ port then
      moveLoop dest source port next s
    else
      let s := s.setMessages source
        ((s.mqueues source).imqMessages.erase kmsg)
      let given := s.giveKmsg dest kmsg
      let rest := moveLoop dest source port next given.1
      (rest.1, given.2 ++ rest.2)

/- `ipc_mqueue_move`. -/
def ipcMqueueMove
    (s : RcvSystem)
    (dest source : MqueueRef)
    (port : Nat) : RcvSystem × List QueueEvent :=
  moveLoop dest source port (s.mqueues source).imqMessages s

/- Wake receivers and tell them why. -/
def wakeReceivers
    (mr : RcvState) : List Nat → RcvSystem → RcvSystem
| [], s => s
| th :: ths, s =>
    wakeReceivers mr ths
      (s.setThread th
        (rcvGo { s.threads th with ithState := mr }))

/- `ipc_mqueue_changed`. -/
def ipcMqueueChanged
    (s : RcvSystem)
    (r : MqueueRef)
    (mr : RcvState) : RcvSystem :=
  wakeReceivers mr (s.mqueues r).imqThreads
    (s.setThreads r [])

------
-- Port Sets
------

/- `ipc_pset_add`. -/
def ipcPsetAdd
    (s : RcvSystem)
    (q i : Nat) : RcvSystem × List QueueEvent :=
  let s := s.setPort i { s.ports i with ipPset := some q }
  let moved := s.ipcMqueueMove (.ofPset q) (.ofPort i) i
  (moved.1.ipcMqueueChanged (.ofPort i) .portChanged, moved.2)

/- `ipc_pset_remove`. -/
def ipcPsetRemove
    (s : RcvSystem)
    (q i : Nat) : RcvSystem × List QueueEvent :=
  let s := s.setPort i { s.ports i with ipPset := none }
  s.ipcMqueueMove (.ofPort i) (.ofPset q) i

/- `ipc_pset_move`. -/
def ipcPsetMove
    (s : RcvSystem)
    (i : Nat)
    (nset : Option Nat) : RcvSystem × List QueueEvent :=
  let oset := (s.ports i).ipPset
  if oset = nset then (s, [])
  else
    match oset, nset with
    | none, none => (s, [])
    | none, some q => s.ipcPsetAdd q i
    | some q, none => s.ipcPsetRemove q i
    | some q, some q' =>
        let removed := s.ipcPsetRemove q i
        let added := removed.1.ipcPsetAdd q' i
        (added.1, removed.2 ++ added.2)

/- `ipc_pset_destroy`. Members stay and leave lazily. -/
def ipcPsetDestroy (s : RcvSystem) (q : Nat) : RcvSystem :=
  let s :=
    { s with ipsActive := update s.ipsActive q false }
  s.ipcMqueueChanged (.ofPset q) .portDied

/- A port found in a dead set is taken out of it. -/
def dropDeadSet
    (s : RcvSystem)
    (i : Nat) : RcvSystem × List QueueEvent :=
  match (s.ports i).ipPset with
  | none => (s, [])
  | some q =>
      if s.ipsActive q = true then (s, [])
      else s.ipcPsetRemove q i

------
-- Receiving
------

/-
  The turn of the loop of `ipc_mqueue_receive`: take the
  first message, give up, or wait.
-/
def receiveTurn
    (s : RcvSystem)
    (t : Nat)
    (r : MqueueRef)
    (timeout : Option Nat) : RcvSystem × List QueueEvent :=
  match (s.mqueues r).imqMessages with
  | kmsg :: kmsgs =>
      let port := kmsg.msghRemotePort
      let seqno := (s.ports port).ipSeqno
      (((s.setMessages r kmsgs).countSeqno port).setThread t
          RcvThread.idle,
        [.taken t port kmsg.ikmId seqno,
          .returned t port kmsg.ikmId seqno])
  | [] =>
      if timeout = some 0 then
        (s.setThread t RcvThread.idle, [])
      else
        ((s.setThreads r
            ((s.mqueues r).imqThreads ++ [t])).setThread t
          ⟨.waiting, .inProgress timeout.isSome, r⟩, [])

/-
  `ipc_mqueue_copyin` and `ipc_mqueue_receive` on a port: a
  port in a live set gives `MACH_RCV_IN_SET`.
-/
def receiveFromPort
    (s : RcvSystem)
    (t i : Nat)
    (timeout : Option Nat) : RcvSystem × List QueueEvent :=
  let dropped := s.dropDeadSet i
  if (dropped.1.ports i).ipPset = none then
    let received :=
      dropped.1.receiveTurn t (.ofPort i) timeout
    (received.1, dropped.2 ++ received.2)
  else dropped

/- `ipc_mqueue_receive` after `thread_block`. -/
def ipcMqueueResume
    (s : RcvSystem)
    (t : Nat)
    (result : WaitResult) : RcvSystem × List QueueEvent :=
  let thread := s.threads t
  match thread.ithState with
  | .msgSuccess kmsg seqno =>
      (s.setThread t RcvThread.idle,
        [.returned t kmsg.msghRemotePort kmsg.ikmId seqno])
  | .portDied => (s.setThread t RcvThread.idle, [])
  | .portChanged => (s.setThread t RcvThread.idle, [])
  | .inProgress _ =>
      let r := thread.mqueue
      let s := s.setThreads r
        ((s.mqueues r).imqThreads.erase t)
      match result with
      | .interrupted => (s.setThread t RcvThread.idle, [])
      | .timedOut => s.receiveTurn t r (some 0)
      | .awakened => (s, [])
  | .idle => (s, [])

------
-- Ports
------

/- `ipc_port_set_seqno`. -/
def ipcPortSetSeqno
    (s : RcvSystem)
    (i seqno : Nat) : RcvSystem × List QueueEvent :=
  let dropped := s.dropDeadSet i
  (dropped.1.setPort i
      { dropped.1.ports i with ipSeqno := seqno },
    dropped.2 ++ [.seqnoSet i seqno])

/-
  `ipc_port_clear_receiver`, with the receive right taken
  out of its space.
-/
def ipcPortClearReceiver
    (s : RcvSystem)
    (i : Nat) : RcvSystem × List QueueEvent :=
  let cleared :=
    match (s.ports i).ipPset with
    | some q => s.ipcPsetRemove q i
    | none => (s.ipcMqueueChanged (.ofPort i) .portDied, [])
  (cleared.1.setPort i
      { cleared.1.ports i with
        ipReceiver := false
        ipSeqno := 0 },
    cleared.2 ++ [.seqnoSet i 0])

/- `ipc_port_destroy` on a port without a backup. -/
def ipcPortDestroy
    (s : RcvSystem)
    (i : Nat) : RcvSystem × List QueueEvent :=
  let s := s.setPort i { s.ports i with ipActive := false }
  (s.setMessages (.ofPort i) [], [.destroyed i])

end RcvSystem

------
-- Steps
------

/- What can happen to ports, sets and receivers. -/
inductive RcvOp where
| deliver (i kmsg : Nat)
| receivePort (t i : Nat) (timeout : Option Nat)
| receivePset (t q : Nat) (timeout : Option Nat)
| resume (t : Nat)
| expire (t : Nat)
| interrupt (t : Nat)
| psetMove (i : Nat) (nset : Option Nat)
| psetDestroy (q : Nat)
| getStatus (i : Nat)
| setSeqno (i seqno : Nat)
| clearReceiver (i : Nat)
| setReceiver (i : Nat)
| destroy (i : Nat)
deriving DecidableEq, Repr

namespace RcvSystem

def endWait
    (s : RcvSystem)
    (t : Nat)
    (result : WaitResult) : RcvSystem :=
  s.setThread t { s.threads t with phase := .resuming result }

def step
    (s : RcvSystem) : RcvOp → RcvSystem × List QueueEvent
| .deliver i kmsg => s.ipcMqueueDeliver i kmsg
| .receivePort t i timeout => s.receiveFromPort t i timeout
| .receivePset t q timeout =>
    s.receiveTurn t (.ofPset q) timeout
| .resume t =>
    match (s.threads t).phase with
    | .resuming result => s.ipcMqueueResume t result
    | _ => (s, [])
| .expire t => (s.endWait t .timedOut, [])
| .interrupt t => (s.endWait t .interrupted, [])
| .psetMove i nset => s.ipcPsetMove i nset
| .psetDestroy q => (s.ipcPsetDestroy q, [])
| .getStatus i => s.dropDeadSet i
| .setSeqno i seqno => s.ipcPortSetSeqno i seqno
| .clearReceiver i => s.ipcPortClearReceiver i
| .setReceiver i =>
    (s.setPort i { s.ports i with ipReceiver := true }, [])
| .destroy i => s.ipcPortDestroy i

/- A port whose receive right is in a space. -/
def Held (s : RcvSystem) (i : Nat) : Prop :=
  (s.ports i).ipActive = true ∧
    (s.ports i).ipReceiver = true

/- When a step can happen. -/
def Legal (s : RcvSystem) : RcvOp → Prop
| .deliver i _ => (s.ports i).ipActive = true
| .receivePort t i _ =>
    (s.threads t).phase = .outside ∧ s.Held i
| .receivePset t q _ =>
    (s.threads t).phase = .outside ∧ s.ipsActive q = true
| .resume t =>
    (s.threads t).phase ≠ .outside ∧
      (s.threads t).phase ≠ .waiting
| .expire t =>
    (s.threads t).phase = .waiting ∧
      (s.threads t).ithState = .inProgress true
| .interrupt t => (s.threads t).phase = .waiting
| .psetMove i nset =>
    s.Held i ∧ ∀ q, nset = some q → s.ipsActive q = true
| .psetDestroy q => s.ipsActive q = true
| .getStatus i => s.Held i
| .setSeqno i seqno => s.Held i ∧ seqno < seqnoModulus
| .clearReceiver i => s.Held i
| .setReceiver i =>
    (s.ports i).ipActive = true ∧
      (s.ports i).ipReceiver = false
| .destroy i =>
    (s.ports i).ipActive = true ∧
      (s.ports i).ipReceiver = false

end RcvSystem

/-
  Runs: the state reached and all that happened on the way,
  in order.
-/
inductive RcvRun :
    RcvSystem → List QueueEvent → Prop where
| init : RcvRun RcvSystem.init []
| step
    {s : RcvSystem}
    {events : List QueueEvent}
    (hRun : RcvRun s events)
    (op : RcvOp)
    (hLegal : s.Legal op) :
    RcvRun (s.step op).1 (events ++ (s.step op).2)

end Ipc

end OsfMach
