import Mathlib.Data.Finset.Card
import Mathlib.Data.Finset.Dedup
import Mathlib.Logic.Function.Basic

/-
  The message queue of a port and the senders that wait for
  space in it, from `ipc/ipc_mqueue.c`, `ipc/ipc_port.c` and
  the hand-off in `ipc/mach_msg.c`.

  A step is what one thread does while it holds the lock of
  the port. A sender that has to wait leaves the lock and is
  outside until it is woken, its timeout expires or it is
  interrupted; it then takes the lock again. The port is not
  a kernel port, and its messages are local.

  Key definitions include:
    * `PortQueue`, `SendThread`
    * `ipcMqueueSend`, `ipcMqueueResume`
    * `ipcMqueueFinishReceive`, `hotFinishReceive`
    * `ipcPortSetQlimit`, `ipcPortRouse`
-/

------
-- Data
------

namespace OsfMach

namespace Ipc

open Function

/- The field `ith_state` of a sender. -/
inductive IthState where
| sendInProgress
| msgSuccess
deriving DecidableEq, Repr

/- The field `wait_result` of a thread. -/
inductive WaitResult where
| awakened
| timedOut
| interrupted
deriving DecidableEq, Repr

/- Where a thread is in `ipc_mqueue_send`. -/
inductive SendPhase where
| outside
| waiting
| resuming (result : WaitResult)
deriving DecidableEq, Repr

/-
  A sending thread. `timeout` is there with the option
  `MACH_SEND_TIMEOUT`; `always` says that the message may
  exceed the limit, by the option `MACH_SEND_ALWAYS` or by a
  send-once right.
-/
structure SendThread where
  phase : SendPhase
  ithState : IthState
  timeout : Option Nat
  always : Bool
deriving DecidableEq, Repr

def SendThread.idle : SendThread :=
  ⟨.outside, .msgSuccess, none, false⟩

/- What `ipc_mqueue_send` returns. -/
inductive SendReturn where
| msgSuccess
| sendTimedOut
| sendInterrupted
deriving DecidableEq, Repr

/-
  Receivers finish in `ipc_mqueue_finish_receive`, or in
  `mach_msg_overwrite_trap` when they waited there.
-/
inductive ReceivePath where
| generic
| hot
deriving DecidableEq, Repr

/-
  The part of a port that its message queue needs. A message
  is in the queue `imqMessages` or handed to a receiver that
  has yet to count it off.
-/
structure PortQueue where
  ipActive : Bool
  ipMsgcount : Nat
  ipQlimit : Nat
  ipBlocked : List Nat
  imqMessages : Nat
  imqThreads : List ReceivePath
  handed : ReceivePath → Nat
  threads : Nat → SendThread

/- `MACH_PORT_QLIMIT_DEFAULT`. -/
def machPortQlimitDefault : Nat := 5

namespace PortQueue

/- The queue that `ipc_port_init` makes. -/
def init : PortQueue :=
  { ipActive := true
    ipMsgcount := 0
    ipQlimit := machPortQlimitDefault
    ipBlocked := []
    imqMessages := 0
    imqThreads := []
    handed := fun _ => 0
    threads := fun _ => SendThread.idle }

/- Store the state of a thread. -/
def setThread
    (p : PortQueue)
    (t : Nat)
    (thread : SendThread) : PortQueue :=
  { p with threads := update p.threads t thread }

end PortQueue

------
-- Sending
------

/- `thread_go`. -/
def threadGo (thread : SendThread) : SendThread :=
  if thread.phase = .waiting then
    { thread with phase := .resuming .awakened }
  else thread

/- What is done to a sender taken from `ip_blocked`. -/
def wakeSender (p : PortQueue) (t : Nat) : PortQueue :=
  p.setThread t
    (threadGo { p.threads t with ithState := .msgSuccess })

/- `ipc_mqueue_deliver`. -/
def ipcMqueueDeliver (p : PortQueue) : PortQueue :=
  let p := { p with ipMsgcount := p.ipMsgcount + 1 }
  match p.imqThreads with
  | [] => { p with imqMessages := p.imqMessages + 1 }
  | path :: receivers =>
      { p with
        imqThreads := receivers
        handed := update p.handed path (p.handed path + 1) }

/- The turn of the loop of `ipc_mqueue_send`. -/
def sendTurn
    (p : PortQueue)
    (t : Nat)
    (timeout : Option Nat)
    (always : Bool) : Option SendReturn × PortQueue :=
  if p.ipActive = false then
    (some .msgSuccess, p.setThread t SendThread.idle)
  else if p.ipMsgcount < p.ipQlimit ∨ always = true then
    (some .msgSuccess,
      (ipcMqueueDeliver p).setThread t SendThread.idle)
  else if timeout = some 0 then
    (some .sendTimedOut, p.setThread t SendThread.idle)
  else
    let p := { p with ipBlocked := p.ipBlocked ++ [t] }
    (none, p.setThread t
      ⟨.waiting, .sendInProgress, timeout, always⟩)

/- `ipc_mqueue_send`, up to where it returns or waits. -/
def ipcMqueueSend
    (p : PortQueue)
    (t : Nat)
    (timeout : Option Nat)
    (always : Bool) : Option SendReturn × PortQueue :=
  sendTurn p t timeout always

/-
  `ipc_mqueue_send` after `thread_block`. A sender that was
  not woken gives up, but stays on `ip_blocked`.
-/
def ipcMqueueResume
    (p : PortQueue)
    (t : Nat)
    (result : WaitResult) : Option SendReturn × PortQueue :=
  let thread := p.threads t
  if thread.ithState = .msgSuccess then
    sendTurn p t thread.timeout thread.always
  else
    match result with
    | .interrupted =>
        (some .sendInterrupted,
          p.setThread t SendThread.idle)
    | .timedOut => sendTurn p t (some 0) thread.always
    | .awakened => (none, p)

------
-- Receiving
------

/-
  A receiver takes the first message or waits for one. The
  hot path waits only on an empty queue and is the generic
  path otherwise.
-/
def ipcMqueueReceive
    (p : PortQueue)
    (path : ReceivePath) : PortQueue :=
  if 0 < p.imqMessages then
    { p with
      imqMessages := p.imqMessages - 1
      handed := update p.handed .generic
        (p.handed .generic + 1) }
  else { p with imqThreads := p.imqThreads ++ [path] }

/- A receiver gives up and leaves the queue. -/
def abortReceive
    (p : PortQueue)
    (path : ReceivePath) : PortQueue :=
  { p with imqThreads := p.imqThreads.erase path }

/- A receiver counts its message off. -/
def takeHanded
    (p : PortQueue)
    (path : ReceivePath) : PortQueue :=
  { p with
    handed := update p.handed path (p.handed path - 1) }

/- Wake the first sender if there is space for it. -/
def wakeForSpace (p : PortQueue) : PortQueue :=
  match p.ipBlocked with
  | [] => p
  | sender :: senders =>
      if p.ipMsgcount < p.ipQlimit then
        wakeSender { p with ipBlocked := senders } sender
      else p

/- `ipc_mqueue_finish_receive`. -/
def ipcMqueueFinishReceive (p : PortQueue) : PortQueue :=
  let p := takeHanded p .generic
  if p.ipActive = true then
    wakeForSpace { p with ipMsgcount := p.ipMsgcount - 1 }
  else p

/-
  The end of a receive in `mach_msg_overwrite_trap`: the
  count goes down and nobody is woken.
-/
def hotFinishReceive (p : PortQueue) : PortQueue :=
  let p := takeHanded p .hot
  { p with ipMsgcount := p.ipMsgcount - 1 }

def finishReceive
    (p : PortQueue) : ReceivePath → PortQueue
| .generic => ipcMqueueFinishReceive p
| .hot => hotFinishReceive p

------
-- Other Routines
------

/- Wake senders from the front of `ip_blocked`. -/
def wakeSenders : Nat → PortQueue → PortQueue
| 0, p => p
| wakeup + 1, p =>
    match p.ipBlocked with
    | [] => p
    | sender :: senders =>
        wakeSenders wakeup
          (wakeSender { p with ipBlocked := senders } sender)

/- `ipc_port_set_qlimit`. -/
def ipcPortSetQlimit
    (p : PortQueue)
    (qlimit : Nat) : PortQueue :=
  let p :=
    if p.ipQlimit < qlimit then
      wakeSenders (qlimit - p.ipQlimit) p
    else p
  { p with ipQlimit := qlimit }

/-
  `ipc_port_destroy` on a port without a backup: all senders
  are roused, the port dies, and its messages go.
-/
def ipcPortRouse (p : PortQueue) : PortQueue :=
  { wakeSenders p.ipBlocked.length p with
    ipActive := false
    imqMessages := 0 }

------
-- Steps
------

/- What can happen to the queue of a port. -/
inductive QueueOp where
| send (t : Nat) (timeout : Option Nat) (always : Bool)
| resume (t : Nat)
| expire (t : Nat)
| interrupt (t : Nat)
| handOff (always : Bool)
| receive (path : ReceivePath)
| abortReceive (path : ReceivePath)
| finish (path : ReceivePath)
| setQlimit (qlimit : Nat)
| destroy
deriving DecidableEq, Repr

namespace PortQueue

/- The wait of a thread ends without a wake-up. -/
def endWait
    (p : PortQueue)
    (t : Nat)
    (result : WaitResult) : PortQueue :=
  p.setThread t { p.threads t with phase := .resuming result }

def step (p : PortQueue) : QueueOp → PortQueue
| .send t timeout always =>
    (ipcMqueueSend p t timeout always).2
| .resume t =>
    match (p.threads t).phase with
    | .resuming result => (ipcMqueueResume p t result).2
    | _ => p
| .expire t => p.endWait t .timedOut
| .interrupt t => p.endWait t .interrupted
| .handOff _ => ipcMqueueDeliver p
| .receive path => ipcMqueueReceive p path
| .abortReceive path => Ipc.abortReceive p path
| .finish path => finishReceive p path
| .setQlimit qlimit => ipcPortSetQlimit p qlimit
| .destroy => ipcPortRouse p

/- When a step can happen. -/
def Legal (p : PortQueue) : QueueOp → Prop
| .send t _ _ => (p.threads t).phase = .outside
| .resume t =>
    (p.threads t).phase ≠ .outside ∧
      (p.threads t).phase ≠ .waiting
| .expire t =>
    (p.threads t).phase = .waiting ∧
      (p.threads t).timeout ≠ none
| .interrupt t => (p.threads t).phase = .waiting
| .handOff always =>
    p.ipActive = true ∧ p.imqThreads ≠ [] ∧
      (p.ipMsgcount < p.ipQlimit ∨ always = true)
| .receive _ => p.ipActive = true
| .abortReceive path => path ∈ p.imqThreads
| .finish path => 0 < p.handed path
| .setQlimit _ => p.ipActive = true
| .destroy => p.ipActive = true ∧ p.imqThreads = []

/- A sender that waits for space. -/
def Waiting (p : PortQueue) (t : Nat) : Prop :=
  (p.threads t).phase = .waiting

/- A sender that was woken and has yet to try again. -/
def Woken (p : PortQueue) (t : Nat) : Prop :=
  (∃ result, (p.threads t).phase = .resuming result) ∧
    (p.threads t).ithState = .msgSuccess

end PortQueue

/- The queues reached by legal steps that are allowed. -/
inductive QueueReachable
    (Allowed : PortQueue → QueueOp → Prop) :
    PortQueue → Prop where
| init : QueueReachable Allowed PortQueue.init
| step
    {p : PortQueue}
    (hRun : QueueReachable Allowed p)
    (op : QueueOp)
    (hLegal : p.Legal op)
    (hAllowed : Allowed p op) :
    QueueReachable Allowed (p.step op)

end Ipc

end OsfMach
