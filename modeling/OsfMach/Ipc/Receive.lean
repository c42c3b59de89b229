import OsfMach.Ipc.KmsgGet
import OsfMach.Ipc.Scatter

/-
  Receiving a message, from `ipc/mach_msg.c` and
  `ipc/ipc_mqueue.c`.

  Sizes and options are words of 32 bits. Which message there
  is, what memory allocation answers and the words of the
  user's scatter list are given. The memory that was allocated
  and freed and the bytes that were copied to the user's
  buffer are recorded.

  Key definitions include:
    * `TrailerTable`, `QueuedKmsg`, `ReceiveAnswers`
    * `finishReceiveCheck`, `machMsgReceive`
-/

------
-- Trailers
------

namespace OsfMach

namespace Ipc

open Lib
open Lib.Checked

/- The difference of two sizes, in 32 bits. -/
def subSize (x y : Nat) : Nat :=
  (x + (2 ^ 32 - y)) % 2 ^ 32

def machRcvTimeout : Nat := 0x100
def machRcvNotify : Nat := 0x200
def machRcvOverwrite : Nat := 0x1000
def machRcvTrailerMask : Nat := 0xff000000

/- `GET_RCV_ELEMENTS`. -/
def getRcvElements (option : Nat) : Nat :=
  option / 2 ^ 24 % 16

/-
  The array `trailer_size`, which ends after three sizes, and
  the words in memory after it.
-/
structure TrailerTable where
  beyond : Nat → Nat
  lt : ∀ i, beyond i < 2 ^ 32

/- `REQUESTED_TRAILER_SIZE`. -/
def requestedTrailerSize
    (table : TrailerTable)
    (option : Nat) : Nat :=
  match getRcvElements option with
  | 0 => 8
  | 1 => 12
  | 2 => 20
  | i + 3 => table.beyond i

------
-- Messages
------

/-
  A message in a queue, with the descriptors that the words
  after its header say, also when it is not complex.
-/
structure QueuedKmsg where
  msghSize : Nat
  msghTrailerSize : Nat
  isComplex : Bool
  body : List Descriptor
  header_le : sizeofMachMsgHeader ≤ msghSize
  size_lt : msghSize < 2 ^ 32
  trailer : msghTrailerSize = machMsgTrailerMinimumSize

inductive ReceiveReturn where
| success
| invalidName
| noMessage
| tooLarge
| scatter (e : ScatterError)
| invalidData
| invalidNotify
| headerError
| bodyError (bits : Nat)
deriving DecidableEq, Repr

/- Memory from `kalloc` or `rtalloc`. -/
structure Block where
  addr : Nat
  size : Nat
  isRt : Bool
deriving DecidableEq, Repr

/-
  What is not the call's: whether the name denotes a queue, of
  a real-time object; the memory that is allocated, 0 without
  any; whether the user's memory can be read and written; the
  count and the descriptors of the scatter list; the message,
  and whether its header is copied out.
-/
structure ReceiveAnswers where
  trailers : TrailerTable
  nameOk : Bool
  isRt : Bool
  kalloc : Nat
  readable : Bool
  count : Nat
  memory : Nat → Descriptor
  kmsg : Option QueuedKmsg
  headerOk : Bool
  writable : Bool
  copyout : CopyoutAnswers

/-
  The receiver, what the check saw of the scatter list, the
  memory, and the numbers of bytes copied to the user.
-/
structure Receiving where
  receiver : Receiver
  checked : ScatterLog
  allocated : List Block
  freed : List Block
  put : List Nat

abbrev ReceiveProg := Checked Receiving Stop

def Receiving.start (message : Sender) : Receiving :=
  ⟨Receiver.start message, ScatterLog.init, [], [], []⟩

def onReceiver
    {α : Type}
    (x : CopyoutProg α) : ReceiveProg α :=
  onPart Receiving.receiver
    (fun r c => { r with receiver := c }) x

def onChecked
    {α : Type}
    (x : Checked ScatterLog Stop α) : ReceiveProg α :=
  onPart Receiving.checked
    (fun r l => { r with checked := l }) x

------
-- Scatter Lists in Memory
------

/- A scatter list in the kernel's memory. -/
structure ScatterBlock where
  block : Block
  count : Nat
  memory : Nat → Descriptor

/-
  Its descriptors follow the count. The end is computed in
  32 bits.
-/
def ScatterBlock.list (l : ScatterBlock) : ScatterList :=
  descriptorsOf l.memory (l.block.addr + sizeofMachMsgBody)
    ((l.block.addr + sizeofMachMsgBody +
      sizeofMachMsgDescriptor * l.count) % 2 ^ 32)

/- The list that is walked; without a list there is none. -/
def scatterListOf : Option ScatterBlock → ScatterList
| none => []
| some l => l.list

/-
  The size that `mach_msg_receive` compares with that of the
  list, computed in 32 bits.
-/
def scatterListSize (count : Nat) : Nat :=
  addSize (count * sizeofMachMsgDescriptor % 2 ^ 32)
    sizeofMachMsgBody

def allocateBlock (b : Block) : ReceiveProg Unit :=
  change fun r => { r with allocated := r.allocated ++ [b] }

/- `FREE_SCATTER_LIST`. -/
def freeScatterList
    (slist : Option ScatterBlock) : ReceiveProg Unit :=
  match slist with
  | none => pure ()
  | some l =>
      change fun r => { r with freed := r.freed ++ [l.block] }

------
-- Checking a Message
------

inductive FinishError where
| tooLarge
| scatter (e : ScatterError)
deriving DecidableEq, Repr

def FinishError.toReturn : FinishError → ReceiveReturn
| .tooLarge => .tooLarge
| .scatter e => .scatter e

/-
  The checks that `ipc_mqueue_finish_receive` makes. Whether
  the message is complex is not asked.
-/
def finishReceiveCheck
    (table : TrailerTable)
    (option maxSize : Nat)
    (kmsg : QueuedKmsg)
    (slist : Option ScatterBlock) :
    Checked ScatterLog FinishError Unit := do
  require
    (kmsg.msghSize ≤
      subSize maxSize (requestedTrailerSize table option))
    .tooLarge
  match slist with
  | none => pure ()
  | some l => do
      match ← attempt
          (ipcKmsgCheckScatter l.count kmsg.body l.list) with
      | .ok () => pure ()
      | .error e => stop (.scatter e)

------
-- Receiving
------

/- `ipc_kmsg_put`: copy bytes to the user's buffer. -/
def ipcKmsgPut
    (env : ReceiveAnswers)
    (size : Nat) : ReceiveProg Bool := do
  change fun r => { r with put := r.put ++ [size] }
  pure env.writable

/- What was asked for, or what is in the message. -/
def trailerOf
    (env : ReceiveAnswers)
    (option own : Nat) : Nat :=
  if option &&& machRcvTrailerMask ≠ 0 then
    requestedTrailerSize env.trailers option
  else own

/- Rights and memory of a complex message are destroyed. -/
def destroyBody
    (cfg : KmsgConfig)
    (env : ReceiveAnswers)
    (kmsg : QueuedKmsg) : ReceiveProg Unit :=
  if kmsg.isComplex then
    onReceiver (onMessage
      (ipcKmsgCleanBody cfg env.copyout.memory kmsg.body))
  else pure ()

/-
  `msg_receive_error`: a message without a body is copied to
  the user, in place of one that is destroyed.
-/
def msgReceiveError
    (cfg : KmsgConfig)
    (env : ReceiveAnswers)
    (option : Nat)
    (kmsg : QueuedKmsg) : ReceiveProg Bool := do
  destroyBody cfg env kmsg
  ipcKmsgPut env (addSize sizeofMachMsgHeader
    (trailerOf env option machMsgTrailerMinimumSize))

/- The return code after a copy to the user. -/
def putReturn (ok : Bool) (mr : ReceiveReturn) : ReceiveReturn :=
  if ok then mr else .invalidData

section

variable (cfg : KmsgConfig) (env : ReceiveAnswers)

/- `ipc_kmsg_copyout`, with the bits of errors of the body. -/
def ipcKmsgCopyout
    (kmsg : QueuedKmsg)
    (slist : Option ScatterBlock) :
    ReceiveProg ReceiveReturn :=
  if !env.headerOk then pure .headerError
  else if kmsg.isComplex then do
    let (mr, _) ← onReceiver
      (ipcKmsgCopyoutBody cfg env.copyout kmsg.body
        (scatterListOf slist))
    pure (if mr = 0 then .success else .bodyError mr)
  else pure .success

/- Copy out, unless there is no name for notifications. -/
def copyoutReceived
    (option notify : Nat)
    (kmsg : QueuedKmsg)
    (slist : Option ScatterBlock) :
    ReceiveProg ReceiveReturn :=
  if option &&& machRcvNotify ≠ 0 ∧ notify = machPortNull then
    pure .invalidNotify
  else ipcKmsgCopyout cfg env kmsg slist

/- A message that was accepted is copied to the user. -/
def finishAccepted
    (option notify : Nat)
    (kmsg : QueuedKmsg)
    (slist : Option ScatterBlock) :
    ReceiveProg ReceiveReturn := do
  let trailer := trailerOf env option kmsg.msghTrailerSize
  let size := addSize kmsg.msghSize trailer
  let mr ← copyoutReceived cfg env option notify kmsg slist
  match mr with
  | .success | .bodyError _ => do
      let ok ← ipcKmsgPut env size
      pure (putReturn ok mr)
  | _ => do
      let ok ← msgReceiveError cfg env option kmsg
      pure (putReturn ok mr)

/- A message that was refused is destroyed, or is lost. -/
def finishRefused
    (option : Nat)
    (kmsg : QueuedKmsg)
    (e : FinishError) : ReceiveProg ReceiveReturn :=
  if e = .scatter .invalidType then pure e.toReturn
  else do
    let ok ← msgReceiveError cfg env option kmsg
    pure (putReturn ok e.toReturn)

/-
  Check a message and copy it out. Only the time limit of the
  options is passed on to the check.
-/
def receiveKmsg
    (option rcvSize notify : Nat)
    (kmsg : QueuedKmsg)
    (slist : Option ScatterBlock) :
    ReceiveProg ReceiveReturn := do
  match ← onChecked (attempt
      (finishReceiveCheck env.trailers
        (option &&& machRcvTimeout) rcvSize kmsg slist)) with
  | .ok () =>
      finishAccepted cfg env option notify kmsg slist
  | .error e => finishRefused cfg env option kmsg e

/- Receive the message that there is. -/
def receiveQueued
    (option rcvSize notify : Nat)
    (slist : Option ScatterBlock) :
    ReceiveProg ReceiveReturn :=
  match env.kmsg with
  | none => pure .noMessage
  | some kmsg =>
      receiveKmsg cfg env option rcvSize notify kmsg slist

/- Receive with a scatter list that was accepted, or none. -/
def receiveWith
    (option rcvSize notify : Nat)
    (slist : Option ScatterBlock) :
    ReceiveProg ReceiveReturn := do
  let mr ← receiveQueued cfg env option rcvSize notify slist
  freeScatterList slist
  pure mr

end

/- The scatter list, in memory that was allocated for it. -/
def ReceiveAnswers.slist
    (env : ReceiveAnswers)
    (slistSize : Nat) : ScatterBlock :=
  ⟨⟨env.kalloc, slistSize - sizeofMachMsgHeader, env.isRt⟩,
    env.count, env.memory⟩

/- Copy the scatter list in and compare its sizes. -/
def receiveOverwrite
    (cfg : KmsgConfig)
    (env : ReceiveAnswers)
    (option rcvSize notify slistSize : Nat) :
    ReceiveProg ReceiveReturn :=
  if slistSize < sizeofMachMsgHeader + sizeofMachMsgBody then
    pure (.scatter .scatterSmall)
  else if env.kalloc = 0 then pure .invalidData
  else do
    let slist := env.slist slistSize
    allocateBlock slist.block
    if !env.readable then pure .invalidData
    else if slist.block.size < scatterListSize slist.count then do
      freeScatterList (some slist)
      pure (.scatter .invalidType)
    else
      receiveWith cfg env option rcvSize notify (some slist)

/- `mach_msg_receive`. -/
def machMsgReceive
    (cfg : KmsgConfig)
    (env : ReceiveAnswers)
    (option rcvSize notify slistSize : Nat) :
    ReceiveProg ReceiveReturn :=
  if !env.nameOk then pure .invalidName
  else if option &&& machRcvOverwrite ≠ 0 then
    receiveOverwrite cfg env option rcvSize notify slistSize
  else receiveWith cfg env option rcvSize notify none

end Ipc

end OsfMach
