import OsfMach.Ipc.Allocate
import OsfMach.Ipc.Right

/-
  Making, dropping and copying out rights, from
  `ipc/ipc_right.c`, `ipc/ipc_port.c` and `ipc/ipc_object.c`.

  Where the last send right of a port goes, its no-senders
  request is taken. What is sent once the port is unlocked is
  part of what an operation leaves.

  Key definitions include:
    * `SenderPort`, `SenderPort.dropSend`
    * `SenderPort.ipcPortNsrequest`
    * `SenderPort.ipcPortDestroy`
    * `ipcRightDealloc`, `ipcRightDelta`, `ipcRightDestroy`
    * `ipcRightCopyinUndo`, `ipcRightCopyout`
-/

------
-- Ports
------

namespace OsfMach

namespace Ipc

/- A port with its no-senders request, a send-once right. -/
structure SenderPort extends RightPort where
  ipNsrequest : Option Nat
deriving DecidableEq, Repr

/- `ipc_notify_no_senders`: the right and the count. -/
abbrev NoSenders := Nat × Nat

/- The count wraps after 32 bits. -/
def mscountModulus : Nat := 2 ^ 32

namespace SenderPort

/-
  A send right goes. Without a right left the request is
  taken, to be notified of the count.
-/
def dropSend
    (port : SenderPort) : SenderPort × Option NoSenders :=
  if port.ipSrights - 1 = 0 then
    ({ port with
        ipSrights := port.ipSrights - 1, ipNsrequest := none },
      port.ipNsrequest.map fun r => (r, port.ipMscount))
  else
    ({ port with ipSrights := port.ipSrights - 1 }, none)

/- `ipc_port_make_send`. -/
def ipcPortMakeSend
    (port : SenderPort) : Except Trap SenderPort := do
  ipcAssert (port.ipActive = true)
  .ok { port with
    ipMscount := (port.ipMscount + 1) % mscountModulus
    ipSrights := port.ipSrights + 1 }

/- `ipc_port_copy_send`, with whether it gives a right. -/
def ipcPortCopySend
    (port : SenderPort) : Except Trap (SenderPort × Bool) :=
  if port.ipActive then do
    ipcAssert (0 < port.ipSrights)
    .ok ({ port with ipSrights := port.ipSrights + 1 }, true)
  else .ok (port, false)

/- `ipc_port_release_send`. -/
def ipcPortReleaseSend
    (port : SenderPort) :
    Except Trap (SenderPort × Option NoSenders) :=
  if port.ipActive then do
    ipcAssert (0 < port.ipSrights)
    .ok port.dropSend
  else .ok (port, none)

/- `ipc_port_make_sonce`. -/
def ipcPortMakeSonce
    (port : SenderPort) : Except Trap SenderPort := do
  ipcAssert (port.ipActive = true)
  .ok { port with ipSorights := port.ipSorights + 1 }

/- `ipc_port_release_sonce`. -/
def ipcPortReleaseSonce
    (port : SenderPort) : Except Trap SenderPort := do
  ipcAssert (0 < port.ipSorights)
  .ok { port with ipSorights := port.ipSorights - 1 }

/-
  `ipc_port_nsrequest`: the port, what is sent, and the
  request that was there.
-/
def ipcPortNsrequest
    (port : SenderPort)
    (sync : Nat)
    (notify : Option Nat) :
    Except Trap (SenderPort × Option NoSenders × Option Nat) :=
  do
  ipcAssert (port.ipActive = true)
  let previous := port.ipNsrequest
  if port.ipSrights = 0 ∧ sync ≤ port.ipMscount ∧
      notify.isSome = true then
    .ok ({ port with ipNsrequest := none },
      notify.map fun r => (r, port.ipMscount), previous)
  else
    .ok ({ port with ipNsrequest := notify }, none, previous)

/- `ipc_port_pdrequest`, with whether there is a backup. -/
def ipcPortPdrequest
    (port : SenderPort)
    (notify : Bool) : Except Trap SenderPort := do
  ipcAssert (port.ipActive = true)
  .ok { port with ipPdrequest := notify }

/- `ipc_port_clear_receiver`, as far as rights go. -/
def ipcPortClearReceiver
    (port : SenderPort) : Except Trap SenderPort := do
  ipcAssert (port.ipActive = true)
  .ok { port with ipMscount := 0 }

end SenderPort

/-
  What `ipc_port_destroy` leaves: the request that it throws
  away, and whether the port went to its backup instead.
-/
structure PortEnd where
  port : SenderPort
  thrown : Option Nat
  backup : Bool
deriving DecidableEq, Repr

/- What consuming the destination of a message leaves. -/
structure DestOut where
  name : Nat
  port : SenderPort
  notified : Option NoSenders
  -- `ipc_notify_send_once`
  sendOnce : Bool
deriving DecidableEq, Repr

namespace SenderPort

/-
  `ipc_port_destroy`. `circular` is what
  `ipc_port_check_circularity` says of a backup port, and
  `timestamp` is `ipc_port_timestamp`. The no-senders request
  of a dead port stays where it is.
-/
def ipcPortDestroy
    (port : SenderPort)
    (circular : Bool)
    (timestamp : Nat) : Except Trap PortEnd := do
  ipcAssert (port.ipActive = true)
  ipcAssert (port.ipMscount = 0)
  let limbo :=
    { port with
      ipPdrequest := false
      ipReceiver := 0
      ipReceiverName := machPortNull }
  if port.ipPdrequest = true ∧ circular = false then
    .ok ⟨limbo, none, true⟩
  else
    let port := if port.ipPdrequest then limbo else port
    .ok ⟨{ port with
        ipActive := false, ipTimestamp := timestamp },
      port.ipNsrequest, false⟩

/- `ipc_port_release_receive`. -/
def ipcPortReleaseReceive
    (port : SenderPort)
    (circular : Bool)
    (timestamp : Nat) : Except Trap PortEnd := do
  ipcAssert (port.ipActive = true)
  ipcAssert (port.ipReceiverName = machPortNull)
  port.ipcPortDestroy circular timestamp

/- `ipc_object_copyout_dest`. -/
def ipcObjectCopyoutDest
    (port : SenderPort)
    (space : Nat)
    (msgtName : Nat) : Except Trap DestOut := do
  ipcAssert (port.ipActive = true)
  match msgtName with
  | machMsgTypePortSend => do
      let name :=
        if port.ipReceiver = space then port.ipReceiverName
        else machPortNull
      ipcAssert (0 < port.ipSrights)
      let dropped := port.dropSend
      .ok ⟨name, dropped.1, dropped.2, false⟩
  | machMsgTypePortSendOnce => do
      ipcAssert (0 < port.ipSorights)
      if port.ipReceiver = space then
        .ok ⟨port.ipReceiverName,
          { port with ipSorights := port.ipSorights - 1 },
          none, false⟩
      else .ok ⟨machPortNull, port, none, true⟩
  | _ => .error .panic

end SenderPort

------
-- Dropping Rights
------

/-
  What an operation that drops a right leaves. There is no
  entry where `ipc_entry_dealloc` was called.
-/
structure RightDrop where
  kr : KernReturn
  entry : Option EntryFields
  port : SenderPort
  hash : HashUpdate
  notified : Option NoSenders
  -- `ipc_notify_send_once`
  sendOnce : Bool
  -- the right of a dead-name request, for
  -- `ipc_notify_port_deleted`
  soright : Bool
  thrown : Option Nat
  backup : Bool
deriving DecidableEq, Repr

/- Nothing is sent, and the port stays. -/
def quietly
    (kr : KernReturn)
    (entry : Option EntryFields)
    (port : SenderPort)
    (hash : HashUpdate) : RightDrop :=
  { kr := kr
    entry := entry
    port := port
    hash := hash
    notified := none
    sendOnce := false
    soright := false
    thrown := none
    backup := false }

/- `ipc_right_dealloc` after `dead_name`. -/
def dropDeadName
    (entry : EntryFields)
    (port : SenderPort)
    (hash : HashUpdate) : Except Trap RightDrop := do
  let bits := entry.ieBits
  ipcAssert (ieBitsUrefs bits ≠ 0)
  ipcAssert (entry.ieRequest = 0)
  ipcAssert (entry.ieObject = ioNull)
  if ieBitsUrefs bits = 1 then
    .ok (quietly .success none port hash)
  else
    .ok (quietly .success
      (some { entry with ieBits := bits - 1 }) port hash)

/-
  The last reference of a send right goes: a receive right
  stays, and the entry of a pure send right does not.
-/
def dropLastSend
    (entry : EntryFields)
    (port : SenderPort) : RightDrop :=
  let bits := entry.ieBits
  let dropped := port.dropSend
  if bits &&& machPortTypeReceive ≠ 0 then
    { quietly .success
        (some { entry with
          ieBits :=
            bits &&& ~~~(ieBitsUrefsMask ||| machPortTypeSend) })
        dropped.1 .keep with
      notified := dropped.2 }
  else
    { quietly .success none dropped.1 .delete with
      notified := dropped.2
      soright := entry.ieRequest ≠ 0 }

/- A send-once right goes, by a notification to its port. -/
def dropSendOnce
    (entry : EntryFields)
    (port : SenderPort) : RightDrop :=
  { quietly .success none port .keep with
    sendOnce := true
    soright := entry.ieRequest ≠ 0 }

section Drop

variable (space name : Nat) (entry : EntryFields)
variable (port : SenderPort)

/- `ipc_right_dealloc`. -/
def ipcRightDealloc : Except Trap RightDrop :=
  let bits := entry.ieBits
  if ieBitsType bits = machPortTypeDeadName then
    dropDeadName entry port .keep
  else if ieBitsType bits = machPortTypeSendOnce then do
    ipcAssert (ieBitsUrefs bits = 1)
    ipcAssert (entry.ieObject ≠ ioNull)
    let (died, e, hash) ← ipcRightCheck entry port.toRightPort
    if died then do
      ipcAssert (ieBitsType e.ieBits = machPortTypeDeadName)
      dropDeadName e port hash
    else do
      ipcAssert (0 < port.ipSorights)
      .ok (dropSendOnce entry port)
  else if ieBitsType bits = machPortTypeSend then do
    ipcAssert (ieBitsUrefs bits ≠ 0)
    ipcAssert (entry.ieObject ≠ ioNull)
    let (died, e, hash) ← ipcRightCheck entry port.toRightPort
    if died then do
      ipcAssert (ieBitsType e.ieBits = machPortTypeDeadName)
      dropDeadName e port hash
    else do
      ipcAssert (0 < port.ipSrights)
      if ieBitsUrefs bits = 1 then .ok (dropLastSend entry port)
      else
        .ok (quietly .success
          (some { entry with ieBits := bits - 1 }) port .keep)
  else if ieBitsType bits = machPortTypeSendReceive then do
    ipcAssert (ieBitsUrefs bits ≠ 0)
    ipcAssert (entry.ieObject ≠ ioNull)
    ipcAssert (port.ipActive = true)
    assertReceiver space name port.toRightPort
    ipcAssert (0 < port.ipSrights)
    if ieBitsUrefs bits = 1 then .ok (dropLastSend entry port)
    else
      .ok (quietly .success
        (some { entry with ieBits := bits - 1 }) port .keep)
  else .ok (quietly .invalidRight (some entry) port .keep)

/- `MACH_PORT_UREFS_OVERFLOW`. -/
def machPortUrefsOverflow (urefs delta : EntryBits) : Bool :=
  (0#32).slt delta &&
    ((urefs + delta).ule urefs ||
      (BitVec.ofNat 32 machPortUrefsMax).ult (urefs + delta))

/- `MACH_PORT_UREFS_UNDERFLOW`. -/
def machPortUrefsUnderflow (urefs delta : EntryBits) : Bool :=
  delta.slt 0#32 && urefs.ult (-delta)

/-
  The receive right of an entry goes, and its port with it.
  A send right that is left becomes a dead name, as if the
  port had died before; `ip_srights` stays as it is.
-/
def dropReceive
    (circular : Bool)
    (timestamp : Nat) : Except Trap RightDrop := do
  let bits := entry.ieBits
  ipcAssert (entry.ieObject ≠ ioNull)
  ipcAssert (port.ipActive = true)
  assertReceiver space name port.toRightPort
  if bits &&& machPortTypeSend ≠ 0 then do
    ipcAssert (ieBitsType bits = machPortTypeSendReceive)
    ipcAssert (ieBitsUrefs bits ≠ 0)
    ipcAssert ((ieBitsUrefs bits).toNat < machPortUrefsMax)
    ipcAssert (0 < port.ipSrights)
    let bits := deadBits bits
    let bits := if entry.ieRequest ≠ 0 then bits + 1 else bits
    let cleared ← port.ipcPortClearReceiver
    let ended ← cleared.ipcPortDestroy circular timestamp
    .ok { quietly .success (some ⟨bits, ioNull, 0⟩) ended.port
          .keep with
        thrown := ended.thrown
        backup := ended.backup }
  else do
    ipcAssert (ieBitsType bits = machPortTypeReceive)
    ipcAssert (ieBitsUrefs bits = 0)
    let cleared ← port.ipcPortClearReceiver
    let ended ← cleared.ipcPortDestroy circular timestamp
    .ok { quietly .success none ended.port .keep with
        soright := entry.ieRequest ≠ 0
        thrown := ended.thrown
        backup := ended.backup }

/- `ipc_right_delta` of a port set. -/
def deltaPortSet
    (delta : EntryBits) : Except Trap RightDrop :=
  let bits := entry.ieBits
  if bits &&& machPortTypePortSet = 0 then
    .ok (quietly .invalidRight (some entry) port .keep)
  else do
    ipcAssert (ieBitsType bits = machPortTypePortSet)
    ipcAssert (ieBitsUrefs bits = 0)
    ipcAssert (entry.ieRequest = 0)
    if delta = 0 then
      .ok (quietly .success (some entry) port .keep)
    else if delta ≠ -1 then
      .ok (quietly .invalidValue (some entry) port .keep)
    else do
      ipcAssert (entry.ieObject ≠ ioNull)
      .ok (quietly .success none port .keep)

/- `ipc_right_delta` of a receive right. -/
def deltaReceive
    (delta : EntryBits)
    (circular : Bool)
    (timestamp : Nat) : Except Trap RightDrop :=
  if entry.ieBits &&& machPortTypeReceive = 0 then
    .ok (quietly .invalidRight (some entry) port .keep)
  else if delta = 0 then
    .ok (quietly .success (some entry) port .keep)
  else if delta ≠ -1 then
    .ok (quietly .invalidValue (some entry) port .keep)
  else dropReceive space name entry port circular timestamp

/- `ipc_right_delta` of a send-once right. -/
def deltaSendOnce
    (delta : EntryBits) : Except Trap RightDrop :=
  let bits := entry.ieBits
  if bits &&& machPortTypeSendOnce = 0 then
    .ok (quietly .invalidRight (some entry) port .keep)
  else do
    ipcAssert (ieBitsType bits = machPortTypeSendOnce)
    ipcAssert (ieBitsUrefs bits = 1)
    ipcAssert (entry.ieObject ≠ ioNull)
    let (died, e, hash) ← ipcRightCheck entry port.toRightPort
    if died then do
      ipcAssert (e.ieBits &&& machPortTypeSendOnce = 0)
      .ok (quietly .invalidRight (some e) port hash)
    else do
      ipcAssert (0 < port.ipSorights)
      if (0#32).slt delta || delta.slt (-1) then
        .ok (quietly .invalidValue (some entry) port .keep)
      else if delta = 0 then
        .ok (quietly .success (some entry) port .keep)
      else .ok (dropSendOnce entry port)

/- The change of the references of a dead name. -/
def changeDeadName
    (entry : EntryFields)
    (hash : HashUpdate)
    (delta : EntryBits) : Except Trap RightDrop := do
  let bits := entry.ieBits
  ipcAssert (ieBitsType bits = machPortTypeDeadName)
  ipcAssert (ieBitsUrefs bits ≠ 0)
  ipcAssert (entry.ieObject = ioNull)
  ipcAssert (entry.ieRequest = 0)
  let urefs := ieBitsUrefs bits
  if machPortUrefsUnderflow urefs delta then
    .ok (quietly .invalidValue (some entry) port hash)
  else if machPortUrefsOverflow urefs delta then
    .ok (quietly .urefsOverflow (some entry) port hash)
  else if urefs + delta = 0 then
    .ok (quietly .success none port hash)
  else
    .ok (quietly .success
      (some { entry with ieBits := bits + delta }) port hash)

/- `ipc_right_delta` of a dead name. -/
def deltaDeadName
    (delta : EntryBits) : Except Trap RightDrop :=
  let bits := entry.ieBits
  if bits &&& machPortTypeSendRights ≠ 0 then do
    ipcAssert (entry.ieObject ≠ ioNull)
    let (died, e, hash) ← ipcRightCheck entry port.toRightPort
    if died then changeDeadName port e hash delta
    else .ok (quietly .invalidRight (some entry) port .keep)
  else if bits &&& machPortTypeDeadName = 0 then
    .ok (quietly .invalidRight (some entry) port .keep)
  else changeDeadName port entry .keep delta

/- `ipc_right_delta` of a send right. -/
def deltaSend
    (delta : EntryBits) : Except Trap RightDrop :=
  let bits := entry.ieBits
  if bits &&& machPortTypeSend = 0 then
    .ok (quietly .invalidRight (some entry) port .keep)
  else do
    ipcAssert (entry.ieObject ≠ ioNull)
    let (died, e, hash) ← ipcRightCheck entry port.toRightPort
    if died then do
      ipcAssert (e.ieBits &&& machPortTypeSend = 0)
      .ok (quietly .invalidRight (some e) port hash)
    else do
      ipcAssert (0 < port.ipSrights)
      let urefs := ieBitsUrefs bits
      if machPortUrefsUnderflow urefs delta then
        .ok (quietly .invalidValue (some entry) port .keep)
      else if machPortUrefsOverflow (urefs + 1) delta then
        .ok (quietly .urefsOverflow (some entry) port .keep)
      else if urefs + delta = 0 then
        if bits &&& machPortTypeReceive ≠ 0 then do
          assertReceiver space name port.toRightPort
          ipcAssert (ieBitsType bits = machPortTypeSendReceive)
          .ok (dropLastSend entry port)
        else do
          ipcAssert (ieBitsType bits = machPortTypeSend)
          .ok (dropLastSend entry port)
      else
        .ok (quietly .success
          (some { entry with ieBits := bits + delta })
          port .keep)

/- `ipc_right_delta`. -/
def ipcRightDelta
    (right : Nat)
    (delta : EntryBits)
    (circular : Bool)
    (timestamp : Nat) : Except Trap RightDrop :=
  match right with
  | machPortRightPortSet => deltaPortSet entry port delta
  | machPortRightReceive =>
      deltaReceive space name entry port delta circular
        timestamp
  | machPortRightSendOnce => deltaSendOnce entry port delta
  | machPortRightDeadName => deltaDeadName entry port delta
  | machPortRightSend => deltaSend space name entry port delta
  | _ => .error .panic

/-
  `ipc_right_destroy` and `ipc_right_clean` of a right of a
  live port. A send right that is left with the receive right
  goes first.
-/
def destroyLive
    (circular : Bool)
    (timestamp : Nat) : Except Trap RightDrop := do
  let type := ieBitsType entry.ieBits
  let isSend := type &&& machPortTypeSend ≠ 0
  ipcAssert (isSend → 0 < port.ipSrights)
  let dropped := if isSend then port.dropSend else (port, none)
  let gone :=
    { quietly .success none dropped.1
        (if type = machPortTypeSend then .delete else .keep) with
      notified := dropped.2
      soright := entry.ieRequest ≠ 0 }
  if type &&& machPortTypeReceive ≠ 0 then do
    ipcAssert (port.ipReceiver = space)
    let cleared ← dropped.1.ipcPortClearReceiver
    let ended ← cleared.ipcPortDestroy circular timestamp
    .ok { gone with
      port := ended.port
      thrown := ended.thrown
      backup := ended.backup }
  else if type &&& machPortTypeSendOnce ≠ 0 then do
    ipcAssert (0 < port.ipSorights)
    .ok { gone with sendOnce := true }
  else .ok gone

/-
  `ipc_right_destroy` after a dead port was looked for: its
  right goes without becoming a dead name.
-/
def ipcRightDestroy
    (circular : Bool)
    (timestamp : Nat) : Except Trap RightDrop :=
  let type := ieBitsType entry.ieBits
  if type = machPortTypeDeadName then do
    ipcAssert (entry.ieRequest = 0)
    ipcAssert (entry.ieObject = ioNull)
    .ok (quietly .success none port .keep)
  else if type = machPortTypePortSet then do
    ipcAssert (entry.ieRequest = 0)
    ipcAssert (entry.ieObject ≠ ioNull)
    .ok (quietly .success none port .keep)
  else if type = machPortTypeSend ∨
      type = machPortTypeReceive ∨
      type = machPortTypeSendReceive ∨
      type = machPortTypeSendOnce then do
    ipcAssert (entry.ieObject ≠ ioNull)
    if port.ipActive then
      destroyLive space entry port circular timestamp
    else do
      ipcAssert (type &&& machPortTypeReceive = 0)
      .ok (quietly .success none port
        (if type = machPortTypeSend then .delete else .keep))
  else .error .panic

/-
  `ipc_right_clean`. The entry of a dead space stays as it is
  until the space is freed, but its right is gone.
-/
def ipcRightClean
    (circular : Bool)
    (timestamp : Nat) : Except Trap RightDrop :=
  let type := ieBitsType entry.ieBits
  if type = machPortTypeDeadName then do
    ipcAssert (entry.ieRequest = 0)
    ipcAssert (entry.ieObject = ioNull)
    .ok (quietly .success none port .keep)
  else if type = machPortTypePortSet then do
    ipcAssert (entry.ieRequest = 0)
    ipcAssert (entry.ieObject ≠ ioNull)
    .ok (quietly .success none port .keep)
  else if type = machPortTypeSend ∨
      type = machPortTypeReceive ∨
      type = machPortTypeSendReceive ∨
      type = machPortTypeSendOnce then do
    ipcAssert (entry.ieObject ≠ ioNull)
    if port.ipActive then do
      ipcAssert (type &&& machPortTypeReceive ≠ 0 →
        port.ipReceiverName = name)
      let out ←
        destroyLive space entry port circular timestamp
      .ok { out with hash := .keep }
    else .ok (quietly .success none port .keep)
  else .error .panic

end Drop

------
-- Undoing and Copying out
------

section Undo

variable (entry : EntryFields) (port : SenderPort)

/-
  `ipc_right_copyin_undo`: the entry, and what becomes of it
  in the reverse hash. `object` is what was copied in.
-/
def ipcRightCopyinUndo
    (msgtName object : Nat)
    (soright : Bool) :
    Except Trap (EntryFields × HashUpdate) := do
  let bits := entry.ieBits
  let moved := msgtName = machMsgTypeMoveSend ∨
    msgtName = machMsgTypeMoveSendOnce
  ipcAssert (moved ∨ msgtName = machMsgTypeCopySend)
  if soright then do
    ipcAssert moved
    ipcAssert (ieBitsType bits = machPortTypeNone)
    ipcAssert (entry.ieObject = ioNull)
    ipcAssert (object ≠ ioDead)
    .ok ({ entry with
      ieBits :=
        (bits &&& ~~~ieBitsRightMask) |||
          (machPortTypeDeadName ||| 2) }, .keep)
  else if ieBitsType bits = machPortTypeNone then do
    ipcAssert moved
    ipcAssert (entry.ieObject = ioNull)
    .ok ({ entry with
      ieBits :=
        (bits &&& ~~~ieBitsRightMask) |||
          (machPortTypeDeadName ||| 1) }, .keep)
  else if ieBitsType bits = machPortTypeDeadName then do
    ipcAssert (entry.ieObject = ioNull)
    ipcAssert (object = ioDead)
    ipcAssert (ieBitsUrefs bits ≠ 0)
    if msgtName = machMsgTypeCopySend then .ok (entry, .keep)
    else do
      ipcAssert ((ieBitsUrefs bits).toNat < machPortUrefsMax)
      .ok ({ entry with ieBits := bits + 1 }, .keep)
  else do
    ipcAssert (msgtName = machMsgTypeMoveSend ∨
      msgtName = machMsgTypeCopySend)
    ipcAssert (ieBitsType bits = machPortTypeSend)
    ipcAssert (object ≠ ioDead)
    ipcAssert (entry.ieObject = object)
    ipcAssert (ieBitsUrefs bits ≠ 0)
    let entry ←
      if msgtName = machMsgTypeCopySend then .ok entry
      else do
        ipcAssert
          ((ieBitsUrefs bits).toNat < machPortUrefsMax - 1)
        .ok { entry with ieBits := bits + 1 }
    let (_, e, hash) ← ipcRightCheck entry port.toRightPort
    .ok (e, hash)

/- What copying a right out leaves. -/
structure CopyoutOut where
  kr : KernReturn
  entry : EntryFields
  port : SenderPort
  hash : HashUpdate
deriving DecidableEq, Repr

/- `ipc_right_copyout` of a send-once right. -/
def copyoutSendOnce : Except Trap CopyoutOut := do
  let bits := entry.ieBits
  ipcAssert (ieBitsType bits = machPortTypeNone)
  ipcAssert (0 < port.ipSorights)
  .ok ⟨.success,
    { entry with ieBits := bits ||| (machPortTypeSendOnce ||| 1) },
    port, .keep⟩

/- `ipc_right_copyout` of a send right. -/
def copyoutSend
    (overflow : Bool) : Except Trap CopyoutOut := do
  let bits := entry.ieBits
  ipcAssert (0 < port.ipSrights)
  let dropped := { port with ipSrights := port.ipSrights - 1 }
  let more :=
    { entry with ieBits := (bits ||| machPortTypeSend) + 1 }
  if bits &&& machPortTypeSend ≠ 0 then do
    let urefs := ieBitsUrefs bits
    ipcAssert (1 < port.ipSrights)
    ipcAssert (urefs ≠ 0)
    ipcAssert (urefs.toNat < machPortUrefsMax)
    if urefs.toNat + 1 = machPortUrefsMax then
      if overflow then
        -- the references stay at their maximum
        .ok ⟨.success, entry, dropped, .keep⟩
      else .ok ⟨.urefsOverflow, entry, port, .keep⟩
    else .ok ⟨.success, more, dropped, .keep⟩
  else if bits &&& machPortTypeReceive ≠ 0 then do
    ipcAssert (ieBitsType bits = machPortTypeReceive)
    ipcAssert (ieBitsUrefs bits = 0)
    .ok ⟨.success, more, port, .keep⟩
  else do
    ipcAssert (ieBitsType bits = machPortTypeNone)
    ipcAssert (ieBitsUrefs bits = 0)
    .ok ⟨.success, more, port, .insert⟩

/- `ipc_right_copyout` of a receive right. -/
def copyoutReceive
    (space name : Nat) : Except Trap CopyoutOut := do
  let bits := entry.ieBits
  ipcAssert (port.ipMscount = 0)
  ipcAssert (port.ipReceiverName = machPortNull)
  let port :=
    { port with ipReceiver := space, ipReceiverName := name }
  ipcAssert (bits &&& machPortTypeReceive = 0)
  let received :=
    { entry with ieBits := bits ||| machPortTypeReceive }
  if bits &&& machPortTypeSend ≠ 0 then do
    ipcAssert (ieBitsType bits = machPortTypeSend)
    ipcAssert (ieBitsUrefs bits ≠ 0)
    ipcAssert (0 < port.ipSrights)
    .ok ⟨.success, received, port, .delete⟩
  else do
    ipcAssert (ieBitsType bits = machPortTypeNone)
    ipcAssert (ieBitsUrefs bits = 0)
    .ok ⟨.success, received, port, .keep⟩

/- `ipc_right_copyout` to an entry that has the object. -/
def ipcRightCopyout
    (space name msgtName : Nat)
    (overflow : Bool) : Except Trap CopyoutOut := do
  ipcAssert (ioValid entry.ieObject = true)
  ipcAssert (port.ipActive = true)
  match msgtName with
  | machMsgTypePortSendOnce => copyoutSendOnce entry port
  | machMsgTypePortSend => copyoutSend entry port overflow
  | machMsgTypePortReceive =>
      copyoutReceive entry port space name
  | _ => .error .panic

/-
  A turn of `ipc_right_dnrequest`. `slot` is what
  `ipc_port_dnrequest` answers; without one the table grows
  and there is another turn.
-/
def ipcRightDnrequest
    (immediate notify : Bool)
    (slot : Option Nat) :
    Except Trap (KernReturn × EntryFields × HashUpdate) := do
  let bits := entry.ieBits
  let (live, e, hash) ←
    if bits &&& machPortTypePortRights ≠ 0 then do
      ipcAssert (entry.ieObject ≠ ioNull)
      let (died, e, hash) ←
        ipcRightCheck entry port.toRightPort
      ipcAssert (died = true →
        e.ieBits &&& machPortTypeDeadName ≠ 0)
      .ok (!died, e, hash)
    else .ok (false, entry, .keep)
  if live then
    if !notify then
      .ok (.success, { e with ieRequest := 0 }, hash)
    else
      match slot with
      | none => do
          ipcAssert (e.ieRequest = 0)
          .ok (.resourceShortage, e, hash)
      | some request => do
          ipcAssert (request ≠ 0)
          .ok (.success, { e with ieRequest := request }, hash)
  else
    let bits := e.ieBits
    if bits &&& machPortTypeDeadName ≠ 0 ∧
        immediate = true ∧ notify = true then do
      let urefs := ieBitsUrefs bits
      ipcAssert (ieBitsType bits = machPortTypeDeadName)
      ipcAssert (urefs ≠ 0)
      if machPortUrefsOverflow urefs 1 then
        .ok (.urefsOverflow, e, hash)
      else
        .ok (.success, { e with ieBits := bits + 1 }, hash)
    else if bits &&& machPortTypePortOrDead ≠ 0 then
      .ok (.invalidArgument, e, hash)
    else .ok (.invalidRight, e, hash)

end Undo

end Ipc

end OsfMach
