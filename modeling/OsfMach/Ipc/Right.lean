import OsfMach.Ipc.Space

/-
  Moving rights out of a space, from `ipc/ipc_right.c`.

  An operation works on an entry and on the port that the
  entry denotes, and says what becomes of the reverse hash.
  An assertion that fails is a trap.

  Main declarations:
    * `RightPort`, `RightOut`, `Trap`
    * `ipcRightCheck`
    * `ipcRightCopyin`, `ipcRightCopyinCheck`
    * `ipcRightCopyinTwo`
    * `and_type`, `pred_shift`
-/

------
-- Parts of the Bits
------

namespace OsfMach

namespace Ipc

open Lib

section Parts

variable {bits m x y : EntryBits}

theorem and_type
    (hm : m &&& ieBitsTypeMask = m) :
    bits &&& m = ieBitsType bits &&& m := by
  unfold ieBitsType
  rw [BitVec.and_assoc, BitVec.and_comm ieBitsTypeMask, hm]

theorem ieBitsType_clear :
    ieBitsType (bits &&& ~~~m) = ieBitsType bits &&& ~~~m := by
  unfold ieBitsType
  rw [BitVec.and_assoc, BitVec.and_assoc,
    BitVec.and_comm (~~~m)]

theorem and_clear
    {n : EntryBits}
    (hn : n &&& m = 0) :
    (bits &&& ~~~m) &&& n = bits &&& n := by
  ext i hi
  have hBit := congrArg (fun b => b[i]) hn
  grind

theorem and_eq_of_shift
    (hm : m &&& ieBitsUrefsMask = 0)
    (h : x >>> 16 = y >>> 16) :
    x &&& m = y &&& m := by
  ext i hi
  by_cases hLow : i < 16
  · have hBit := congrArg (fun b => b[i]) hm
    have hAll : ∀ j : Fin 16,
        ieBitsUrefsMask.getLsbD j = true := by decide
    have hMask : ieBitsUrefsMask[i] = true := by
      exact hAll ⟨i, hLow⟩
    simp [hMask] at hBit
    simp [hBit]
  · have hBit := congrArg (fun b => b.getLsbD (i - 16)) h
    simp at hBit
    have hEq : 16 + (i - 16) = i := by omega
    rw [hEq] at hBit
    simp [BitVec.getLsbD_eq_getElem hi] at hBit
    simp [hBit]

theorem ieBitsUrefs_toNat :
    (ieBitsUrefs bits).toNat = bits.toNat % 65536 := by
  exact Nat.and_two_pow_sub_one_eq_mod _ 16

theorem pred_shift
    (h : ieBitsUrefs bits ≠ 0) :
    (bits - 1) >>> 16 = bits >>> 16 := by
  have hPos : bits.toNat % 65536 ≠ 0 := by
    rw [← ieBitsUrefs_toNat]
    intro hZero
    exact h (BitVec.eq_of_toNat_eq (by simpa using hZero))
  apply BitVec.eq_of_toNat_eq
  have hSub : (bits - 1).toNat = bits.toNat - 1 := by
    bv_omega
  rw [BitVec.toNat_ushiftRight, BitVec.toNat_ushiftRight, hSub,
    Nat.shiftRight_eq_div_pow, Nat.shiftRight_eq_div_pow]
  omega

theorem succ_shift
    (h : (ieBitsUrefs bits).toNat < 65535) :
    (bits + 1) >>> 16 = bits >>> 16 := by
  rw [ieBitsUrefs_toNat] at h
  apply BitVec.eq_of_toNat_eq
  have hAdd : (bits + 1).toNat = bits.toNat + 1 := by
    bv_omega
  rw [BitVec.toNat_ushiftRight, BitVec.toNat_ushiftRight, hAdd,
    Nat.shiftRight_eq_div_pow, Nat.shiftRight_eq_div_pow]
  omega

theorem ieBitsUrefs_pred
    (h : ieBitsUrefs bits ≠ 0) :
    (ieBitsUrefs (bits - 1)).toNat =
      (ieBitsUrefs bits).toNat - 1 := by
  have hPos : bits.toNat % 65536 ≠ 0 := by
    rw [← ieBitsUrefs_toNat]
    intro hZero
    exact h (BitVec.eq_of_toNat_eq (by simpa using hZero))
  have hSub : (bits - 1).toNat = bits.toNat - 1 := by
    bv_omega
  rw [ieBitsUrefs_toNat, ieBitsUrefs_toNat, hSub]
  omega

theorem ieBitsUrefs_succ
    (h : (ieBitsUrefs bits).toNat < 65535) :
    (ieBitsUrefs (bits + 1)).toNat =
      (ieBitsUrefs bits).toNat + 1 := by
  rw [ieBitsUrefs_toNat] at h
  have hAdd : (bits + 1).toNat = bits.toNat + 1 := by
    bv_omega
  rw [ieBitsUrefs_toNat, ieBitsUrefs_toNat, hAdd]
  omega

end Parts

------
-- Ports and Traps
------

/- Where the kernel does not go on. -/
inductive Trap where
| panic
| assertion
-- memory that the kernel does not own is accessed
| wild
-- what was not acquired is released
| release
deriving DecidableEq, Repr

def ipcAssert
    (c : Prop)
    [Decidable c] : Except Trap Unit :=
  if c then .ok () else .error .assertion

def ioNull : Nat := 0
def ioDead : Nat := 2 ^ 32 - 1

/- `IO_VALID`, and `MACH_PORT_VALID` of a name. -/
def ioValid (io : Nat) : Bool :=
  io ≠ ioNull && io ≠ ioDead

theorem ipcAssert_of
    {c : Prop}
    [Decidable c]
    (h : c) :
    ipcAssert c = .ok () := if_pos h

/- An assertion held where a computation returned. -/
theorem assert_ok
    {α : Type}
    {c : Prop}
    [Decidable c]
    {run : Except Trap α}
    {out : α}
    (h : (do ipcAssert c; run) = .ok out) :
    c ∧ run = .ok out := by
  by_cases hHolds : c
  · rw [ipcAssert_of hHolds] at h
    exact ⟨hHolds, h⟩
  · unfold ipcAssert at h
    rw [if_neg hHolds] at h
    cases h

def machPortUrefsMax : Nat := 2 ^ 16 - 1

/- The types of rights in messages. -/
@[match_pattern] abbrev machMsgTypeMoveReceive : Nat := 16
@[match_pattern] abbrev machMsgTypeMoveSend : Nat := 17
@[match_pattern] abbrev machMsgTypeMoveSendOnce : Nat := 18
@[match_pattern] abbrev machMsgTypeCopySend : Nat := 19
@[match_pattern] abbrev machMsgTypeMakeSend : Nat := 20
@[match_pattern] abbrev machMsgTypeMakeSendOnce : Nat := 21

@[match_pattern] abbrev machMsgTypePortReceive : Nat :=
  machMsgTypeMoveReceive
@[match_pattern] abbrev machMsgTypePortSend : Nat :=
  machMsgTypeMoveSend
@[match_pattern] abbrev machMsgTypePortSendOnce : Nat :=
  machMsgTypeMoveSendOnce

/- `MACH_MSG_TYPE_PORT_ANY`. -/
def machMsgTypePortAny (x : Nat) : Bool :=
  machMsgTypeMoveReceive ≤ x && x ≤ machMsgTypeMakeSendOnce

/-
  `struct ipc_port`, as far as rights go. The receiver is the
  address of its space; a port in transit has the null name.
-/
structure RightPort where
  ipActive : Bool
  ipReceiver : Nat
  ipReceiverName : Nat
  ipKotype : Nat
  ipPdrequest : Bool
  ipSrights : Nat
  ipSorights : Nat
  ipMscount : Nat
  ipTimestamp : Nat
deriving DecidableEq, Repr

/- What becomes of the entry in the reverse hash. -/
inductive HashUpdate where
| keep
| insert
| delete
deriving DecidableEq, Repr

/-
  What an operation on a right leaves. The send-once right of
  a dead-name request is returned or not.
-/
structure RightOut where
  kr : KernReturn
  entry : EntryFields
  port : RightPort
  hash : HashUpdate
  object : Nat
  soright : Bool
deriving DecidableEq, Repr

------
-- Dead Ports
------

/- A port that died: its right becomes a dead name. -/
def deadBits (bits : EntryBits) : EntryBits :=
  (bits &&& ~~~ieBitsTypeMask) ||| machPortTypeDeadName

/- A pure send right is in the reverse hash. -/
def deadHash (bits : EntryBits) : Except Trap HashUpdate :=
  if bits &&& machPortTypeSend ≠ 0 then do
    ipcAssert (ieBitsType bits = machPortTypeSend)
    .ok .delete
  else do
    ipcAssert (ieBitsType bits = machPortTypeSendOnce)
    ipcAssert (ieBitsUrefs bits = 1)
    .ok .keep

/- `ipc_right_check`. -/
def ipcRightCheck
    (entry : EntryFields)
    (port : RightPort) :
    Except Trap (Bool × EntryFields × HashUpdate) :=
  if port.ipActive then .ok (false, entry, .keep)
  else do
    let bits := entry.ieBits
    ipcAssert (bits &&& machPortTypeReceive = 0)
    ipcAssert (ieBitsUrefs bits ≠ 0)
    let hash ← deadHash bits
    let bits := deadBits bits
    if entry.ieRequest ≠ 0 then do
      ipcAssert
        ((ieBitsUrefs bits).toNat < machPortUrefsMax)
      .ok (true, ⟨bits + 1, ioNull, 0⟩, hash)
    else .ok (true, ⟨bits, ioNull, 0⟩, hash)

/- The asserts on the entry of a dead name. -/
def assertDead (entry : EntryFields) : Except Trap Unit := do
  ipcAssert (ieBitsType entry.ieBits = machPortTypeDeadName)
  ipcAssert (ieBitsUrefs entry.ieBits ≠ 0)
  ipcAssert (entry.ieRequest = 0)
  ipcAssert (entry.ieObject = ioNull)

/- `ipc_right_copyin` after `copy_dead`. -/
def copyDead
    (entry : EntryFields)
    (port : RightPort)
    (hash : HashUpdate)
    (deadok : Bool) : Except Trap RightOut := do
  assertDead entry
  if !deadok then
    .ok ⟨.invalidRight, entry, port, hash, ioNull, false⟩
  else .ok ⟨.success, entry, port, hash, ioDead, false⟩

/- `ipc_right_copyin` after `move_dead`. -/
def moveDead
    (entry : EntryFields)
    (port : RightPort)
    (hash : HashUpdate)
    (deadok : Bool) : Except Trap RightOut := do
  assertDead entry
  if !deadok then
    .ok ⟨.invalidRight, entry, port, hash, ioNull, false⟩
  else
    let bits := entry.ieBits
    let bits :=
      if ieBitsUrefs bits = 1 then
        bits &&& ~~~machPortTypeDeadName
      else bits - 1
    .ok ⟨.success, { entry with ieBits := bits }, port, hash,
      ioDead, false⟩

------
-- Copying Rights in
------

/- `ipc_object_copyin_type`, from `ipc/ipc_object.c`. -/
def ipcObjectCopyinType (msgtName : Nat) : Except Trap Nat :=
  match msgtName with
  | 0 => .ok 0
  | machMsgTypeMoveReceive => .ok machMsgTypePortReceive
  | machMsgTypeMoveSendOnce | machMsgTypeMakeSendOnce =>
      .ok machMsgTypePortSendOnce
  | machMsgTypeMoveSend | machMsgTypeMakeSend
  | machMsgTypeCopySend => .ok machMsgTypePortSend
  | _ => .error .panic

/- `ipc_right_copyin_check`. -/
def ipcRightCopyinCheck
    (entry : EntryFields)
    (port : RightPort)
    (msgtName : Nat) : Except Trap Bool :=
  let bits := entry.ieBits
  match msgtName with
  | machMsgTypeMakeSend | machMsgTypeMakeSendOnce
  | machMsgTypeMoveReceive =>
      .ok (bits &&& machPortTypeReceive ≠ 0)
  | machMsgTypeCopySend | machMsgTypeMoveSend
  | machMsgTypeMoveSendOnce =>
      if bits &&& machPortTypeDeadName ≠ 0 then .ok true
      else if bits &&& machPortTypeSendRights = 0 then
        .ok false
      else do
        ipcAssert (entry.ieObject ≠ ioNull)
        if !port.ipActive then .ok true
        else if msgtName = machMsgTypeMoveSendOnce then
          .ok (bits &&& machPortTypeSendOnce ≠ 0)
        else .ok (bits &&& machPortTypeSend ≠ 0)
  | _ => .error .panic

/- The asserts on the receiver of a port. -/
def assertReceiver
    (space name : Nat)
    (port : RightPort) : Except Trap Unit := do
  ipcAssert (port.ipReceiverName = name)
  ipcAssert (port.ipReceiver = space)

section Copyin

variable (space name : Nat) (entry : EntryFields)
variable (port : RightPort) (deadok : Bool)

/- `invalid_right`. -/
def refuseRight (hash : HashUpdate) : RightOut :=
  ⟨.invalidRight, entry, port, hash, ioNull, false⟩

/- `ipc_right_copyin` of `MACH_MSG_TYPE_MAKE_SEND`. -/
def copyinMakeSend : Except Trap RightOut :=
  if entry.ieBits &&& machPortTypeReceive = 0 then
    .ok (refuseRight entry port .keep)
  else do
    ipcAssert (entry.ieObject ≠ ioNull)
    ipcAssert (port.ipActive = true)
    assertReceiver space name port
    .ok ⟨.success, entry,
      { port with
        ipMscount := port.ipMscount + 1
        ipSrights := port.ipSrights + 1 },
      .keep, entry.ieObject, false⟩

/- `ipc_right_copyin` of `MACH_MSG_TYPE_MAKE_SEND_ONCE`. -/
def copyinMakeSendOnce : Except Trap RightOut :=
  if entry.ieBits &&& machPortTypeReceive = 0 then
    .ok (refuseRight entry port .keep)
  else do
    ipcAssert (entry.ieObject ≠ ioNull)
    ipcAssert (port.ipActive = true)
    assertReceiver space name port
    .ok ⟨.success, entry,
      { port with ipSorights := port.ipSorights + 1 },
      .keep, entry.ieObject, false⟩

/- `ipc_right_copyin` of `MACH_MSG_TYPE_MOVE_RECEIVE`. -/
def copyinMoveReceive : Except Trap RightOut :=
  let bits := entry.ieBits
  if bits &&& machPortTypeReceive = 0 then
    .ok (refuseRight entry port .keep)
  else do
    ipcAssert (entry.ieObject ≠ ioNull)
    ipcAssert (port.ipActive = true)
    assertReceiver space name port
    let moved :=
      { port with
        ipMscount := 0
        ipReceiver := 0
        ipReceiverName := machPortNull }
    if bits &&& machPortTypeSend ≠ 0 then do
      ipcAssert (ieBitsType bits = machPortTypeSendReceive)
      ipcAssert (ieBitsUrefs bits ≠ 0)
      ipcAssert (0 < port.ipSrights)
      .ok ⟨.success,
        { entry with
          ieBits := bits &&& ~~~machPortTypeReceive },
        moved, .insert, entry.ieObject, false⟩
    else do
      ipcAssert (ieBitsType bits = machPortTypeReceive)
      ipcAssert (ieBitsUrefs bits = 0)
      .ok ⟨.success,
        ⟨bits &&& ~~~machPortTypeReceive, ioNull, 0⟩,
        moved, .keep, entry.ieObject, entry.ieRequest ≠ 0⟩

/-
  How `ipc_right_copyin` takes a send or send-once right. The
  entry is looked at again when the port has died.
-/
def copyinSendRight
    (onDead onLive :
      EntryFields → HashUpdate → Except Trap RightOut) :
    Except Trap RightOut :=
  let bits := entry.ieBits
  if bits &&& machPortTypeDeadName ≠ 0 then
    onDead entry .keep
  else if bits &&& machPortTypeSendRights = 0 then
    .ok (refuseRight entry port .keep)
  else do
    ipcAssert (ieBitsUrefs bits ≠ 0)
    ipcAssert (entry.ieObject ≠ ioNull)
    let (died, entry, hash) ← ipcRightCheck entry port
    if died then onDead entry hash else onLive entry hash

/- `ipc_right_copyin` of `MACH_MSG_TYPE_COPY_SEND`. -/
def copyinCopySend : Except Trap RightOut :=
  copyinSendRight entry port
    (fun entry hash => copyDead entry port hash deadok)
    fun entry hash =>
      let bits := entry.ieBits
      if bits &&& machPortTypeSend = 0 then do
        ipcAssert (ieBitsType bits = machPortTypeSendOnce)
        ipcAssert (0 < port.ipSorights)
        .ok (refuseRight entry port hash)
      else do
        ipcAssert (0 < port.ipSrights)
        .ok ⟨.success, entry,
          { port with ipSrights := port.ipSrights + 1 },
          .keep, entry.ieObject, false⟩

/- A send right is moved that is not the last reference. -/
def moveSendReference : RightOut :=
  ⟨.success, { entry with ieBits := entry.ieBits - 1 },
    { port with ipSrights := port.ipSrights + 1 },
    .keep, entry.ieObject, false⟩

/- The last reference of a send right is moved. -/
def moveSendLast : Except Trap RightOut :=
  let bits := entry.ieBits
  let last := bits &&& ~~~(ieBitsUrefsMask ||| machPortTypeSend)
  if bits &&& machPortTypeReceive ≠ 0 then do
    assertReceiver space name port
    ipcAssert (ieBitsType bits = machPortTypeSendReceive)
    .ok ⟨.success, { entry with ieBits := last }, port, .keep,
      entry.ieObject, false⟩
  else do
    ipcAssert (ieBitsType bits = machPortTypeSend)
    .ok ⟨.success, ⟨last, ioNull, 0⟩, port, .delete,
      entry.ieObject, entry.ieRequest ≠ 0⟩

/- `ipc_right_copyin` of `MACH_MSG_TYPE_MOVE_SEND`. -/
def copyinMoveSend : Except Trap RightOut :=
  copyinSendRight entry port
    (fun entry hash => moveDead entry port hash deadok)
    fun entry hash =>
      let bits := entry.ieBits
      if bits &&& machPortTypeSend = 0 then do
        ipcAssert (ieBitsType bits = machPortTypeSendOnce)
        ipcAssert (0 < port.ipSorights)
        .ok (refuseRight entry port hash)
      else do
        ipcAssert (0 < port.ipSrights)
        if ieBitsUrefs bits = 1 then
          moveSendLast space name entry port
        else .ok (moveSendReference entry port)

/- `ipc_right_copyin` of `MACH_MSG_TYPE_MOVE_SEND_ONCE`. -/
def copyinMoveSendOnce : Except Trap RightOut :=
  copyinSendRight entry port
    (fun entry hash => moveDead entry port hash deadok)
    fun entry hash =>
      let bits := entry.ieBits
      if bits &&& machPortTypeSendOnce = 0 then do
        ipcAssert (bits &&& machPortTypeSend ≠ 0)
        ipcAssert (0 < port.ipSrights)
        .ok (refuseRight entry port hash)
      else do
        ipcAssert (ieBitsType bits = machPortTypeSendOnce)
        ipcAssert (ieBitsUrefs bits = 1)
        ipcAssert (0 < port.ipSorights)
        .ok ⟨.success,
          ⟨bits &&& ~~~machPortTypeSendOnce, ioNull, 0⟩,
          port, .keep, entry.ieObject, entry.ieRequest ≠ 0⟩

/-
  `ipc_right_copyin`, with the port that the entry denotes.
  `space` is the address of the space.
-/
def ipcRightCopyin
    (msgtName : Nat) : Except Trap RightOut :=
  match msgtName with
  | machMsgTypeMakeSend =>
      copyinMakeSend space name entry port
  | machMsgTypeMakeSendOnce =>
      copyinMakeSendOnce space name entry port
  | machMsgTypeMoveReceive =>
      copyinMoveReceive space name entry port
  | machMsgTypeCopySend => copyinCopySend entry port deadok
  | machMsgTypeMoveSend =>
      copyinMoveSend space name entry port deadok
  | machMsgTypeMoveSendOnce =>
      copyinMoveSendOnce entry port deadok
  | _ => .error .panic

/- The rights that `ipc_right_copyin_two` takes of a live port. -/
def copyinTwoLive : Except Trap RightOut := do
  let bits := entry.ieBits
  let last := bits &&& ~~~(ieBitsUrefsMask ||| machPortTypeSend)
  ipcAssert (0 < port.ipSrights)
  if ieBitsUrefs bits = 2 then
    let port := { port with ipSrights := port.ipSrights + 1 }
    if bits &&& machPortTypeReceive ≠ 0 then do
      assertReceiver space name port
      ipcAssert (ieBitsType bits = machPortTypeSendReceive)
      .ok ⟨.success, { entry with ieBits := last }, port, .keep,
        entry.ieObject, false⟩
    else do
      ipcAssert (ieBitsType bits = machPortTypeSend)
      .ok ⟨.success, ⟨last, ioNull, 0⟩, port, .delete,
        entry.ieObject, entry.ieRequest ≠ 0⟩
  else
    .ok ⟨.success, { entry with ieBits := bits - 2 },
      { port with ipSrights := port.ipSrights + 2 }, .keep,
      entry.ieObject, false⟩

/-
  `ipc_right_copyin_two`: like two moves of a send right where
  dead names are refused. The port has two rights more.
-/
def ipcRightCopyinTwo : Except Trap RightOut :=
  let bits := entry.ieBits
  if bits &&& machPortTypeSend = 0 then
    .ok (refuseRight entry port .keep)
  else if (ieBitsUrefs bits).toNat < 2 then
    .ok (refuseRight entry port .keep)
  else do
    ipcAssert (entry.ieObject ≠ ioNull)
    let (died, entry, hash) ← ipcRightCheck entry port
    if died then .ok (refuseRight entry port hash)
    else copyinTwoLive space name entry port

/-
  How many references of the port `ipc_right_copyin` of
  `MACH_MSG_TYPE_MOVE_SEND` takes: one for what it returns,
  unless the entry's own goes with it; `ipc_right_check` gives
  the entry's own back.
-/
def copyinMoveSendReferences : Int :=
  let bits := entry.ieBits
  if bits &&& machPortTypeDeadName ≠ 0 then 0
  else if bits &&& machPortTypeSendRights = 0 then 0
  else if !port.ipActive then -1
  else if bits &&& machPortTypeSend = 0 then 0
  else if ieBitsUrefs bits = 1 then
    if bits &&& machPortTypeReceive ≠ 0 then 1 else 0
  else 1

/- How many references `ipc_right_copyin_two` takes. -/
def copyinTwoReferences : Int :=
  let bits := entry.ieBits
  if bits &&& machPortTypeSend = 0 then 0
  else if (ieBitsUrefs bits).toNat < 2 then 0
  else if !port.ipActive then -1
  else if ieBitsUrefs bits = 2 then
    if bits &&& machPortTypeReceive ≠ 0 then 2 else 1
  else 2

end Copyin

end Ipc

end OsfMach
