import OsfMach.Ipc.Right

/-
  What an operation of `ipc/ipc_right.c` does to a right.

  Main declarations:
    * `EntryOk`
    * `Bearing`, `CopyinOk`
    * `ipcRightCopyin_ok`
-/

------
-- Rights of Entries
------

namespace OsfMach

namespace Ipc

open Lib

/- An entry that denotes a right, and the port it denotes. -/
inductive EntryOk
    (space name : Nat)
    (port : RightPort)
    (e : EntryFields) : Prop where
| send
    (type : ieBitsType e.ieBits = machPortTypeSend)
    (urefs : ieBitsUrefs e.ieBits ≠ 0)
    (object : ioValid e.ieObject = true)
    (room : (ieBitsUrefs e.ieBits).toNat < machPortUrefsMax)
| receive
    (type : ieBitsType e.ieBits = machPortTypeReceive)
    (urefs : ieBitsUrefs e.ieBits = 0)
    (object : ioValid e.ieObject = true)
    (active : port.ipActive = true)
    (receiver : port.ipReceiver = space)
    (receiverName : port.ipReceiverName = name)
| sendReceive
    (type : ieBitsType e.ieBits = machPortTypeSendReceive)
    (urefs : ieBitsUrefs e.ieBits ≠ 0)
    (object : ioValid e.ieObject = true)
    (room : (ieBitsUrefs e.ieBits).toNat < machPortUrefsMax)
    (active : port.ipActive = true)
    (receiver : port.ipReceiver = space)
    (receiverName : port.ipReceiverName = name)
| sendOnce
    (type : ieBitsType e.ieBits = machPortTypeSendOnce)
    (urefs : ieBitsUrefs e.ieBits = 1)
    (object : ioValid e.ieObject = true)
| portSet
    (type : ieBitsType e.ieBits = machPortTypePortSet)
    (urefs : ieBitsUrefs e.ieBits = 0)
    (object : ioValid e.ieObject = true)
| deadName
    (type : ieBitsType e.ieBits = machPortTypeDeadName)
    (urefs : ieBitsUrefs e.ieBits ≠ 0)
    (object : e.ieObject = ioNull)
    (request : e.ieRequest = 0)

/- Whether an entry bears a right of a kind. -/
def Bearing (kind : EntryBits) (e : EntryFields) : Bool :=
  ieBitsType e.ieBits &&& kind ≠ 0

/- What a right that was copied in counts as. -/
def gotRight
    (type : Nat)
    (out : RightOut)
    (kind : Nat) : Nat :=
  if out.kr = .success ∧ out.object ≠ ioDead ∧ type = kind
    then 1
  else 0

/-
  What copying a right in leaves: the entry denotes less or
  nothing, and the port's counts cover what was taken out.
-/
structure CopyinOk
    (space name : Nat)
    (e : EntryFields)
    (port : RightPort)
    (type : Nat)
    (out : RightOut) : Prop where
  active : out.port.ipActive = port.ipActive
  kotype : out.port.ipKotype = port.ipKotype
  mscount :
    Bearing machPortTypeReceive e = false →
      out.port.ipMscount = port.ipMscount
  entry :
    ieBitsType out.entry.ieBits = machPortTypeNone ∨
      EntryOk space name out.port out.entry
  object :
    out.entry.ieObject = e.ieObject ∨
      (Bearing machPortTypeSend out.entry = false ∧
        Bearing machPortTypeSendOnce out.entry = false ∧
        Bearing machPortTypeReceive out.entry = false)
  got :
    out.kr = .success → out.object ≠ ioDead →
      out.object = e.ieObject ∧ ioValid e.ieObject = true
  kept :
    Bearing machPortTypeReceive out.entry =
        Bearing machPortTypeReceive e ∧
      out.port.ipReceiver = port.ipReceiver ∧
      out.port.ipReceiverName = port.ipReceiverName ∧
      gotRight type out machMsgTypePortReceive = 0 ∨
    Bearing machPortTypeReceive e = true ∧
      Bearing machPortTypeReceive out.entry = false ∧
      port.ipActive = true ∧
      out.port.ipReceiverName = machPortNull ∧
      out.port.ipMscount = 0
  sends :
    port.ipActive = true →
      out.port.ipSrights +
          (Bearing machPortTypeSend e).toNat =
        port.ipSrights +
          (Bearing machPortTypeSend out.entry).toNat +
          gotRight type out machMsgTypePortSend
  onces :
    (Bearing machPortTypeSendOnce out.entry).toNat +
        gotRight type out machMsgTypePortSendOnce +
        port.ipSorights ≤
      (Bearing machPortTypeSendOnce e).toNat +
        out.port.ipSorights
  oncesActive :
    port.ipActive = true →
      (Bearing machPortTypeSendOnce out.entry).toNat +
          gotRight type out machMsgTypePortSendOnce +
          port.ipSorights =
        (Bearing machPortTypeSendOnce e).toNat +
          out.port.ipSorights

/- The port's counts cover the rights of its entry. -/
structure Covers
    (port : RightPort)
    (e : EntryFields) : Prop where
  send :
    port.ipActive = true →
      Bearing machPortTypeSend e = true → 0 < port.ipSrights
  sendOnce :
    Bearing machPortTypeSendOnce e = true →
      0 < port.ipSorights

------
-- Dead Entries
------

variable {space name : Nat} {e : EntryFields} {port : RightPort}

theorem deadBits_type
    (bits : EntryBits) :
    ieBitsType (deadBits bits) = machPortTypeDeadName := by
  unfold deadBits
  rw [ieBitsType_or, ieBitsType_clear]
  unfold ieBitsType
  rw [BitVec.and_assoc]
  simp
  decide

theorem deadBits_urefs
    (bits : EntryBits) :
    ieBitsUrefs (deadBits bits) = ieBitsUrefs bits := by
  unfold deadBits ieBitsUrefs
  rw [BitVec.and_or_distrib_right, and_clear (by decide)]
  have hNone : machPortTypeDeadName &&& ieBitsUrefsMask = 0 := by
    decide
  rw [hNone]
  simp

theorem and_of_type
    {bits t : EntryBits}
    (h : ieBitsType bits = t)
    (m : EntryBits)
    (hm : m &&& ieBitsTypeMask = m) :
    bits &&& m = t &&& m := by
  rw [and_type hm, h]

/- A right whose port may have died. -/
def MayDie (e : EntryFields) : Prop :=
  ieBitsType e.ieBits = machPortTypeSend ∧
      ieBitsUrefs e.ieBits ≠ 0 ∧
      (ieBitsUrefs e.ieBits).toNat < machPortUrefsMax ∨
    ieBitsType e.ieBits = machPortTypeSendOnce ∧
      ieBitsUrefs e.ieBits = 1

theorem MayDie.room
    (h : MayDie e) :
    (ieBitsUrefs (deadBits e.ieBits)).toNat <
      machPortUrefsMax := by
  rw [deadBits_urefs]
  rcases h with ⟨_, _, hLt⟩ | ⟨_, hOne⟩
  · exact hLt
  · rw [hOne]
    decide

theorem MayDie.urefs
    (h : MayDie e) :
    ieBitsUrefs e.ieBits ≠ 0 := by
  rcases h with ⟨_, hPos, _⟩ | ⟨_, hOne⟩
  · exact hPos
  · rw [hOne]
    decide

/- Only a pure send right is unhashed. -/
theorem MayDie.hash
    (h : MayDie e) :
    deadHash e.ieBits =
      .ok (if ieBitsType e.ieBits = machPortTypeSend
        then .delete else .keep) := by
  unfold deadHash
  rcases h with ⟨hType, _⟩ | ⟨hType, hOne⟩
  · have hBit : e.ieBits &&& machPortTypeSend ≠ 0 := by
      rw [and_of_type hType _ (by decide)]
      decide
    rw [if_pos hBit, ipcAssert_of hType, if_pos hType]
    rfl
  · have hBit : e.ieBits &&& machPortTypeSend = 0 := by
      rw [and_of_type hType _ (by decide)]
      decide
    have hNot : ieBitsType e.ieBits ≠ machPortTypeSend := by
      rw [hType]
      decide
    rw [if_neg (not_not_intro hBit), ipcAssert_of hType,
      ipcAssert_of hOne, if_neg hNot]
    rfl

/- What `ipc_right_check` makes of a right whose port died. -/
theorem MayDie.check
    (hDead : port.ipActive = false)
    (h : MayDie e) :
    ipcRightCheck e port =
      .ok (true,
        ⟨if e.ieRequest = 0 then deadBits e.ieBits
          else deadBits e.ieBits + 1, ioNull, 0⟩,
        if ieBitsType e.ieBits = machPortTypeSend
          then .delete else .keep) := by
  have hReceive : e.ieBits &&& machPortTypeReceive = 0 := by
    rcases h with ⟨hType, _⟩ | ⟨hType, _⟩ <;>
      rw [and_of_type hType _ (by decide)] <;> decide
  unfold ipcRightCheck
  rw [if_neg (by simp [hDead])]
  dsimp only
  rw [h.hash, ipcAssert_of hReceive, ipcAssert_of h.urefs,
    ipcAssert_of h.room]
  by_cases hRequest : e.ieRequest = 0
  · rw [if_pos hRequest]
    simp only [bind, Except.bind, if_neg (not_not_intro hRequest)]
  · rw [if_neg hRequest]
    simp only [bind, Except.bind, if_pos hRequest]

theorem deadBits_succ_type
    (h : MayDie e) :
    ieBitsType (deadBits e.ieBits + 1) =
      machPortTypeDeadName :=
  (and_eq_of_shift (by decide) (succ_shift h.room)).trans
    (deadBits_type _)

theorem ipcRightCheck_active
    (hActive : port.ipActive = true) :
    ipcRightCheck e port = .ok (false, e, .keep) := by
  unfold ipcRightCheck
  rw [if_pos hActive]

/- An entry of a dead name. -/
def IsDead (e : EntryFields) : Prop :=
  ieBitsType e.ieBits = machPortTypeDeadName ∧
    ieBitsUrefs e.ieBits ≠ 0 ∧ e.ieObject = ioNull ∧
    e.ieRequest = 0

/- The entry that `ipc_right_check` makes of a dead right. -/
def diedEntry (e : EntryFields) : EntryFields :=
  ⟨if e.ieRequest = 0 then deadBits e.ieBits
    else deadBits e.ieBits + 1, ioNull, 0⟩

/- What becomes of the right in the reverse hash. -/
def diedHash (e : EntryFields) : HashUpdate :=
  if ieBitsType e.ieBits = machPortTypeSend then .delete
  else .keep

theorem MayDie.isDead
    (h : MayDie e) :
    IsDead (diedEntry e) := by
  refine ⟨?_, ?_, rfl, rfl⟩
  · unfold diedEntry
    split
    · exact deadBits_type _
    · exact deadBits_succ_type h
  · unfold diedEntry
    split
    · rw [deadBits_urefs]
      exact h.urefs
    · intro hZero
      have hUrefs := ieBitsUrefs_succ h.room
      rw [hZero] at hUrefs
      simp at hUrefs

/- What is left of a dead name. -/
def DeadOut
    (port : RightPort)
    (out : RightOut) : Prop :=
  out.port = port ∧
    (IsDead out.entry ∨
      ieBitsType out.entry.ieBits = machPortTypeNone) ∧
    (out.kr = .success → out.object = ioDead)

theorem assertDead_of
    (h : IsDead e) :
    assertDead e = .ok () := by
  rcases h with ⟨hType, hUrefs, hObject, hRequest⟩
  unfold assertDead
  rw [ipcAssert_of hType, ipcAssert_of hUrefs,
    ipcAssert_of hRequest, ipcAssert_of hObject]
  rfl

theorem copyDead_out
    {hash : HashUpdate}
    {deadok : Bool}
    (h : IsDead e) :
    ∃ out, copyDead e port hash deadok = .ok out ∧
      DeadOut port out := by
  unfold copyDead
  rw [assertDead_of h]
  cases deadok with
  | false | true => exact ⟨_, rfl, rfl, Or.inl h, by simp⟩

theorem moveDead_out
    {hash : HashUpdate}
    {deadok : Bool}
    (h : IsDead e) :
    ∃ out, moveDead e port hash deadok = .ok out ∧
      DeadOut port out := by
  unfold moveDead
  rw [assertDead_of h]
  rcases h with ⟨hType, hUrefs, hObject, hRequest⟩
  cases deadok with
  | false =>
      exact ⟨_, rfl, rfl,
        Or.inl ⟨hType, hUrefs, hObject, hRequest⟩, by simp⟩
  | true =>
      refine ⟨_, rfl, rfl, ?_, fun _ => rfl⟩
      by_cases hLast : ieBitsUrefs e.ieBits = 1
      · rw [if_pos hLast]
        right
        rw [ieBitsType_clear, hType]
        decide
      · rw [if_neg hLast]
        left
        refine ⟨?_, ?_, hObject, hRequest⟩
        · exact (and_eq_of_shift (by decide)
            (pred_shift hUrefs)).trans hType
        · intro hZero
          have hPred := ieBitsUrefs_pred hUrefs
          rw [hZero] at hPred
          apply hLast
          apply BitVec.eq_of_toNat_eq
          have hPos : (ieBitsUrefs e.ieBits).toNat ≠ 0 := by
            intro hEq
            exact hUrefs (BitVec.eq_of_toNat_eq hEq)
          have hNat : (0 : EntryBits).toNat = 0 := rfl
          have hOne : (1 : EntryBits).toNat = 1 := rfl
          omega

theorem bearing_of_type
    {t : EntryBits}
    (h : ieBitsType e.ieBits = t)
    (kind : EntryBits) :
    Bearing kind e = decide (t &&& kind ≠ 0) := by
  unfold Bearing
  rw [h]

theorem bears_of_type
    {t kind : EntryBits}
    (h : ieBitsType e.ieBits = t)
    (hKind : t &&& kind ≠ 0) :
    Bearing kind e = true := by
  rw [bearing_of_type h]
  exact decide_eq_true hKind

namespace CopyinOk

variable {type : Nat}

theorem refused
    (hash : HashUpdate)
    (h : EntryOk space name port e) :
    CopyinOk space name e port type
      ⟨.invalidRight, e, port, hash, ioNull, false⟩ := by
  constructor <;> simp [gotRight, h]

/- What a dead name leaves, of a dead port or of none. -/
theorem dead
    {out : RightOut}
    (h : DeadOut port out)
    (hBear : Bearing machPortTypeSend e = false ∧
        Bearing machPortTypeSendOnce e = false ∨
      port.ipActive = false)
    (hReceive : Bearing machPortTypeReceive e = false) :
    CopyinOk space name e port type out := by
  rcases h with ⟨hPort, hEntry, hObject⟩
  have hNone : ∀ kind : EntryBits,
      machPortTypeDeadName &&& kind = 0 →
      machPortTypeNone &&& kind = 0 →
      Bearing kind out.entry = false := by
    intro kind hDead hNull
    rcases hEntry with hDeadName | hType
    · rw [bearing_of_type hDeadName.1]
      simp [hDead]
    · rw [bearing_of_type hType]
      simp [hNull]
  have hSend := hNone machPortTypeSend (by decide) (by decide)
  have hOnce := hNone machPortTypeSendOnce (by decide)
    (by decide)
  have hRecv := hNone machPortTypeReceive (by decide)
    (by decide)
  have hGot : ∀ kind, gotRight type out kind = 0 := by
    intro kind
    unfold gotRight
    rw [if_neg]
    rintro ⟨hSuccess, hNotDead, _⟩
    exact hNotDead (hObject hSuccess)
  refine ⟨by rw [hPort], by rw [hPort], ?_, ?_,
    Or.inr ⟨hSend, hOnce, hRecv⟩, ?_, Or.inl ⟨?_, ?_, ?_,
      hGot _⟩, ?_, ?_, ?_⟩
  · intro _
    rw [hPort]
  · rcases hEntry with hDeadName | hType
    · exact Or.inr (.deadName hDeadName.1 hDeadName.2.1
        hDeadName.2.2.1 hDeadName.2.2.2)
    · exact Or.inl hType
  · intro hSuccess hNotDead
    exact absurd (hObject hSuccess) hNotDead
  · rw [hRecv, hReceive]
  · rw [hPort]
  · rw [hPort]
  · intro hActive
    rcases hBear with ⟨hNoSend, _⟩ | hDead
    · simp [hPort, hSend, hNoSend, hGot]
    · rw [hActive] at hDead
      simp at hDead
  · simp [hPort, hOnce, hGot]
  · intro hActive
    rcases hBear with ⟨_, hNoOnce⟩ | hDead
    · simp [hPort, hOnce, hNoOnce, hGot]
    · rw [hActive] at hDead
      simp at hDead

end CopyinOk

------
-- Copying in
------

section Copyin

variable {deadok : Bool}

/- The receiver of a port, at its entry. -/
theorem assertReceiver_of
    (hName : port.ipReceiverName = name)
    (hSpace : port.ipReceiver = space) :
    assertReceiver space name port = .ok () := by
  unfold assertReceiver
  rw [ipcAssert_of hName, ipcAssert_of hSpace]
  rfl

theorem object_ne_null
    (h : ioValid e.ieObject = true) :
    e.ieObject ≠ ioNull ∧ e.ieObject ≠ ioDead := by
  simpa [ioValid] using h

section

variable (h : EntryOk space name port e)
include h

/- Only a receive right depends on what its port says. -/
theorem EntryOk.ofPort
    {space' name' : Nat}
    {port' : RightPort}
    (hPort : ieBitsType e.ieBits = machPortTypeReceive ∨
      ieBitsType e.ieBits = machPortTypeSendReceive →
      port.ipActive = true → port.ipReceiver = space →
      port.ipReceiverName = name →
      port'.ipActive = true ∧ port'.ipReceiver = space' ∧
        port'.ipReceiverName = name') :
    EntryOk space' name' port' e := by
  cases h with
  | receive type urefs object active receiver known =>
      rcases hPort (.inl type) active receiver known with
        ⟨active, receiver, known⟩
      exact .receive type urefs object active receiver known
  | sendReceive type urefs object room active receiver known =>
      rcases hPort (.inr type) active receiver known with
        ⟨active, receiver, known⟩
      exact .sendReceive type urefs object room active
        receiver known
  | send type urefs object room =>
      exact .send type urefs object room
  | sendOnce type urefs object =>
      exact .sendOnce type urefs object
  | portSet type urefs object =>
      exact .portSet type urefs object
  | deadName type urefs object request =>
      exact .deadName type urefs object request

/- The port matters to an entry with a receive right only. -/
theorem EntryOk.of_not_receive
    {port' : RightPort}
    (hReceive : Bearing machPortTypeReceive e = false) :
    EntryOk space name port' e := by
  apply h.ofPort
  rintro (type | type)
  · rw [bearing_of_type type] at hReceive
    exact absurd hReceive (by decide)
  · rw [bearing_of_type type] at hReceive
    exact absurd hReceive (by decide)

/- The port matters to an entry as its receiver. -/
theorem EntryOk.congr
    {port' : RightPort}
    (hActive : port'.ipActive = port.ipActive)
    (hReceiver : port'.ipReceiver = port.ipReceiver)
    (hName : port'.ipReceiverName = port.ipReceiverName) :
    EntryOk space name port' e :=
  h.ofPort fun _ active receiver known =>
    ⟨hActive.trans active, hReceiver.trans receiver,
      hName.trans known⟩

/- A receive right leaves a send right or nothing. -/
theorem moveReceive_taken
    (hReceive : Bearing machPortTypeReceive e = true)
    (hSend : Bearing machPortTypeSend e = true →
      0 < port.ipSrights)
    (hBit : e.ieBits &&& machPortTypeReceive ≠ 0)
    (hNull : e.ieObject ≠ ioNull)
    (hObject : ioValid e.ieObject = true)
    (hActive : port.ipActive = true)
    (hRecv : assertReceiver space name port = .ok ()) :
    ∃ out, copyinMoveReceive space name e port = .ok out ∧
      CopyinOk space name e port machMsgTypePortReceive
        out := by
  cases h with
  | sendReceive type urefs object room active receiver
      receiverName =>
      have hSendBit : e.ieBits &&& machPortTypeSend ≠ 0 := by
        rw [and_of_type type _ (by decide)]
        decide
      have hBear : Bearing machPortTypeSend e = true :=
        bears_of_type type (by decide)
      have hNew : ieBitsType
          (e.ieBits &&& ~~~machPortTypeReceive) =
            machPortTypeSend := by
        rw [ieBitsType_clear, type]
        decide
      have hUrefs : ieBitsUrefs
          (e.ieBits &&& ~~~machPortTypeReceive) =
            ieBitsUrefs e.ieBits := and_clear (by decide)
      have hRun : copyinMoveReceive space name e port =
          .ok ⟨.success,
            { e with
              ieBits := e.ieBits &&& ~~~machPortTypeReceive },
            { port with
              ipMscount := 0
              ipReceiver := 0
              ipReceiverName := machPortNull },
            .insert, e.ieObject, false⟩ := by
        unfold copyinMoveReceive
        rw [if_neg hBit, if_pos hSendBit, ipcAssert_of hNull,
          ipcAssert_of hActive, hRecv, ipcAssert_of type,
          ipcAssert_of urefs, ipcAssert_of (hSend hBear)]
        rfl
      refine ⟨_, hRun, rfl, rfl, fun hNo => absurd hReceive
          (by rw [hNo]; decide),
        Or.inr (.send hNew (hUrefs ▸ urefs) object
          (hUrefs ▸ room)), Or.inl rfl,
        fun _ _ => ⟨rfl, hObject⟩,
        Or.inr ⟨hReceive, ?_, hActive, rfl, rfl⟩, ?_, ?_, ?_⟩
      · unfold Bearing
        rw [hNew]
        decide
      · intro _
        unfold Bearing gotRight
        rw [hNew, type]
        simp [machPortTypeSend, machPortTypeSendReceive,
          machPortTypeReceive]
      · unfold Bearing gotRight
        rw [hNew, type]
        simp [machPortTypeSend, machPortTypeSendReceive,
          machPortTypeReceive, machPortTypeSendOnce]
      · intro _
        unfold Bearing gotRight
        rw [hNew, type]
        simp [machPortTypeSend, machPortTypeSendReceive,
          machPortTypeReceive, machPortTypeSendOnce]
  | receive type urefs object active receiver receiverName =>
      have hSendBit : e.ieBits &&& machPortTypeSend = 0 := by
        rw [and_of_type type _ (by decide)]
        decide
      have hNew : ieBitsType
          (e.ieBits &&& ~~~machPortTypeReceive) =
            machPortTypeNone := by
        rw [ieBitsType_clear, type]
        decide
      have hRun : copyinMoveReceive space name e port =
          .ok ⟨.success,
            ⟨e.ieBits &&& ~~~machPortTypeReceive, ioNull, 0⟩,
            { port with
              ipMscount := 0
              ipReceiver := 0
              ipReceiverName := machPortNull },
            .keep, e.ieObject, e.ieRequest ≠ 0⟩ := by
        unfold copyinMoveReceive
        rw [if_neg hBit, if_neg (not_not_intro hSendBit),
          ipcAssert_of hNull, ipcAssert_of hActive, hRecv,
          ipcAssert_of type, ipcAssert_of urefs]
        rfl
      refine ⟨_, hRun, rfl, rfl, fun hNo => absurd hReceive
          (by rw [hNo]; decide), Or.inl hNew,
        Or.inr ⟨?_, ?_, ?_⟩, fun _ _ => ⟨rfl, hObject⟩,
        Or.inr ⟨hReceive, ?_, hActive, rfl, rfl⟩, ?_, ?_, ?_⟩
      · rw [bearing_of_type hNew]
        decide
      · rw [bearing_of_type hNew]
        decide
      · rw [bearing_of_type hNew]
        decide
      · rw [bearing_of_type hNew]
        decide
      · intro _
        unfold Bearing gotRight
        rw [hNew, type]
        simp [machPortTypeSend, machPortTypeNone,
          machPortTypeReceive]
      · unfold Bearing gotRight
        rw [hNew, type]
        simp [machPortTypeSendOnce, machPortTypeNone,
          machPortTypeReceive]
      · intro _
        unfold Bearing gotRight
        rw [hNew, type]
        simp [machPortTypeSendOnce, machPortTypeNone,
          machPortTypeReceive]
  | send type urefs object room | sendOnce type urefs object
  | portSet type urefs object
  | deadName type urefs object request =>
      rw [bearing_of_type type] at hReceive
      exact absurd hReceive (by decide)

theorem EntryOk.receiver_facts
    (hReceive : Bearing machPortTypeReceive e = true) :
    ioValid e.ieObject = true ∧ port.ipActive = true ∧
      port.ipReceiver = space ∧
      port.ipReceiverName = name := by
  cases h with
  | receive type urefs object active receiver receiverName
  | sendReceive type urefs object room active receiver receiverName =>
      exact ⟨object, active, receiver, receiverName⟩
  | send type urefs object room | sendOnce type urefs object
  | portSet type urefs object
  | deadName type urefs object request =>
      rw [bearing_of_type type] at hReceive
      exact absurd hReceive (by decide)

end

theorem bearing_eq_bits
    (e : EntryFields)
    (kind : EntryBits)
    (hKind : kind &&& ieBitsTypeMask = kind) :
    Bearing kind e = decide (e.ieBits &&& kind ≠ 0) := by
  unfold Bearing
  rw [← and_type hKind]

theorem bears_of_bits
    {kind : EntryBits}
    (hKind : kind &&& ieBitsTypeMask = kind)
    (h : e.ieBits &&& kind ≠ 0) :
    Bearing kind e = true := by
  rw [bearing_eq_bits e kind hKind]
  exact decide_eq_true h

/- The bits of a receive right whose send right goes. -/
theorem dropSend_bits
    {bits : EntryBits}
    (hType : ieBitsType bits = machPortTypeSendReceive) :
    ieBitsType (bits &&&
        ~~~(ieBitsUrefsMask ||| machPortTypeSend)) =
          machPortTypeReceive ∧
      ieBitsUrefs (bits &&&
        ~~~(ieBitsUrefsMask ||| machPortTypeSend)) = 0 := by
  constructor
  · rw [ieBitsType_clear, hType]
    decide
  · unfold ieBitsUrefs
    rw [BitVec.and_assoc]
    have hMask : ~~~(ieBitsUrefsMask ||| machPortTypeSend) &&&
        ieBitsUrefsMask = 0 := by decide
    rw [hMask]
    simp

theorem makeSend_ok
    (h : EntryOk space name port e) :
    ∃ out, copyinMakeSend space name e port = .ok out ∧
      CopyinOk space name e port machMsgTypePortSend out := by
  have hBits := bearing_eq_bits e machPortTypeReceive
    (by decide)
  unfold copyinMakeSend
  by_cases hBit : e.ieBits &&& machPortTypeReceive = 0
  · rw [if_pos hBit]
    exact ⟨_, rfl, CopyinOk.refused .keep h⟩
  · rw [if_neg hBit]
    have hReceive : Bearing machPortTypeReceive e = true := by
      rw [hBits]
      simpa using hBit
    rcases h.receiver_facts hReceive with
      ⟨hObject, hActive, hSpace, hName⟩
    rcases object_ne_null hObject with ⟨hNull, hDead⟩
    rw [ipcAssert_of hNull, ipcAssert_of hActive,
      assertReceiver_of hName hSpace]
    refine ⟨_, rfl, rfl, rfl, fun hNo => absurd hReceive
        (by rw [hNo]; decide),
      Or.inr (h.congr rfl rfl rfl), Or.inl rfl,
      fun _ _ => ⟨rfl, hObject⟩, Or.inl ?_, ?_, ?_, ?_⟩
    · simp [gotRight]
    · intro _
      simp [gotRight, hDead]
      omega
    · simp [gotRight]
    · simp [gotRight]

theorem makeSendOnce_ok
    (h : EntryOk space name port e) :
    ∃ out, copyinMakeSendOnce space name e port = .ok out ∧
      CopyinOk space name e port machMsgTypePortSendOnce
        out := by
  have hBits := bearing_eq_bits e machPortTypeReceive
    (by decide)
  unfold copyinMakeSendOnce
  by_cases hBit : e.ieBits &&& machPortTypeReceive = 0
  · rw [if_pos hBit]
    exact ⟨_, rfl, CopyinOk.refused .keep h⟩
  · rw [if_neg hBit]
    rcases h.receiver_facts (by rw [hBits]; simpa using hBit)
      with ⟨hObject, hActive, hSpace, hName⟩
    rcases object_ne_null hObject with ⟨hNull, hDead⟩
    rw [ipcAssert_of hNull, ipcAssert_of hActive,
      assertReceiver_of hName hSpace]
    refine ⟨_, rfl, rfl, rfl, fun _ => rfl,
      Or.inr (h.congr rfl rfl rfl), Or.inl rfl,
      fun _ _ => ⟨rfl, hObject⟩, Or.inl ?_, ?_, ?_, ?_⟩
    · simp [gotRight]
    · simp [gotRight]
    · simp [gotRight, hDead]
      omega
    · simp [gotRight, hDead]
      omega

/-
  What the three ways to take a send right share: the name of
  a dead port, an entry without such a right, a right of a
  live port, or a right of a port that died meanwhile.
-/
inductive SendCase
    (space name : Nat)
    (e : EntryFields)
    (port : RightPort) : Prop where
| dead
    (bit : e.ieBits &&& machPortTypeDeadName ≠ 0)
    (isDead : IsDead e)
| none
    (bit : e.ieBits &&& machPortTypeDeadName = 0)
    (rights : e.ieBits &&& machPortTypeSendRights = 0)
| live
    (bit : e.ieBits &&& machPortTypeDeadName = 0)
    (rights : e.ieBits &&& machPortTypeSendRights ≠ 0)
    (urefs : ieBitsUrefs e.ieBits ≠ 0)
    (object : e.ieObject ≠ ioNull)
    (bear : Bearing machPortTypeSend e = true ∨
      Bearing machPortTypeSendOnce e = true)
    (active : port.ipActive = true)
| died
    (bit : e.ieBits &&& machPortTypeDeadName = 0)
    (rights : e.ieBits &&& machPortTypeSendRights ≠ 0)
    (urefs : ieBitsUrefs e.ieBits ≠ 0)
    (object : e.ieObject ≠ ioNull)
    (may : MayDie e)
    (active : port.ipActive = false)

/- A type with a send right bears one of the two. -/
theorem bearing_of_sendRights
    {t : EntryBits}
    (hType : ieBitsType e.ieBits = t)
    (hRights : t &&& machPortTypeSendRights ≠ 0) :
    Bearing machPortTypeSend e = true ∨
      Bearing machPortTypeSendOnce e = true := by
  rw [bearing_of_type hType, bearing_of_type hType]
  by_contra hNone
  simp only [decide_eq_true_eq, not_or, not_not] at hNone
  apply hRights
  unfold machPortTypeSendRights
  rw [BitVec.and_or_distrib_left, hNone.1, hNone.2]
  rfl

theorem EntryOk.sendCase
    (h : EntryOk space name port e) :
    SendCase space name e port := by
  have hNone : ∀ t, ieBitsType e.ieBits = t →
      t &&& machPortTypeDeadName = 0 →
      t &&& machPortTypeSendRights = 0 →
      SendCase space name e port := by
    intro t hType hName hRights
    rw [← and_of_type hType _ (by decide)] at hName hRights
    exact .none hName hRights
  -- A right of a port that may have died is a pure one.
  have hTaken : ∀ t, ieBitsType e.ieBits = t →
      t &&& machPortTypeDeadName = 0 →
      t &&& machPortTypeSendRights ≠ 0 →
      (port.ipActive = false → MayDie e) →
      ieBitsUrefs e.ieBits ≠ 0 →
      ioValid e.ieObject = true →
      SendCase space name e port := by
    intro t hType hName hRights hMay hUrefs hObject
    have hNull := (object_ne_null hObject).1
    have hBear := bearing_of_sendRights hType hRights
    rw [← and_of_type hType _ (by decide)] at hName hRights
    cases hActive : port.ipActive with
    | true => exact .live hName hRights hUrefs hNull hBear hActive
    | false =>
        exact .died hName hRights hUrefs hNull (hMay hActive)
          hActive
  cases h with
  | receive t urefs object active receiver receiverName
  | portSet t urefs object =>
      exact hNone _ t (by decide) (by decide)
  | deadName t urefs object request =>
      refine .dead ?_ ⟨t, urefs, object, request⟩
      rw [and_of_type t _ (by decide)]
      decide
  | send t urefs object room =>
      exact hTaken _ t (by decide) (by decide)
        (fun _ => Or.inl ⟨t, urefs, room⟩) urefs object
  | sendReceive t urefs object room active receiver
      receiverName =>
      refine hTaken _ t (by decide) (by decide) ?_ urefs object
      intro hNot
      rw [active] at hNot
      exact absurd hNot (by decide)
  | sendOnce t urefs object =>
      exact hTaken _ t (by decide) (by decide)
        (fun _ => Or.inr ⟨t, urefs⟩) (by rw [urefs]; decide)
        object

section SendRight

variable {onDead onLive :
  EntryFields → HashUpdate → Except Trap RightOut}

theorem copyinSendRight_dead
    (hBit : e.ieBits &&& machPortTypeDeadName ≠ 0) :
    copyinSendRight e port onDead onLive = onDead e .keep := by
  unfold copyinSendRight
  rw [if_pos hBit]

section

variable (hBit : e.ieBits &&& machPortTypeDeadName = 0)
include hBit

theorem copyinSendRight_none
    (hRights : e.ieBits &&& machPortTypeSendRights = 0) :
    copyinSendRight e port onDead onLive =
      .ok (refuseRight e port .keep) := by
  unfold copyinSendRight
  rw [if_neg (not_not_intro hBit), if_pos hRights]

theorem copyinSendRight_live
    (hRights : e.ieBits &&& machPortTypeSendRights ≠ 0)
    (hUrefs : ieBitsUrefs e.ieBits ≠ 0)
    (hNull : e.ieObject ≠ ioNull)
    (hActive : port.ipActive = true) :
    copyinSendRight e port onDead onLive = onLive e .keep := by
  unfold copyinSendRight
  rw [if_neg (not_not_intro hBit), if_neg hRights,
    ipcAssert_of hUrefs, ipcAssert_of hNull,
    ipcRightCheck_active hActive]
  rfl

theorem copyinSendRight_died
    (hRights : e.ieBits &&& machPortTypeSendRights ≠ 0)
    (hNull : e.ieObject ≠ ioNull)
    (hMay : MayDie e)
    (hActive : port.ipActive = false) :
    copyinSendRight e port onDead onLive =
      onDead (diedEntry e) (diedHash e) := by
  unfold copyinSendRight
  rw [if_neg (not_not_intro hBit), if_neg hRights,
    ipcAssert_of hMay.urefs, ipcAssert_of hNull,
    hMay.check hActive]
  rfl

end

theorem copyinSendRight_ok
    {type : Nat}
    (h : EntryOk space name port e)
    (hDead : ∀ e' hash, IsDead e' →
      ∃ out, onDead e' hash = .ok out ∧ DeadOut port out)
    (hLive : port.ipActive = true →
      (Bearing machPortTypeSend e = true ∨
        Bearing machPortTypeSendOnce e = true) →
      ∃ out, onLive e .keep = .ok out ∧
        CopyinOk space name e port type out) :
    ∃ out, copyinSendRight e port onDead onLive = .ok out ∧
      CopyinOk space name e port type out := by
  cases h.sendCase with
  | dead bit isDead =>
      rcases hDead e .keep isDead with ⟨out, hRun, hOut⟩
      rw [copyinSendRight_dead bit]
      refine ⟨out, hRun, CopyinOk.dead hOut (Or.inl ?_) ?_⟩
      · rw [bearing_of_type isDead.1, bearing_of_type isDead.1]
        decide
      · rw [bearing_of_type isDead.1]
        decide
  | none bit rights =>
      rw [copyinSendRight_none bit rights]
      exact ⟨_, rfl, CopyinOk.refused .keep h⟩
  | live bit rights urefs object bear active =>
      rw [copyinSendRight_live bit rights urefs object active]
      exact hLive active bear
  | died bit rights urefs object may active =>
      rcases hDead _ (diedHash e) may.isDead with
        ⟨out, hRun, hOut⟩
      rw [copyinSendRight_died bit rights object may active]
      refine ⟨out, hRun, CopyinOk.dead hOut (Or.inr active) ?_⟩
      rcases may with ⟨hType, _⟩ | ⟨hType, _⟩ <;>
        rw [bearing_of_type hType] <;> decide

end SendRight

section EntryOk

variable (h : EntryOk space name port e)

include h

/- A receive right is moved, or there was none. -/
theorem moveReceive_ok
    (hCovers : Covers port e) :
    ∃ out, copyinMoveReceive space name e port = .ok out ∧
      CopyinOk space name e port machMsgTypePortReceive
        out := by
  have hBits := bearing_eq_bits e machPortTypeReceive
    (by decide)
  by_cases hBit : e.ieBits &&& machPortTypeReceive = 0
  · refine ⟨_, ?_, CopyinOk.refused .keep h⟩
    unfold copyinMoveReceive
    rw [if_pos hBit]
    rfl
  · have hReceive : Bearing machPortTypeReceive e = true := by
      rw [hBits]
      simpa using hBit
    rcases h.receiver_facts hReceive with
      ⟨hObject, hActive, hSpace, hName⟩
    exact moveReceive_taken h hReceive
      (hCovers.send hActive) hBit (object_ne_null hObject).1
      hObject hActive (assertReceiver_of hName hSpace)

/- The three types of entries that a live send right has. -/
theorem EntryOk.live_cases
    (hBear : Bearing machPortTypeSend e = true ∨
      Bearing machPortTypeSendOnce e = true) :
    ioValid e.ieObject = true ∧
      (ieBitsType e.ieBits = machPortTypeSend ∧
          ieBitsUrefs e.ieBits ≠ 0 ∧
          (ieBitsUrefs e.ieBits).toNat < machPortUrefsMax ∨
        ieBitsType e.ieBits = machPortTypeSendReceive ∧
          ieBitsUrefs e.ieBits ≠ 0 ∧
          (ieBitsUrefs e.ieBits).toNat < machPortUrefsMax ∧
          port.ipActive = true ∧ port.ipReceiver = space ∧
          port.ipReceiverName = name ∨
        ieBitsType e.ieBits = machPortTypeSendOnce ∧
          ieBitsUrefs e.ieBits = 1) := by
  cases h with
  | send type urefs object room =>
      exact ⟨object, Or.inl ⟨type, urefs, room⟩⟩
  | sendReceive type urefs object room active receiver
      receiverName =>
      exact ⟨object, Or.inr (Or.inl ⟨type, urefs, room, active,
        receiver, receiverName⟩)⟩
  | sendOnce type urefs object =>
      exact ⟨object, Or.inr (Or.inr ⟨type, urefs⟩)⟩
  | receive type urefs object active receiver receiverName
  | portSet type urefs object
  | deadName type urefs object request =>
      rw [bearing_of_type type, bearing_of_type type] at hBear
      exact absurd hBear (by decide)

/- A send right has room for another reference. -/
theorem EntryOk.send_room
    (hType : ieBitsType e.ieBits = machPortTypeSend) :
    (ieBitsUrefs e.ieBits).toNat < machPortUrefsMax := by
  cases h with
  | send type urefs object room => exact room
  | receive type | sendReceive type | sendOnce type
  | portSet type | deadName type =>
      rw [hType] at type
      exact absurd type (by decide)

/- A live right that is no send right is a send-once right. -/
theorem EntryOk.once_of_not_send
    (hBear : Bearing machPortTypeSend e = true ∨
      Bearing machPortTypeSendOnce e = true)
    (hBit : e.ieBits &&& machPortTypeSend = 0) :
    ieBitsType e.ieBits = machPortTypeSendOnce ∧
      ieBitsUrefs e.ieBits = 1 ∧
      Bearing machPortTypeSendOnce e = true := by
  rcases (h.live_cases hBear).2 with
    ⟨hType, _⟩ | ⟨hType, _⟩ | ⟨hType, hOne⟩
  · rw [and_of_type hType _ (by decide)] at hBit
    exact absurd hBit (by decide)
  · rw [and_of_type hType _ (by decide)] at hBit
    exact absurd hBit (by decide)
  · refine ⟨hType, hOne, ?_⟩
    rw [bearing_of_type hType]
    decide

theorem copySend_ok
    (hCovers : Covers port e) :
    ∃ out, copyinCopySend e port deadok = .ok out ∧
      CopyinOk space name e port machMsgTypePortSend out := by
  refine copyinSendRight_ok h (fun _ _ hDead =>
    copyDead_out hDead) ?_
  intro hActive hBear
  have hBits := bearing_eq_bits e machPortTypeSend
    (by decide)
  by_cases hBit : e.ieBits &&& machPortTypeSend = 0
  · rcases h.once_of_not_send hBear hBit with ⟨hType, _, hIs⟩
    refine ⟨_, ?_, CopyinOk.refused .keep h⟩
    rw [if_pos hBit, ipcAssert_of hType,
      ipcAssert_of (hCovers.sendOnce hIs)]
    rfl
  · have hIs : Bearing machPortTypeSend e = true := by
      rw [hBits]
      simpa using hBit
    have hObject := (h.live_cases hBear).1
    have hDead := (object_ne_null hObject).2
    rw [if_neg hBit, ipcAssert_of (hCovers.send hActive hIs)]
    refine ⟨_, rfl, rfl, rfl, fun _ => rfl,
      Or.inr (h.congr rfl rfl rfl), Or.inl rfl,
      fun _ _ => ⟨rfl, hObject⟩, Or.inl ?_, ?_, ?_, ?_⟩
    · simp [gotRight]
    · intro _
      simp [gotRight, hDead]
      omega
    · simp [gotRight]
    · simp [gotRight]

/- One reference of a send right less. -/
theorem moveSendReference_ok
    (hBear : Bearing machPortTypeSend e = true)
    (hMore : ieBitsUrefs e.ieBits ≠ 1) :
    CopyinOk space name e port machMsgTypePortSend
      (moveSendReference e port) := by
  rcases h.live_cases (Or.inl hBear) with ⟨hObject, hCases⟩
  have hDead := (object_ne_null hObject).2
  have hFacts : ieBitsUrefs e.ieBits ≠ 0 ∧
      (ieBitsUrefs e.ieBits).toNat < machPortUrefsMax := by
    rcases hCases with ⟨_, hPos, hRoom⟩ |
      ⟨_, hPos, hRoom, _⟩ | ⟨_, hOne⟩
    · exact ⟨hPos, hRoom⟩
    · exact ⟨hPos, hRoom⟩
    · exact absurd hOne hMore
  have hShift := pred_shift hFacts.1
  have hType : ieBitsType (e.ieBits - 1) =
      ieBitsType e.ieBits := and_eq_of_shift (by decide) hShift
  have hUrefs := ieBitsUrefs_pred hFacts.1
  have hPos : ieBitsUrefs (e.ieBits - 1) ≠ 0 := by
    have hNotZero : (ieBitsUrefs e.ieBits).toNat ≠ 0 :=
      fun hEq => hFacts.1 (BitVec.eq_of_toNat_eq hEq)
    have hNotOne : (ieBitsUrefs e.ieBits).toNat ≠ 1 :=
      fun hEq => hMore (BitVec.eq_of_toNat_eq hEq)
    exact ne_zero_of_pos (by omega)
  have hRoom : (ieBitsUrefs (e.ieBits - 1)).toNat <
      machPortUrefsMax := by
    omega
  have hSame : ∀ kind,
      Bearing kind { e with ieBits := e.ieBits - 1 } =
        Bearing kind e := by
    intro kind
    unfold Bearing
    rw [hType]
  unfold moveSendReference
  refine ⟨rfl, rfl, fun _ => rfl, Or.inr ?_, Or.inl rfl,
    fun _ _ => ⟨rfl, hObject⟩, Or.inl ⟨hSame _, rfl, rfl, ?_⟩,
    ?_, ?_, ?_⟩
  · rcases hCases with ⟨hIs, _⟩ |
      ⟨hIs, _, _, hActive, hSpace, hName⟩ | ⟨_, hOne⟩
    · exact .send (hType.trans hIs) hPos hObject hRoom
    · exact .sendReceive (hType.trans hIs) hPos hObject hRoom
        hActive hSpace hName
    · exact absurd hOne hMore
  · simp [gotRight]
  · intro _
    rw [hSame]
    simp [gotRight, hDead]
    omega
  · rw [hSame]
    simp [gotRight]
  · intro _
    rw [hSame]
    simp [gotRight]

/- The last reference of a send right. -/
theorem moveSendLast_ok
    (hBear : Bearing machPortTypeSend e = true) :
    ∃ out, moveSendLast space name e port = .ok out ∧
      CopyinOk space name e port machMsgTypePortSend out := by
  rcases h.live_cases (Or.inl hBear) with ⟨hObject, hCases⟩
  have hDead := (object_ne_null hObject).2
  unfold moveSendLast
  rcases hCases with ⟨hType, _⟩ |
    ⟨hType, _, _, hActive, hSpace, hName⟩ | ⟨hType, _⟩
  · have hBit : e.ieBits &&& machPortTypeReceive = 0 := by
      rw [and_of_type hType _ (by decide)]
      decide
    have hNew : ieBitsType (e.ieBits &&&
        ~~~(ieBitsUrefsMask ||| machPortTypeSend)) =
          machPortTypeNone := by
      rw [ieBitsType_clear, hType]
      decide
    rw [if_neg (not_not_intro hBit), ipcAssert_of hType]
    have hNone : ∀ kind, Bearing kind
        ⟨e.ieBits &&&
          ~~~(ieBitsUrefsMask ||| machPortTypeSend),
          ioNull, 0⟩ = false := by
      intro kind
      rw [bearing_of_type hNew]
      simp [machPortTypeNone]
    have hNotRecv : Bearing machPortTypeReceive e = false := by
      rw [bearing_of_type hType]
      decide
    have hNotOnce : Bearing machPortTypeSendOnce e = false := by
      rw [bearing_of_type hType]
      decide
    refine ⟨_, rfl, rfl, rfl, fun _ => rfl, Or.inl hNew,
      Or.inr ⟨hNone _, hNone _, hNone _⟩,
      fun _ _ => ⟨rfl, hObject⟩,
      Or.inl ⟨(hNone _).trans hNotRecv.symm, rfl, rfl, ?_⟩, ?_,
      ?_, ?_⟩
    · simp [gotRight]
    · intro _
      rw [hNone]
      simp [gotRight, hDead, hBear]
    · rw [hNone]
      simp [gotRight]
    · intro _
      rw [hNone]
      simp [gotRight, hNotOnce]
  · have hBit : e.ieBits &&& machPortTypeReceive ≠ 0 := by
      rw [and_of_type hType _ (by decide)]
      decide
    rcases dropSend_bits hType with ⟨hNew, hUrefs⟩
    rw [if_pos hBit, assertReceiver_of hName hSpace,
      ipcAssert_of hType]
    have hBears : ∀ kind, Bearing kind
        { e with
          ieBits := e.ieBits &&&
            ~~~(ieBitsUrefsMask ||| machPortTypeSend) } =
          decide (machPortTypeReceive &&& kind ≠ 0) :=
      fun kind => bearing_of_type hNew kind
    have hRecv : Bearing machPortTypeReceive e = true :=
      bears_of_type hType (by decide)
    have hNotOnce : Bearing machPortTypeSendOnce e = false := by
      rw [bearing_of_type hType]
      decide
    refine ⟨_, rfl, rfl, rfl, fun _ => rfl,
      Or.inr (.receive hNew hUrefs hObject hActive hSpace
        hName), Or.inl rfl, fun _ _ => ⟨rfl, hObject⟩,
      Or.inl ⟨?_, rfl, rfl, ?_⟩, ?_, ?_, ?_⟩
    · rw [hBears, hRecv]
      decide
    · simp [gotRight]
    · intro _
      rw [hBears, hBear]
      simp [gotRight, hDead, machPortTypeReceive,
        machPortTypeSend]
    · rw [hBears, hNotOnce]
      simp [gotRight, machPortTypeReceive, machPortTypeSendOnce]
    · intro _
      rw [hBears, hNotOnce]
      simp [gotRight, machPortTypeReceive, machPortTypeSendOnce]
  · rw [bearing_of_type hType] at hBear
    exact absurd hBear (by decide)

theorem moveSend_ok
    (hCovers : Covers port e) :
    ∃ out, copyinMoveSend space name e port deadok = .ok out ∧
      CopyinOk space name e port machMsgTypePortSend out := by
  refine copyinSendRight_ok h (fun _ _ hDead =>
    moveDead_out hDead) ?_
  intro hActive hBear
  have hBits := bearing_eq_bits e machPortTypeSend
    (by decide)
  by_cases hBit : e.ieBits &&& machPortTypeSend = 0
  · rcases h.once_of_not_send hBear hBit with ⟨hType, _, hIs⟩
    refine ⟨_, ?_, CopyinOk.refused .keep h⟩
    rw [if_pos hBit, ipcAssert_of hType,
      ipcAssert_of (hCovers.sendOnce hIs)]
    rfl
  · have hIs : Bearing machPortTypeSend e = true := by
      rw [hBits]
      simpa using hBit
    rw [if_neg hBit, ipcAssert_of (hCovers.send hActive hIs)]
    by_cases hLast : ieBitsUrefs e.ieBits = 1
    · rcases moveSendLast_ok h hIs with
        ⟨out, hRun, hOk⟩
      refine ⟨out, ?_, hOk⟩
      rw [if_pos hLast]
      exact hRun
    · refine ⟨_, ?_, moveSendReference_ok h hIs hLast⟩
      rw [if_neg hLast]
      rfl

theorem moveSendOnce_ok
    (hCovers : Covers port e) :
    ∃ out, copyinMoveSendOnce e port deadok = .ok out ∧
      CopyinOk space name e port machMsgTypePortSendOnce
        out := by
  refine copyinSendRight_ok h (fun _ _ hDead =>
    moveDead_out hDead) ?_
  intro hActive hBear
  have hBits := bearing_eq_bits e machPortTypeSend
    (by decide)
  have hOnceBits := bearing_eq_bits e machPortTypeSendOnce
    (by decide)
  by_cases hBit : e.ieBits &&& machPortTypeSendOnce = 0
  · have hNone : Bearing machPortTypeSendOnce e = false := by
      rw [hOnceBits]
      simpa using hBit
    have hIs : Bearing machPortTypeSend e = true := by
      rcases hBear with hIs | hIs
      · exact hIs
      · rw [hNone] at hIs
        simp at hIs
    have hSendBit : e.ieBits &&& machPortTypeSend ≠ 0 := by
      rw [hBits] at hIs
      simpa using hIs
    refine ⟨_, ?_, CopyinOk.refused .keep h⟩
    rw [if_pos hBit, ipcAssert_of hSendBit,
      ipcAssert_of (hCovers.send hActive hIs)]
    rfl
  · have hIs : Bearing machPortTypeSendOnce e = true := by
      rw [hOnceBits]
      simpa using hBit
    have hObject := (h.live_cases hBear).1
    have hDead := (object_ne_null hObject).2
    have hNoSend : e.ieBits &&& machPortTypeSend = 0 := by
      rcases (h.live_cases hBear).2 with
        ⟨hType, _⟩ | ⟨hType, _⟩ | ⟨hType, _⟩
      · rw [bearing_of_type hType] at hIs
        exact absurd hIs (by decide)
      · rw [bearing_of_type hType] at hIs
        exact absurd hIs (by decide)
      · rw [and_of_type hType _ (by decide)]
        decide
    rcases h.once_of_not_send hBear hNoSend with
      ⟨hType, hOne, _⟩
    have hNew : ieBitsType
        (e.ieBits &&& ~~~machPortTypeSendOnce) =
          machPortTypeNone := by
      rw [ieBitsType_clear, hType]
      decide
    have hNone : ∀ kind, Bearing kind
        ⟨e.ieBits &&& ~~~machPortTypeSendOnce, ioNull, 0⟩ =
          false := by
      intro kind
      rw [bearing_of_type hNew]
      simp [machPortTypeNone]
    have hNotRecv : Bearing machPortTypeReceive e = false := by
      rw [bearing_of_type hType]
      decide
    have hNotSend : Bearing machPortTypeSend e = false := by
      rw [bearing_of_type hType]
      decide
    rw [if_neg hBit, ipcAssert_of hType, ipcAssert_of hOne,
      ipcAssert_of (hCovers.sendOnce hIs)]
    refine ⟨_, rfl, rfl, rfl, fun _ => rfl, Or.inl hNew,
      Or.inr ⟨hNone _, hNone _, hNone _⟩,
      fun _ _ => ⟨rfl, hObject⟩,
      Or.inl ⟨(hNone _).trans hNotRecv.symm, rfl, rfl, ?_⟩, ?_,
      ?_, ?_⟩
    · simp [gotRight]
    · intro _
      rw [hNone]
      simp [gotRight, hNotSend]
    · rw [hNone]
      simp [gotRight, hDead, hIs]
    · intro _
      rw [hNone]
      simp [gotRight, hDead, hIs]

end EntryOk

/-
  Copying a right in succeeds or is refused, for every type
  that is one, and never fails an assertion.
-/
theorem ipcRightCopyin_ok
    {msgtName type : Nat}
    (h : EntryOk space name port e)
    (hCovers : Covers port e)
    (hType : ipcObjectCopyinType msgtName = .ok type)
    (hSome : msgtName ≠ 0) :
    ∃ out,
      ipcRightCopyin space name e port deadok msgtName =
        .ok out ∧
      CopyinOk space name e port type out := by
  unfold ipcObjectCopyinType at hType
  split at hType
  · exact absurd rfl hSome
  · injection hType with hEq
    subst hEq
    exact moveReceive_ok h hCovers
  · injection hType with hEq
    subst hEq
    exact moveSendOnce_ok h hCovers
  · injection hType with hEq
    subst hEq
    exact makeSendOnce_ok h
  · injection hType with hEq
    subst hEq
    exact moveSend_ok h hCovers
  · injection hType with hEq
    subst hEq
    exact makeSend_ok h
  · injection hType with hEq
    subst hEq
    exact copySend_ok h hCovers
  · exact absurd hType (by simp)

end Copyin

end Ipc

end OsfMach
