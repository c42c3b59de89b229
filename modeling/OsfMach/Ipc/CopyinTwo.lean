import OsfMach.Ipc.RightInv

/-
  What `ipc_kmsg_copyin_header` relies on when it moves two
  rights of one name: that `ipc_right_copyin_check` says
  whether `ipc_right_copyin` will succeed, and that
  `ipc_right_copyin_two` is two moves of a send right.

  Main declarations:
    * `Foretells`
    * `TwoMoves`
    * `EntryOk.foretells`
    * `EntryOk.two_moves`
    * `ipcRightCopyin_foretold`
-/

------
-- Whether Copying in Will Succeed
------

namespace OsfMach

namespace Ipc

open Lib

variable {space name : Nat} {e : EntryFields} {port : RightPort}
variable {msgtName : Nat}

/-
  What `check` answers, without a trap, is whether `run` takes
  a right.
-/
def Foretells
    (check : Except Trap Bool)
    (run : Except Trap RightOut) : Prop :=
  ∃ b out, check = .ok b ∧ run = .ok out ∧
    (b = true ↔ out.kr = .success)

theorem Foretells.taken
    {out : RightOut}
    {run : Except Trap RightOut}
    (hRun : run = .ok out)
    (hSuccess : out.kr = .success) :
    Foretells (.ok true) run :=
  ⟨true, out, rfl, hRun, by simp [hSuccess]⟩

theorem Foretells.refused
    {out : RightOut}
    {run : Except Trap RightOut}
    (hRun : run = .ok out)
    (hRefused : out.kr = .invalidRight) :
    Foretells (.ok false) run :=
  ⟨false, out, rfl, hRun, by simp [hRefused]⟩

/- The three dispositions that need a receive right. -/
theorem check_receive
    (h : msgtName = machMsgTypeMakeSend ∨
      msgtName = machMsgTypeMakeSendOnce ∨
      msgtName = machMsgTypeMoveReceive) :
    ipcRightCopyinCheck e port msgtName =
      .ok (e.ieBits &&& machPortTypeReceive ≠ 0) := by
  rcases h with rfl | rfl | rfl <;> rfl

/- The three dispositions that need a send right. -/
theorem check_send
    (h : msgtName = machMsgTypeCopySend ∨
      msgtName = machMsgTypeMoveSend ∨
      msgtName = machMsgTypeMoveSendOnce) :
    ipcRightCopyinCheck e port msgtName =
      if e.ieBits &&& machPortTypeDeadName ≠ 0 then .ok true
      else if e.ieBits &&& machPortTypeSendRights = 0 then
        .ok false
      else (do
        ipcAssert (e.ieObject ≠ ioNull)
        if !port.ipActive then .ok true
        else if msgtName = machMsgTypeMoveSendOnce then
          .ok (e.ieBits &&& machPortTypeSendOnce ≠ 0)
        else .ok (e.ieBits &&& machPortTypeSend ≠ 0)) := by
  rcases h with rfl | rfl | rfl <;> rfl

section Dead

variable {hash : HashUpdate}

theorem copyDead_success
    (h : IsDead e) :
    copyDead e port hash true =
      .ok ⟨.success, e, port, hash, ioDead, false⟩ := by
  unfold copyDead
  rw [assertDead_of h]
  rfl

theorem moveDead_success
    (h : IsDead e) :
    ∃ out, moveDead e port hash true = .ok out ∧
      out.kr = .success := by
  unfold moveDead
  rw [assertDead_of h]
  exact ⟨_, rfl, rfl⟩

theorem moveDead_refused
    (h : IsDead e) :
    moveDead e port hash false =
      .ok (refuseRight e port hash) := by
  unfold moveDead
  rw [assertDead_of h]
  rfl

end Dead

section EntryOk

variable (h : EntryOk space name port e)

include h

/-
  The check of a send right and the way such a right is taken
  agree, when what is done with a live right does.
-/
theorem EntryOk.foretells_send
    {onDead onLive :
      EntryFields → HashUpdate → Except Trap RightOut}
    (hSend : msgtName = machMsgTypeCopySend ∨
      msgtName = machMsgTypeMoveSend ∨
      msgtName = machMsgTypeMoveSendOnce)
    (hDead : ∀ e' hash, IsDead e' →
      ∃ out, onDead e' hash = .ok out ∧ out.kr = .success)
    (hLive : port.ipActive = true →
      (Bearing machPortTypeSend e = true ∨
        Bearing machPortTypeSendOnce e = true) →
      Foretells
        (.ok (e.ieBits &&&
          (if msgtName = machMsgTypeMoveSendOnce
            then machPortTypeSendOnce
            else machPortTypeSend) ≠ 0))
        (onLive e .keep)) :
    Foretells (ipcRightCopyinCheck e port msgtName)
      (copyinSendRight e port onDead onLive) := by
  rw [check_send hSend]
  cases h.sendCase with
  | dead bit isDead =>
      rcases hDead e .keep isDead with ⟨out, hRun, hOk⟩
      rw [if_pos bit, copyinSendRight_dead bit]
      exact .taken hRun hOk
  | none bit rights =>
      rw [if_neg (not_not_intro bit), if_pos rights,
        copyinSendRight_none bit rights]
      exact .refused rfl rfl
  | live bit rights urefs object bear active =>
      rw [if_neg (not_not_intro bit), if_neg rights,
        ipcAssert_of object,
        copyinSendRight_live bit rights urefs object active]
      have hRun := hLive active bear
      simp only [bind, Except.bind, active, Bool.not_true,
        Bool.false_eq_true, if_false]
      split at hRun
      · rename_i hName
        rw [if_pos hName]
        exact hRun
      · rename_i hName
        rw [if_neg hName]
        exact hRun
  | died bit rights urefs object may active =>
      rcases hDead _ (diedHash e) may.isDead with
        ⟨out, hRun, hOk⟩
      rw [if_neg (not_not_intro bit), if_neg rights,
        ipcAssert_of object,
        copyinSendRight_died bit rights object may active]
      simp only [bind, Except.bind, active, Bool.not_false,
        if_true]
      exact .taken hRun hOk

/- What the three uses of a receive right share. -/
theorem EntryOk.foretells_receive
    {run : Except Trap RightOut}
    (hReceive : msgtName = machMsgTypeMakeSend ∨
      msgtName = machMsgTypeMakeSendOnce ∨
      msgtName = machMsgTypeMoveReceive)
    (hNone : e.ieBits &&& machPortTypeReceive = 0 →
      run = .ok (refuseRight e port .keep))
    (hTaken : e.ieBits &&& machPortTypeReceive ≠ 0 →
      ioValid e.ieObject = true → port.ipActive = true →
      assertReceiver space name port = .ok () →
      ∃ out, run = .ok out ∧ out.kr = .success) :
    Foretells (ipcRightCopyinCheck e port msgtName) run := by
  rw [check_receive hReceive]
  by_cases hBit : e.ieBits &&& machPortTypeReceive = 0
  · simp only [hBit, ne_eq, not_true, decide_false]
    exact .refused (hNone hBit) rfl
  · have hBear : Bearing machPortTypeReceive e = true :=
      bears_of_bits (by decide) hBit
    rcases h.receiver_facts hBear with
      ⟨hObject, hActive, hSpace, hName⟩
    rcases hTaken hBit hObject hActive
      (assertReceiver_of hName hSpace) with ⟨out, hRun, hOk⟩
    simp only [hBit, ne_eq, not_false_eq_true, decide_true]
    exact .taken hRun hOk

theorem EntryOk.foretells_makeSend :
    Foretells (ipcRightCopyinCheck e port machMsgTypeMakeSend)
      (copyinMakeSend space name e port) := by
  refine h.foretells_receive (Or.inl rfl) ?_ ?_
  · intro hBit
    unfold copyinMakeSend
    rw [if_pos hBit]
  · intro hBit hObject hActive hReceiver
    unfold copyinMakeSend
    rw [if_neg hBit, ipcAssert_of (object_ne_null hObject).1,
      ipcAssert_of hActive, hReceiver]
    exact ⟨_, rfl, rfl⟩

theorem EntryOk.foretells_makeSendOnce :
    Foretells
      (ipcRightCopyinCheck e port machMsgTypeMakeSendOnce)
      (copyinMakeSendOnce space name e port) := by
  refine h.foretells_receive (Or.inr (Or.inl rfl)) ?_ ?_
  · intro hBit
    unfold copyinMakeSendOnce
    rw [if_pos hBit]
  · intro hBit hObject hActive hReceiver
    unfold copyinMakeSendOnce
    rw [if_neg hBit, ipcAssert_of (object_ne_null hObject).1,
      ipcAssert_of hActive, hReceiver]
    exact ⟨_, rfl, rfl⟩

/- A receive right is moved with or without its send rights. -/
theorem moveReceive_success
    (hBit : e.ieBits &&& machPortTypeReceive ≠ 0)
    (hObject : ioValid e.ieObject = true)
    (hActive : port.ipActive = true)
    (hReceiver : assertReceiver space name port = .ok ())
    (hCovers : Covers port e) :
    ∃ out, copyinMoveReceive space name e port = .ok out ∧
      out.kr = .success := by
  have hNull := (object_ne_null hObject).1
  unfold copyinMoveReceive
  rw [if_neg hBit, ipcAssert_of hNull, ipcAssert_of hActive,
    hReceiver]
  have hType : ieBitsType e.ieBits = machPortTypeSendReceive ∧
        ieBitsUrefs e.ieBits ≠ 0 ∨
      ieBitsType e.ieBits = machPortTypeReceive ∧
        ieBitsUrefs e.ieBits = 0 := by
    cases h with
    | sendReceive t urefs object room active receiver
        receiverName => exact Or.inl ⟨t, urefs⟩
    | receive t urefs object active receiver receiverName =>
        exact Or.inr ⟨t, urefs⟩
    | send t urefs object room | sendOnce t urefs object
    | portSet t urefs object
    | deadName t urefs object request =>
        rw [and_of_type t _ (by decide)] at hBit
        exact absurd hBit (by decide)
  rcases hType with ⟨hType, hUrefs⟩ | ⟨hType, hUrefs⟩
  · have hSend : e.ieBits &&& machPortTypeSend ≠ 0 := by
      rw [and_of_type hType _ (by decide)]
      decide
    have hBear : Bearing machPortTypeSend e = true :=
      bears_of_type hType (by decide)
    rw [if_pos hSend, ipcAssert_of hType, ipcAssert_of hUrefs,
      ipcAssert_of (hCovers.send hActive hBear)]
    exact ⟨_, rfl, rfl⟩
  · have hSend : e.ieBits &&& machPortTypeSend = 0 := by
      rw [and_of_type hType _ (by decide)]
      decide
    rw [if_neg (not_not_intro hSend), ipcAssert_of hType,
      ipcAssert_of hUrefs]
    exact ⟨_, rfl, rfl⟩

theorem EntryOk.foretells_moveReceive
    (hCovers : Covers port e) :
    Foretells
      (ipcRightCopyinCheck e port machMsgTypeMoveReceive)
      (copyinMoveReceive space name e port) := by
  refine h.foretells_receive (Or.inr (Or.inr rfl)) ?_ ?_
  · intro hBit
    unfold copyinMoveReceive
    rw [if_pos hBit]
  · intro hBit hObject hActive hReceiver
    exact moveReceive_success h hBit hObject hActive hReceiver
      hCovers

end EntryOk

/- The last reference of a pure send right is moved. -/
theorem moveSendLast_send
    (hType : ieBitsType e.ieBits = machPortTypeSend) :
    moveSendLast space name e port =
      .ok ⟨.success,
        ⟨e.ieBits &&& ~~~(ieBitsUrefsMask ||| machPortTypeSend),
          ioNull, 0⟩,
        port, .delete, e.ieObject, e.ieRequest ≠ 0⟩ := by
  have hBit : e.ieBits &&& machPortTypeReceive = 0 := by
    rw [and_of_type hType _ (by decide)]
    decide
  unfold moveSendLast
  rw [if_neg (not_not_intro hBit), ipcAssert_of hType]
  rfl

/- The last send reference at a receiver is moved. -/
theorem moveSendLast_sendReceive
    (hType : ieBitsType e.ieBits = machPortTypeSendReceive)
    (hReceiver : assertReceiver space name port = .ok ()) :
    moveSendLast space name e port =
      .ok ⟨.success,
        { e with
          ieBits := e.ieBits &&&
            ~~~(ieBitsUrefsMask ||| machPortTypeSend) },
        port, .keep, e.ieObject, false⟩ := by
  have hBit : e.ieBits &&& machPortTypeReceive ≠ 0 := by
    rw [and_of_type hType _ (by decide)]
    decide
  unfold moveSendLast
  rw [if_pos hBit, hReceiver, ipcAssert_of hType]
  rfl

section

variable (h : EntryOk space name port e)
include h

theorem EntryOk.foretells_copySend
    (hCovers : Covers port e) :
    Foretells (ipcRightCopyinCheck e port machMsgTypeCopySend)
      (copyinCopySend e port true) := by
  refine h.foretells_send (Or.inl rfl) ?_ ?_
  · intro e' hash hDead
    exact ⟨_, copyDead_success hDead, rfl⟩
  intro hActive hBear
  rw [if_neg (by decide)]
  by_cases hBit : e.ieBits &&& machPortTypeSend = 0
  · rcases h.once_of_not_send hBear hBit with ⟨hType, _, hIs⟩
    rw [if_pos hBit, ipcAssert_of hType,
      ipcAssert_of (hCovers.sendOnce hIs)]
    simp only [hBit, ne_eq, not_true, decide_false]
    exact .refused rfl rfl
  · have hIs : Bearing machPortTypeSend e = true :=
      bears_of_bits (by decide) hBit
    rw [if_neg hBit, ipcAssert_of (hCovers.send hActive hIs)]
    simp only [hBit, ne_eq, not_false_eq_true, decide_true]
    exact .taken rfl rfl

theorem EntryOk.foretells_moveSend
    (hCovers : Covers port e) :
    Foretells (ipcRightCopyinCheck e port machMsgTypeMoveSend)
      (copyinMoveSend space name e port true) := by
  refine h.foretells_send (Or.inr (Or.inl rfl)) ?_ ?_
  · intro e' hash hDead
    exact moveDead_success hDead
  intro hActive hBear
  rw [if_neg (by decide)]
  by_cases hBit : e.ieBits &&& machPortTypeSend = 0
  · rcases h.once_of_not_send hBear hBit with ⟨hType, _, hIs⟩
    rw [if_pos hBit, ipcAssert_of hType,
      ipcAssert_of (hCovers.sendOnce hIs)]
    simp only [hBit, ne_eq, not_true, decide_false]
    exact .refused rfl rfl
  · have hIs : Bearing machPortTypeSend e = true :=
      bears_of_bits (by decide) hBit
    rw [if_neg hBit, ipcAssert_of (hCovers.send hActive hIs)]
    simp only [hBit, ne_eq, not_false_eq_true, decide_true]
    by_cases hLast : ieBitsUrefs e.ieBits = 1
    · rw [if_pos hLast]
      rcases (h.live_cases hBear).2 with ⟨hType, _⟩ |
        ⟨hType, _, _, _, hSpace, hName⟩ | ⟨hType, _⟩
      · exact .taken (moveSendLast_send hType) rfl
      · exact .taken (moveSendLast_sendReceive hType
          (assertReceiver_of hName hSpace)) rfl
      · rw [and_of_type hType _ (by decide)] at hBit
        exact absurd (by decide) hBit
    · rw [if_neg hLast]
      exact .taken rfl rfl

theorem EntryOk.foretells_moveSendOnce
    (hCovers : Covers port e) :
    Foretells
      (ipcRightCopyinCheck e port machMsgTypeMoveSendOnce)
      (copyinMoveSendOnce e port true) := by
  refine h.foretells_send (Or.inr (Or.inr rfl)) ?_ ?_
  · intro e' hash hDead
    exact moveDead_success hDead
  intro hActive hBear
  rw [if_pos rfl]
  by_cases hBit : e.ieBits &&& machPortTypeSendOnce = 0
  · have hSend : e.ieBits &&& machPortTypeSend ≠ 0 := by
      rcases hBear with hIs | hIs
      · rw [bearing_eq_bits e _ (by decide)] at hIs
        simpa using hIs
      · rw [bearing_eq_bits e _ (by decide)] at hIs
        simp [hBit] at hIs
    have hIs : Bearing machPortTypeSend e = true :=
      bears_of_bits (by decide) hSend
    rw [if_pos hBit, ipcAssert_of hSend,
      ipcAssert_of (hCovers.send hActive hIs)]
    simp only [hBit, ne_eq, not_true, decide_false]
    exact .refused rfl rfl
  · have hIs : Bearing machPortTypeSendOnce e = true :=
      bears_of_bits (by decide) hBit
    rcases (h.live_cases hBear).2 with
      ⟨hType, _⟩ | ⟨hType, _⟩ | ⟨hType, hOne⟩
    · rw [and_of_type hType _ (by decide)] at hBit
      exact absurd (by decide) hBit
    · rw [and_of_type hType _ (by decide)] at hBit
      exact absurd (by decide) hBit
    · rw [if_neg hBit, ipcAssert_of hType, ipcAssert_of hOne,
        ipcAssert_of (hCovers.sendOnce hIs)]
      simp only [hBit, ne_eq, not_false_eq_true, decide_true]
      exact .taken rfl rfl

end

theorem portAny_cases
    (hAny : machMsgTypePortAny msgtName = true) :
    msgtName = machMsgTypeMoveReceive ∨
      msgtName = machMsgTypeMoveSend ∨
      msgtName = machMsgTypeMoveSendOnce ∨
      msgtName = machMsgTypeCopySend ∨
      msgtName = machMsgTypeMakeSend ∨
      msgtName = machMsgTypeMakeSendOnce := by
  have hBounds : machMsgTypeMoveReceive ≤ msgtName ∧
      msgtName ≤ machMsgTypeMakeSendOnce := by
    simpa [machMsgTypePortAny] using hAny
  simp only [machMsgTypeMoveReceive, machMsgTypeMoveSend,
    machMsgTypeMoveSendOnce, machMsgTypeCopySend,
    machMsgTypeMakeSend, machMsgTypeMakeSendOnce] at *
  omega

/- An entry that denotes nothing has nothing to give. -/
theorem foretells_nothing
    (hNone : ieBitsType e.ieBits = machPortTypeNone)
    (hAny : machMsgTypePortAny msgtName = true) :
    Foretells (ipcRightCopyinCheck e port msgtName)
      (ipcRightCopyin space name e port true msgtName) := by
  have hBits : ∀ m, m &&& ieBitsTypeMask = m →
      e.ieBits &&& m = 0 := by
    intro m hm
    rw [and_of_type hNone m hm]
    exact BitVec.zero_and
  have hReceive := hBits machPortTypeReceive (by decide)
  have hDead := hBits machPortTypeDeadName (by decide)
  have hSend := hBits machPortTypeSendRights (by decide)
  have hCheck : ipcRightCopyinCheck e port msgtName =
      .ok false := by
    rcases portAny_cases hAny with
      rfl | rfl | rfl | rfl | rfl | rfl <;>
      simp [ipcRightCopyinCheck, hReceive, hDead, hSend]
  have hRun : ipcRightCopyin space name e port true msgtName =
      .ok (refuseRight e port .keep) := by
    rcases portAny_cases hAny with
      rfl | rfl | rfl | rfl | rfl | rfl <;>
      unfold ipcRightCopyin
    · exact if_pos hReceive
    · exact copyinSendRight_none hDead hSend
    · exact copyinSendRight_none hDead hSend
    · exact copyinSendRight_none hDead hSend
    · exact if_pos hReceive
    · exact if_pos hReceive
  rw [hCheck]
  exact .refused hRun rfl

/- Whatever the disposition, the check foretells the copying. -/
theorem EntryOk.foretells
    (h : EntryOk space name port e)
    (hCovers : Covers port e)
    (hAny : machMsgTypePortAny msgtName = true) :
    Foretells (ipcRightCopyinCheck e port msgtName)
      (ipcRightCopyin space name e port true msgtName) := by
  rcases portAny_cases hAny with
    rfl | rfl | rfl | rfl | rfl | rfl
  · exact h.foretells_moveReceive hCovers
  · exact h.foretells_moveSend hCovers
  · exact h.foretells_moveSendOnce hCovers
  · exact h.foretells_copySend hCovers
  · exact h.foretells_makeSend
  · exact h.foretells_makeSendOnce

------
-- Two Moves at Once
------

/-
  `ipc_right_copyin_two` against two moves in a row, the
  second on what the first left: the entry, the port with its
  counts, the object, the reverse hash, the dead-name request
  that is handed back, and the references of the port.
-/
structure TwoMoves
    (space name : Nat)
    (e : EntryFields)
    (port : RightPort)
    (first second both : RightOut) : Prop where
  runFirst :
    ipcRightCopyin space name e port false
      machMsgTypeMoveSend = .ok first
  runSecond :
    ipcRightCopyin space name first.entry first.port false
      machMsgTypeMoveSend = .ok second
  runBoth : ipcRightCopyinTwo space name e port = .ok both
  kr : both.kr = first.kr ∧ both.kr = second.kr
  sameEntry : both.entry = second.entry
  samePort : both.port = second.port
  object :
    both.object = first.object ∧ both.object = second.object
  hash :
    first.hash = .keep ∧ both.hash = second.hash ∨
      second.hash = .keep ∧ both.hash = first.hash
  soright : both.soright = (first.soright || second.soright)
  references :
    copyinTwoReferences e port =
      copyinMoveSendReferences e port +
        copyinMoveSendReferences first.entry first.port

/- A send right, pure or at the receiver, with references. -/
structure Sends
    (space name : Nat)
    (e : EntryFields)
    (port : RightPort) : Prop where
  type :
    ieBitsType e.ieBits = machPortTypeSend ∨
      ieBitsType e.ieBits = machPortTypeSendReceive ∧
        assertReceiver space name port = .ok ()
  object : e.ieObject ≠ ioNull
  urefs : ieBitsUrefs e.ieBits ≠ 0

namespace Sends

section Sends

variable (h : Sends space name e port)

include h

theorem bits :
    e.ieBits &&& machPortTypeDeadName = 0 ∧
      e.ieBits &&& machPortTypeSendRights ≠ 0 ∧
      e.ieBits &&& machPortTypeSend ≠ 0 := by
  rcases h.type with hType | ⟨hType, _⟩
  · simp only [and_of_type hType machPortTypeDeadName
        (by decide),
      and_of_type hType machPortTypeSendRights (by decide),
      and_of_type hType machPortTypeSend (by decide)]
    decide
  · simp only [and_of_type hType machPortTypeDeadName
        (by decide),
      and_of_type hType machPortTypeSendRights (by decide),
      and_of_type hType machPortTypeSend (by decide)]
    decide

/- One reference of the right of a live port is moved. -/
theorem moved
    (hActive : port.ipActive = true)
    (hCount : 0 < port.ipSrights) :
    copyinMoveSend space name e port false =
      if ieBitsUrefs e.ieBits = 1 then
        moveSendLast space name e port
      else .ok (moveSendReference e port) := by
  rcases h.bits with ⟨hDead, hRights, hSend⟩
  unfold copyinMoveSend
  rw [copyinSendRight_live hDead hRights h.urefs h.object
    hActive]
  rw [if_neg hSend, ipcAssert_of hCount]
  rfl

theorem moved_references
    (hActive : port.ipActive = true) :
    copyinMoveSendReferences e port =
      if ieBitsUrefs e.ieBits = 1 then
        if e.ieBits &&& machPortTypeReceive ≠ 0 then 1 else 0
      else 1 := by
  rcases h.bits with ⟨hDead, hRights, hSend⟩
  unfold copyinMoveSendReferences
  rw [if_neg (not_not_intro hDead), if_neg hRights,
    if_neg (by simp [hActive]), if_neg hSend]

/- What `ipc_right_copyin_two` does of a live port. -/
theorem both
    (hActive : port.ipActive = true)
    (hTwo : 2 ≤ (ieBitsUrefs e.ieBits).toNat) :
    ipcRightCopyinTwo space name e port =
      copyinTwoLive space name e port := by
  rcases h.bits with ⟨_, _, hSend⟩
  unfold ipcRightCopyinTwo
  rw [if_neg hSend, if_neg (by omega), ipcAssert_of h.object,
    ipcRightCheck_active hActive]
  rfl

theorem both_references
    (hActive : port.ipActive = true)
    (hTwo : 2 ≤ (ieBitsUrefs e.ieBits).toNat) :
    copyinTwoReferences e port =
      if ieBitsUrefs e.ieBits = 2 then
        if e.ieBits &&& machPortTypeReceive ≠ 0 then 2 else 1
      else 2 := by
  rcases h.bits with ⟨_, _, hSend⟩
  unfold copyinTwoReferences
  rw [if_neg hSend, if_neg (by omega),
    if_neg (by simp [hActive])]

/- The right that is left when one of its references moved. -/
theorem rest
    (hTwo : 2 ≤ (ieBitsUrefs e.ieBits).toNat) :
    Sends space name (moveSendReference e port).entry
      (moveSendReference e port).port := by
  have hType : ieBitsType (e.ieBits - 1) =
      ieBitsType e.ieBits :=
    and_eq_of_shift (by decide) (pred_shift h.urefs)
  refine ⟨?_, h.object, ?_⟩
  · rcases h.type with hIs | ⟨hIs, hReceiver⟩
    · exact Or.inl (hType.trans hIs)
    · exact Or.inr ⟨hType.trans hIs, hReceiver⟩
  · have hPred := ieBitsUrefs_pred h.urefs
    have hPos : ieBitsUrefs (e.ieBits - 1) ≠ 0 :=
      ne_zero_of_pos (by omega)
    exact hPos

end Sends

end Sends

/- Clearing the references forgets that one was taken. -/
theorem pred_last
    {bits : EntryBits}
    (h : ieBitsUrefs bits ≠ 0) :
    (bits - 1) &&& ~~~(ieBitsUrefsMask ||| machPortTypeSend) =
      bits &&& ~~~(ieBitsUrefsMask ||| machPortTypeSend) :=
  and_eq_of_shift (by decide) (pred_shift h)

theorem pred_receive
    {bits : EntryBits}
    (h : ieBitsUrefs bits ≠ 0) :
    (bits - 1) &&& machPortTypeReceive =
      bits &&& machPortTypeReceive :=
  and_eq_of_shift (by decide) (pred_shift h)

section

variable (h : Sends space name e port)
variable (hActive : port.ipActive = true)
variable (hCount : 0 < port.ipSrights)
include h hActive hCount

/- The two last references of a right of a live port. -/
theorem Sends.two_last
    (hTwo : ieBitsUrefs e.ieBits = 2) :
    ∃ first second both,
      TwoMoves space name e port first second both ∧
      both.kr = .success := by
  have hLe : 2 ≤ (ieBitsUrefs e.ieBits).toNat := by
    rw [hTwo]
    decide
  have hNotOne : ieBitsUrefs e.ieBits ≠ 1 := by
    rw [hTwo]
    decide
  have hRest := h.rest hLe
  have hSame : ieBitsType (e.ieBits - 1) =
      ieBitsType e.ieBits :=
    and_eq_of_shift (by decide) (pred_shift h.urefs)
  have hOne : ieBitsUrefs (e.ieBits - 1) = 1 := by
    apply BitVec.eq_of_toNat_eq
    rw [ieBitsUrefs_pred h.urefs, hTwo]
    rfl
  have hFirst := h.moved hActive hCount
  rw [if_neg hNotOne] at hFirst
  have hSecond := hRest.moved hActive (Nat.succ_pos _)
  rw [if_pos (show ieBitsUrefs
    (moveSendReference e port).entry.ieBits = 1 from hOne)]
    at hSecond
  have hReferences : copyinTwoReferences e port =
      copyinMoveSendReferences e port +
        copyinMoveSendReferences
          (moveSendReference e port).entry
          (moveSendReference e port).port := by
    rw [h.both_references hActive hLe,
      h.moved_references hActive,
      hRest.moved_references hActive, if_pos hTwo,
      if_neg hNotOne, if_pos (show ieBitsUrefs
        (moveSendReference e port).entry.ieBits = 1 from hOne)]
    have hReceive := pred_receive h.urefs
    unfold moveSendReference
    rw [hReceive]
    split <;> rfl
  have hLive := h.both hActive hLe
  unfold copyinTwoLive at hLive
  rw [ipcAssert_of hCount] at hLive
  simp only [bind, Except.bind, if_pos hTwo] at hLive
  rcases h.type with hType | ⟨hType, hReceiver⟩
  · have hBit : e.ieBits &&& machPortTypeReceive = 0 := by
      rw [and_of_type hType _ (by decide)]
      decide
    rw [moveSendLast_send (hSame.trans hType)] at hSecond
    rw [if_neg (not_not_intro hBit), ipcAssert_of hType]
      at hLive
    refine ⟨_, _, _, ⟨hFirst, hSecond, hLive, ⟨rfl, rfl⟩, ?_,
      rfl, ⟨rfl, rfl⟩, Or.inl ⟨rfl, rfl⟩, rfl, hReferences⟩,
      rfl⟩
    unfold moveSendReference
    rw [pred_last h.urefs]
  · have hBit : e.ieBits &&& machPortTypeReceive ≠ 0 := by
      rw [and_of_type hType _ (by decide)]
      decide
    have hSaid : assertReceiver space name
        (moveSendReference e port).port = .ok () := hReceiver
    rw [moveSendLast_sendReceive (hSame.trans hType) hSaid]
      at hSecond
    unfold moveSendReference at hSaid
    rw [if_pos hBit, hSaid, ipcAssert_of hType] at hLive
    refine ⟨_, _, _, ⟨hFirst, hSecond, hLive, ⟨rfl, rfl⟩, ?_,
      rfl, ⟨rfl, rfl⟩, Or.inl ⟨rfl, rfl⟩, rfl, hReferences⟩,
      rfl⟩
    unfold moveSendReference
    rw [pred_last h.urefs]

/- More than two references of a right of a live port. -/
theorem Sends.two_more
    (hMore : 2 < (ieBitsUrefs e.ieBits).toNat) :
    ∃ first second both,
      TwoMoves space name e port first second both ∧
      both.kr = .success := by
  have hRest := h.rest (by omega)
  have hTwoNat : (2 : EntryBits).toNat = 2 := rfl
  have hOneNat : (1 : EntryBits).toNat = 1 := rfl
  have hNotTwo : ieBitsUrefs e.ieBits ≠ 2 := by
    intro hEq
    rw [hEq] at hMore
    omega
  have hNotOne : ieBitsUrefs e.ieBits ≠ 1 := by
    intro hEq
    rw [hEq] at hMore
    omega
  have hRestNotOne : ieBitsUrefs
      (moveSendReference e port).entry.ieBits ≠ 1 := by
    intro hEq
    have hPred := ieBitsUrefs_pred h.urefs
    have hEq' : ieBitsUrefs (e.ieBits - 1) = 1 := hEq
    rw [hEq'] at hPred
    omega
  have hFirst := h.moved hActive hCount
  rw [if_neg hNotOne] at hFirst
  have hSecond := hRest.moved hActive (Nat.succ_pos _)
  rw [if_neg hRestNotOne] at hSecond
  have hBoth : ipcRightCopyinTwo space name e port =
      .ok ⟨.success, { e with ieBits := e.ieBits - 2 },
        { port with ipSrights := port.ipSrights + 2 }, .keep,
        e.ieObject, false⟩ := by
    rw [h.both hActive (by omega)]
    unfold copyinTwoLive
    rw [ipcAssert_of hCount]
    simp only [bind, Except.bind, if_neg hNotTwo]
  refine ⟨_, _, _, ⟨hFirst, hSecond, hBoth, ⟨rfl, rfl⟩, ?_,
    rfl, ⟨rfl, rfl⟩, Or.inl ⟨rfl, rfl⟩, rfl, ?_⟩, rfl⟩
  · have hBits : e.ieBits - 2 = e.ieBits - 1 - 1 := by
      bv_omega
    unfold moveSendReference
    rw [hBits]
  · rw [h.both_references hActive (by omega),
      h.moved_references hActive,
      hRest.moved_references hActive, if_neg hNotTwo,
      if_neg hNotOne, if_neg hRestNotOne]
    rfl

end

/- A dead port: the moves are refused, the name is dead. -/
theorem two_died
    (hType : ieBitsType e.ieBits = machPortTypeSend)
    (hMay : MayDie e)
    (hNull : e.ieObject ≠ ioNull)
    (hActive : port.ipActive = false)
    (hTwo : 2 ≤ (ieBitsUrefs e.ieBits).toNat) :
    ∃ first second both,
      TwoMoves space name e port first second both ∧
      both.kr = .invalidRight := by
  have hSends : Sends space name e port :=
    ⟨Or.inl hType, hNull, hMay.urefs⟩
  rcases hSends.bits with ⟨hDead, hRights, hSend⟩
  have hDied := hMay.isDead
  have hDiedBit : (diedEntry e).ieBits &&&
      machPortTypeDeadName ≠ 0 := by
    rw [and_of_type hDied.1 _ (by decide)]
    decide
  have hFirst : ipcRightCopyin space name e port false
      machMsgTypeMoveSend =
        .ok (refuseRight (diedEntry e) port (diedHash e)) := by
    unfold ipcRightCopyin copyinMoveSend
    rw [copyinSendRight_died hDead hRights hNull hMay hActive]
    exact moveDead_refused hDied
  have hSecond : ipcRightCopyin space name (diedEntry e) port
      false machMsgTypeMoveSend =
        .ok (refuseRight (diedEntry e) port .keep) := by
    unfold ipcRightCopyin copyinMoveSend
    rw [copyinSendRight_dead hDiedBit]
    exact moveDead_refused hDied
  have hBoth : ipcRightCopyinTwo space name e port =
      .ok (refuseRight (diedEntry e) port (diedHash e)) := by
    unfold ipcRightCopyinTwo
    rw [if_neg hSend, if_neg (by omega), ipcAssert_of hNull,
      hMay.check hActive]
    rfl
  refine ⟨_, _, _, ⟨hFirst, hSecond, hBoth, ⟨rfl, rfl⟩, rfl,
    rfl, ⟨rfl, rfl⟩, Or.inr ⟨rfl, rfl⟩, rfl, ?_⟩, rfl⟩
  have hBothCount : copyinTwoReferences e port = -1 := by
    unfold copyinTwoReferences
    rw [if_neg hSend, if_neg (by omega),
      if_pos (by simp [hActive])]
  have hFirstCount : copyinMoveSendReferences e port = -1 := by
    unfold copyinMoveSendReferences
    rw [if_neg (not_not_intro hDead), if_neg hRights,
      if_pos (by simp [hActive])]
  have hSecondCount :
      copyinMoveSendReferences (diedEntry e) port = 0 :=
    if_pos hDiedBit
  rw [hBothCount, hFirstCount]
  exact congrArg (fun n => -1 + n) hSecondCount.symm

/-
  Two references of a send right are moved at once as they are
  moved one after the other. Only a dead port refuses.
-/
theorem EntryOk.two_moves
    (h : EntryOk space name port e)
    (hCovers : Covers port e)
    (hType : ieBitsType e.ieBits = machPortTypeSend ∨
      ieBitsType e.ieBits = machPortTypeSendReceive)
    (hTwo : 2 ≤ (ieBitsUrefs e.ieBits).toNat) :
    ∃ first second both,
      TwoMoves space name e port first second both ∧
      (both.kr = .success ↔ port.ipActive = true) := by
  have hBear : Bearing machPortTypeSend e = true := by
    rcases hType with hIs | hIs <;>
      rw [bearing_of_type hIs] <;> decide
  rcases h.live_cases (Or.inl hBear) with ⟨hObject, hCases⟩
  have hNull := (object_ne_null hObject).1
  have hUrefs : ieBitsUrefs e.ieBits ≠ 0 :=
    ne_zero_of_pos (by omega)
  cases hActive : port.ipActive with
  | true =>
      have hCount := hCovers.send hActive hBear
      have hSends : Sends space name e port := by
        refine ⟨?_, hNull, hUrefs⟩
        rcases hCases with ⟨hIs, _⟩ |
          ⟨hIs, _, _, _, hSpace, hName⟩ | ⟨hIs, _⟩
        · exact Or.inl hIs
        · exact Or.inr ⟨hIs, assertReceiver_of hName hSpace⟩
        · rw [bearing_of_type hIs] at hBear
          exact absurd hBear (by decide)
      rcases Nat.eq_or_lt_of_le hTwo with hEq | hMore
      · have hIs : ieBitsUrefs e.ieBits = 2 :=
          BitVec.eq_of_toNat_eq hEq.symm
        rcases hSends.two_last hActive hCount hIs with
          ⟨first, second, both, hMoves, hOk⟩
        exact ⟨first, second, both, hMoves, by simp [hOk]⟩
      · rcases hSends.two_more hActive hCount hMore with
          ⟨first, second, both, hMoves, hOk⟩
        exact ⟨first, second, both, hMoves, by simp [hOk]⟩
  | false =>
      rcases hCases with ⟨hIs, hPos, hRoom⟩ |
        ⟨_, _, _, hLive, _⟩ | ⟨hIs, _⟩
      · rcases two_died hIs (Or.inl ⟨hIs, hPos, hRoom⟩) hNull
          hActive hTwo with ⟨first, second, both, hMoves, hNo⟩
        exact ⟨first, second, both, hMoves, by simp [hNo]⟩
      · rw [hActive] at hLive
        exact absurd hLive (by decide)
      · rw [bearing_of_type hIs] at hBear
        exact absurd hBear (by decide)

/-
  Of every entry and every state of its port: the check of any
  disposition foretells the copying that accepts dead names,
  and two references of a send right are moved at once as they
  are one by one.
-/
theorem ipcRightCopyin_foretold
    {space name : Nat}
    {e : EntryFields}
    {port : RightPort}
    (h : ieBitsType e.ieBits = machPortTypeNone ∨
      EntryOk space name port e)
    (hCovers : Covers port e) :
    (∀ msgtName, machMsgTypePortAny msgtName = true →
      Foretells (ipcRightCopyinCheck e port msgtName)
        (ipcRightCopyin space name e port true msgtName)) ∧
    ((ieBitsType e.ieBits = machPortTypeSend ∨
        ieBitsType e.ieBits = machPortTypeSendReceive) →
      2 ≤ (ieBitsUrefs e.ieBits).toNat →
      ∃ first second both,
        TwoMoves space name e port first second both ∧
        (both.kr = .success ↔ port.ipActive = true)) := by
  refine ⟨?_, ?_⟩
  · intro msgtName hAny
    rcases h with hNone | hOk
    · exact foretells_nothing hNone hAny
    · exact hOk.foretells hCovers hAny
  · intro hType hTwo
    rcases h with hNone | hOk
    · rw [hNone] at hType
      exact absurd hType (by decide)
    · exact hOk.two_moves hCovers hType hTwo

/- A send right of a live port, with a request and two users. -/
theorem ipcRightCopyin_foretold_two :
    (∀ msgtName, machMsgTypePortAny msgtName = true →
      Foretells
        (ipcRightCopyinCheck
          ⟨machPortTypeSend ||| 2, 8, 1⟩
          ⟨true, 0, 0, 0, false, 1, 0, 0, 5⟩ msgtName)
        (ipcRightCopyin 4 259
          ⟨machPortTypeSend ||| 2, 8, 1⟩
          ⟨true, 0, 0, 0, false, 1, 0, 0, 5⟩ true
          msgtName)) ∧
    ((ieBitsType (machPortTypeSend ||| 2) = machPortTypeSend ∨
        ieBitsType (machPortTypeSend ||| 2) =
          machPortTypeSendReceive) →
      2 ≤ (ieBitsUrefs (machPortTypeSend ||| 2)).toNat →
      ∃ first second both,
        TwoMoves 4 259 ⟨machPortTypeSend ||| 2, 8, 1⟩
          ⟨true, 0, 0, 0, false, 1, 0, 0, 5⟩
          first second both ∧
        (both.kr = .success ↔ true = true)) :=
  @ipcRightCopyin_foretold 4 259
    ⟨machPortTypeSend ||| 2, 8, 1⟩
    ⟨true, 0, 0, 0, false, 1, 0, 0, 5⟩
    (Or.inr (.send (by decide) (by decide) (by decide)
      (by decide)))
    ⟨by decide, by decide⟩

end Ipc

end OsfMach
