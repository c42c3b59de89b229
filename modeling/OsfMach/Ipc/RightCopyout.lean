import OsfMach.Ipc.RightChecks
import OsfMach.Ipc.RightMoves

/-
  What the way back of a right leaves of its entry, and what
  copying a right out does to an entry and to its port.

  Main declarations:
    * `Undone`, `MovesOut`
    * `ipcRightCopyinUndo_dead`
    * `ipcRightCopyout_movesOut`
-/

------
-- The Way back
------

namespace OsfMach

namespace Ipc

open Lib
open Lib.Checked

variable {object : Nat} {overflow : Bool}

section Undo

variable {space name : Nat} {e x : EntryFields}
variable {port : SenderPort} {hash : HashUpdate}

/- The right of an entry is written anew. -/
theorem rightBits
    {v : EntryBits}
    (bits : EntryBits)
    (hv : v &&& ieBitsRightMask = v) :
    ieBitsType ((bits &&& ~~~ieBitsRightMask) ||| v) =
        ieBitsType v ∧
      ieBitsUrefs ((bits &&& ~~~ieBitsRightMask) ||| v) =
        ieBitsUrefs v ∧
      ieBitsHigh ((bits &&& ~~~ieBitsRightMask) ||| v) =
        ieBitsHigh bits := by
  have hType : ~~~ieBitsRightMask &&& ieBitsTypeMask = 0 := by
    decide
  have hUrefs : ~~~ieBitsRightMask &&& ieBitsUrefsMask = 0 := by
    decide
  have hHigh : ieBitsRightMask &&& ~~~ieBitsRightMask = 0 := by
    decide
  refine ⟨?_, ?_, ?_⟩
  · rw [ieBitsType_or]
    unfold ieBitsType
    rw [BitVec.and_assoc, hType]
    simp
  · unfold ieBitsUrefs
    rw [BitVec.and_or_distrib_right, BitVec.and_assoc, hUrefs]
    simp
  · unfold ieBitsHigh
    rw [BitVec.and_or_distrib_right, BitVec.and_assoc,
      BitVec.and_self, ← hv, BitVec.and_assoc, hHigh]
    simp

/- What is left of an undone entry. -/
structure Undone
    (e x : EntryFields)
    (object : Nat) : Prop where
  isDead : IsDead x
  bits : NoCarry copyinUndoChanges e x
  sends : Bearing machPortTypeSend e = true →
    e.ieObject = object ∧ object ≠ ioDead
  onces : Bearing machPortTypeSendOnce e = false
  receive : Bearing machPortTypeReceive e = false

/- An entry without a right becomes one of a dead name. -/
theorem Undone.ofNone
    {v : EntryBits}
    (hNone : ieBitsType e.ieBits = machPortTypeNone)
    (hv : v &&& ieBitsRightMask = v)
    (hDead : ieBitsType v = machPortTypeDeadName)
    (hUrefs : ieBitsUrefs v ≠ 0)
    (hNew : (machPortTypeDeadName, (ieBitsUrefs v).toNat) ∈
      copyinUndoChanges.news)
    (hObject : e.ieObject = ioNull)
    (hRequest : e.ieRequest = 0) :
    Undone e
      { e with
        ieBits := (e.ieBits &&& ~~~ieBitsRightMask) ||| v }
      object := by
  rcases rightBits e.ieBits hv with ⟨hType, hSame, hHigh⟩
  refine ⟨⟨hType.trans hDead, ?_, hObject, hRequest⟩,
    ⟨hHigh, .news hNone ?_⟩, ?_, ?_, ?_⟩
  · rw [hSame]
    exact hUrefs
  · rw [hType, hDead, hSame]
    exact hNew
  · rw [bearing_of_type hNone]
    intro hSend
    exact absurd hSend (by decide)
  · rw [bearing_of_type hNone]
    decide
  · rw [bearing_of_type hNone]
    decide

theorem Undone.ofDead
    (hIs : IsDead e)
    (hBy : DeadBy copyinUndoChanges e x) :
    Undone e x object := by
  refine ⟨hBy.isDead, Dies.noCarry (Or.inl ⟨hIs, rfl⟩) hBy, ?_,
    not_bearing_of_dead hIs (by decide),
    not_bearing_of_dead hIs (by decide)⟩
  rw [bearing_of_type hIs.1]
  intro hSend
  exact absurd hSend (by decide)

/- A send right goes back to a port that died. -/
theorem Undone.ofSend
    {b : EntryBits}
    {n : Int}
    {died : Bool}
    (hType : ieBitsType e.ieBits = machPortTypeSend)
    (hShift : b >>> 16 = e.ieBits >>> 16)
    (hUrefs : ieBitsUrefs b ≠ 0)
    (hRoom : (ieBitsUrefs b).toNat < machPortUrefsMax)
    (hMem : n ∈ 0 :: copyinUndoChanges.adds)
    (hBy : UrefsBy e { e with ieBits := b } n)
    (hObject : object ≠ ioDead)
    (hSame : e.ieObject = object)
    (hActive : port.ipActive = false)
    (hRun : ipcRightCheck { e with ieBits := b }
      port.toRightPort = .ok (died, x, hash)) :
    Undone e x object := by
  have hIs : ieBitsType b = machPortTypeSend :=
    (and_eq_of_shift (by decide) hShift).trans hType
  have hMay : MayDie { e with ieBits := b } :=
    Or.inl ⟨hIs, hUrefs, hRoom⟩
  rw [hMay.check_died hActive] at hRun
  cases hRun
  rcases @diedEntry_facts { e with ieBits := b } hUrefs hRoom
    with ⟨hDead, hHigh, hDied⟩
  refine ⟨hDead, ⟨hHigh.trans
      (and_eq_of_shift (by decide) hShift),
    .dies (Or.inl hType) hDead hMem ?_⟩,
    fun _ => ⟨hSame, hObject⟩, ?_, ?_⟩
  · unfold UrefsBy at hBy hDied ⊢
    omega
  · rw [bearing_of_type hType]
    decide
  · rw [bearing_of_type hType]
    decide

/- `ipc_right_copyin_undo`, of an object that is dead. -/
theorem ipcRightCopyinUndo_dead
    {msgtName object : Nat}
    {soright : Bool}
    {held : SenderPort}
    (h : ieBitsType e.ieBits = machPortTypeNone ∧
        e.ieRequest = 0 ∨
      EntryOk space name held.toRightPort e)
    (hInactive : object ≠ ioDead → port.ipActive = false)
    (hRun : ipcRightCopyinUndo e port msgtName object soright =
      .ok (x, hash)) :
    Undone e x object := by
  have hRequest : ieBitsType e.ieBits = machPortTypeNone →
      e.ieRequest = 0 := by
    intro hType
    rcases h with ⟨_, hNone⟩ | hOk
    · exact hNone
    · exact absurd hType hOk.not_none
  have hIsDead : ieBitsType e.ieBits = machPortTypeDeadName →
      IsDead e := by
    intro hType
    rcases h with ⟨hNone, _⟩ | hOk
    · rw [hType] at hNone
      exact absurd hNone (by decide)
    · rcases portRights_cases hOk with
        hIs | ⟨hSet, _⟩ | ⟨hKind, _⟩
      · exact hIs
      · rw [hType] at hSet
        exact absurd hSet (by decide)
      · exact absurd hType (ne_of_portRights hKind).1
  have hRoomOf : ieBitsType e.ieBits = machPortTypeSend →
      (ieBitsUrefs e.ieBits).toNat < machPortUrefsMax := by
    intro hType
    rcases h with ⟨hNone, _⟩ | hOk
    · rw [hType] at hNone
      exact absurd hNone (by decide)
    · exact hOk.send_room hType
  rcases assert_ok hRun with ⟨_, hRest⟩
  split_ifs at hRest with hSoright hNone hDead hCopy hCopySend
  · rcases assert_ok hRest with ⟨_, hRest⟩
    rcases assert_ok hRest with ⟨hType, hRest⟩
    rcases assert_ok hRest with ⟨hObject, hRest⟩
    rcases assert_ok hRest with ⟨_, hRest⟩
    cases hRest
    exact .ofNone hType (by decide) (by decide) (by decide)
      (by decide) hObject (hRequest hType)
  · rcases assert_ok hRest with ⟨_, hRest⟩
    rcases assert_ok hRest with ⟨hObject, hRest⟩
    cases hRest
    exact .ofNone hNone (by decide) (by decide) (by decide)
      (by decide) hObject (hRequest hNone)
  · rcases assert_ok hRest with ⟨_, hRest⟩
    rcases assert_ok hRest with ⟨_, hRest⟩
    rcases assert_ok hRest with ⟨_, hRest⟩
    cases hRest
    have hIs := hIsDead hDead
    exact .ofDead hIs (.refl _ hIs)
  · rcases assert_ok hRest with ⟨_, hRest⟩
    rcases assert_ok hRest with ⟨_, hRest⟩
    rcases assert_ok hRest with ⟨_, hRest⟩
    rcases assert_ok hRest with ⟨hRoom, hRest⟩
    cases hRest
    have hIs := hIsDead hDead
    have hSucc := ieBitsUrefs_succ hRoom
    refine .ofDead hIs (hIs.of_bits (succ_shift hRoom) ?_
      (n := 1) (by decide) ?_)
    · exact ne_zero_of_pos (by omega)
    · unfold UrefsBy
      dsimp only
      omega
  · rcases assert_ok hRest with ⟨_, hRest⟩
    rcases assert_ok hRest with ⟨hType, hRest⟩
    rcases assert_ok hRest with ⟨hObject, hRest⟩
    rcases assert_ok hRest with ⟨hSame, hRest⟩
    rcases assert_ok hRest with ⟨hUrefs, hRest⟩
    rcases bind_ok hRest with ⟨y, hEntry, hRest⟩
    cases hEntry
    rcases bind_ok hRest with ⟨⟨died, z, hash'⟩, hCheck, hEnd⟩
    cases hEnd
    exact .ofSend hType rfl hUrefs (hRoomOf hType)
      (List.mem_cons_self ..) (Int.add_zero _).symm hObject
      hSame (hInactive hObject) hCheck
  · rcases assert_ok hRest with ⟨_, hRest⟩
    rcases assert_ok hRest with ⟨hType, hRest⟩
    rcases assert_ok hRest with ⟨hObject, hRest⟩
    rcases assert_ok hRest with ⟨hSame, hRest⟩
    rcases assert_ok hRest with ⟨hUrefs, hRest⟩
    rcases assert_ok hRest with ⟨hRoom, hRest⟩
    rcases bind_ok hRest with ⟨y, hEntry, hRest⟩
    cases hEntry
    rcases bind_ok hRest with ⟨⟨died, z, hash'⟩, hCheck, hEnd⟩
    cases hEnd
    have hFits : (ieBitsUrefs e.ieBits).toNat < 65535 := by
      unfold machPortUrefsMax at hRoom
      omega
    have hSucc := ieBitsUrefs_succ hFits
    have hNonzero : ieBitsUrefs (e.ieBits + 1) ≠ 0 :=
      ne_zero_of_pos (by omega)
    refine .ofSend hType (succ_shift hFits) hNonzero (by omega)
      (n := 1) (by decide) ?_ hObject hSame (hInactive hObject)
      hCheck
    unfold UrefsBy
    dsimp only
    omega

end Undo

------
-- Copying out
------

/- What a right counts as that was copied out. -/
def gave (out : CopyoutOut) (msgtName kind : Nat) : Nat :=
  if out.kr = .success ∧ msgtName = kind then 1 else 0

/-
  What copying a right out leaves: the entry denotes as much
  or more, and the last send right is still one.
-/
structure MovesOut
    (space name : Nat)
    (e : EntryFields)
    (port : SenderPort)
    (msgtName : Nat)
    (out : CopyoutOut) : Prop where
  entry : EntryOk space name out.port.toRightPort out.entry ∧
    SetQuiet out.entry
  bits : NoCarry copyoutChanges e out.entry
  object : out.entry.ieObject = e.ieObject
  active : port.ipActive = true ∧ out.port.ipActive = true
  receiver :
    Bearing machPortTypeReceive out.entry =
        Bearing machPortTypeReceive e ∧
      SameReceiver port out.port ∧
      gave out msgtName machMsgTypePortReceive = 0 ∨
    port.ipReceiverName = machPortNull ∧
      gave out msgtName machMsgTypePortReceive = 1
  sends :
    out.port.ipSrights + (Bearing machPortTypeSend e).toNat +
        gave out msgtName machMsgTypePortSend =
      port.ipSrights +
        (Bearing machPortTypeSend out.entry).toNat
  onces :
    out.port.ipSorights = port.ipSorights ∧
      (Bearing machPortTypeSendOnce out.entry).toNat =
        (Bearing machPortTypeSendOnce e).toNat +
          gave out msgtName machMsgTypePortSendOnce
  nsrequest : out.port.ipNsrequest = port.ipNsrequest
  last : ¬ LastSend port out.port

section Copyout

variable {space name : Nat} {e : EntryFields}
variable {port : SenderPort} {out : CopyoutOut}

theorem not_lastSend
    {port' : SenderPort}
    (h : port'.ipSrights = port.ipSrights) :
    ¬ LastSend port port' := by
  rintro ⟨hPos, hZero⟩
  rw [h] at hZero
  exact absurd hZero (Nat.ne_of_gt hPos)

/- The bits of an entry for a new right. -/
structure Blank (e : EntryFields) : Prop where
  type : ieBitsType e.ieBits = machPortTypeNone
  urefs : ieBitsUrefs e.ieBits = 0
  request : e.ieRequest = 0

/- An entry gets the type and the references of a right. -/
theorem Blank.become
    {v : EntryBits}
    (h : Blank e)
    (hv : v &&& ieBitsRightMask = v) :
    ieBitsType (e.ieBits ||| v) = ieBitsType v ∧
      ieBitsUrefs (e.ieBits ||| v) = ieBitsUrefs v ∧
      ieBitsHigh (e.ieBits ||| v) = ieBitsHigh e.ieBits := by
  have hHigh : ieBitsRightMask &&& ~~~ieBitsRightMask = 0 := by
    decide
  refine ⟨?_, ?_, ?_⟩
  · rw [ieBitsType_or, h.type]
    unfold machPortTypeNone
    simp
  · have hUrefs := h.urefs
    unfold ieBitsUrefs at hUrefs ⊢
    rw [BitVec.and_or_distrib_right, hUrefs]
    simp
  · unfold ieBitsHigh
    rw [BitVec.and_or_distrib_right, ← hv, BitVec.and_assoc,
      hHigh]
    simp

theorem Blank.bearing
    (h : Blank e)
    (kind : EntryBits) :
    Bearing kind e = false := by
  rw [bearing_of_type h.type]
  simp [machPortTypeNone]

theorem copyoutSendOnce_movesOut
    (h : Blank e)
    (hObject : ioValid e.ieObject = true)
    (hActive : port.ipActive = true)
    (hRun : copyoutSendOnce e port = .ok out) :
    MovesOut space name e port machMsgTypePortSendOnce
      out := by
  rcases assert_ok hRun with ⟨_, hRest⟩
  rcases assert_ok hRest with ⟨_, hRest⟩
  cases hRest
  rcases @Blank.become e (machPortTypeSendOnce ||| 1) h
    (by decide) with ⟨hType, hUrefs, hHigh⟩
  have hIs : ieBitsType
      (e.ieBits ||| (machPortTypeSendOnce ||| 1)) =
        machPortTypeSendOnce := by
    rw [hType]
    decide
  have hOne : ieBitsUrefs
      (e.ieBits ||| (machPortTypeSendOnce ||| 1)) = 1 := by
    rw [hUrefs]
    decide
  have hBears := fun kind => @bearing_of_type
    { e with
      ieBits := e.ieBits ||| (machPortTypeSendOnce ||| 1) }
    _ hIs kind
  refine ⟨⟨.sendOnce hIs hOne hObject, ?_⟩,
    ⟨hHigh, .news h.type ?_⟩, rfl, ⟨hActive, hActive⟩,
    Or.inl ⟨?_, .refl port, rfl⟩, ?_, ⟨rfl, ?_⟩, rfl,
    not_lastSend rfl⟩
  · intro hSet
    rw [hIs] at hSet
    exact absurd hSet (by decide)
  · rw [hIs, hOne]
    decide
  · rw [h.bearing, hBears]
    decide
  · rw [h.bearing, hBears]
    rfl
  · rw [h.bearing, hBears]
    rfl

/- Rights that have one reference more. -/
theorem more_movesOut
    {hash : HashUpdate}
    {t : EntryBits}
    {dropped : Nat}
    (hType : ieBitsType (e.ieBits ||| machPortTypeSend) = t)
    (hTypes : t = machPortTypeSend ∨
      t = machPortTypeSendReceive)
    (hUrefs : ieBitsUrefs (e.ieBits ||| machPortTypeSend) =
      ieBitsUrefs e.ieBits)
    (hRoom : (ieBitsUrefs e.ieBits).toNat + 1 <
      machPortUrefsMax)
    (hChange : ieBitsType e.ieBits = t ∨
      ieBitsUrefs e.ieBits = 0 ∧
        (ieBitsType e.ieBits = machPortTypeNone ∧
            t = machPortTypeSend ∨
          ieBitsType e.ieBits = machPortTypeReceive ∧
            t = machPortTypeSendReceive))
    (hObject : ioValid e.ieObject = true)
    (hActive : port.ipActive = true)
    (hReceiver : t = machPortTypeSendReceive →
      port.ipReceiver = space ∧ port.ipReceiverName = name)
    (hReceive : Bearing machPortTypeReceive e =
      decide (t &&& machPortTypeReceive ≠ 0))
    (hOnce : Bearing machPortTypeSendOnce e = false)
    (hDropped : dropped =
      (Bearing machPortTypeSend e).toNat)
    (hLeft : dropped < port.ipSrights) :
    MovesOut space name e port machMsgTypePortSend
      ⟨.success,
        { e with ieBits := (e.ieBits ||| machPortTypeSend) + 1 },
        { port with ipSrights := port.ipSrights - dropped },
        hash⟩ := by
  have hFits : (ieBitsUrefs
      (e.ieBits ||| machPortTypeSend)).toNat < 65535 := by
    rw [hUrefs]
    unfold machPortUrefsMax at hRoom
    omega
  have hShift := succ_shift hFits
  have hSucc := ieBitsUrefs_succ hFits
  have hIs : ieBitsType
      ((e.ieBits ||| machPortTypeSend) + 1) = t :=
    (and_eq_of_shift (by decide) hShift).trans hType
  have hNonzero : ieBitsUrefs
      ((e.ieBits ||| machPortTypeSend) + 1) ≠ 0 :=
    ne_zero_of_pos (by omega)
  have hLess : (ieBitsUrefs
      ((e.ieBits ||| machPortTypeSend) + 1)).toNat <
        machPortUrefsMax := by
    rw [hSucc, hUrefs]
    exact hRoom
  have hHigh : ieBitsHigh
      ((e.ieBits ||| machPortTypeSend) + 1) =
        ieBitsHigh e.ieBits := by
    have hMask : machPortTypeSend &&& ~~~ieBitsRightMask =
        0 := by decide
    refine (and_eq_of_shift (by decide) hShift).trans ?_
    unfold ieBitsHigh
    rw [BitVec.and_or_distrib_right, hMask]
    simp
  have hBears := fun kind => @bearing_of_type
    { e with ieBits := (e.ieBits ||| machPortTypeSend) + 1 }
    _ hIs kind
  have hBy : UrefsBy e
      { e with ieBits := (e.ieBits ||| machPortTypeSend) + 1 }
      1 := by
    unfold UrefsBy
    rw [hSucc, hUrefs]
    rfl
  refine ⟨⟨?_, ?_⟩, ⟨hHigh, ?_⟩, rfl,
    ⟨hActive, hActive⟩,
    Or.inl ⟨?_, ⟨rfl, rfl, rfl⟩, rfl⟩, ?_, ⟨rfl, ?_⟩, rfl, ?_⟩
  · rcases hTypes with rfl | rfl
    · exact .send hIs hNonzero hObject hLess
    · rcases hReceiver rfl with ⟨hSpace, hName⟩
      exact .sendReceive hIs hNonzero hObject hLess hActive
        hSpace hName
  · intro hSet
    rw [hIs] at hSet
    rcases hTypes with rfl | rfl
    · exact absurd hSet (by decide)
    · exact absurd hSet (by decide)
  · rcases hChange with hSame | ⟨hZero, ⟨hNone, rfl⟩ |
      ⟨hOld, rfl⟩⟩
    · exact .adds (hIs.trans hSame.symm) (n := 1) (by decide)
        hBy
    · refine .news hNone ?_
      rw [hIs, hSucc, hUrefs, hZero]
      decide
    · refine .turns (n := 1) ?_ ?_ hBy
      · rw [hOld, hIs]
        decide
      · rw [hIs]
        decide
  · rw [hReceive, hBears]
  · have hSend : Bearing machPortTypeSend
        { e with
          ieBits := (e.ieBits ||| machPortTypeSend) + 1 } =
          true := by
      rw [hBears]
      rcases hTypes with rfl | rfl
      · decide
      · decide
    have hGave : gave
        ⟨.success,
          { e with
            ieBits := (e.ieBits ||| machPortTypeSend) + 1 },
          { port with ipSrights := port.ipSrights - dropped },
          hash⟩ machMsgTypePortSend machMsgTypePortSend = 1 :=
      rfl
    rw [hSend, hGave, ← hDropped]
    dsimp only
    rw [Bool.toNat_true]
    omega
  · have hGave : gave
        ⟨.success,
          { e with
            ieBits := (e.ieBits ||| machPortTypeSend) + 1 },
          { port with ipSrights := port.ipSrights - dropped },
          hash⟩ machMsgTypePortSend machMsgTypePortSendOnce =
            0 := rfl
    rw [hBears, hOnce, hGave]
    rcases hTypes with rfl | rfl
    · rfl
    · rfl
  · rintro ⟨hPos, hZero⟩
    dsimp only at hZero
    omega

/- The bit of a send right says nothing of references. -/
theorem urefs_or_send
    (bits : EntryBits) :
    ieBitsUrefs (bits ||| machPortTypeSend) =
      ieBitsUrefs bits := by
  have hMask : machPortTypeSend &&& ieBitsUrefsMask = 0 := by
    decide
  unfold ieBitsUrefs
  rw [BitVec.and_or_distrib_right, hMask]
  simp

/- A send right joins other references of it. -/
theorem copyoutSend_more
    (h : EntryOk space name port.toRightPort e)
    (hActive : port.ipActive = true)
    (hBit : e.ieBits &&& machPortTypeSend ≠ 0)
    (hRun : copyoutSend e port overflow = .ok out) :
    MovesOut space name e port machMsgTypePortSend out := by
  have hSend : Bearing machPortTypeSend e = true :=
    bears_of_bits (by decide) hBit
  have hQuiet : SetQuiet e := by
    intro hSet
    rw [bearing_of_type hSet] at hSend
    exact absurd hSend (by decide)
  have hOnceOf : ∀ t, ieBitsType e.ieBits = t →
      t &&& machPortTypeSendOnce = 0 →
      Bearing machPortTypeSendOnce e = false := by
    intro t hType hNone
    rw [bearing_of_type hType]
    simp [hNone]
  rcases h.live_cases (Or.inl hSend) with ⟨hObject, hCases⟩
  rcases assert_ok hRun with ⟨_, hRest⟩
  rw [if_pos hBit] at hRest
  rcases assert_ok hRest with ⟨hMany, hRest⟩
  rcases assert_ok hRest with ⟨_, hRest⟩
  rcases assert_ok hRest with ⟨hRoom, hRest⟩
  split_ifs at hRest with hFull hOver
  · -- The references stay at their maximum.
    cases hRest
    have hGave : ∀ kind, kind ≠ machMsgTypePortSend →
        gave ⟨.success, e,
          { port with ipSrights := port.ipSrights - 1 },
          .keep⟩ machMsgTypePortSend kind = 0 := by
      intro kind hNe
      unfold gave
      rw [if_neg]
      rintro ⟨_, hEq⟩
      exact hNe hEq.symm
    refine ⟨⟨h.congr rfl rfl rfl, hQuiet⟩, .refl _ _, rfl,
      ⟨hActive, hActive⟩,
      Or.inl ⟨rfl, ⟨rfl, rfl, rfl⟩, hGave _ (by decide)⟩, ?_,
      ⟨rfl, ?_⟩, rfl, ?_⟩
    · have hOne : gave ⟨.success, e,
          { port with ipSrights := port.ipSrights - 1 },
          .keep⟩ machMsgTypePortSend machMsgTypePortSend = 1 :=
        rfl
      dsimp only
      omega
    · rfl
    · rintro ⟨hPos, hZero⟩
      dsimp only at hZero
      omega
  · cases hRest
    have hGave : ∀ kind, gave ⟨.urefsOverflow, e, port, .keep⟩
        machMsgTypePortSend kind = 0 := by
      intro kind
      unfold gave
      rw [if_neg]
      rintro ⟨hSuccess, _⟩
      cases hSuccess
    refine ⟨⟨h.congr rfl rfl rfl, hQuiet⟩, .refl _ _, rfl,
      ⟨hActive, hActive⟩,
      Or.inl ⟨rfl, .refl port, hGave _⟩, ?_, ⟨rfl, ?_⟩, rfl,
      not_lastSend rfl⟩
    · rfl
    · rfl
  · cases hRest
    have hFits : (ieBitsUrefs e.ieBits).toNat + 1 <
        machPortUrefsMax := by omega
    have hCount : (1 : Nat) =
        (Bearing machPortTypeSend e).toNat := by
      rw [hSend]
      rfl
    rcases hCases with ⟨hIs, _⟩ |
      ⟨hIs, _, _, _, hSpace, hName⟩ | ⟨hIs, _⟩
    · refine @more_movesOut space name e port .keep
        machPortTypeSend 1 ?_ (Or.inl rfl)
        (urefs_or_send _) hFits ?_ hObject hActive ?_ ?_ ?_
        hCount hMany
      · rw [ieBitsType_or, hIs]
        decide
      · exact Or.inl hIs
      · intro hNot
        exact absurd hNot (by decide)
      · exact bearing_of_type hIs _
      · exact hOnceOf _ hIs (by decide)
    · refine @more_movesOut space name e port .keep
        machPortTypeSendReceive 1 ?_ (Or.inr rfl)
        (urefs_or_send _) hFits ?_ hObject hActive
        (fun _ => ⟨hSpace, hName⟩) ?_ ?_ hCount hMany
      · rw [ieBitsType_or, hIs]
        decide
      · exact Or.inl hIs
      · exact bearing_of_type hIs _
      · exact hOnceOf _ hIs (by decide)
    · rw [bearing_of_type hIs] at hSend
      exact absurd hSend (by decide)

/- A send right comes where there was none. -/
theorem copyoutSend_first
    (hObject : ioValid e.ieObject = true)
    (hActive : port.ipActive = true)
    (hBit : e.ieBits &&& machPortTypeSend = 0)
    (hReceiver : ieBitsType e.ieBits = machPortTypeReceive →
      port.ipReceiver = space ∧ port.ipReceiverName = name)
    (hRun : copyoutSend e port overflow = .ok out) :
    MovesOut space name e port machMsgTypePortSend out := by
  have hCount : (0 : Nat) =
      (Bearing machPortTypeSend e).toNat := by
    rw [bearing_eq_bits e _ (by decide)]
    simp [hBit]
  rcases assert_ok hRun with ⟨hPos, hRest⟩
  rw [if_neg (not_not_intro hBit)] at hRest
  split_ifs at hRest
  · rcases assert_ok hRest with ⟨hIs, hRest⟩
    rcases assert_ok hRest with ⟨hUrefs, hRest⟩
    cases hRest
    refine @more_movesOut space name e port .keep
      machPortTypeSendReceive 0 ?_ (Or.inr rfl)
      (urefs_or_send _) ?_ ?_ hObject hActive
      (fun _ => hReceiver hIs) ?_ ?_ hCount hPos
    · rw [ieBitsType_or, hIs]
      decide
    · rw [hUrefs]
      decide
    · exact Or.inr ⟨hUrefs, Or.inr ⟨hIs, rfl⟩⟩
    · rw [bearing_of_type hIs]
      decide
    · rw [bearing_of_type hIs]
      decide
  · rcases assert_ok hRest with ⟨hIs, hRest⟩
    rcases assert_ok hRest with ⟨hUrefs, hRest⟩
    cases hRest
    refine @more_movesOut space name e port .insert
      machPortTypeSend 0 ?_ (Or.inl rfl) (urefs_or_send _) ?_
      ?_ hObject hActive ?_ ?_ ?_ hCount hPos
    · rw [ieBitsType_or, hIs]
      decide
    · rw [hUrefs]
      decide
    · exact Or.inr ⟨hUrefs, Or.inl ⟨hIs, rfl⟩⟩
    · intro hNot
      exact absurd hNot (by decide)
    · rw [bearing_of_type hIs]
      decide
    · rw [bearing_of_type hIs]
      decide

/- What becomes of an entry that gets a receive right. -/
theorem copyoutReceive_movesOut
    (h : Blank e ∨ EntryOk space name port.toRightPort e)
    (hObject : ioValid e.ieObject = true)
    (hActive : port.ipActive = true)
    (hRun : copyoutReceive e port space name = .ok out) :
    MovesOut space name e port machMsgTypePortReceive out := by
  have hHigh : ieBitsHigh (e.ieBits ||| machPortTypeReceive) =
      ieBitsHigh e.ieBits := by
    have hMask : machPortTypeReceive &&& ~~~ieBitsRightMask =
        0 := by decide
    unfold ieBitsHigh
    rw [BitVec.and_or_distrib_right, hMask]
    simp
  have hUrefsOr : ieBitsUrefs
      (e.ieBits ||| machPortTypeReceive) =
        ieBitsUrefs e.ieBits := by
    have hMask : machPortTypeReceive &&& ieBitsUrefsMask =
        0 := by decide
    unfold ieBitsUrefs
    rw [BitVec.and_or_distrib_right, hMask]
    simp
  rcases assert_ok hRun with ⟨_, hRest⟩
  rcases assert_ok hRest with ⟨hLimbo, hRest⟩
  rcases assert_ok hRest with ⟨_, hRest⟩
  split_ifs at hRest with hBit
  · rcases assert_ok hRest with ⟨hIs, hRest⟩
    rcases assert_ok hRest with ⟨hUrefs, hRest⟩
    rcases assert_ok hRest with ⟨_, hRest⟩
    cases hRest
    have hRoom : (ieBitsUrefs e.ieBits).toNat <
        machPortUrefsMax := by
      rcases h with hBlank | hOk
      · rw [hBlank.type] at hIs
        exact absurd hIs (by decide)
      · exact hOk.send_room hIs
    have hNew : ieBitsType (e.ieBits ||| machPortTypeReceive) =
        machPortTypeSendReceive := by
      rw [ieBitsType_or, hIs]
      decide
    rw [← hUrefsOr] at hUrefs hRoom
    have hBears := fun kind => @bearing_of_type
      { e with ieBits := e.ieBits ||| machPortTypeReceive }
      _ hNew kind
    refine ⟨⟨.sendReceive hNew hUrefs hObject hRoom
        hActive rfl rfl, ?_⟩,
      ⟨hHigh, .turns (n := 0) ?_ ?_ ?_⟩, rfl,
      ⟨hActive, hActive⟩, Or.inr ⟨hLimbo, rfl⟩, ?_, ⟨rfl, ?_⟩,
      rfl, not_lastSend rfl⟩
    · intro hSet
      rw [hNew] at hSet
      exact absurd hSet (by decide)
    · rw [hIs, hNew]
      decide
    · rw [hNew]
      decide
    · unfold UrefsBy
      rw [hUrefsOr, Int.add_zero]
    · rw [hBears, bearing_of_type hIs]
      rfl
    · rw [hBears, bearing_of_type hIs]
      rfl
  · rcases assert_ok hRest with ⟨hIs, hRest⟩
    rcases assert_ok hRest with ⟨hUrefs, hRest⟩
    cases hRest
    have hNew : ieBitsType (e.ieBits ||| machPortTypeReceive) =
        machPortTypeReceive := by
      rw [ieBitsType_or, hIs]
      decide
    rw [← hUrefsOr] at hUrefs
    have hBears := fun kind => @bearing_of_type
      { e with ieBits := e.ieBits ||| machPortTypeReceive }
      _ hNew kind
    refine ⟨⟨.receive hNew hUrefs hObject hActive rfl
        rfl, ?_⟩, ⟨hHigh, .news hIs ?_⟩, rfl,
      ⟨hActive, hActive⟩, Or.inr ⟨hLimbo, rfl⟩, ?_, ⟨rfl, ?_⟩,
      rfl, not_lastSend rfl⟩
    · intro hSet
      rw [hNew] at hSet
      exact absurd hSet (by decide)
    · rw [hNew, hUrefs]
      decide
    · rw [hBears, bearing_of_type hIs]
      rfl
    · rw [hBears, bearing_of_type hIs]
      rfl

/- `ipc_right_copyout` to an entry that it is given. -/
theorem ipcRightCopyout_movesOut
    {msgtName : Nat}
    (h : ieBitsType e.ieBits = machPortTypeNone ∨
      EntryOk space name port.toRightPort e)
    (hMay : MayTake e msgtName)
    (hRun : ipcRightCopyout e port space name msgtName
      overflow = .ok out) :
    MovesOut space name e port msgtName out := by
  have hBlank : e.ieBits &&& ieBitsRightMask = 0 ∧
      e.ieRequest = 0 → Blank e := by
    rintro ⟨hNone, hRequest⟩
    have hPart : ∀ m, m &&& ieBitsRightMask = m →
        e.ieBits &&& m = 0 := by
      intro m hm
      rw [← hm, BitVec.and_comm m, ← BitVec.and_assoc, hNone]
      simp
    exact ⟨hPart _ (by decide), hPart _ (by decide), hRequest⟩
  have hCases : Blank e ∨
      EntryOk space name port.toRightPort e := by
    rcases h with hNone | hOk
    · rcases hMay with hRight | ⟨_, hBits⟩
      · exact Or.inl (hBlank hRight)
      · rw [and_of_type hNone _ (by decide)] at hBits
        exact absurd rfl hBits
    · exact Or.inr hOk
  rcases assert_ok hRun with ⟨hObject, hRest⟩
  rcases assert_ok hRest with ⟨hActive, hRest⟩
  split at hRest
  · rcases hMay with hRight | ⟨hNot, _⟩
    · exact copyoutSendOnce_movesOut (hBlank hRight) hObject
        hActive hRest
    · exact absurd rfl hNot
  · by_cases hBit : e.ieBits &&& machPortTypeSend ≠ 0
    · rcases hCases with hNone | hOk
      · rw [and_of_type hNone.type _ (by decide)] at hBit
        exact absurd rfl hBit
      · exact copyoutSend_more hOk hActive hBit hRest
    · refine copyoutSend_first hObject hActive
        (not_not.mp hBit) ?_ hRest
      intro hType
      rcases hCases with hNone | hOk
      · have hNot := hNone.type
        rw [hType] at hNot
        exact absurd hNot (by decide)
      · have hBear : Bearing machPortTypeReceive e = true :=
          bears_of_type hType (by decide)
        rcases hOk.receiver_facts hBear with
          ⟨_, _, hSpace, hName⟩
        exact ⟨hSpace, hName⟩
  · exact copyoutReceive_movesOut hCases hObject hActive hRest
  · cases hRest

end Copyout

end Ipc

end OsfMach
