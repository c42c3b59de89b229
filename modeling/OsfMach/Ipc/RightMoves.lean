import OsfMach.Ipc.RightDropOps
import OsfMach.Ipc.Rights
import OsfMach.Lib.Checked

/-
  What copying in one right or two does to the bits of an
  entry, and to the counts of its port.

  Main declarations:
    * `TakenIn`, `MovesIn`
    * `ipcRightCopyin_takenIn`, `ipcRightCopyin_movesIn`
    * `ipcRightCopyinTwo_movesIn`
-/

------
-- Entries after Copying in
------

namespace OsfMach

namespace Ipc

open Lib
open Lib.Checked
open RightState

variable {port' : RightPort} {object request : Nat}
variable {hash : HashUpdate} {c : BitsChanges} {n : Int}
variable {msgtName type count : Nat} {soright : Bool}

/-
  What copying a right in leaves of the bits. No send right of
  the port goes.
-/
structure TakenIn
    (c : BitsChanges)
    (e e' : EntryFields)
    (port port' : RightPort) : Prop where
  bits : NoCarry c e e'
  none : ieBitsType e'.ieBits = machPortTypeNone →
    e'.ieRequest = 0
  set : ieBitsType e'.ieBits = machPortTypePortSet → e' = e
  srights : port.ipSrights ≤ port'.ipSrights

section Copyin

variable {space name : Nat} {e x : EntryFields}
variable {port : RightPort} {deadok : Bool} {hash : HashUpdate}
variable {out : RightOut}

theorem EntryOk.not_none
    (h : EntryOk space name port e) :
    ieBitsType e.ieBits ≠ machPortTypeNone := by
  intro hNone
  cases h with
  | send type | receive type | sendReceive type
  | sendOnce type | portSet type | deadName type =>
      rw [hNone] at type
      exact absurd type (by decide)

/- The entry stays, and the port loses no send right. -/
theorem TakenIn.entry
    (h : EntryOk space name port e)
    (hSrights : port.ipSrights ≤ port'.ipSrights) :
    TakenIn c e e port port' :=
  ⟨.refl c e, fun hNone => absurd hNone h.not_none,
    fun _ => rfl, hSrights⟩

/- Other bits of the same type. -/
theorem TakenIn.shift
    {b : EntryBits}
    (h : EntryOk space name port e)
    (hSend : Bearing machPortTypeSend e = true)
    (hShift : b >>> 16 = e.ieBits >>> 16)
    (hMem : n ∈ 0 :: c.adds)
    (hBy : UrefsBy e { e with ieBits := b } n)
    (hSrights : port.ipSrights ≤ port'.ipSrights) :
    TakenIn c e { e with ieBits := b } port port' := by
  have hType : ieBitsType b = ieBitsType e.ieBits :=
    and_eq_of_shift (by decide) hShift
  refine ⟨⟨and_eq_of_shift (by decide) hShift,
    .adds hType hMem hBy⟩, ?_, ?_, hSrights⟩
  · intro hNone
    exact absurd (hType.symm.trans hNone) h.not_none
  · intro hSet
    rw [bearing_of_type (hType.symm.trans hSet)] at hSend
    exact absurd hSend (by decide)

/- Bits that were cleared, with a type that is another one. -/
theorem TakenIn.clear
    {m t t' : EntryBits}
    (hMask : ~~~ieBitsRightMask &&& m = 0)
    (hOld : ieBitsType e.ieBits = t')
    (hType : t' &&& ~~~m = t)
    (hTurn : (t', t, n) ∈ c.turns)
    (hKind : t &&&
      (machPortTypeSendOnce ||| machPortTypePortSet) = 0)
    (hBy : UrefsBy e ⟨e.ieBits &&& ~~~m, object, request⟩ n)
    (hRequest : t = machPortTypeNone → request = 0)
    (hSrights : port.ipSrights ≤ port'.ipSrights) :
    TakenIn c e ⟨e.ieBits &&& ~~~m, object, request⟩ port
      port' := by
  have hNew : ieBitsType (e.ieBits &&& ~~~m) = t := by
    rw [ieBitsType_clear, hOld, hType]
  refine ⟨⟨and_clear hMask, .turns ?_ ?_ hBy⟩, ?_, ?_,
    hSrights⟩
  · rw [hNew, hOld]
    exact hTurn
  · rw [hNew]
    exact hKind
  · intro hNone
    exact hRequest (hNew.symm.trans hNone)
  · intro hSet
    rw [hNew.symm.trans hSet] at hKind
    exact absurd hKind (by decide)

/- Cleared bits that have no reference among them. -/
theorem urefs_cleared
    {m : EntryBits}
    (hm : ieBitsUrefsMask &&& m = 0) :
    UrefsBy e ⟨e.ieBits &&& ~~~m, object, request⟩ 0 := by
  unfold UrefsBy ieBitsUrefs
  rw [and_clear hm, Int.add_zero]

/- A dead name, of a port that died or of none. -/
theorem TakenIn.ofDead
    {e' : EntryFields}
    (hDies : Dies e x)
    (hBy : DeadBy c x e')
    (hSrights : port.ipSrights ≤ port'.ipSrights) :
    TakenIn c e e' port port' := by
  have hDead := hBy.isDead
  refine ⟨hDies.noCarry hBy, fun _ => hDead.2.2.2, ?_,
    hSrights⟩
  intro hSet
  rw [hDead.1] at hSet
  exact absurd hSet (by decide)

theorem copyDead_takenIn
    (hDies : Dies e x)
    (hRun : copyDead x port hash deadok = .ok out) :
    TakenIn c e out.entry port out.port := by
  unfold copyDead at hRun
  rw [assertDead_of hDies.isDead] at hRun
  cases deadok with
  | false | true =>
      cases hRun
      exact .ofDead hDies (.refl c hDies.isDead)
        (Nat.le_refl _)

/- The last reference goes, and its bit is not cleared. -/
theorem Dies.gone
    (h : Dies e x)
    (hLast : ieBitsUrefs x.ieBits = 1) :
    NoCarry copyinChanges e
      { x with
        ieBits := x.ieBits &&& ~~~machPortTypeDeadName } := by
  have hType : ieBitsType
      (x.ieBits &&& ~~~machPortTypeDeadName) =
        machPortTypeNone := by
    rw [ieBitsType_clear, h.isDead.1]
    decide
  have hUrefs : ieBitsUrefs
      (x.ieBits &&& ~~~machPortTypeDeadName) = 1 :=
    (and_clear (by decide)).trans hLast
  have hOf : (ieBitsType e.ieBits, machPortTypeNone, 0) ∈
      copyinChanges.turns →
      ieBitsHigh x.ieBits = ieBitsHigh e.ieBits →
      ieBitsUrefs e.ieBits = 1 →
      NoCarry copyinChanges e
        { x with
          ieBits := x.ieBits &&& ~~~machPortTypeDeadName } := by
    intro hTurn hHigh hOne
    refine ⟨(and_clear (by decide)).trans hHigh,
      .turns (n := 0) ?_ ?_ ?_⟩
    · rw [hType]
      exact hTurn
    · rw [hType]
      decide
    · unfold UrefsBy
      rw [hUrefs, hOne]
      rfl
  rcases h with ⟨hDead, rfl⟩ | ⟨hMay, rfl⟩
  · refine hOf ?_ rfl hLast
    rw [hDead.1]
    decide
  · have hRoom := hMay.room
    rw [deadBits_urefs] at hRoom
    rcases diedEntry_facts hMay.urefs hRoom with
      ⟨_, hHigh, hBy⟩
    refine hOf ?_ hHigh (BitVec.eq_of_toNat_eq ?_)
    · rcases hMay with ⟨hIs, _⟩ | ⟨hIs, _⟩
      · rw [hIs]
        decide
      · rw [hIs]
        decide
    · have hPos : (ieBitsUrefs e.ieBits).toNat ≠ 0 := fun hEq =>
        hMay.urefs (BitVec.eq_of_toNat_eq hEq)
      have hOne : (1 : EntryBits).toNat = 1 := rfl
      unfold UrefsBy at hBy
      rw [hLast] at hBy
      omega

theorem moveDead_takenIn
    (hDies : Dies e x)
    (hRun : moveDead x port hash deadok = .ok out) :
    TakenIn copyinChanges e out.entry port out.port := by
  have hDead := hDies.isDead
  unfold moveDead at hRun
  rw [assertDead_of hDead] at hRun
  cases deadok with
  | false =>
      cases hRun
      exact .ofDead hDies (.refl _ hDead) (Nat.le_refl _)
  | true =>
      cases hRun
      by_cases hLast : ieBitsUrefs x.ieBits = 1
      · rw [if_pos hLast]
        refine ⟨hDies.gone hLast, fun _ => hDead.2.2.2, ?_,
          Nat.le_refl _⟩
        intro hSet
        dsimp only at hSet
        rw [ieBitsType_clear, hDead.1] at hSet
        exact absurd hSet (by decide)
      · rw [if_neg hLast]
        have hPred := ieBitsUrefs_pred hDead.2.1
        have hPos : (ieBitsUrefs x.ieBits).toNat ≠ 0 :=
          fun hEq => hDead.2.1 (BitVec.eq_of_toNat_eq hEq)
        have hMore : (ieBitsUrefs x.ieBits).toNat ≠ 1 :=
          fun hEq => hLast (BitVec.eq_of_toNat_eq hEq)
        refine .ofDead hDies (hDead.of_bits
          (pred_shift hDead.2.1) ?_ (n := -1) (by decide) ?_)
          (Nat.le_refl _)
        · exact ne_zero_of_pos (by omega)
        · unfold UrefsBy
          dsimp only
          omega

section EntryOk

variable (h : EntryOk space name port e)

include h

/- What the three ways to take a send right leave. -/
theorem copyinSendRight_takenIn
    {onDead onLive :
      EntryFields → HashUpdate → Except Trap RightOut}
    (hDead : ∀ x hash, Dies e x → onDead x hash = .ok out →
      TakenIn c e out.entry port out.port)
    (hLive : ieBitsUrefs e.ieBits ≠ 0 →
      port.ipActive = true → onLive e .keep = .ok out →
      TakenIn c e out.entry port out.port)
    (hRun : copyinSendRight e port onDead onLive = .ok out) :
    TakenIn c e out.entry port out.port := by
  cases h.sendCase with
  | dead bit isDead =>
      rw [copyinSendRight_dead bit] at hRun
      exact hDead _ _ (Or.inl ⟨isDead, rfl⟩) hRun
  | none bit rights =>
      rw [copyinSendRight_none bit rights] at hRun
      cases hRun
      exact .entry h (Nat.le_refl _)
  | live bit rights urefs object bear active =>
      rw [copyinSendRight_live bit rights urefs object active]
        at hRun
      exact hLive urefs active hRun
  | died bit rights urefs object may active =>
      rw [copyinSendRight_died bit rights object may active]
        at hRun
      exact hDead _ _ (Or.inr ⟨may, rfl⟩) hRun

theorem copyinMakeSend_takenIn
    (hRun : copyinMakeSend space name e port = .ok out) :
    TakenIn c e out.entry port out.port := by
  unfold copyinMakeSend at hRun
  split_ifs at hRun
  · cases hRun
    exact .entry h (Nat.le_refl _)
  · rcases assert_ok hRun with ⟨_, hRun⟩
    rcases assert_ok hRun with ⟨_, hRun⟩
    rcases bind_ok hRun with ⟨_, _, hRun⟩
    cases hRun
    exact .entry h (Nat.le_succ _)

theorem copyinMakeSendOnce_takenIn
    (hRun : copyinMakeSendOnce space name e port = .ok out) :
    TakenIn c e out.entry port out.port := by
  unfold copyinMakeSendOnce at hRun
  split_ifs at hRun
  · cases hRun
    exact .entry h (Nat.le_refl _)
  · rcases assert_ok hRun with ⟨_, hRun⟩
    rcases assert_ok hRun with ⟨_, hRun⟩
    rcases bind_ok hRun with ⟨_, _, hRun⟩
    cases hRun
    exact .entry h (Nat.le_refl _)

theorem copyinMoveReceive_takenIn
    (hRun : copyinMoveReceive space name e port = .ok out) :
    TakenIn copyinChanges e out.entry port out.port := by
  unfold copyinMoveReceive at hRun
  dsimp only at hRun
  split_ifs at hRun
  · cases hRun
    exact .entry h (Nat.le_refl _)
  · rcases assert_ok hRun with ⟨_, hRun⟩
    rcases assert_ok hRun with ⟨_, hRun⟩
    rcases bind_ok hRun with ⟨_, _, hRun⟩
    rcases assert_ok hRun with ⟨hType, hRun⟩
    rcases assert_ok hRun with ⟨_, hRun⟩
    rcases assert_ok hRun with ⟨_, hRun⟩
    cases hRun
    exact .clear (t := machPortTypeSend) (by decide) hType
      (by decide) (by decide) (by decide)
      (urefs_cleared (by decide))
      (fun hNone => absurd hNone (by decide)) (Nat.le_refl _)
  · rcases assert_ok hRun with ⟨_, hRun⟩
    rcases assert_ok hRun with ⟨_, hRun⟩
    rcases bind_ok hRun with ⟨_, _, hRun⟩
    rcases assert_ok hRun with ⟨hType, hRun⟩
    rcases assert_ok hRun with ⟨_, hRun⟩
    cases hRun
    exact .clear (t := machPortTypeNone) (by decide) hType
      (by decide) (by decide) (by decide)
      (urefs_cleared (by decide)) (fun _ => rfl)
      (Nat.le_refl _)

theorem copyinCopySend_takenIn
    (hRun : copyinCopySend e port deadok = .ok out) :
    TakenIn c e out.entry port out.port := by
  refine copyinSendRight_takenIn h ?_ ?_ hRun
  · intro x hash hDies hRun
    exact copyDead_takenIn hDies hRun
  · intro _ _ hRun
    dsimp only at hRun
    split_ifs at hRun
    · rcases assert_ok hRun with ⟨_, hRun⟩
      rcases assert_ok hRun with ⟨_, hRun⟩
      cases hRun
      exact .entry h (Nat.le_refl _)
    · rcases assert_ok hRun with ⟨_, hRun⟩
      cases hRun
      exact .entry h (Nat.le_succ _)

end EntryOk

/- The last reference of a send right, or the last two. -/
theorem clearSend_takenIn
    (hType : ieBitsType e.ieBits = machPortTypeSend ∧
        request = 0 ∨
      ieBitsType e.ieBits = machPortTypeSendReceive)
    (hTurns : ∀ a b, (a, b) ∈
        [(machPortTypeSendReceive, machPortTypeReceive),
          (machPortTypeSend, machPortTypeNone)] →
      (a, b, n) ∈ c.turns)
    (hAll : ((ieBitsUrefs e.ieBits).toNat : Int) + n = 0)
    (hSrights : port.ipSrights ≤ port'.ipSrights) :
    TakenIn c e
      ⟨e.ieBits &&& ~~~(ieBitsUrefsMask ||| machPortTypeSend),
        object, request⟩ port port' := by
  have hBy : UrefsBy e
      ⟨e.ieBits &&& ~~~(ieBitsUrefsMask ||| machPortTypeSend),
        object, request⟩ n := by
    have hNone : ~~~(ieBitsUrefsMask ||| machPortTypeSend) &&&
        ieBitsUrefsMask = 0 := by decide
    unfold UrefsBy
    rw [hAll]
    unfold ieBitsUrefs
    rw [BitVec.and_assoc, hNone]
    simp
  rcases hType with ⟨hType, hRequest⟩ | hType
  · exact .clear (t := machPortTypeNone) (by decide) hType
      (by decide) (hTurns _ _ (by simp)) (by decide) hBy
      (fun _ => hRequest) hSrights
  · exact .clear (t := machPortTypeReceive) (by decide) hType
      (by decide) (hTurns _ _ (by simp)) (by decide) hBy
      (fun hNone => absurd hNone (by decide)) hSrights

theorem moveSendLast_takenIn
    (hOne : ieBitsUrefs e.ieBits = 1)
    (hRun : moveSendLast space name e port = .ok out) :
    TakenIn copyinChanges e out.entry port out.port := by
  have hAll : ((ieBitsUrefs e.ieBits).toNat : Int) + -1 = 0 := by
    rw [hOne]
    rfl
  unfold moveSendLast at hRun
  dsimp only at hRun
  split_ifs at hRun
  · rcases bind_ok hRun with ⟨_, _, hRun⟩
    rcases assert_ok hRun with ⟨hType, hRun⟩
    cases hRun
    exact clearSend_takenIn (Or.inr hType)
      (by simp [copyinChanges]) hAll (Nat.le_refl _)
  · rcases assert_ok hRun with ⟨hType, hRun⟩
    cases hRun
    exact clearSend_takenIn (Or.inl ⟨hType, rfl⟩)
      (by simp [copyinChanges]) hAll (Nat.le_refl _)

section

variable (h : EntryOk space name port e)
include h

theorem copyinMoveSend_takenIn
    (hRun : copyinMoveSend space name e port deadok =
      .ok out) :
    TakenIn copyinChanges e out.entry port out.port := by
  refine copyinSendRight_takenIn h ?_ ?_ hRun
  · intro x hash hDies hRun
    exact moveDead_takenIn hDies hRun
  · intro hUrefs _ hRun
    dsimp only at hRun
    split_ifs at hRun with hBit hLast
    · rcases assert_ok hRun with ⟨_, hRun⟩
      rcases assert_ok hRun with ⟨_, hRun⟩
      cases hRun
      exact .entry h (Nat.le_refl _)
    · rcases assert_ok hRun with ⟨_, hRun⟩
      exact moveSendLast_takenIn hLast hRun
    · rcases assert_ok hRun with ⟨_, hRun⟩
      cases hRun
      have hPred := ieBitsUrefs_pred hUrefs
      have hPos : (ieBitsUrefs e.ieBits).toNat ≠ 0 := fun hEq =>
        hUrefs (BitVec.eq_of_toNat_eq hEq)
      refine .shift h ?_ (pred_shift hUrefs) (n := -1)
        (by decide) ?_ (Nat.le_succ _)
      · rw [bearing_eq_bits e _ (by decide)]
        simpa using hBit
      · unfold UrefsBy
        dsimp only
        omega

theorem copyinMoveSendOnce_takenIn
    (hRun : copyinMoveSendOnce e port deadok = .ok out) :
    TakenIn copyinChanges e out.entry port out.port := by
  refine copyinSendRight_takenIn h ?_ ?_ hRun
  · intro x hash hDies hRun
    exact moveDead_takenIn hDies hRun
  · intro _ _ hRun
    dsimp only at hRun
    split_ifs at hRun
    · rcases assert_ok hRun with ⟨_, hRun⟩
      rcases assert_ok hRun with ⟨_, hRun⟩
      cases hRun
      exact .entry h (Nat.le_refl _)
    · rcases assert_ok hRun with ⟨hType, hRun⟩
      rcases assert_ok hRun with ⟨_, hRun⟩
      rcases assert_ok hRun with ⟨_, hRun⟩
      cases hRun
      exact .clear (t := machPortTypeNone) (by decide) hType
        (by decide) (by decide) (by decide)
        (urefs_cleared (by decide)) (fun _ => rfl)
        (Nat.le_refl _)

theorem ipcRightCopyin_takenIn
    (hRun : ipcRightCopyin space name e port deadok msgtName =
      .ok out) :
    TakenIn copyinChanges e out.entry port out.port := by
  unfold ipcRightCopyin at hRun
  split at hRun
  · exact copyinMakeSend_takenIn h hRun
  · exact copyinMakeSendOnce_takenIn h hRun
  · exact copyinMoveReceive_takenIn h hRun
  · exact copyinCopySend_takenIn h hRun
  · exact copyinMoveSend_takenIn h hRun
  · exact copyinMoveSendOnce_takenIn h hRun
  · cases hRun

end

end Copyin

------
-- Counts after Copying in
------

/-
  What copying rights of one type in leaves, some of them or
  none: the entry denotes less or nothing, and the counts of
  the port cover what was taken.
-/
structure MovesIn
    (c : BitsChanges)
    (space name : Nat)
    (e : EntryFields)
    (port : RightPort)
    (type count : Nat)
    (out : RightOut) : Prop where
  takenIn : TakenIn c e out.entry port out.port
  entry :
    ieBitsType out.entry.ieBits = machPortTypeNone ∨
      EntryOk space name out.port out.entry
  object :
    out.entry.ieObject = e.ieObject ∨
      (Bearing machPortTypeSend out.entry = false ∧
        Bearing machPortTypeSendOnce out.entry = false ∧
        Bearing machPortTypeReceive out.entry = false)
  active : out.port.ipActive = port.ipActive
  receiver :
    Bearing machPortTypeReceive out.entry =
        Bearing machPortTypeReceive e ∧
      out.port.ipReceiver = port.ipReceiver ∧
      out.port.ipReceiverName = port.ipReceiverName ∧
      took out type machMsgTypePortReceive count = 0 ∨
    Bearing machPortTypeReceive e = true ∧
      Bearing machPortTypeReceive out.entry = false ∧
      port.ipActive = true ∧
      out.port.ipReceiverName = machPortNull
  sends :
    port.ipActive = true →
      out.port.ipSrights +
          (Bearing machPortTypeSend e).toNat =
        port.ipSrights +
          (Bearing machPortTypeSend out.entry).toNat +
          took out type machMsgTypePortSend count
  onces :
    (Bearing machPortTypeSendOnce out.entry).toNat +
        took out type machMsgTypePortSendOnce count +
        port.ipSorights ≤
      (Bearing machPortTypeSendOnce e).toNat +
        out.port.ipSorights
  oncesActive :
    port.ipActive = true →
      (Bearing machPortTypeSendOnce out.entry).toNat +
          took out type machMsgTypePortSendOnce count +
          port.ipSorights =
        (Bearing machPortTypeSendOnce e).toNat +
          out.port.ipSorights

section Counts

variable {space name : Nat} {e : EntryFields} {port : RightPort}
variable {out : RightOut}

theorem CopyinOk.movesIn
    (h : CopyinOk space name e port type out)
    (hTaken : TakenIn c e out.entry port out.port) :
    MovesIn c space name e port type 1 out := by
  refine ⟨hTaken, h.entry, h.object, h.active, ?_, h.sends,
    h.onces, h.oncesActive⟩
  rcases h.kept with hKept | ⟨hOld, hNew, hActive, hName, _⟩
  · exact Or.inl hKept
  · exact Or.inr ⟨hOld, hNew, hActive, hName⟩

/- `ipc_right_copyin` of an entry with a right. -/
theorem ipcRightCopyin_movesIn
    {deadok : Bool}
    (h : EntryOk space name port e)
    (hCovers : Covers port e)
    (hType : ipcObjectCopyinType msgtName = .ok type)
    (hRun : ipcRightCopyin space name e port deadok msgtName =
      .ok out) :
    MovesIn copyinChanges space name e port type 1 out := by
  have hSome : msgtName ≠ 0 := by
    intro hZero
    rw [hZero] at hRun
    cases hRun
  rcases @ipcRightCopyin_ok space name e port deadok msgtName
    type h hCovers hType hSome with ⟨out', hRun', hOk⟩
  rw [hRun] at hRun'
  cases hRun'
  exact hOk.movesIn (ipcRightCopyin_takenIn h hRun)

/- A refusal moves nothing, whatever became of the entry. -/
theorem MovesIn.refuse
    {x : EntryFields}
    (hTaken : TakenIn c e x port port)
    (hEntry : EntryOk space name port x)
    (hObject : x.ieObject = e.ieObject ∨
      (Bearing machPortTypeSend x = false ∧
        Bearing machPortTypeSendOnce x = false ∧
        Bearing machPortTypeReceive x = false))
    (hReceive : Bearing machPortTypeReceive x =
      Bearing machPortTypeReceive e)
    (hLive : port.ipActive = true → x = e)
    (hOnce : Bearing machPortTypeSendOnce x = true →
      Bearing machPortTypeSendOnce e = true) :
    MovesIn c space name e port type count
      (refuseRight x port hash) := by
  have hTook : ∀ kind,
      took (refuseRight x port hash) type kind count = 0 := by
    intro kind
    unfold took
    rw [if_neg]
    rintro ⟨hSuccess, _⟩
    cases hSuccess
  refine ⟨hTaken, Or.inr hEntry, hObject, rfl,
    Or.inl ⟨hReceive, rfl, rfl, hTook _⟩, ?_, ?_, ?_⟩
  · intro hActive
    rw [hTook, hLive hActive]
    rfl
  · rw [hTook]
    have hLe : (Bearing machPortTypeSendOnce x).toNat ≤
        (Bearing machPortTypeSendOnce e).toNat := by
      cases hBear : Bearing machPortTypeSendOnce x with
      | false => exact Nat.zero_le _
      | true =>
          rw [hOnce hBear]
    dsimp only [refuseRight]
    omega
  · intro hActive
    rw [hTook, hLive hActive]
    rfl

/- What two copied references of a send right count as. -/
theorem took_send
    {count : Nat}
    (hSuccess : out.kr = .success)
    (hObject : out.object ≠ ioDead) :
    took out machMsgTypePortSend machMsgTypePortSend count =
        count ∧
      took out machMsgTypePortSend machMsgTypePortSendOnce
        count = 0 ∧
      took out machMsgTypePortSend machMsgTypePortReceive
        count = 0 := by
  refine ⟨if_pos ⟨hSuccess, hObject, rfl⟩, ?_, ?_⟩
  · unfold took
    rw [if_neg]
    rintro ⟨_, _, hEq⟩
    exact absurd hEq (by decide)
  · unfold took
    rw [if_neg]
    rintro ⟨_, _, hEq⟩
    exact absurd hEq (by decide)

/- More than two references: two of them go. -/
theorem urefs_two
    {bits : EntryBits}
    (hTwo : 2 ≤ (ieBitsUrefs bits).toNat) :
    (bits - 2) >>> 16 = bits >>> 16 ∧
      (ieBitsUrefs (bits - 2)).toNat =
        (ieBitsUrefs bits).toNat - 2 := by
  have hFirst : ieBitsUrefs bits ≠ 0 := by
    intro hZero
    rw [hZero] at hTwo
    exact absurd hTwo (by decide)
  have hPred := ieBitsUrefs_pred hFirst
  have hSecond : ieBitsUrefs (bits - 1) ≠ 0 :=
    ne_zero_of_pos (by omega)
  have hSplit : bits - 2 = bits - 1 - 1 := by
    bv_omega
  constructor
  · rw [hSplit, pred_shift hSecond, pred_shift hFirst]
  · rw [hSplit, ieBitsUrefs_pred hSecond, hPred]
    omega

/- A right of a port that died is refused as a dead name. -/
theorem MovesIn.died
    (hMay : MayDie e)
    (hActive : port.ipActive = false) :
    MovesIn c space name e port type count
      (refuseRight (diedEntry e) port hash) := by
  have hDead := hMay.isDead
  have hSend := @not_bearing_of_dead _ machPortTypeSend hDead
    (by decide)
  have hOnce := @not_bearing_of_dead _ machPortTypeSendOnce
    hDead (by decide)
  have hReceive := @not_bearing_of_dead _ machPortTypeReceive
    hDead (by decide)
  refine .refuse ?_ ?_ ?_ ?_ ?_ ?_
  · exact .ofDead (Or.inr ⟨hMay, rfl⟩) (.refl c hDead)
      (Nat.le_refl _)
  · exact .deadName hDead.1 hDead.2.1 hDead.2.2.1
      hDead.2.2.2
  · exact Or.inr ⟨hSend, hOnce, hReceive⟩
  · rw [hReceive, hMay.receive]
  · intro hLive
    rw [hActive] at hLive
    cases hLive
  · intro hBear
    rw [hOnce] at hBear
    cases hBear

section

variable (h : EntryOk space name port e)
include h

/- Two references are all that a send right has. -/
theorem clearSend_movesIn
    (hObject : ioValid e.ieObject = true)
    (hType : ieBitsType e.ieBits = machPortTypeSend ∧
        object = ioNull ∧ request = 0 ∨
      ieBitsType e.ieBits = machPortTypeSendReceive ∧
        object = e.ieObject)
    (hTwo : ieBitsUrefs e.ieBits = 2)
    (hTurns : ∀ a b, (a, b) ∈
        [(machPortTypeSendReceive, machPortTypeReceive),
          (machPortTypeSend, machPortTypeNone)] →
      (a, b, -2) ∈ c.turns) :
    MovesIn c space name e port machMsgTypePortSend 2
      ⟨.success,
        ⟨e.ieBits &&& ~~~(ieBitsUrefsMask ||| machPortTypeSend),
          object, request⟩,
        { port with ipSrights := port.ipSrights + 1 }, hash,
        e.ieObject, soright⟩ := by
  have hTook := @took_send
    ⟨.success,
      ⟨e.ieBits &&& ~~~(ieBitsUrefsMask ||| machPortTypeSend),
        object, request⟩,
      { port with ipSrights := port.ipSrights + 1 }, hash,
      e.ieObject, soright⟩ 2 rfl (object_ne_null hObject).2
  have hTaken : TakenIn c e
      ⟨e.ieBits &&& ~~~(ieBitsUrefsMask ||| machPortTypeSend),
        object, request⟩ port
      { port with ipSrights := port.ipSrights + 1 } := by
    have hAll : ((ieBitsUrefs e.ieBits).toNat : Int) + -2 =
        0 := by
      rw [hTwo]
      rfl
    rcases hType with ⟨hIs, _, hRequest⟩ | ⟨hIs, _⟩
    · exact clearSend_takenIn (Or.inl ⟨hIs, hRequest⟩) hTurns
        hAll (Nat.le_succ _)
    · exact clearSend_takenIn (Or.inr hIs) hTurns hAll
        (Nat.le_succ _)
  -- The bits say what is left of the right.
  have hLeft : ∀ t, ieBitsType e.ieBits = t → ∀ kind,
      Bearing kind
        ⟨e.ieBits &&& ~~~(ieBitsUrefsMask ||| machPortTypeSend),
          object, request⟩ =
        decide (t &&& ~~~(ieBitsUrefsMask ||| machPortTypeSend)
          &&& kind ≠ 0) := by
    intro t hIs kind
    apply bearing_of_type
    rw [ieBitsType_clear, hIs]
  rcases hType with ⟨hIs, hNull, hRequest⟩ | ⟨hIs, hSame⟩
  · have hNew : ieBitsType (e.ieBits &&&
        ~~~(ieBitsUrefsMask ||| machPortTypeSend)) =
          machPortTypeNone := by
      rw [ieBitsType_clear, hIs]
      decide
    refine ⟨hTaken, Or.inl hNew, Or.inr ?_, rfl,
      Or.inl ⟨?_, rfl, rfl, hTook.2.2⟩, ?_, ?_, ?_⟩
    · refine ⟨?_, ?_, ?_⟩
      · rw [hLeft _ hIs]
        decide
      · rw [hLeft _ hIs]
        decide
      · rw [hLeft _ hIs]
        decide
    · rw [hLeft _ hIs, bearing_of_type hIs]
      decide
    · intro _
      rw [hLeft _ hIs, bearing_of_type hIs, hTook.1]
      rfl
    · rw [hLeft _ hIs, bearing_of_type hIs, hTook.2.1]
      exact Nat.le_refl _
    · intro _
      rw [hLeft _ hIs, bearing_of_type hIs, hTook.2.1]
      rfl
  · rcases dropSend_bits hIs with ⟨hNew, hUrefs⟩
    have hBear : Bearing machPortTypeReceive e = true :=
      bears_of_type hIs (by decide)
    rcases h.receiver_facts hBear with
      ⟨_, hActive, hSpace, hName⟩
    subst hSame
    refine ⟨hTaken, Or.inr (.receive hNew hUrefs hObject
      hActive hSpace hName), Or.inl rfl, rfl,
      Or.inl ⟨?_, rfl, rfl, hTook.2.2⟩, ?_, ?_, ?_⟩
    · rw [hLeft _ hIs, bearing_of_type hIs]
      decide
    · intro _
      rw [hLeft _ hIs, bearing_of_type hIs, hTook.1]
      rfl
    · rw [hLeft _ hIs, bearing_of_type hIs, hTook.2.1]
      exact Nat.le_refl _
    · intro _
      rw [hLeft _ hIs, bearing_of_type hIs, hTook.2.1]
      rfl

/- Two references go, and more are left. -/
theorem subTwo_movesIn
    (hObject : ioValid e.ieObject = true)
    (hSend : Bearing machPortTypeSend e = true)
    (hTwo : 2 ≤ (ieBitsUrefs e.ieBits).toNat)
    (hMore : ieBitsUrefs e.ieBits ≠ 2)
    (hRoom : (ieBitsUrefs e.ieBits).toNat < machPortUrefsMax)
    (hMem : -2 ∈ 0 :: c.adds) :
    MovesIn c space name e port machMsgTypePortSend 2
      ⟨.success, { e with ieBits := e.ieBits - 2 },
        { port with ipSrights := port.ipSrights + 2 }, hash,
        e.ieObject, soright⟩ := by
  rcases urefs_two hTwo with ⟨hShift, hUrefs⟩
  have hTook := @took_send
    ⟨.success, { e with ieBits := e.ieBits - 2 },
      { port with ipSrights := port.ipSrights + 2 }, hash,
      e.ieObject, soright⟩ 2 rfl (object_ne_null hObject).2
  have hNat : (ieBitsUrefs e.ieBits).toNat ≠ 2 := by
    intro hEq
    exact hMore (BitVec.eq_of_toNat_eq hEq)
  have hPos : ieBitsUrefs (e.ieBits - 2) ≠ 0 :=
    ne_zero_of_pos (by omega)
  have hSame := fun kind =>
    @bearing_of_shift e kind (e.ieBits - 2) hShift
  have hBy : UrefsBy e { e with ieBits := e.ieBits - 2 }
      (-2) := by
    unfold UrefsBy
    dsimp only
    omega
  refine ⟨.shift h hSend hShift hMem hBy (Nat.le_add_right _ _),
    Or.inr ?_, Or.inl rfl, rfl,
    Or.inl ⟨hSame _, rfl, rfl, hTook.2.2⟩, ?_, ?_, ?_⟩
  · exact (h.references hSend hShift hPos (by omega)).congr
      rfl rfl rfl
  · intro _
    rw [hTook.1, hSame]
    dsimp only
    omega
  · rw [hTook.2.1, hSame]
    exact Nat.le_refl _
  · intro _
    rw [hTook.2.1, hSame]
    rfl

/- `ipc_right_copyin_two` of an entry with a right. -/
theorem ipcRightCopyinTwo_movesIn
    (i : Nat)
    (hRun : ipcRightCopyinTwo space name e port = .ok out) :
    MovesIn (RightAction.copyinTwo i).changes space name e port
      machMsgTypePortSend 2 out := by
  have hTurns : ∀ a b, (a, b) ∈
      [(machPortTypeSendReceive, machPortTypeReceive),
        (machPortTypeSend, machPortTypeNone)] →
      (a, b, -2) ∈ (RightAction.copyinTwo i).changes.turns := by
    simp [RightAction.changes]
  have hSame : MovesIn (RightAction.copyinTwo i).changes space
      name e port machMsgTypePortSend 2
      (refuseRight e port .keep) :=
    .refuse (.entry h (Nat.le_refl _)) h (Or.inl rfl) rfl
      (fun _ => rfl) id
  unfold ipcRightCopyinTwo at hRun
  dsimp only at hRun
  split_ifs at hRun with hBit hFew
  · cases hRun
    exact hSame
  · cases hRun
    exact hSame
  · have hSend : Bearing machPortTypeSend e = true :=
      bears_of_bits (by decide) hBit
    rcases h.live_cases (Or.inl hSend) with ⟨hObject, hCases⟩
    rcases assert_ok hRun with ⟨_, hRun⟩
    cases hActive : port.ipActive with
    | false =>
        have hMay : MayDie e := by
          rcases hCases with ⟨hIs, hPos, hRoom⟩ |
            ⟨_, _, _, hLive, _⟩ | hOnce
          · exact Or.inl ⟨hIs, hPos, hRoom⟩
          · rw [hActive] at hLive
            cases hLive
          · exact Or.inr hOnce
        rw [hMay.check_died hActive] at hRun
        cases hRun
        exact .died hMay hActive
    | true =>
        rw [ipcRightCheck_active hActive] at hRun
        rcases assert_ok hRun with ⟨_, hRun⟩
        split_ifs at hRun with hTwo hReceive
        · rcases bind_ok hRun with ⟨_, _, hRun⟩
          rcases assert_ok hRun with ⟨hIs, hRun⟩
          cases hRun
          exact clearSend_movesIn h hObject (Or.inr ⟨hIs, rfl⟩)
            hTwo hTurns
        · rcases assert_ok hRun with ⟨hIs, hRun⟩
          cases hRun
          exact clearSend_movesIn h hObject
            (Or.inl ⟨hIs, rfl, rfl⟩) hTwo hTurns
        · cases hRun
          have hRoom : (ieBitsUrefs e.ieBits).toNat <
              machPortUrefsMax := by
            rcases hCases with ⟨_, _, hRoom⟩ |
              ⟨_, _, hRoom, _⟩ | ⟨_, hOne⟩
            · exact hRoom
            · exact hRoom
            · rw [hOne]
              decide
          exact subTwo_movesIn h hObject hSend (by omega) hTwo
            hRoom (List.mem_cons_of_mem _
              (List.mem_singleton.mpr rfl))

end

end Counts

end Ipc

end OsfMach
