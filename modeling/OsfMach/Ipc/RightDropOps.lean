import OsfMach.Ipc.RightDropInv

/-
  Each operation that drops a right does so properly, but for
  one: `ipc_right_delta` of a receive right with a send right
  beside it, whose port goes to its backup.

  Main declarations:
    * `SetQuiet`, `Leaks`
    * `ipcRightDealloc_ok`, `ipcRightDelta_ok`
    * `ipcRightDestroy_ok`, `ipcRightClean_ok`
-/

------
-- Giving up References
------

namespace OsfMach

namespace Ipc

open Lib

variable {delta : EntryBits} {hash : HashUpdate}
variable {bits t m : EntryBits} {circular : Bool}
variable {c : BitsChanges}
variable {port' : SenderPort} {notified : Option NoSenders}

section Operations

variable {space name : Nat} {e : EntryFields}
variable {port : SenderPort}

theorem MayDie.check_died
    {right : RightPort}
    (h : MayDie e)
    (hDead : right.ipActive = false) :
    ipcRightCheck e right =
      .ok (true, diedEntry e, diedHash e) :=
  h.check hDead

/- A type is not another one. -/
theorem type_ne
    {bits t t' : EntryBits}
    (h : ieBitsType bits = t)
    (hNe : t ≠ t') :
    ieBitsType bits ≠ t' := by
  rw [h]
  exact hNe

/- What an entry whose port died is dropped as. -/
theorem dropDied_ok
    (hMay : MayDie e)
    (hDead : port.ipActive = false)
    (hMem : -1 ∈ 0 :: c.adds) :
    ∃ out,
      (do
        ipcAssert (ieBitsType (diedEntry e).ieBits =
          machPortTypeDeadName)
        dropDeadName (diedEntry e) port (diedHash e)) =
          .ok out ∧
        DropOk c space name e port 0 out := by
  rw [ipcAssert_of hMay.isDead.1]
  refine dropDeadName_ok (Or.inr ⟨hMay, rfl⟩) ?_ hMem
  intro hActive
  rw [hDead] at hActive
  cases hActive

theorem ipcRightDealloc_ok
    (i : Nat)
    (h : EntryOk space name port.toRightPort e)
    (hCovers : Covers port.toRightPort e) :
    ∃ out, ipcRightDealloc space name e port = .ok out ∧
      DropOk (RightAction.dealloc i).changes space name e port 0
        out := by
  have hOk := h
  have hMem : -1 ∈ 0 :: (RightAction.dealloc i).changes.adds :=
    List.mem_cons_of_mem _ (List.mem_singleton.mpr rfl)
  have hTurn : (machPortTypeSendReceive, machPortTypeReceive,
      -1) ∈ (RightAction.dealloc i).changes.turns :=
    List.mem_singleton.mpr rfl
  -- The last reference of a send right goes.
  have hAll : ieBitsUrefs e.ieBits = 1 →
      ((ieBitsUrefs e.ieBits).toNat : Int) + -1 = 0 := by
    intro hOne
    rw [hOne]
    rfl
  unfold ipcRightDealloc
  cases h with
  | deadName type urefs object request =>
      have hDead : IsDead e := ⟨type, urefs, object, request⟩
      rw [if_pos type]
      exact dropDeadName_ok (Or.inl ⟨hDead, rfl⟩)
        (fun _ => hDead) hMem
  | sendOnce type urefs object =>
      have hMay : MayDie e := Or.inr ⟨type, urefs⟩
      have hBear : Bearing machPortTypeSendOnce e = true :=
        bears_of_type type (by decide)
      rw [if_neg (type_ne type (by decide)), if_pos type,
        ipcAssert_of urefs,
        ipcAssert_of (object_ne_null object).1]
      cases hActive : port.ipActive with
      | false =>
          rw [hMay.check_died hActive]
          exact dropDied_ok hMay hActive hMem
      | true =>
          rw [ipcRightCheck_active hActive,
            ipcAssert_of (hCovers.sendOnce hBear)]
          exact ⟨_, rfl, dropSendOnce_ok type hActive⟩
  | send type urefs object room =>
      have hMay : MayDie e := Or.inl ⟨type, urefs, room⟩
      have hBear : Bearing machPortTypeSend e = true :=
        bears_of_type type (by decide)
      rw [if_neg (type_ne type (by decide)),
        if_neg (type_ne type (by decide)), if_pos type,
        ipcAssert_of urefs,
        ipcAssert_of (object_ne_null object).1]
      cases hActive : port.ipActive with
      | false =>
          rw [hMay.check_died hActive]
          exact dropDied_ok hMay hActive hMem
      | true =>
          have hPos := hCovers.send hActive hBear
          rw [ipcRightCheck_active hActive, ipcAssert_of hPos]
          by_cases hLast : ieBitsUrefs e.ieBits = 1
          · rw [if_pos hLast]
            exact ⟨_, rfl, dropLastSend_ok hOk hBear hActive
              hPos hTurn (hAll hLast)⟩
          · rw [if_neg hLast]
            exact ⟨_, rfl,
              .pred hOk hBear urefs room hLast hMem⟩
  | sendReceive type urefs object room active receiver
      receiverName =>
      have hBear : Bearing machPortTypeSend e = true :=
        bears_of_type type (by decide)
      have hPos := hCovers.send active hBear
      rw [if_neg (type_ne type (by decide)),
        if_neg (type_ne type (by decide)),
        if_neg (type_ne type (by decide)), if_pos type,
        ipcAssert_of urefs,
        ipcAssert_of (object_ne_null object).1,
        ipcAssert_of active,
        assertReceiver_of receiverName receiver,
        ipcAssert_of hPos]
      by_cases hLast : ieBitsUrefs e.ieBits = 1
      · rw [if_pos hLast]
        exact ⟨_, rfl, dropLastSend_ok hOk hBear active hPos
          hTurn (hAll hLast)⟩
      · rw [if_neg hLast]
        exact ⟨_, rfl, .pred hOk hBear urefs room hLast hMem⟩
  | receive type | portSet type =>
      rw [if_neg (type_ne type (by decide)),
        if_neg (type_ne type (by decide)),
        if_neg (type_ne type (by decide)),
        if_neg (type_ne type (by decide))]
      exact ⟨_, rfl, .same hOk⟩

/- A port set has no dead-name request. -/
def SetQuiet (e : EntryFields) : Prop :=
  ieBitsType e.ieBits = machPortTypePortSet → e.ieRequest = 0

theorem Kept.setQuiet
    {e' : EntryFields}
    (h : Kept c e e')
    (hSome : ieBitsType e.ieBits ≠ machPortTypeNone)
    (hQuiet : SetQuiet e) :
    SetQuiet e' := by
  intro hSet
  have hSame := @BitsChanged.same _ _ _ machPortTypePortSet
    h.bits.change hSome (by decide) (by decide)
    (by rw [hSet]; decide)
  rcases h.request hSet with hRequest | hNone
  · rw [hRequest]
    exact hQuiet (hSame.symm.trans hSet)
  · exact hNone

/- A type that has a bit of a mask says what the bits have. -/
theorem bits_of_type
    (h : ieBitsType bits = t)
    (hm : m &&& ieBitsTypeMask = m)
    (hNe : t &&& m ≠ 0) :
    bits &&& m ≠ 0 := by
  rw [and_of_type h m hm]
  exact hNe

theorem bits_of_type_none
    (h : ieBitsType bits = t)
    (hm : m &&& ieBitsTypeMask = m)
    (hNone : t &&& m = 0) :
    bits &&& m = 0 := by
  rw [and_of_type h m hm]
  exact hNone

section

variable (delta : EntryBits)
variable (h : EntryOk space name port.toRightPort e)
include h

theorem deltaPortSet_ok
    (hQuiet : SetQuiet e) :
    ∃ out, deltaPortSet e port delta = .ok out ∧
      DropOk c space name e port 0 out := by
  have hOk := h
  unfold deltaPortSet
  dsimp only
  by_cases hSet : e.ieBits &&& machPortTypePortSet = 0
  · rw [if_pos hSet]
    exact ⟨_, rfl, .same hOk⟩
  cases h with
  | portSet type urefs object =>
      rw [ipcAssert_of type, ipcAssert_of urefs,
        ipcAssert_of (hQuiet type)]
      split_ifs
      · exact ⟨_, rfl, .same hOk⟩
      · exact ⟨_, rfl, .same hOk⟩
      · rw [ipcAssert_of (object_ne_null object).1]
        refine ⟨_, rfl, .quiet ?_ ?_ ?_ ?_⟩
        · intro e' hEq
          cases hEq
        · rw [bearing_of_type type]
          rfl
        · intro _
          rw [bearing_of_type type]
          rfl
        · intro _
          rw [bearing_of_type type]
          rfl
  | send type | receive type | sendReceive type
  | sendOnce type | deadName type =>
      exact absurd (bits_of_type_none type (by decide)
        (by decide)) hSet

theorem deltaSendOnce_ok
    (hCovers : Covers port.toRightPort e) :
    ∃ out, deltaSendOnce e port delta = .ok out ∧
      DropOk c space name e port 0 out := by
  have hOk := h
  unfold deltaSendOnce
  by_cases hOnce : e.ieBits &&& machPortTypeSendOnce = 0
  · rw [if_pos hOnce]
    exact ⟨_, rfl, .same hOk⟩
  rw [if_neg hOnce]
  cases h with
  | sendOnce type urefs object =>
      have hMay : MayDie e := Or.inr ⟨type, urefs⟩
      have hBear : Bearing machPortTypeSendOnce e = true :=
        bears_of_type type (by decide)
      rw [ipcAssert_of type, ipcAssert_of urefs,
        ipcAssert_of (object_ne_null object).1]
      cases hActive : port.ipActive with
      | false =>
          have hDead := hMay.isDead
          rw [hMay.check_died hActive]
          simp only [bind, Except.bind, if_true]
          rw [ipcAssert_of (bits_of_type_none hDead.1
            (by decide) (by decide))]
          refine ⟨_, rfl, .ofDead ?_ (Or.inr ⟨hMay, rfl⟩) ?_⟩
          · intro e' hEq
            cases hEq
            exact .refl c hDead
          · intro hLive
            rw [hActive] at hLive
            cases hLive
      | true =>
          rw [ipcRightCheck_active hActive]
          rw [ipcAssert_of (hCovers.sendOnce hBear)]
          split_ifs
          · exact ⟨_, rfl, .same hOk⟩
          · exact ⟨_, rfl, .same hOk⟩
          · exact ⟨_, rfl, dropSendOnce_ok type hActive⟩
  | send type | receive type | sendReceive type | portSet type
  | deadName type =>
      exact absurd (bits_of_type_none type (by decide)
        (by decide)) hOnce

/- A right that may die, of a live or of a dead port. -/
theorem deltaDeadName_may
    (hMay : MayDie e)
    (hObject : ioValid e.ieObject = true)
    (hRights : e.ieBits &&& machPortTypeSendRights ≠ 0)
    (hMem : delta.toInt ∈ 0 :: c.adds) :
    ∃ out, deltaDeadName e port delta = .ok out ∧
      DropOk c space name e port 0 out := by
  unfold deltaDeadName
  rw [if_pos hRights, ipcAssert_of (object_ne_null hObject).1]
  cases hActive : port.ipActive with
  | false =>
      rw [hMay.check_died hActive]
      refine changeDeadName_ok (Or.inr ⟨hMay, rfl⟩) ?_ hMem
      intro hLive
      rw [hActive] at hLive
      cases hLive
  | true =>
      rw [ipcRightCheck_active hActive]
      exact ⟨_, rfl, .same h⟩

end

theorem deltaDeadName_ok
    (delta : EntryBits)
    (h : EntryOk space name port.toRightPort e)
    (hMem : delta.toInt ∈ 0 :: c.adds) :
    ∃ out, deltaDeadName e port delta = .ok out ∧
      DropOk c space name e port 0 out := by
  have hOk := h
  cases h with
  | send type urefs object room =>
      exact deltaDeadName_may delta hOk
        (Or.inl ⟨type, urefs, room⟩) object
        (bits_of_type type (by decide) (by decide)) hMem
  | sendOnce type urefs object =>
      exact deltaDeadName_may delta hOk
        (Or.inr ⟨type, urefs⟩) object
        (bits_of_type type (by decide) (by decide)) hMem
  | sendReceive type urefs object room active =>
      unfold deltaDeadName
      rw [if_pos (bits_of_type type (by decide) (by decide)),
        ipcAssert_of (object_ne_null object).1,
        ipcRightCheck_active active]
      exact ⟨_, rfl, .same hOk⟩
  | deadName type urefs object request =>
      have hDead : IsDead e := ⟨type, urefs, object, request⟩
      unfold deltaDeadName
      rw [if_neg (not_not_intro (bits_of_type_none type
          (by decide) (by decide))),
        if_neg (bits_of_type type (by decide) (by decide))]
      exact changeDeadName_ok (Or.inl ⟨hDead, rfl⟩)
        (fun _ => hDead) hMem
  | receive type | portSet type =>
      unfold deltaDeadName
      rw [if_neg (not_not_intro (bits_of_type_none type
          (by decide) (by decide))),
        if_pos (bits_of_type_none type (by decide)
          (by decide))]
      exact ⟨_, rfl, .same hOk⟩

/- The references of a send right of a live port change. -/
theorem deltaSend_live
    {last : Except Trap RightDrop}
    (h : EntryOk space name port.toRightPort e)
    (hSend : Bearing machPortTypeSend e = true)
    (hActive : port.ipActive = true)
    (hPos : 0 < port.ipSrights)
    (hRoom : (ieBitsUrefs e.ieBits).toNat < machPortUrefsMax)
    (hLast : last = .ok (dropLastSend e port))
    (hMem : delta.toInt ∈ 0 :: c.adds)
    (hTurn : (machPortTypeSendReceive, machPortTypeReceive,
      delta.toInt) ∈ c.turns) :
    ∃ out,
      (let urefs := ieBitsUrefs e.ieBits
        if machPortUrefsUnderflow urefs delta then
          .ok (quietly .invalidValue (some e) port .keep)
        else if machPortUrefsOverflow (urefs + 1) delta then
          .ok (quietly .urefsOverflow (some e) port .keep)
        else if urefs + delta = 0 then last
        else
          .ok (quietly .success
            (some { e with ieBits := e.ieBits + delta })
            port .keep)) = .ok out ∧
        DropOk c space name e port 0 out := by
  subst hLast
  dsimp only
  split_ifs with hUnder hOver hZero
  · exact ⟨_, rfl, .same h⟩
  · exact ⟨_, rfl, .same h⟩
  · refine ⟨_, rfl, dropLastSend_ok h hSend hActive hPos hTurn
      ?_⟩
    have hLt := @urefs_lt e.ieBits
    have hNat := congrArg BitVec.toNat hZero
    have hNone : (0 : EntryBits).toNat = 0 := rfl
    rw [BitVec.toNat_add, hNone] at hNat
    rw [BitVec.toInt_eq_toNat_cond]
    omega
  · have hFits := urefs_add_send hRoom
      ((Bool.not_eq_true _).mp hUnder)
      ((Bool.not_eq_true _).mp hOver)
    have hLt : (ieBitsUrefs e.ieBits + delta).toNat <
        65536 := by
      unfold machPortUrefsMax at hFits
      omega
    rcases add_shift hLt with ⟨hShift, hUrefs, hBy⟩
    rw [← hUrefs] at hZero hFits
    exact ⟨_, rfl,
      .references h hSend hShift hZero hFits hMem hBy⟩

theorem deltaSend_ok
    (delta : EntryBits)
    (h : EntryOk space name port.toRightPort e)
    (hCovers : Covers port.toRightPort e)
    (hMem : delta.toInt ∈ 0 :: c.adds)
    (hTurn : (machPortTypeSendReceive, machPortTypeReceive,
      delta.toInt) ∈ c.turns) :
    ∃ out, deltaSend space name e port delta = .ok out ∧
      DropOk c space name e port 0 out := by
  have hOk := h
  unfold deltaSend
  by_cases hSend : e.ieBits &&& machPortTypeSend = 0
  · rw [if_pos hSend]
    exact ⟨_, rfl, .same hOk⟩
  rw [if_neg hSend]
  cases h with
  | send type urefs object room =>
      have hMay : MayDie e := Or.inl ⟨type, urefs, room⟩
      have hBear : Bearing machPortTypeSend e = true :=
        bears_of_type type (by decide)
      have hReceive : e.ieBits &&& machPortTypeReceive = 0 :=
        bits_of_type_none type (by decide) (by decide)
      rw [ipcAssert_of (object_ne_null object).1]
      cases hActive : port.ipActive with
      | false =>
          have hDead := hMay.isDead
          rw [hMay.check_died hActive]
          simp only [bind, Except.bind, if_true]
          rw [ipcAssert_of (bits_of_type_none hDead.1
            (by decide) (by decide))]
          refine ⟨_, rfl, .ofDead ?_ (Or.inr ⟨hMay, rfl⟩) ?_⟩
          · intro e' hEq
            cases hEq
            exact .refl c hDead
          · intro hLive
            rw [hActive] at hLive
            cases hLive
      | true =>
          have hPos := hCovers.send hActive hBear
          rw [ipcRightCheck_active hActive]
          simp only [bind, Except.bind, Bool.false_eq_true,
            if_false]
          rw [ipcAssert_of hPos]
          refine deltaSend_live hOk hBear hActive hPos room ?_
            hMem hTurn
          rw [if_neg (not_not_intro hReceive),
            ipcAssert_of type]
  | sendReceive type urefs object room active receiver
      receiverName =>
      have hBear : Bearing machPortTypeSend e = true :=
        bears_of_type type (by decide)
      have hPos := hCovers.send active hBear
      have hReceive : e.ieBits &&& machPortTypeReceive ≠ 0 :=
        bits_of_type type (by decide) (by decide)
      rw [ipcAssert_of (object_ne_null object).1,
        ipcRightCheck_active active]
      simp only [bind, Except.bind, Bool.false_eq_true,
        if_false]
      rw [ipcAssert_of hPos]
      refine deltaSend_live hOk hBear active hPos room ?_ hMem
        hTurn
      rw [if_pos hReceive,
        assertReceiver_of receiverName receiver,
        ipcAssert_of type]
  | receive type | sendOnce type | portSet type
  | deadName type =>
      exact absurd (bits_of_type_none type (by decide)
        (by decide)) hSend

/-
  The one case that leaves a send right counted that is gone:
  the receive right is dropped beside it, and the port goes
  to its backup instead of dying.
-/
def Leaks
    (e : EntryFields)
    (port : SenderPort)
    (right : Nat)
    (delta : EntryBits)
    (circular : Bool) : Prop :=
  right = machPortRightReceive ∧ delta = -1 ∧
    ieBitsType e.ieBits = machPortTypeSendReceive ∧
    GoesToBackup port circular

instance
    (e : EntryFields)
    (port : SenderPort)
    (right : Nat)
    (delta : EntryBits)
    (circular : Bool) :
    Decidable (Leaks e port right delta circular) :=
  inferInstanceAs (Decidable (_ ∧ _))

theorem deltaReceive_ok
    {timestamp : Nat}
    (h : EntryOk space name port.toRightPort e)
    (hCovers : Covers port.toRightPort e)
    (hTurns : delta = -1 → ∀ n, n = 0 ∨ n = 1 →
      (machPortTypeSendReceive, machPortTypeDeadName, n) ∈
        c.turns) :
    ∃ out,
      deltaReceive space name e port delta circular
          timestamp = .ok out ∧
        DropOk c space name e port
          (if Leaks e port machPortRightReceive delta circular
            then 1 else 0) out := by
  unfold deltaReceive
  by_cases hReceive : e.ieBits &&& machPortTypeReceive = 0
  · have hNot : ¬ Leaks e port machPortRightReceive delta
        circular := by
      rintro ⟨_, _, hType, _⟩
      exact bits_of_type hType (by decide) (by decide) hReceive
    rw [if_pos hReceive, if_neg hNot]
    exact ⟨_, rfl, .same h⟩
  rw [if_neg hReceive]
  by_cases hLast : delta = -1
  · have hBear : Bearing machPortTypeReceive e = true :=
      bears_of_bits (by decide) hReceive
    rcases h.receiver_facts hBear with ⟨_, hActive, _, _⟩
    have hLeak : leakOf e port circular =
        if Leaks e port machPortRightReceive delta circular
          then 1 else 0 := by
      apply if_congr ?_ rfl rfl
      constructor
      · rintro ⟨hSend, hGoes⟩
        refine ⟨rfl, hLast, ?_, hGoes⟩
        cases h with
        | sendReceive type => exact type
        | send type =>
            rw [bearing_of_type type] at hBear
            exact absurd hBear (by decide)
        | receive type | sendOnce type | portSet type
        | deadName type =>
            rw [bearing_of_type type] at hSend
            exact absurd hSend (by decide)
      · rintro ⟨_, _, hType, hGoes⟩
        refine ⟨?_, hGoes⟩
        rw [bearing_of_type hType]
        decide
    rw [← hLeak, if_neg (by rw [hLast]; decide),
      if_neg (not_not_intro hLast)]
    exact dropReceive_ok h hBear (hCovers.send hActive)
      (hTurns hLast)
  · have hNot : ¬ Leaks e port machPortRightReceive delta
        circular := fun hLeaks => hLast hLeaks.2.1
    split_ifs
    · exact ⟨_, rfl, .same h⟩
    · exact ⟨_, rfl, .same h⟩

theorem ipcRightDelta_ok
    {right timestamp : Nat}
    (i : Nat)
    (h : EntryOk space name port.toRightPort e)
    (hCovers : Covers port.toRightPort e)
    (hQuiet : SetQuiet e)
    (hRight : right ≤ machPortRightDeadName) :
    ∃ out,
      ipcRightDelta space name e port right delta circular
          timestamp = .ok out ∧
        DropOk
          (RightAction.delta i right delta circular
            timestamp).changes
          space name e port
          (if Leaks e port right delta circular then 1
            else 0) out := by
  have hMem : delta.toInt ∈ 0 ::
      (RightAction.delta i right delta circular
        timestamp).changes.adds :=
    List.mem_cons_of_mem _ (List.mem_singleton.mpr rfl)
  have hTurn : (machPortTypeSendReceive, machPortTypeReceive,
      delta.toInt) ∈
        (RightAction.delta i right delta circular
          timestamp).changes.turns := List.mem_cons_self ..
  have hCases : right = machPortRightSend ∨
      right = machPortRightReceive ∨
      right = machPortRightSendOnce ∨
      right = machPortRightPortSet ∨
      right = machPortRightDeadName := by
    unfold machPortRightSend machPortRightReceive
      machPortRightSendOnce machPortRightPortSet
      machPortRightDeadName at *
    omega
  rcases hCases with rfl | rfl | rfl | rfl | rfl
  · exact deltaSend_ok delta h hCovers hMem hTurn
  · refine deltaReceive_ok h hCovers ?_
    rintro rfl n (rfl | rfl)
    · simp [RightAction.changes]
    · simp [RightAction.changes]
  · exact deltaSendOnce_ok delta h hCovers
  · exact deltaPortSet_ok delta h hQuiet
  · exact deltaDeadName_ok delta h hMem

------
-- Destroying Entries
------

/- A right that goes with its entry, and keeps its port. -/
theorem DropOk.gone
    {sendOnce soright : Bool}
    (hReceive : Bearing machPortTypeReceive e = false)
    (hActive : port.ipActive = true)
    (hSame : SameReceiver port port')
    (hSends :
      port'.ipSrights + (Bearing machPortTypeSend e).toNat =
        port.ipSrights)
    (hOnces : port'.ipSorights = port.ipSorights ∧
      (Bearing machPortTypeSendOnce e).toNat = sendOnce.toNat)
    (hTakes : TakesRequest port port' notified none) :
    DropOk c space name e port 0
      { quietly .success none port' hash with
        notified := notified
        sendOnce := sendOnce
        soright := soright } := by
  refine ⟨?_, Or.inl ⟨hReceive, hSame, rfl⟩, ?_, ?_, ?_, hTakes⟩
  · intro e' hEq
    cases hEq
  · intro _
    exact hSends
  · intro _
    refine ⟨hOnces.1, ?_⟩
    dsimp only [quietly, bears]
    rw [hOnces.2]
    simp
  · intro hDead
    rw [hActive] at hDead
    cases hDead

/- A receive right that goes with its entry. -/
theorem DropOk.ended
    {soright circular : Bool}
    {ended : PortEnd}
    (hReceive : Bearing machPortTypeReceive e = true)
    (hActive : port.ipActive = true)
    (hEnd : EndOk port' circular ended)
    (hSends :
      port'.ipSrights + (Bearing machPortTypeSend e).toNat =
        port.ipSrights)
    (hOnces : port'.ipSorights = port.ipSorights ∧
      Bearing machPortTypeSendOnce e = false)
    (hTakes : TakesRequest port port' notified none) :
    DropOk c space name e port 0
      { quietly .success none ended.port hash with
        notified := notified
        soright := soright
        thrown := ended.thrown
        backup := ended.backup } := by
  refine ⟨?_, Or.inr ⟨hReceive, rfl, hEnd.receiver⟩, ?_, ?_, ?_,
    hEnd.takes hTakes hActive ?_⟩
  · intro e' hEq
    cases hEq
  · intro _
    dsimp only [quietly, bears]
    rw [hEnd.srights]
    exact hSends
  · intro _
    refine ⟨hEnd.sorights.trans hOnces.1, ?_⟩
    rw [hOnces.2]
    rfl
  · intro hDead
    rw [hActive] at hDead
    cases hDead
  · unfold LastSend
    rw [hEnd.srights]

/- What dropping a send right leaves of its port. -/
theorem dropSend_leaves
    (hPos : 0 < port.ipSrights) :
    SameReceiver port port.dropSend.1 ∧
      port.dropSend.1.ipSrights + 1 = port.ipSrights ∧
      port.dropSend.1.ipSorights = port.ipSorights := by
  have hRight := dropSend_right port
  refine ⟨⟨?_, ?_, ?_⟩, ?_, ?_⟩
  · rw [hRight]
  · rw [hRight]
  · rw [hRight]
  · rw [hRight]
    dsimp only
    omega
  · rw [hRight]

theorem destroyLive_ok
    (circular : Bool)
    (timestamp : Nat)
    (h : EntryOk space name port.toRightPort e)
    (hActive : port.ipActive = true)
    (hCovers : Covers port.toRightPort e)
    (hKind : e.ieBits &&& machPortTypePortRights ≠ 0) :
    ∃ out,
      destroyLive space e port circular timestamp = .ok out ∧
        DropOk c space name e port 0 out := by
  unfold destroyLive
  dsimp only
  cases h with
  | send type urefs object room =>
      have hBear : Bearing machPortTypeSend e = true :=
        bears_of_type type (by decide)
      have hPos := hCovers.send hActive hBear
      rcases dropSend_leaves hPos with
        ⟨hSame, hSends, hOnces⟩
      rw [type, ipcAssert_of fun _ => hPos,
        if_pos (show machPortTypeSend &&& machPortTypeSend ≠ 0
          by decide)]
      refine ⟨_, rfl, .gone ?_ hActive hSame ?_ ⟨hOnces, ?_⟩
        (dropSend_takes hPos)⟩
      · rw [bearing_of_type type]
        decide
      · rw [hBear]
        exact hSends
      · rw [bearing_of_type type]
        rfl
  | sendOnce type urefs object =>
      have hBear : Bearing machPortTypeSendOnce e = true :=
        bears_of_type type (by decide)
      have hPos := hCovers.sendOnce hBear
      have hNot : ¬ (machPortTypeSendOnce &&& machPortTypeSend
          ≠ 0) := by decide
      rw [type, ipcAssert_of fun hSend => absurd hSend hNot,
        if_neg hNot]
      rw [if_neg (by decide), if_pos (by decide),
        ipcAssert_of hPos]
      refine ⟨_, rfl, .gone ?_ hActive (.refl port) ?_
        ⟨rfl, ?_⟩ (.refl port)⟩
      · rw [bearing_of_type type]
        decide
      · rw [bearing_of_type type]
        rfl
      · rw [hBear]
  | receive type urefs object active receiver receiverName =>
      have hNot : ¬ (machPortTypeReceive &&& machPortTypeSend
          ≠ 0) := by decide
      rcases clear_destroy_ok circular timestamp hActive with
        ⟨cleared, ended, hClear, hDestroy, hEnd⟩
      rw [type, ipcAssert_of fun hSend => absurd hSend hNot,
        if_neg hNot]
      simp only [bind, Except.bind]
      rw [if_pos (by decide), ipcAssert_of receiver]
      simp only [hClear, hDestroy]
      refine ⟨_, rfl, .ended ?_ hActive hEnd ?_ ⟨rfl, ?_⟩
        (.refl port)⟩
      · rw [bearing_of_type type]
        decide
      · rw [bearing_of_type type]
        rfl
      · rw [bearing_of_type type]
        decide
  | sendReceive type urefs object room active receiver
      receiverName =>
      have hBear : Bearing machPortTypeSend e = true :=
        bears_of_type type (by decide)
      have hPos := hCovers.send hActive hBear
      rcases dropSend_leaves hPos with
        ⟨hSame, hSends, hOnces⟩
      rcases clear_destroy_ok circular timestamp
          (hSame.active.trans hActive) with
        ⟨cleared, ended, hClear, hDestroy, hEnd⟩
      rw [type, ipcAssert_of fun _ => hPos,
        if_pos (show machPortTypeSendReceive &&&
          machPortTypeSend ≠ 0 by decide)]
      simp only [bind, Except.bind]
      rw [if_pos (by decide), ipcAssert_of receiver]
      simp only [hClear, hDestroy]
      refine ⟨_, rfl, .ended ?_ hActive hEnd ?_ ⟨hOnces, ?_⟩
        (dropSend_takes hPos)⟩
      · rw [bearing_of_type type]
        decide
      · rw [hBear]
        exact hSends
      · rw [bearing_of_type type]
        decide
  | portSet type | deadName type =>
      exact absurd (bits_of_type_none type (by decide)
        (by decide)) hKind

/- A right that goes without its port, which is dead or none. -/
theorem DropOk.vanished
    (hReceive : Bearing machPortTypeReceive e = false)
    (hLive : port.ipActive = true →
      Bearing machPortTypeSend e = false ∧
        Bearing machPortTypeSendOnce e = false) :
    DropOk c space name e port 0
      (quietly .success none port hash) := by
  refine .quiet ?_ hReceive ?_ ?_
  · intro e' hEq
    cases hEq
  · intro hActive
    exact (hLive hActive).1
  · intro hActive
    exact (hLive hActive).2

/- The bits of a port right, and what it may lose. -/
theorem portRights_cases
    (h : EntryOk space name port.toRightPort e) :
    IsDead e ∨
      (ieBitsType e.ieBits = machPortTypePortSet ∧
        ioValid e.ieObject = true) ∨
      (e.ieBits &&& machPortTypePortRights ≠ 0 ∧
        ioValid e.ieObject = true ∧
        (ieBitsType e.ieBits = machPortTypeSend ∨
          ieBitsType e.ieBits = machPortTypeReceive ∨
          ieBitsType e.ieBits = machPortTypeSendReceive ∨
          ieBitsType e.ieBits = machPortTypeSendOnce) ∧
        (port.ipActive = false →
          Bearing machPortTypeReceive e = false)) := by
  cases h with
  | send type urefs object room =>
      refine Or.inr (Or.inr ⟨?_, object, Or.inl type, ?_⟩)
      · exact bits_of_type type (by decide) (by decide)
      · intro _
        rw [bearing_of_type type]
        decide
  | receive type urefs object active =>
      refine Or.inr (Or.inr ⟨?_, object, Or.inr (Or.inl type),
        ?_⟩)
      · exact bits_of_type type (by decide) (by decide)
      · intro hDead
        rw [active] at hDead
        cases hDead
  | sendReceive type urefs object room active =>
      refine Or.inr (Or.inr ⟨?_, object,
        Or.inr (Or.inr (Or.inl type)), ?_⟩)
      · exact bits_of_type type (by decide) (by decide)
      · intro hDead
        rw [active] at hDead
        cases hDead
  | sendOnce type urefs object =>
      refine Or.inr (Or.inr ⟨?_, object,
        Or.inr (Or.inr (Or.inr type)), ?_⟩)
      · exact bits_of_type type (by decide) (by decide)
      · intro _
        rw [bearing_of_type type]
        decide
  | portSet type urefs object =>
      exact Or.inr (Or.inl ⟨type, object⟩)
  | deadName type urefs object request =>
      exact Or.inl ⟨type, urefs, object, request⟩

/- A type of a port is none of the other two. -/
theorem ne_of_portRights
    (hKind : e.ieBits &&& machPortTypePortRights ≠ 0) :
    ieBitsType e.ieBits ≠ machPortTypeDeadName ∧
      ieBitsType e.ieBits ≠ machPortTypePortSet := by
  constructor
  · intro hType
    exact hKind (bits_of_type_none hType (by decide)
      (by decide))
  · intro hType
    exact hKind (bits_of_type_none hType (by decide)
      (by decide))

theorem vanished_deadName
    (h : IsDead e) :
    DropOk c space name e port 0
      (quietly .success none port hash) :=
  .vanished (not_bearing_of_dead h (by decide)) fun _ =>
    ⟨not_bearing_of_dead h (by decide),
      not_bearing_of_dead h (by decide)⟩

theorem vanished_portSet
    (h : ieBitsType e.ieBits = machPortTypePortSet) :
    DropOk c space name e port 0
      (quietly .success none port hash) := by
  refine .vanished ?_ fun _ => ⟨?_, ?_⟩
  · rw [bearing_of_type h]
    decide
  · rw [bearing_of_type h]
    decide
  · rw [bearing_of_type h]
    decide

section

variable (circular : Bool) (timestamp : Nat)
variable (h : EntryOk space name port.toRightPort e)
variable (hCovers : Covers port.toRightPort e)
include h hCovers

theorem ipcRightDestroy_ok
    (hQuiet : SetQuiet e) :
    ∃ out,
      ipcRightDestroy space e port circular timestamp =
          .ok out ∧
        DropOk c space name e port 0 out := by
  unfold ipcRightDestroy
  rcases portRights_cases h with
    hDead | ⟨hSet, hObject⟩ | ⟨hKind, hObject, hTypes, hNone⟩
  · rw [if_pos hDead.1, ipcAssert_of hDead.2.2.2,
      ipcAssert_of hDead.2.2.1]
    exact ⟨_, rfl, vanished_deadName hDead⟩
  · rw [if_neg (type_ne hSet (by decide)), if_pos hSet,
      ipcAssert_of (hQuiet hSet),
      ipcAssert_of (object_ne_null hObject).1]
    exact ⟨_, rfl, vanished_portSet hSet⟩
  · rcases ne_of_portRights hKind with ⟨hNotDead, hNotSet⟩
    rw [if_neg hNotDead, if_neg hNotSet, if_pos hTypes,
      ipcAssert_of (object_ne_null hObject).1]
    cases hActive : port.ipActive with
    | true =>
        exact destroyLive_ok circular timestamp h hActive
          hCovers hKind
    | false =>
        have hBit : ieBitsType e.ieBits &&&
            machPortTypeReceive = 0 := by
          have hBear := hNone hActive
          unfold Bearing at hBear
          simpa using hBear
        rw [ipcAssert_of hBit]
        refine ⟨_, rfl, .vanished (hNone hActive) ?_⟩
        intro hLive
        rw [hActive] at hLive
        cases hLive

theorem ipcRightClean_ok
    (hQuiet : SetQuiet e) :
    ∃ out,
      ipcRightClean space name e port circular timestamp =
          .ok out ∧
        DropOk c space name e port 0 out := by
  unfold ipcRightClean
  rcases portRights_cases h with
    hDead | ⟨hSet, hObject⟩ | ⟨hKind, hObject, hTypes, hNone⟩
  · rw [if_pos hDead.1, ipcAssert_of hDead.2.2.2,
      ipcAssert_of hDead.2.2.1]
    exact ⟨_, rfl, vanished_deadName hDead⟩
  · rw [if_neg (type_ne hSet (by decide)), if_pos hSet,
      ipcAssert_of (hQuiet hSet),
      ipcAssert_of (object_ne_null hObject).1]
    exact ⟨_, rfl, vanished_portSet hSet⟩
  · rcases ne_of_portRights hKind with ⟨hNotDead, hNotSet⟩
    rw [if_neg hNotDead, if_neg hNotSet, if_pos hTypes,
      ipcAssert_of (object_ne_null hObject).1]
    cases hActive : port.ipActive with
    | true =>
        have hName : ieBitsType e.ieBits &&&
            machPortTypeReceive ≠ 0 →
              port.ipReceiverName = name := by
          intro hBit
          have hBear : Bearing machPortTypeReceive e = true := by
            unfold Bearing
            simpa using hBit
          exact (h.receiver_facts hBear).2.2.2
        rcases destroyLive_ok circular timestamp h hActive
          hCovers hKind with ⟨out, hRun, hOk⟩
        rw [ipcAssert_of hName]
        simp only [hRun]
        exact ⟨_, rfl, hOk.entry, hOk.receiver, hOk.sends,
          hOk.onces, hOk.died, hOk.request⟩
    | false =>
        refine ⟨_, rfl, .vanished (hNone hActive) ?_⟩
        intro hLive
        rw [hActive] at hLive
        cases hLive

end

end Operations

end Ipc

end OsfMach
