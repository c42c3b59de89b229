import OsfMach.Ipc.RightsPorts
import OsfMach.Lib.Runs
import Mathlib.Data.List.Perm.Subperm

/-
  Whole runs on rights: no-senders notifications, the counts
  of rights, the references of entries, and the receive right.

  Main declarations:
    * `dueNotice`, `requestAfter`, `Accounted`
    * `Conserved`, `LeaksAt`
    * `UrefsOk`
    * `noSenders_notified`
    * `rights_conserved_iff`
    * `urefs_kept`
    * `receive_unique`
-/

------
-- Reachable States
------

namespace OsfMach

namespace Ipc

open Lib
open Lib.Runs
open RightState

variable {as : List RightAction} {s : RightState} {sync : Nat}
variable {notify : Option Nat}

theorem rights_reachable
    (hRun : exec rightStep .start as = some s) :
    RightsInv s :=
  exec_preserves
    (fun _ _ _ hInv hStep => (rightStep_ok hInv hStep).1.inv)
    .start hRun

------
-- No-Senders Notifications
------

/-
  The notification that is due at a step: when the last send
  right goes, or at once for a request that comes too late.
-/
def dueNotice
    (a : RightAction)
    (q : Nat)
    (s t : RightState) : Option NoSenders :=
  if LastSend (s.ports q) (t.ports q) then
    (s.ports q).ipNsrequest.map fun r =>
      (r, (s.ports q).ipMscount)
  else
    match a with
    | .nsrequest p sync notify =>
        if q = p ∧ (s.ports q).ipSrights = 0 ∧
            sync ≤ (s.ports q).ipMscount then
          notify.map fun r => (r, (s.ports q).ipMscount)
        else none
    | _ => none

/- The request that a port has after a step. -/
def requestAfter
    (a : RightAction)
    (q : Nat)
    (s t : RightState) : Option Nat :=
  if LastSend (s.ports q) (t.ports q) then none
  else
    match a with
    | .nsrequest p sync notify =>
        if q = p then
          if (s.ports q).ipSrights = 0 ∧
              sync ≤ (s.ports q).ipMscount then none
          else notify
        else (s.ports q).ipNsrequest
    | _ => (s.ports q).ipNsrequest

/- The request that a port still has. -/
def pending (s : RightState) (q : Nat) : List Nat :=
  if (s.ports q).ipActive then
    (s.ports q).ipNsrequest.toList
  else []

/-
  Each request that was made for a port is still there, or was
  notified, or returned, or thrown away with the port, once.
-/
def Accounted (s : RightState) (q : Nat) : Prop :=
  (s.log q).made.Perm
    (pending s q ++ ((s.log q).sent.map Prod.fst ++
      ((s.log q).returned ++ (s.log q).thrown)))

section Notices

variable {s t : RightState} {a : RightAction} {q : Nat}

theorem LogKept.due
    (h : LogKept (s.ports q) (t.ports q) (s.log q) (t.log q))
    (hOther : ∀ sync notify, a ≠ .nsrequest q sync notify) :
    (t.log q).sent =
        (s.log q).sent ++ (dueNotice a q s t).toList ∧
      (t.ports q).ipNsrequest = requestAfter a q s t := by
  rcases h.takes with ⟨notified, thrown, hTakes, hSent, _⟩
  rw [hSent, hTakes.notified, hTakes.request]
  unfold dueNotice requestAfter
  by_cases hLast : LastSend (s.ports q) (t.ports q)
  · rw [if_pos hLast, if_pos hLast, if_pos hLast, if_pos hLast]
    exact ⟨rfl, rfl⟩
  · rw [if_neg hLast, if_neg hLast, if_neg hLast, if_neg hLast]
    cases a with
    | nsrequest p sync notify =>
        have hNe : q ≠ p := by
          intro hEq
          exact hOther sync notify (by rw [hEq])
        dsimp only
        rw [if_neg (fun hAll => hNe hAll.1), if_neg hNe]
        exact ⟨rfl, rfl⟩
    | _ => exact ⟨rfl, rfl⟩

theorem Registers.due
    (h : Registers sync notify (s.ports q) (t.ports q)
      (s.log q) (t.log q)) :
    (t.log q).sent = (s.log q).sent ++
        (dueNotice (.nsrequest q sync notify) q s t).toList ∧
      (t.ports q).ipNsrequest =
        requestAfter (.nsrequest q sync notify) q s t := by
  have hNot : ¬ LastSend (s.ports q) (t.ports q) := by
    apply not_lastSend
    rw [h.right]
  unfold dueNotice requestAfter
  rw [if_neg hNot, if_neg hNot, h.sent, h.request]
  simp

theorem map_fst_notice
    (o : Option Nat)
    (n : Nat) :
    (o.map fun r => ((r, n) : NoSenders)).toList.map Prod.fst =
      o.toList := by
  cases o with
  | none => rfl
  | some r => rfl

/- A request that stays, is notified or is thrown away. -/
theorem LogKept.accounted
    (h : LogKept (s.ports q) (t.ports q) (s.log q) (t.log q))
    (hBefore : Accounted s q) :
    Accounted t q := by
  rcases h.takes with
    ⟨notified, thrown, hTakes, hSent, hThrown⟩
  unfold Accounted at hBefore ⊢
  rw [h.made, h.returned, hSent, hThrown, hTakes.notified,
    hTakes.thrown]
  refine hBefore.trans ?_
  rw [List.perm_iff_count]
  intro r
  unfold pending
  rw [List.map_append]
  simp only [List.count_append]
  by_cases hActive : (s.ports q).ipActive = true
  · by_cases hLast : LastSend (s.ports q) (t.ports q)
    · have hRequest := hTakes.request
      rw [if_pos hLast] at hRequest
      rw [hRequest, if_pos hActive, if_pos hLast,
        map_fst_notice]
      simp only [Option.toList_none, List.count_nil, ite_self,
        Nat.zero_add, Nat.add_zero]
      omega
    · have hRequest := hTakes.request
      rw [if_neg hLast] at hRequest
      rw [hRequest, if_pos hActive, if_neg hLast]
      cases hAfter : (t.ports q).ipActive with
      | true =>
          simp only [if_true, Bool.true_eq_false, and_false,
            if_false, Option.toList_none, List.map_nil,
            List.count_nil, Nat.add_zero]
      | false =>
          simp only [hActive, and_self, if_true,
            Bool.false_eq_true, if_false, Option.toList_none,
            List.map_nil, List.count_nil, Nat.zero_add,
            Nat.add_zero]
          omega
  · have hDead := (Bool.not_eq_true _).mp hActive
    rcases h.dead hDead with ⟨hAfter, hNot⟩
    rw [if_neg hNot, hAfter, hDead]
    simp

theorem Registers.accounted
    (h : Registers sync notify (s.ports q) (t.ports q)
      (s.log q) (t.log q))
    (hBefore : Accounted s q) :
    Accounted t q := by
  have hActive : (t.ports q).ipActive = true := by
    rw [h.right]
    exact h.active
  unfold Accounted at hBefore ⊢
  rw [h.made, h.sent, h.returned, h.thrown]
  rw [List.perm_iff_count]
  intro r
  have hCount := hBefore.count_eq r
  unfold pending at hCount ⊢
  rw [if_pos h.active] at hCount
  rw [if_pos hActive, h.request, List.map_append]
  simp only [List.count_append] at hCount ⊢
  by_cases hNow : (s.ports q).ipSrights = 0 ∧
      sync ≤ (s.ports q).ipMscount
  · rw [if_pos hNow, if_pos hNow, map_fst_notice]
    simp only [Option.toList_none, List.count_nil]
    omega
  · rw [if_neg hNow, if_neg hNow]
    simp only [Option.toList_none, List.map_nil, List.count_nil]
    omega

theorem LogStep.accounted
    (h : LogStep a q s t)
    (hBefore : Accounted s q) :
    Accounted t q := by
  cases h with
  | kept other other' kept => exact kept.accounted hBefore
  | requested sync notify is registers =>
      exact registers.accounted hBefore
  | started space name bits is port log dead =>
      unfold Accounted pending
      rw [log, port]
      exact List.Perm.refl _

theorem accounted_reachable
    (hRun : exec rightStep .start as = some s) :
    Accounted s q := by
  have hBoth : RightsInv s ∧ Accounted s q := by
    refine exec_preserves (P := fun u =>
      RightsInv u ∧ Accounted u q) ?_ ?_ hRun
    · rintro u b v ⟨hInv, hAt⟩ hStep
      rcases rightStep_ok hInv hStep with ⟨hOk, hLog⟩
      exact ⟨hOk.inv, (hLog q).accounted hAt⟩
    · exact ⟨.start, List.Perm.refl _⟩
  exact hBoth.2

end Notices

/-
  In every run a request is notified exactly when the last
  send right of its port goes, or at once where it comes too
  late, with the count that the port has then. It goes with
  the notification, and every request that was made is found
  once: with the port, or where it went.
-/
theorem noSenders_notified
    {as : List RightAction}
    {s t : RightState}
    {a : RightAction}
    (hRun : exec rightStep .start as = some s)
    (hStep : rightStep s a = some t) :
    ∀ q, Accounted s q ∧ Accounted t q ∧
      ((∃ space name bits, a = .alloc space name q bits) ∨
        (t.log q).sent =
            (s.log q).sent ++ (dueNotice a q s t).toList ∧
          (t.ports q).ipNsrequest = requestAfter a q s t) := by
  intro q
  have hLog := (rightStep_ok (rights_reachable hRun) hStep).2 q
  have hBefore := accounted_reachable (q := q) hRun
  refine ⟨hBefore, hLog.accounted hBefore, ?_⟩
  cases hLog with
  | kept other other' kept => exact Or.inr (kept.due other)
  | requested sync notify is registers =>
      rw [is]
      exact Or.inr registers.due
  | started space name bits is =>
      exact Or.inl ⟨space, name, bits, is⟩

/- The last send right of a port is released. -/
theorem noSenders_notified_release :
    ∃ s t,
      exec rightStep .start
          [.alloc 1 5 100 0, .copyin 0 machMsgTypeMakeSend false,
            .nsrequest 100 1 (some 77)] = some s ∧
        rightStep s (.releaseSend 100) = some t ∧
        ∀ q, Accounted s q ∧ Accounted t q ∧
          ((∃ space name bits, RightAction.releaseSend 100 =
              .alloc space name q bits) ∨
            (t.log q).sent = (s.log q).sent ++
                (dueNotice (.releaseSend 100) q s t).toList ∧
              (t.ports q).ipNsrequest =
                requestAfter (.releaseSend 100) q s t) := by
  have hSome : (exec rightStep .start
      ([.alloc 1 5 100 0, .copyin 0 machMsgTypeMakeSend false,
        .nsrequest 100 1 (some 77)] ++
        [.releaseSend 100])).isSome = true := by decide
  rcases Option.isSome_iff_exists.mp hSome with ⟨t, hRun⟩
  rcases exec_append.mp hRun with ⟨s, hFirst, hLast⟩
  rcases exec_cons.mp hLast with ⟨u, hStep, hEnd⟩
  cases hEnd
  exact ⟨s, t, hFirst, hStep, noSenders_notified hFirst hStep⟩

------
-- Counts of Rights
------

/- The counts of every active port are those of its rights. -/
def Conserved (s : RightState) : Prop :=
  ∀ p, (s.ports p).ipActive = true →
    (s.ports p).ipSrights =
        owed s machPortTypeSend p + s.sends p ∧
      (s.ports p).ipSorights =
        owed s machPortTypeSendOnce p + s.onces p

/- The action drops a receive right as `Leaks` says. -/
def LeaksAt (s : RightState) (a : RightAction) : Prop :=
  ∃ i right delta circular timestamp h,
    a = .delta i right delta circular timestamp ∧
      s.entries[i]? = some h ∧
      Leaks h.entry (s.ports h.entry.ieObject) right delta
        circular

section Counts

variable {s t : RightState} {a : RightAction}

theorem stepLeak_eq_zero
    (h : ¬ LeaksAt s a)
    (q : Nat) :
    stepLeak s a q = 0 := by
  unfold stepLeak
  cases hAt : a.position.bind fun i => s.entries[i]? with
  | none => rfl
  | some x =>
      dsimp only
      split_ifs with hIs
      · cases a with
        | delta i right delta circular timestamp =>
            dsimp only [leakBy]
            rw [if_neg]
            intro hLeaks
            exact h ⟨i, right, delta, circular, timestamp, x,
              rfl, hAt, hLeaks⟩
        | _ => rfl
      · rfl

/- The port survives where a right leaks. -/
theorem leaks_active
    {space name timestamp : Nat}
    {e : EntryFields}
    {port : SenderPort}
    {circular : Bool}
    {out : RightDrop}
    (hGoes : GoesToBackup port circular)
    (hType : ieBitsType e.ieBits = machPortTypeSendReceive)
    (hRun : dropReceive space name e port circular timestamp =
      .ok out) :
    port.ipActive = true ∧ out.port.ipActive = true := by
  have hBit : e.ieBits &&& machPortTypeSend ≠ 0 :=
    bits_of_type hType (by decide) (by decide)
  rcases assert_ok hRun with ⟨_, hRest⟩
  rcases assert_ok hRest with ⟨hActive, hRest⟩
  rcases Checked.bind_ok hRest with ⟨_, _, hRest⟩
  rw [if_pos hBit] at hRest
  rcases assert_ok hRest with ⟨_, hRest⟩
  rcases assert_ok hRest with ⟨_, hRest⟩
  rcases assert_ok hRest with ⟨_, hRest⟩
  rcases assert_ok hRest with ⟨_, hRest⟩
  rcases Checked.bind_ok hRest with ⟨cleared, hClear, hRest⟩
  rcases Checked.bind_ok hRest with ⟨ended, hEnd, hRest⟩
  cases hRest
  rcases clear_destroy_ok circular timestamp hActive with
    ⟨cleared', ended', hClear', hEnd', hOk⟩
  rw [hClear] at hClear'
  cases hClear'
  rw [hEnd] at hEnd'
  cases hEnd'
  rcases hOk.fate with ⟨_, _, hLive, _⟩ | ⟨hNot, _⟩
  · exact ⟨hActive, hLive⟩
  · exact absurd hGoes hNot

/- Where a right leaks the count is too high by one. -/
theorem leaksAt_excess
    (hLeaks : LeaksAt s a)
    (hStep : rightStep s a = some t) :
    ∃ q, stepLeak s a q = 1 ∧
      (t.ports q).ipActive = true ∧
      (s.ports q).ipActive = true := by
  rcases hLeaks with
    ⟨i, right, delta, circular, timestamp, h, rfl, hAt, hIs⟩
  refine ⟨h.entry.ieObject, ?_, ?_⟩
  · rw [stepLeak_at rfl hAt]
    dsimp only
    rw [if_pos rfl]
    exact if_pos hIs
  · rcases hIs with ⟨rfl, rfl, hType, hGoes⟩
    rcases Option.bind_eq_some_iff.mp hStep with
      ⟨h', hAt', hEntry⟩
    rw [hAt] at hAt'
    cases hAt'
    unfold entryStep at hEntry
    dsimp only at hEntry
    rw [if_neg (by rw [hType]; decide)] at hEntry
    rcases Option.bind_eq_some_iff.mp hEntry with
      ⟨run, hAction, hRest⟩
    cases hAction
    rcases Option.bind_eq_some_iff.mp hRest with
      ⟨out, hRun, hEnd⟩
    cases hEnd
    have hDelta : dropReceive h.space h.name h.entry
        (s.ports h.entry.ieObject) circular timestamp =
          .ok out := by
      have hTurn := toOption_some hRun
      unfold ipcRightDelta at hTurn
      unfold deltaReceive at hTurn
      rw [if_neg (bits_of_type hType (by decide) (by decide)),
        if_neg (by decide), if_neg (by decide)] at hTurn
      exact hTurn
    rcases leaks_active hGoes hType hDelta with
      ⟨hBefore, hAfter⟩
    have hPort : (s.dropped i h.entry.ieObject out).ports
        h.entry.ieObject = out.port := Function.update_self ..
    rw [hPort]
    exact ⟨hAfter, hBefore⟩

/- A step keeps the counts exact unless a right leaks. -/
theorem conserved_step
    (hInv : RightsInv s)
    (hBefore : Conserved s)
    (hStep : rightStep s a = some t) :
    Conserved t ↔ ¬ LeaksAt s a := by
  have hOk := (rightStep_ok hInv hStep).1
  constructor
  · intro hAfter hLeaks
    rcases leaksAt_excess hLeaks hStep with
      ⟨q, hOne, hActive, hOld⟩
    have hOldCount := (hBefore q hOld).1
    have hNewCount := (hAfter q hActive).1
    rcases hOk.excess q hActive with ⟨_, hLaw⟩ |
      ⟨_, _, _, hNone⟩
    · omega
    · omega
  · intro hNot p hActive
    have hNone := stepLeak_eq_zero hNot p
    have hOnces := hOk.inv.oncesActive p hActive
    refine ⟨?_, hOnces.symm⟩
    rcases hOk.excess p hActive with ⟨hOld, hLaw⟩ |
      ⟨hOwed, hSends, hCount, _⟩
    · have hOldCount := (hBefore p hOld).1
      omega
    · omega

end Counts

/-
  In every run the counts of all active ports are exact in
  every state, exactly when no step drops a receive right
  beside a send right while the port goes to its backup.
-/
theorem rights_conserved_iff
    {as : List RightAction}
    {t : RightState}
    (hRun : exec rightStep .start as = some t) :
    (∀ bs u, bs <+: as → exec rightStep .start bs = some u →
        Conserved u) ↔
      Meets rightStep (fun s a => ¬ LeaksAt s a) .start as := by
  refine states_iff_meets (I := RightsInv)
    (fun _ _ _ hInv hStep => (rightStep_ok hInv hStep).1.inv)
    (fun _ _ _ hInv hBefore hStep =>
      conserved_step hInv hBefore hStep) .start ?_ hRun
  intro p hActive
  cases hActive

/-
  A task makes a port with a backup and a send right to it,
  and drops the receive right.
-/
def backupOps : List RightAction :=
  [ .alloc 1 5 100 0,
    .copyin 0 machMsgTypeMakeSend false,
    .copyout 0 machMsgTypePortSend false,
    .pdrequest 100 true,
    .delta 0 machPortRightReceive (-1) false 9 ]

/- The send right of the run is taken away, and still counted. -/
theorem rights_conserved_iff_backup :
    ∃ t, exec rightStep .start backupOps = some t ∧
      ((∀ bs u, bs <+: backupOps →
          exec rightStep .start bs = some u → Conserved u) ↔
        Meets rightStep (fun s a => ¬ LeaksAt s a) .start
          backupOps) := by
  have hSome :
      (exec rightStep .start backupOps).isSome = true := by
    decide
  rcases Option.isSome_iff_exists.mp hSome with ⟨t, hRun⟩
  exact ⟨t, hRun, rights_conserved_iff hRun⟩

/- No entry has a send right to the port, and it counts one. -/
theorem backupOps_leaks :
    ∃ t, exec rightStep .start backupOps = some t ∧
      ¬ Conserved t := by
  have hSeen : (exec rightStep .start backupOps).map (fun t =>
      ((t.ports 100).ipActive, (t.ports 100).ipSrights,
        owed t machPortTypeSend 100, t.sends 100)) =
      some (true, 1, 0, 0) := by decide
  rcases Option.map_eq_some_iff.mp hSeen with ⟨t, hRun, hAt⟩
  refine ⟨t, hRun, ?_⟩
  intro hAll
  simp only [Prod.mk.injEq] at hAt
  rcases hAt with ⟨hActive, hCount, hOwed, hNaked⟩
  have hExact := (hAll 100 hActive).1
  omega

------
-- References of Entries
------

/- The references that an entry of each type has. -/
structure UrefsOk (e : EntryFields) : Prop where
  sends : ieBitsType e.ieBits = machPortTypeSend ∨
      ieBitsType e.ieBits = machPortTypeSendReceive →
    1 ≤ (ieBitsUrefs e.ieBits).toNat ∧
      (ieBitsUrefs e.ieBits).toNat ≤ 65534
  sendOnce : ieBitsType e.ieBits = machPortTypeSendOnce →
    (ieBitsUrefs e.ieBits).toNat = 1
  receive : ieBitsType e.ieBits = machPortTypeReceive ∨
      ieBitsType e.ieBits = machPortTypePortSet →
    (ieBitsUrefs e.ieBits).toNat = 0
  deadName : ieBitsType e.ieBits = machPortTypeDeadName →
    1 ≤ (ieBitsUrefs e.ieBits).toNat ∧
      (ieBitsUrefs e.ieBits).toNat ≤ 65535 ∧
      e.ieObject = ioNull ∧ e.ieRequest = 0

theorem HoldsOk.urefsOk
    {h : Holding}
    (hOk : HoldsOk s h) :
    UrefsOk h.entry := by
  -- The other types have nothing to show.
  have hOf : ∀ t, ieBitsType h.entry.ieBits = t →
      (t = machPortTypeSend ∨ t = machPortTypeSendReceive →
        1 ≤ (ieBitsUrefs h.entry.ieBits).toNat ∧
          (ieBitsUrefs h.entry.ieBits).toNat ≤ 65534) →
      (t = machPortTypeSendOnce →
        (ieBitsUrefs h.entry.ieBits).toNat = 1) →
      (t = machPortTypeReceive ∨ t = machPortTypePortSet →
        (ieBitsUrefs h.entry.ieBits).toNat = 0) →
      (t = machPortTypeDeadName →
        1 ≤ (ieBitsUrefs h.entry.ieBits).toNat ∧
          (ieBitsUrefs h.entry.ieBits).toNat ≤ 65535 ∧
          h.entry.ieObject = ioNull ∧
          h.entry.ieRequest = 0) →
      UrefsOk h.entry := by
    rintro t rfl hSends hOnce hReceive hDead
    exact ⟨hSends, hOnce, hReceive, hDead⟩
  have hPos : ieBitsUrefs h.entry.ieBits ≠ 0 →
      1 ≤ (ieBitsUrefs h.entry.ieBits).toNat := by
    intro hNe
    rw [Nat.one_le_iff_ne_zero]
    intro hZero
    exact hNe (BitVec.eq_of_toNat_eq hZero)
  have hMost : (ieBitsUrefs h.entry.ieBits).toNat <
      machPortUrefsMax →
        (ieBitsUrefs h.entry.ieBits).toNat ≤ 65534 := by
    unfold machPortUrefsMax
    omega
  rcases hOk with ⟨hNone, _⟩ | ⟨hIs, _⟩
  · refine hOf _ hNone ?_ ?_ ?_ ?_
    all_goals exact fun hNot => absurd hNot (by decide)
  · cases hIs with
    | send type urefs object room
    | sendReceive type urefs object room =>
        refine hOf _ type
          (fun _ => ⟨hPos urefs, hMost room⟩) ?_ ?_ ?_
        all_goals exact fun hNot => absurd hNot (by decide)
    | receive type urefs | portSet type urefs =>
        refine hOf _ type ?_ ?_ (fun _ => by rw [urefs]; rfl)
          ?_
        all_goals exact fun hNot => absurd hNot (by decide)
    | sendOnce type urefs =>
        refine hOf _ type ?_ (fun _ => by rw [urefs]; rfl) ?_
          ?_
        all_goals exact fun hNot => absurd hNot (by decide)
    | deadName type urefs object request =>
        have hLt := @urefs_lt h.entry.ieBits
        refine hOf _ type ?_ ?_ ?_
          (fun _ => ⟨hPos urefs, by omega, object, request⟩)
        all_goals exact fun hNot => absurd hNot (by decide)

/-
  In every run each entry has the references of its type, and
  a step changes them by exactly what its action adds or takes
  away, whatever that is: nothing is carried or borrowed.
-/
theorem urefs_kept
    {as : List RightAction}
    {s : RightState}
    (hRun : exec rightStep .start as = some s) :
    (∀ h ∈ s.entries, UrefsOk h.entry) ∧
      ∀ a t, rightStep s a = some t →
        (∀ h ∈ t.entries, UrefsOk h.entry) ∧
        ∀ h ∈ s.entries, ∀ h' ∈ t.entries, h'.key = h.key →
          NoCarry a.changes h.entry h'.entry := by
  have hInv := rights_reachable hRun
  refine ⟨fun h hMem => (hInv.entries h hMem).urefsOk, ?_⟩
  intro a t hStep
  have hOk := (rightStep_ok hInv hStep).1
  exact ⟨fun h hMem => (hOk.inv.entries h hMem).urefsOk,
    hOk.bits⟩

/- An entry that is full of references is asked for more. -/
theorem urefs_kept_overflow :
    ∃ s,
      exec rightStep .start
          [.alloc 1 5 100 0,
            .copyin 0 machMsgTypeMakeSend false,
            .copyout 0 machMsgTypePortSend false,
            .delta 0 machPortRightSend 65533 false 9] =
          some s ∧
        (s.entries.map fun h =>
          (ieBitsUrefs h.entry.ieBits).toNat) = [65534] ∧
        (rightStep s
          (.delta 0 machPortRightSend 0x1ffff false 9)).map
            RightState.entries = some s.entries ∧
        (∀ h ∈ s.entries, UrefsOk h.entry) ∧
        ∀ a t, rightStep s a = some t →
          (∀ h ∈ t.entries, UrefsOk h.entry) ∧
          ∀ h ∈ s.entries, ∀ h' ∈ t.entries, h'.key = h.key →
            NoCarry a.changes h.entry h'.entry := by
  have hSeen : (exec rightStep .start
      [.alloc 1 5 100 0, .copyin 0 machMsgTypeMakeSend false,
        .copyout 0 machMsgTypePortSend false,
        .delta 0 machPortRightSend 65533 false 9]).map
          (fun s => ((s.entries.map fun h =>
              (ieBitsUrefs h.entry.ieBits).toNat) = [65534] ∧
            (rightStep s (.delta 0 machPortRightSend 0x1ffff
              false 9)).map RightState.entries =
                some s.entries : Bool)) = some true := by
    decide
  rcases Option.map_eq_some_iff.mp hSeen with ⟨s, hRun, hIs⟩
  rcases of_decide_eq_true hIs with ⟨hFull, hRefused⟩
  exact ⟨s, hRun, hFull, hRefused, urefs_kept hRun⟩

------
-- The Receive Right
------

open List

/-
  In every run a receive right is in one place at most: in one
  entry of all spaces, which its port knows as its receiver,
  or outside of them.
-/
theorem receive_unique
    {as : List RightAction}
    {s : RightState}
    (hRun : exec rightStep .start as = some s)
    (p : Nat) :
    owed s machPortTypeReceive p + (s.limbo p).toNat ≤ 1 ∧
      ∀ h ∈ s.entries,
        bearsRight machPortTypeReceive p h = true →
        h.key = ((s.ports p).ipReceiver,
          (s.ports p).ipReceiverName) := by
  have hInv := rights_reachable hRun
  have hKey : ∀ h ∈ s.entries,
      bearsRight machPortTypeReceive p h = true →
      h.key = ((s.ports p).ipReceiver,
        (s.ports p).ipReceiverName) := by
    intro h hMem hBears
    unfold bearsRight at hBears
    rw [Bool.and_eq_true, decide_eq_true_eq] at hBears
    rcases hBears with ⟨hReceive, rfl⟩
    rcases hInv.entries h hMem with ⟨hNone, _⟩ | ⟨hOk, _⟩
    · rw [bearing_of_type hNone] at hReceive
      cases hReceive
    · rcases hOk.receiver_facts hReceive with
        ⟨_, _, hSpace, hName⟩
      exact Prod.ext hSpace.symm hName.symm
  refine ⟨?_, hKey⟩
  unfold owed
  rw [countP_eq_length_filter]
  cases hLimbo : s.limbo p with
  | false =>
      have hNodup := hInv.keys.sublist
        ((filter_sublist (p := bearsRight machPortTypeReceive p)
          (l := s.entries)).map Holding.key)
      have hSub : (s.entries.filter
          (bearsRight machPortTypeReceive p)).map Holding.key ⊆
            [((s.ports p).ipReceiver,
              (s.ports p).ipReceiverName)] := by
        intro k hk
        rcases mem_map.mp hk with ⟨h, hIn, rfl⟩
        rw [mem_filter] at hIn
        exact mem_singleton.mpr (hKey h hIn.1 hIn.2)
      simpa using (subperm_of_subset hNodup hSub).length_le
  | true =>
      rw [filter_eq_nil_iff.mpr]
      · exact Nat.le_refl 1
      · intro h hMem hBears
        have hName := congrArg Prod.snd (hKey h hMem hBears)
        exact hInv.names h hMem
          (hName.trans (hInv.limbo p hLimbo).2)

/- The receive right is taken out of its space. -/
theorem receive_unique_moved :
    ∃ s, exec rightStep .start
        [.alloc 1 5 100 0,
          .copyin 0 machMsgTypeMoveReceive false] = some s ∧
      s.limbo 100 = true ∧
      owed s machPortTypeReceive 100 + (s.limbo 100).toNat ≤
        1 := by
  have hSeen : (exec rightStep .start
      [.alloc 1 5 100 0,
        .copyin 0 machMsgTypeMoveReceive false]).map
          (fun s => s.limbo 100) = some true := by decide
  rcases Option.map_eq_some_iff.mp hSeen with ⟨s, hRun, hAt⟩
  exact ⟨s, hRun, hAt, (receive_unique hRun 100).1⟩

end Ipc

end OsfMach
