import OsfMach.Ipc.RightDropOps
import OsfMach.Ipc.Rights
import OsfMach.Lib.Checked

/-
  Checking a right and asking for its dead-name notification,
  as operations that may drop it, and what every operation
  of the kind leaves.

  Main declarations:
    * `leakBy`
    * `EntryOk.checked`, `dnrequest_dropOk`
    * `dropAction_ok`
-/

------
-- Checks and Dead-Name Requests
------

namespace OsfMach

namespace Ipc

open Lib
open Lib.Checked

variable {kr : KernReturn} {c : BitsChanges}

section Check

variable {space name : Nat} {e x : EntryFields}
variable {port : SenderPort} {hash : HashUpdate} {died : Bool}

/- `ipc_right_check` returns of a right that may have died. -/
theorem EntryOk.checked
    (h : EntryOk space name port.toRightPort e)
    (hRun : ipcRightCheck e port.toRightPort =
      .ok (died, x, hash)) :
    died = false ∧ x = e ∧ port.ipActive = true ∨
      died = true ∧ x = diedEntry e ∧ MayDie e ∧
        port.ipActive = false := by
  cases hActive : port.ipActive with
  | true =>
      rw [ipcRightCheck_active hActive] at hRun
      cases hRun
      exact Or.inl ⟨rfl, rfl, rfl⟩
  | false =>
      have hMay : MayDie e := by
        unfold ipcRightCheck at hRun
        rw [if_neg (by simp [hActive])] at hRun
        rcases assert_ok hRun with ⟨_, hRun⟩
        rcases assert_ok hRun with ⟨hUrefs, hRun⟩
        rcases bind_ok hRun with ⟨_, hHash, _⟩
        unfold deadHash at hHash
        split_ifs at hHash
        · rcases assert_ok hHash with ⟨hIs, _⟩
          exact Or.inl ⟨hIs, hUrefs, h.send_room hIs⟩
        · rcases assert_ok hHash with ⟨hIs, hHash⟩
          rcases assert_ok hHash with ⟨hOne, _⟩
          exact Or.inr ⟨hIs, hOne⟩
      rw [hMay.check_died hActive] at hRun
      cases hRun
      exact Or.inr ⟨rfl, rfl, hMay, rfl⟩

/- A right whose port died becomes a dead name. -/
theorem DropOk.checkDied
    (hMay : MayDie e)
    (hActive : port.ipActive = false) :
    DropOk c space name e port 0
      (quietly kr (some (diedEntry e)) port hash) := by
  refine .ofDead ?_ (Or.inr ⟨hMay, rfl⟩) ?_
  · intro e' hEq
    cases hEq
    exact .refl c hMay.isDead
  · intro hLive
    rw [hActive] at hLive
    cases hLive

theorem check_dropOk
    (h : EntryOk space name port.toRightPort e)
    (hRun : ipcRightCheck e port.toRightPort =
      .ok (died, x, hash)) :
    DropOk c space name e port 0
      (quietly kr (some x) port hash) := by
  rcases h.checked hRun with ⟨_, hSame, _⟩ |
    ⟨_, hDied, hMay, hActive⟩
  · rw [hSame]
    exact .same h
  · rw [hDied]
    exact .checkDied hMay hActive

/- Another dead-name request of an entry with a port right. -/
theorem DropOk.newRequest
    (request : Nat)
    (h : EntryOk space name port.toRightPort e)
    (hRights : e.ieBits &&& machPortTypePortRights ≠ 0) :
    DropOk c space name e port 0
      (quietly kr (some { e with ieRequest := request }) port
        hash) := by
  have hNotSet : ieBitsType e.ieBits ≠ machPortTypePortSet :=
    (ne_of_portRights hRights).2
  have hNotDead : ieBitsType e.ieBits ≠ machPortTypeDeadName :=
    (ne_of_portRights hRights).1
  refine .quiet ?_ rfl (fun _ => rfl) (fun _ => rfl)
  intro e' hEq
  cases hEq
  refine ⟨?_, ⟨rfl, .adds rfl (List.mem_cons_self ..)
      (Int.add_zero _).symm⟩,
    Or.inl rfl, ?_⟩
  · cases h with
    | send type urefs object room =>
        exact .send type urefs object room
    | receive type urefs object active receiver receiverName =>
        exact .receive type urefs object active receiver
          receiverName
    | sendReceive type urefs object room active receiver
        receiverName =>
        exact .sendReceive type urefs object room active
          receiver receiverName
    | sendOnce type urefs object =>
        exact .sendOnce type urefs object
    | portSet type urefs object => exact absurd type hNotSet
    | deadName type urefs object request =>
        exact absurd type hNotDead
  · intro hSet
    exact absurd hSet hNotSet

/- One more reference of a dead name, for a notification. -/
theorem DropOk.succDead
    (hDies : Dies e x)
    (hLive : port.ipActive = true → IsDead e)
    (hMem : 1 ∈ 0 :: c.adds)
    (hOver : machPortUrefsOverflow (ieBitsUrefs x.ieBits) 1 =
      false) :
    DropOk c space name e port 0
      (quietly kr (some { x with ieBits := x.ieBits + 1 }) port
        hash) := by
  have hFits := urefs_add_of urefs_lt rfl hOver
  rcases add_shift hFits with ⟨hShift, hUrefs, hBy⟩
  refine .ofDead ?_ hDies hLive
  intro e' hEq
  cases hEq
  refine hDies.isDead.of_bits hShift ?_ hMem hBy
  have hOne : (1 : EntryBits).toInt = 1 := rfl
  exact ne_zero_of_pos (by omega)

/- `ipc_right_dnrequest` where there is no live right. -/
theorem dnrequestDead_dropOk
    {immediate notify : Bool}
    {y : EntryFields}
    {hash' : HashUpdate}
    (h : EntryOk space name port.toRightPort e)
    (hEntry : y = e ∨
      y = diedEntry e ∧ MayDie e ∧ port.ipActive = false)
    (hMem : 1 ∈ 0 :: c.adds)
    (hRun : (if y.ieBits &&& machPortTypeDeadName ≠ 0 ∧
          immediate = true ∧ notify = true then do
        ipcAssert (ieBitsType y.ieBits = machPortTypeDeadName)
        ipcAssert (ieBitsUrefs y.ieBits ≠ 0)
        if machPortUrefsOverflow (ieBitsUrefs y.ieBits) 1 then
          .ok (.urefsOverflow, y, hash')
        else
          .ok (.success, { y with ieBits := y.ieBits + 1 },
            hash')
      else if y.ieBits &&& machPortTypePortOrDead ≠ 0 then
        .ok (.invalidArgument, y, hash')
      else .ok (.invalidRight, y, hash') :
        Except Trap (KernReturn × EntryFields × HashUpdate)) =
        .ok (kr, x, hash)) :
    DropOk c space name e port 0
      (quietly kr (some x) port hash) := by
  have hKeeps : ∀ kr', DropOk c space name e port 0
      (quietly kr' (some y) port hash') := by
    intro kr'
    rcases hEntry with hSame | ⟨hIs, hMay, hActive⟩
    · rw [hSame]
      exact .same h
    · rw [hIs]
      exact .checkDied hMay hActive
  have hFacts : ieBitsType y.ieBits = machPortTypeDeadName →
      Dies e y ∧ (port.ipActive = true → IsDead e) := by
    intro hType
    rcases hEntry with hSame | ⟨hIs, hMay, hActive⟩
    · subst hSame
      have hDead : IsDead y := by
        rcases portRights_cases h with
          hDead | ⟨hSet, _⟩ | ⟨hKind, _⟩
        · exact hDead
        · rw [hType] at hSet
          exact absurd hSet (by decide)
        · exact absurd hType (ne_of_portRights hKind).1
      exact ⟨Or.inl ⟨hDead, rfl⟩, fun _ => hDead⟩
    · refine ⟨Or.inr ⟨hMay, hIs⟩, ?_⟩
      intro hLive
      rw [hActive] at hLive
      cases hLive
  split_ifs at hRun with hBit hOver hPort
  · rcases assert_ok hRun with ⟨_, hRun⟩
    rcases assert_ok hRun with ⟨_, hRun⟩
    cases hRun
    exact hKeeps _
  · rcases assert_ok hRun with ⟨hType, hRun⟩
    rcases assert_ok hRun with ⟨_, hRun⟩
    cases hRun
    rcases hFacts hType with ⟨hDies, hLive⟩
    exact .succDead hDies hLive hMem
      ((Bool.not_eq_true _).mp hOver)
  · cases hRun
    exact hKeeps _
  · cases hRun
    exact hKeeps _

/- A turn of `ipc_right_dnrequest`. -/
theorem dnrequest_dropOk
    {immediate notify : Bool}
    {slot : Option Nat}
    (h : EntryOk space name port.toRightPort e)
    (hMem : 1 ∈ 0 :: c.adds)
    (hRun : ipcRightDnrequest e port immediate notify slot =
      .ok (kr, x, hash)) :
    DropOk c space name e port 0
      (quietly kr (some x) port hash) := by
  unfold ipcRightDnrequest at hRun
  by_cases hRights : e.ieBits &&& machPortTypePortRights ≠ 0
  · rw [if_pos hRights] at hRun
    rcases assert_ok hRun with ⟨_, hRest⟩
    rcases bind_ok hRest with ⟨⟨died, y, hash'⟩, hCheck, hTail⟩
    rcases assert_ok hTail with ⟨_, hTurn⟩
    rcases h.checked hCheck with ⟨hDied, hSame, _⟩ |
      ⟨hDied, hIs, hMay, hActive⟩
    · rw [hDied, hSame] at hTurn
      cases notify with
      | false =>
          cases hTurn
          exact .newRequest _ h hRights
      | true =>
          cases slot with
          | none =>
              rcases assert_ok hTurn with ⟨_, hEnd⟩
              cases hEnd
              exact .same h
          | some request =>
              rcases assert_ok hTurn with ⟨_, hEnd⟩
              cases hEnd
              exact .newRequest _ h hRights
    · rw [hDied] at hTurn
      exact dnrequestDead_dropOk h
        (Or.inr ⟨hIs, hMay, hActive⟩) hMem hTurn
  · rw [if_neg hRights] at hRun
    exact dnrequestDead_dropOk h (Or.inl rfl) hMem hRun

end Check

------
-- Operations That Drop Rights
------

/- By how much an operation leaves the send rights too high. -/
def leakBy
    (e : EntryFields)
    (port : SenderPort) : RightAction → Nat
| .delta _ right delta circular _ =>
    if Leaks e port right delta circular then 1 else 0
| _ => 0

section Drops

variable {h : Holding} {port : SenderPort} {a : RightAction}
variable {run : Except Trap RightDrop} {out : RightDrop}

theorem dropAction_ok
    (hOk : EntryOk h.space h.name port.toRightPort h.entry)
    (hCovers : Covers port.toRightPort h.entry)
    (hQuiet : SetQuiet h.entry)
    (hSome : dropAction h port a = some run)
    (hRun : run = .ok out) :
    DropOk a.changes h.space h.name h.entry port
      (leakBy h.entry port a) out := by
  -- What returned is what the operation was proved to leave.
  have hSame : ∀ n, (∃ o, run = .ok o ∧
      DropOk a.changes h.space h.name h.entry port n o) →
        DropOk a.changes h.space h.name h.entry port n
          out := by
    rintro n ⟨o, hOther, hDrop⟩
    rw [hRun] at hOther
    cases hOther
    exact hDrop
  cases a with
  | check i =>
      cases hSome
      rcases bind_ok hRun with ⟨⟨died, x, hash⟩, hCheck, hEnd⟩
      cases hEnd
      exact check_dropOk hOk hCheck
  | dnrequest i immediate notify slot =>
      cases hSome
      rcases bind_ok hRun with ⟨⟨kr, x, hash⟩, hTurn, hEnd⟩
      cases hEnd
      exact dnrequest_dropOk hOk
        (List.mem_cons_of_mem _ (List.mem_singleton.mpr rfl))
        hTurn
  | dealloc i =>
      cases hSome
      exact hSame 0 (ipcRightDealloc_ok i hOk hCovers)
  | delta i right delta circular timestamp =>
      cases hSome
      have hRight : right ≤ machPortRightDeadName := by
        unfold ipcRightDelta at hRun
        split at hRun
        · decide
        · decide
        · decide
        · decide
        · decide
        · cases hRun
      exact hSame _
        (ipcRightDelta_ok i hOk hCovers hQuiet hRight)
  | destroy i circular timestamp =>
      cases hSome
      exact hSame 0 (ipcRightDestroy_ok circular timestamp hOk
        hCovers hQuiet)
  | clean i circular timestamp =>
      cases hSome
      exact hSame 0 (ipcRightClean_ok circular timestamp hOk
        hCovers hQuiet)
  | _ => cases hSome

end Drops

end Ipc

end OsfMach
