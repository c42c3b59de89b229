import OsfMach.Ipc.RightsInv

/-
  Each step on rights is a turn at one entry and one port, or
  two of them.

  Main declarations:
    * `LogKept`, `RightStepOk`
    * `dropped_stepOk`, `copiedIn_stepOk`
    * `copiedOut_stepOk`
    * `entryStep_stepOk`
-/

------
-- Steps
------

namespace OsfMach

namespace Ipc

open Function
open Lib
open Lib.Checked
open RightState

variable {port port' : SenderPort} {right : RightPort}
variable {e : EntryFields} {leak : Nat} {out : RightDrop}
variable {type count : Nat} {c : BitsChanges}

/- What is sent and thrown away is logged. -/
structure LogKept
    (port port' : SenderPort)
    (log log' : RequestLog) : Prop where
  dead : port.ipActive = false →
    port'.ipActive = false ∧ ¬ LastSend port port'
  made : log'.made = log.made
  returned : log'.returned = log.returned
  takes : ∃ notified thrown,
    TakesRequest port port' notified thrown ∧
      log'.sent = log.sent ++ notified.toList ∧
      log'.thrown = log.thrown ++ thrown.toList

/- No request is taken when the last send right does not go. -/
theorem TakesRequest.quiet
    (hActive : port'.ipActive = port.ipActive)
    (hRequest : port'.ipNsrequest = port.ipNsrequest)
    (hNot : ¬ LastSend port port') :
    TakesRequest port port' none none := by
  refine ⟨?_, ?_, ?_⟩
  · rw [if_neg hNot]
  · rw [if_neg hNot]
    exact hRequest
  · rw [if_neg]
    rintro ⟨hLive, hDead⟩
    rw [hActive, hLive] at hDead
    cases hDead

theorem LogKept.quiet
    {log log' : RequestLog}
    (hActive : port'.ipActive = port.ipActive)
    (hRequest : port'.ipNsrequest = port.ipNsrequest)
    (hNot : ¬ LastSend port port')
    (hLog : log' = log) :
    LogKept port port' log log' := by
  subst hLog
  refine ⟨fun hDead => ⟨hActive.trans hDead, hNot⟩, rfl, rfl,
    none, none, .quiet hActive hRequest hNot, ?_, ?_⟩
  · exact (List.append_nil _).symm
  · exact (List.append_nil _).symm

theorem LogKept.refl
    (port : SenderPort)
    (log : RequestLog) :
    LogKept port port log log :=
  .quiet rfl rfl (not_lastSend rfl) rfl

/-
  What every step leaves: `leak` is by how much the count of
  the send rights of a port is then too high.
-/
structure RightStepOk
    (c : BitsChanges)
    (s t : RightState)
    (leak : Nat → Nat) : Prop where
  inv : RightsInv t
  excess : ∀ q, (t.ports q).ipActive = true →
    (s.ports q).ipActive = true ∧
        (t.ports q).ipSrights + owed s machPortTypeSend q +
            s.sends q =
          (s.ports q).ipSrights + owed t machPortTypeSend q +
            t.sends q + leak q ∨
      owed t machPortTypeSend q = 0 ∧ t.sends q = 0 ∧
        (t.ports q).ipSrights = 0 ∧ leak q = 0
  bits : ∀ h ∈ s.entries, ∀ h' ∈ t.entries, h'.key = h.key →
    NoCarry c h.entry h'.entry

/- Entries with one key are one entry. -/
theorem RightsInv.eq_of_key
    {s : RightState}
    {h h' : Holding}
    (hInv : RightsInv s)
    (hMem : h ∈ s.entries)
    (hMem' : h' ∈ s.entries)
    (hKey : h'.key = h.key) :
    h' = h :=
  List.inj_on_of_nodup_map hInv.keys hMem' hMem hKey

section Turns

variable {s t : RightState} {p space name leak : Nat}
variable {old new : Option EntryFields}

theorem RightStepOk.ofTurn
    (hTurn : Turn s t p space name old new leak)
    (hInv : RightsInv s)
    (hName : name ≠ machPortNull ∨ new = none)
    (hBits : ∀ e e', old = some e → new = some e' →
      NoCarry c e e') :
    RightStepOk c s t (fun q => if q = p then leak else 0) := by
  refine ⟨hTurn.inv hInv hName, fun q hActive =>
    Or.inl (hTurn.excess q hActive), ?_⟩
  intro h hMem h' hMem' hKey
  rcases hTurn.mem_or hMem' with ⟨e', hNew, hIs⟩ | ⟨hOld, _⟩
  · cases hOldIs : old with
    | none =>
        -- A new entry has a key of its own.
        rcases hTurn.fresh (by rw [hNew]; rfl) with
          hSome | hUnnamed
        · rw [hOldIs] at hSome
          cases hSome
        · rw [hIs] at hKey
          cases hKey
          exact absurd ⟨rfl, rfl⟩ (hUnnamed.2 h hMem)
    | some e =>
        rcases hTurn.place with ⟨xs, ys, hSplit, _⟩
        have hIn : ⟨space, name, e⟩ ∈ s.entries := by
          rw [hSplit, hOldIs]
          exact List.mem_append_right _
            (List.mem_append_left _
              (List.mem_singleton.mpr rfl))
        rw [hIs] at hKey
        have hSame : (⟨space, name, e⟩ : Holding) = h :=
          hInv.eq_of_key hMem hIn hKey
        rw [hIs, ← hSame]
        exact hBits e e' hOldIs hNew
  · rw [hInv.eq_of_key hMem hOld hKey]
    exact .refl _ _

end Turns

------
-- Steps of Entries
------

section Entries

variable {s : RightState} {i : Nat} {h : Holding}

theorem bears_some
    (kind : EntryBits)
    (e : EntryFields) :
    bears kind (some e) = Bearing kind e := rfl

/- The counts of a port cover each right of an entry. -/
theorem RightsInv.covers
    (hInv : RightsInv s)
    (hMem : h ∈ s.entries) :
    Covers (s.ports h.entry.ieObject).toRightPort h.entry := by
  have hCount : ∀ kind, Bearing kind h.entry = true →
      0 < owed s kind h.entry.ieObject := by
    intro kind hBear
    unfold owed
    rw [List.countP_pos_iff]
    refine ⟨h, hMem, ?_⟩
    unfold bearsRight
    simp [hBear]
  refine ⟨?_, ?_⟩
  · intro hActive hBear
    have hPos := hCount _ hBear
    have hLaw := hInv.sends _ hActive
    omega
  · intro hBear
    have hPos := hCount _ hBear
    have hLaw := hInv.onces h.entry.ieObject
    omega

theorem RightsInv.at
    (hInv : RightsInv s)
    (hAt : s.entries[i]? = some h) :
    h ∈ s.entries ∧ h.name ≠ machPortNull ∧ HoldsOk s h := by
  have hMem := List.mem_of_getElem? hAt
  exact ⟨hMem, hInv.names h hMem, hInv.entries h hMem⟩

/- An entry that is dropped in part bears no more. -/
theorem Kept.sendOnce
    {space name : Nat}
    {o : Option EntryFields}
    (hOk : EntryOk space name right e)
    (hKept : ∀ e', o = some e' → Kept c e e') :
    (bears machPortTypeSendOnce o).toNat ≤
      (Bearing machPortTypeSendOnce e).toNat := by
  cases o with
  | none => exact Nat.zero_le _
  | some e' =>
      dsimp only [bears]
      cases hBear : Bearing machPortTypeSendOnce e' with
      | false => exact Nat.zero_le _
      | true =>
          have hBit : ieBitsType e'.ieBits &&&
              machPortTypeSendOnce ≠ 0 := by
            unfold Bearing at hBear
            simpa using hBear
          have hSame := (hKept e' rfl).bits.change.same
            hOk.not_none (by decide) (by decide) hBit
          have hIs : Bearing machPortTypeSendOnce e = true := by
            unfold Bearing at hBear ⊢
            rw [← hSame]
            exact hBear
          rw [hIs]

/- The state after a right was dropped is a turn. -/
theorem dropped_turn
    (hInv : RightsInv s)
    (hAt : s.entries[i]? = some h)
    (hOk : EntryOk h.space h.name
      (s.ports h.entry.ieObject).toRightPort h.entry)
    (hQuiet : SetQuiet h.entry)
    (hDrop : DropOk c h.space h.name h.entry
      (s.ports h.entry.ieObject) leak out) :
    Turn s (s.dropped i h.entry.ieObject out) h.entry.ieObject
      h.space h.name (some h.entry) out.entry leak := by
  rcases hInv.at hAt with ⟨_, hName, _⟩
  have hPort : (s.dropped i h.entry.ieObject out).ports
      h.entry.ieObject = out.port := update_self ..
  have hOnces : (s.dropped i h.entry.ieObject out).onces
      h.entry.ieObject =
        s.onces h.entry.ieObject + out.sendOnce.toNat :=
    update_self ..
  have hLimbo : (s.dropped i h.entry.ieObject out).limbo
      h.entry.ieObject =
        (s.limbo h.entry.ieObject || out.backup) :=
    update_self ..
  have hActive : out.port.ipActive = true →
      (s.ports h.entry.ieObject).ipActive = true := by
    intro hLive
    by_contra hDead
    rw [Bool.not_eq_true] at hDead
    rw [(hDrop.died hDead).1, hDead] at hLive
    cases hLive
  refine ⟨putEntry_split out.entry hAt, ?_, ?_,
    fun _ => Or.inl rfl, ?_, ?_, ?_, ?_, ?_, ?_, ?_, ?_, ?_⟩
  · intro q hNe
    exact update_of_ne hNe ..
  · intro q hNe
    exact ⟨rfl, update_of_ne hNe .., update_of_ne hNe ..⟩
  · intro e hEq
    cases hEq
    exact Or.inl rfl
  · intro e hEq
    rcases (hDrop.entry e hEq).2.object with hSame | hDead
    · exact Or.inl hSame
    · exact Or.inr ⟨not_bearing_of_dead hDead (by decide),
        not_bearing_of_dead hDead (by decide),
        not_bearing_of_dead hDead (by decide)⟩
  · intro e hEq
    rcases hDrop.entry e hEq with ⟨hNew, hKept⟩
    refine Or.inr ⟨?_, hKept.setQuiet hOk.not_none hQuiet⟩
    rcases hKept.object with hSame | hDead
    · rw [hSame, hPort]
      exact hNew
    · exact .deadName hDead.1 hDead.2.1 hDead.2.2.1
        hDead.2.2.2
  · rw [hPort]
    rcases hDrop.receiver with ⟨_, hSame, _⟩ | ⟨hBear, _⟩
    · exact Or.inl hSame
    · exact Or.inr (Or.inl hBear)
  · rw [hPort, hLimbo]
    intro hIn
    rcases hDrop.receiver with ⟨_, hSame, hNone⟩ |
      ⟨hBear, _, hEnd⟩
    · rw [hNone, Bool.or_false] at hIn
      rw [hSame.active, hSame.receiverName]
      exact hInv.limbo _ hIn
    · rcases hEnd with ⟨_, hNone⟩ | ⟨hLive, hNull, _, _⟩
      · -- The receiver of the port had a name.
        rw [hNone, Bool.or_false] at hIn
        rcases hOk.receiver_facts hBear with ⟨_, _, _, hIs⟩
        exact absurd (hIs.symm.trans (hInv.limbo _ hIn).2)
          hName
      · exact ⟨hLive, hNull⟩
  · rw [hPort]
    exact hActive
  · rw [hPort]
    intro hLive
    have hLaw := hDrop.sends hLive
    have hSends : (s.dropped i h.entry.ieObject out).sends =
        s.sends := rfl
    rw [hSends, bears_some]
    omega
  · rw [hPort, hOnces, bears_some]
    cases hLive : (s.ports h.entry.ieObject).ipActive with
    | true =>
        rcases hDrop.onces hLive with ⟨hSame, hLaw⟩
        omega
    | false =>
        rcases hDrop.died hLive with ⟨hSame, hNone⟩
        have hLe := Kept.sendOnce hOk fun e' hEq =>
          (hDrop.entry e' hEq).2
        rw [hSame, hNone, Bool.toNat_false]
        omega
  · rw [hPort, hOnces]
    intro hLive
    rcases hDrop.onces (hActive hLive) with ⟨hSame, hLaw⟩
    rw [hSame, bears_some]
    omega

theorem dropped_stepOk
    (hInv : RightsInv s)
    (hAt : s.entries[i]? = some h)
    (hOk : EntryOk h.space h.name
      (s.ports h.entry.ieObject).toRightPort h.entry)
    (hQuiet : SetQuiet h.entry)
    (hDrop : DropOk c h.space h.name h.entry
      (s.ports h.entry.ieObject) leak out) :
    RightStepOk c s (s.dropped i h.entry.ieObject out)
        (fun q => if q = h.entry.ieObject then leak else 0) ∧
      ∀ q, LogKept (s.ports q)
        ((s.dropped i h.entry.ieObject out).ports q)
        (s.log q)
        ((s.dropped i h.entry.ieObject out).log q) := by
  constructor
  · refine .ofTurn (dropped_turn hInv hAt hOk hQuiet hDrop)
      hInv (Or.inl (hInv.at hAt).2.1) ?_
    intro e e' hOld hNew
    cases hOld
    exact (hDrop.entry e' hNew).2.bits
  · intro q
    by_cases hIs : q = h.entry.ieObject
    · have hPort : (s.dropped i h.entry.ieObject out).ports q =
          out.port := by
        rw [hIs]
        exact update_self ..
      have hLog : (s.dropped i h.entry.ieObject out).log q =
          { s.log q with
            sent := (s.log q).sent ++ out.notified.toList
            thrown := (s.log q).thrown ++
              out.thrown.toList } := by
        rw [hIs]
        exact update_self ..
      rw [hPort, hLog]
      refine ⟨?_, rfl, rfl, out.notified, out.thrown, ?_, rfl,
        rfl⟩
      · rw [hIs]
        intro hDead
        rw [(hDrop.died hDead).1]
        exact ⟨hDead, not_lastSend rfl⟩
      · rw [hIs]
        exact hDrop.request
    · have hPort : (s.dropped i h.entry.ieObject out).ports q =
          s.ports q := update_of_ne hIs ..
      have hLog : (s.dropped i h.entry.ieObject out).log q =
          s.log q := update_of_ne hIs ..
      rw [hPort, hLog]
      exact .refl _ _

/- An entry without a right is dealt back. -/
theorem freed_stepOk
    (hInv : RightsInv s)
    (hAt : s.entries[i]? = some h)
    (hNone : ieBitsType h.entry.ieBits = machPortTypeNone) :
    RightStepOk c s
      { s with entries := putEntry s.entries i none }
      (fun _ => 0) := by
  have hBear : ∀ kind, Bearing kind h.entry = false := by
    intro kind
    rw [bearing_of_type hNone]
    simp [machPortTypeNone]
  have hTurn : Turn s
      { s with entries := putEntry s.entries i none }
      h.entry.ieObject h.space h.name (some h.entry) none 0 := by
    refine ⟨putEntry_split none hAt, fun _ _ => rfl,
      fun _ _ => ⟨rfl, rfl, rfl⟩, ?_, ?_, ?_, ?_,
      Or.inl (.refl _), hInv.limbo _, id, ?_, ?_, ?_⟩
    · intro hSome
      cases hSome
    · intro e hEq
      cases hEq
      exact Or.inl rfl
    · intro e hEq
      cases hEq
    · intro e hEq
      cases hEq
    · intro _
      dsimp only [bears]
      rw [hBear]
      rfl
    · dsimp only [bears]
      rw [hBear]
    · intro _
      dsimp only [bears]
      rw [hBear]
  have hStep : RightStepOk c s _ _ := .ofTurn hTurn hInv
    (Or.inr rfl) (by
      intro e e' _ hNew
      cases hNew)
  refine ⟨hStep.inv, ?_, hStep.bits⟩
  intro q hActive
  simpa using hStep.excess q hActive

end Entries

------
-- Steps That Move Rights
------

section Moves

variable {s : RightState} {i : Nat} {h : Holding}

/- No send right of the port goes when rights are copied in. -/
theorem wrapPort_last
    (hSrights : port.ipSrights ≤ right.ipSrights) :
    ¬ LastSend port (wrapPort port right) := by
  rintro ⟨hPos, hZero⟩
  have hSame : (wrapPort port right).ipSrights =
      right.ipSrights := rfl
  omega

theorem copiedIn_turn
    {out : RightOut}
    (hInv : RightsInv s)
    (hAt : s.entries[i]? = some h)
    (hQuiet : SetQuiet h.entry)
    (hMoves : MovesIn c h.space h.name h.entry
      (s.ports h.entry.ieObject).toRightPort type count out) :
    Turn s (s.copiedIn i h.entry.ieObject type count out)
      h.entry.ieObject h.space h.name (some h.entry)
      (some out.entry) 0 := by
  have hPort : (s.copiedIn i h.entry.ieObject type count
      out).ports h.entry.ieObject =
        wrapPort (s.ports h.entry.ieObject) out.port :=
    update_self ..
  have hSends : (s.copiedIn i h.entry.ieObject type count
      out).sends h.entry.ieObject =
        s.sends h.entry.ieObject +
          took out type machMsgTypePortSend count :=
    update_self ..
  have hOnces : (s.copiedIn i h.entry.ieObject type count
      out).onces h.entry.ieObject =
        s.onces h.entry.ieObject +
          took out type machMsgTypePortSendOnce count :=
    update_self ..
  have hLimbo : (s.copiedIn i h.entry.ieObject type count
      out).limbo h.entry.ieObject =
        (s.limbo h.entry.ieObject ||
          decide (0 < took out type machMsgTypePortReceive
            count)) :=
    update_self ..
  have hActive : (wrapPort (s.ports h.entry.ieObject)
      out.port).ipActive =
        (s.ports h.entry.ieObject).ipActive := hMoves.active
  have hSrights : (wrapPort (s.ports h.entry.ieObject)
      out.port).ipSrights = out.port.ipSrights := rfl
  have hSorights : (wrapPort (s.ports h.entry.ieObject)
      out.port).ipSorights = out.port.ipSorights := rfl
  refine ⟨putEntry_split (some out.entry) hAt, ?_, ?_,
    fun _ => Or.inl rfl, ?_, ?_, ?_, ?_, ?_, ?_, ?_, ?_, ?_⟩
  · intro q hNe
    exact update_of_ne hNe ..
  · intro q hNe
    exact ⟨update_of_ne hNe ..,
      update_of_ne hNe ..,
      update_of_ne hNe ..⟩
  · intro e hEq
    cases hEq
    exact Or.inl rfl
  · intro e hEq
    cases hEq
    exact hMoves.object
  · intro e hEq
    cases hEq
    rcases hMoves.entry with hNone | hNew
    · exact Or.inl ⟨hNone, hMoves.takenIn.none hNone⟩
    · refine Or.inr ⟨?_, ?_⟩
      · rcases hMoves.object with hSame | ⟨_, _, hNone⟩
        · rw [hSame, hPort]
          exact hNew.congr rfl rfl rfl
        · exact hNew.of_not_receive hNone
      · intro hSet
        have hSame := hMoves.takenIn.set hSet
        rw [hSame] at hSet ⊢
        exact hQuiet hSet
  · rw [hPort]
    rcases hMoves.receiver with ⟨_, hSpace, hName, _⟩ |
      ⟨hBear, _⟩
    · exact Or.inl ⟨hMoves.active, hSpace, hName⟩
    · exact Or.inr (Or.inl hBear)
  · rw [hPort, hLimbo]
    intro hIn
    have hReceiver : (wrapPort (s.ports h.entry.ieObject)
        out.port).ipReceiverName = out.port.ipReceiverName :=
      rfl
    rw [hActive, hReceiver]
    rcases hMoves.receiver with ⟨_, _, hName, hNone⟩ |
      ⟨_, _, hLive, hNull⟩
    · rw [hNone] at hIn
      rw [hName]
      exact hInv.limbo _ (by simpa using hIn)
    · exact ⟨hLive, hNull⟩
  · rw [hPort, hActive]
    exact id
  · rw [hPort, hActive, hSends, hSrights, bears_some,
      bears_some]
    intro hLive
    have hLaw := hMoves.sends hLive
    omega
  · rw [hPort, hOnces, hSorights, bears_some, bears_some]
    have hLaw := hMoves.onces
    omega
  · rw [hPort, hActive, hOnces, hSorights, bears_some,
      bears_some]
    intro hLive
    have hLaw := hMoves.oncesActive hLive
    omega

/- A turn that leaves no count too high. -/
theorem RightStepOk.exact
    {t : RightState}
    {p : Nat}
    (h : RightStepOk c s t fun q => if q = p then 0 else 0) :
    RightStepOk c s t (fun _ => 0) := by
  refine ⟨h.inv, ?_, h.bits⟩
  intro q hActive
  simpa using h.excess q hActive

theorem copiedIn_stepOk
    {out : RightOut}
    (hInv : RightsInv s)
    (hAt : s.entries[i]? = some h)
    (hQuiet : SetQuiet h.entry)
    (hMoves : MovesIn c h.space h.name h.entry
      (s.ports h.entry.ieObject).toRightPort type count out) :
    RightStepOk c s
        (s.copiedIn i h.entry.ieObject type count out)
        (fun _ => 0) ∧
      ∀ q, LogKept (s.ports q)
        ((s.copiedIn i h.entry.ieObject type count out).ports q)
        (s.log q)
        ((s.copiedIn i h.entry.ieObject type count
          out).log q) := by
  constructor
  · have hStep := RightStepOk.ofTurn
      (copiedIn_turn hInv hAt hQuiet hMoves) hInv
      (Or.inl (hInv.at hAt).2.1) (by
        intro e e' hOld hNew
        cases hOld
        cases hNew
        exact hMoves.takenIn.bits)
    exact hStep.exact
  · intro q
    by_cases hIs : q = h.entry.ieObject
    · have hPort : (s.copiedIn i h.entry.ieObject type count
          out).ports q = wrapPort (s.ports q) out.port := by
        rw [hIs]
        exact update_self ..
      rw [hPort, hIs]
      exact .quiet hMoves.active rfl
        (wrapPort_last hMoves.takenIn.srights) rfl
    · have hPort : (s.copiedIn i h.entry.ieObject type count
          out).ports q = s.ports q :=
        update_of_ne hIs ..
      rw [hPort]
      exact .refl _ _

/- A naked right of one type is used up. -/
theorem takeNaked_frame
    {t : RightState}
    (p msgtName q : Nat)
    (hNe : q ≠ p) :
    (t.takeNaked p msgtName).sends q = t.sends q ∧
      (t.takeNaked p msgtName).onces q = t.onces q ∧
      (t.takeNaked p msgtName).limbo q = t.limbo q := by
  unfold takeNaked
  split
  · exact ⟨update_of_ne hNe .., rfl, rfl⟩
  · exact ⟨rfl, update_of_ne hNe .., rfl⟩
  · exact ⟨rfl, rfl, update_of_ne hNe ..⟩
  · exact ⟨rfl, rfl, rfl⟩

theorem takeNaked_same
    {t : RightState}
    (p msgtName : Nat) :
    (t.takeNaked p msgtName).ports = t.ports ∧
      (t.takeNaked p msgtName).entries = t.entries ∧
      (t.takeNaked p msgtName).log = t.log := by
  unfold takeNaked
  split
  · exact ⟨rfl, rfl, rfl⟩
  · exact ⟨rfl, rfl, rfl⟩
  · exact ⟨rfl, rfl, rfl⟩
  · exact ⟨rfl, rfl, rfl⟩

/- The naked rights of the port itself. -/
theorem takeNaked_counts
    {t : RightState}
    {p msgtName : Nat}
    (hHas : t.hasNaked p msgtName = true) :
    (t.takeNaked p msgtName).sends p +
          (if msgtName = machMsgTypePortSend then 1 else 0) =
        t.sends p ∧
      (t.takeNaked p msgtName).onces p +
          (if msgtName = machMsgTypePortSendOnce then 1
            else 0) =
        t.onces p ∧
      ((t.takeNaked p msgtName).limbo p = true →
        t.limbo p = true ∧
          msgtName ≠ machMsgTypePortReceive) := by
  unfold hasNaked at hHas
  unfold takeNaked
  split at hHas
  · have hPos : 0 < t.sends p := by simpa using hHas
    refine ⟨?_, rfl, fun hIn => ⟨hIn, by decide⟩⟩
    dsimp only
    rw [update_self, if_pos rfl]
    omega
  · have hPos : 0 < t.onces p := by simpa using hHas
    refine ⟨rfl, ?_, fun hIn => ⟨hIn, by decide⟩⟩
    dsimp only
    rw [update_self, if_pos rfl]
    omega
  · refine ⟨rfl, rfl, ?_⟩
    dsimp only
    rw [update_self]
    intro hIn
    cases hIn
  · cases hHas

end Moves

------
-- Copying out and the Way back
------

section Outs

variable {s : RightState} {i : Nat} {h : Holding}

/- The naked rights after a right was copied out. -/
theorem copiedOut_counts
    {p msgtName : Nat}
    {out : CopyoutOut}
    (hHas : s.hasNaked p msgtName = true) :
    (s.copiedOut i p msgtName out).sends p +
          gave out msgtName machMsgTypePortSend =
        s.sends p ∧
      (s.copiedOut i p msgtName out).onces p +
          gave out msgtName machMsgTypePortSendOnce =
        s.onces p ∧
      ((s.copiedOut i p msgtName out).limbo p = true →
        s.limbo p = true ∧
          gave out msgtName machMsgTypePortReceive = 0) := by
  unfold copiedOut gave
  by_cases hSuccess : out.kr = .success
  · simp only [hSuccess, true_and]
    have hCounts := @takeNaked_counts
      { s.setPort p out.port with
        entries := putEntry s.entries i (some out.entry) }
      p msgtName hHas
    refine ⟨hCounts.1, hCounts.2.1, fun hIn => ?_⟩
    rcases hCounts.2.2 hIn with ⟨hLimbo, hNot⟩
    exact ⟨hLimbo, if_neg hNot⟩
  · simp only [hSuccess, false_and, if_false]
    exact ⟨rfl, rfl, fun hIn => ⟨hIn, trivial⟩⟩

theorem copiedOut_frame
    {p msgtName : Nat}
    {out : CopyoutOut} :
    (s.copiedOut i p msgtName out).ports =
        update s.ports p out.port ∧
      (s.copiedOut i p msgtName out).entries =
        putEntry s.entries i (some out.entry) ∧
      (s.copiedOut i p msgtName out).log = s.log ∧
      ∀ q, q ≠ p →
        (s.copiedOut i p msgtName out).sends q = s.sends q ∧
        (s.copiedOut i p msgtName out).onces q = s.onces q ∧
        (s.copiedOut i p msgtName out).limbo q =
          s.limbo q := by
  unfold copiedOut
  by_cases hSuccess : out.kr = .success
  · rw [if_pos hSuccess]
    rcases @takeNaked_same
      { s.setPort p out.port with
        entries := putEntry s.entries i (some out.entry) }
      p msgtName with ⟨hPorts, hEntries, hLog⟩
    exact ⟨hPorts, hEntries, hLog, fun q hNe =>
      takeNaked_frame p msgtName q hNe⟩
  · rw [if_neg hSuccess]
    exact ⟨rfl, rfl, rfl, fun q _ => ⟨rfl, rfl, rfl⟩⟩

theorem copiedOut_stepOk
    {msgtName : Nat}
    {out : CopyoutOut}
    (hInv : RightsInv s)
    (hAt : s.entries[i]? = some h)
    (hHas : s.hasNaked h.entry.ieObject msgtName = true)
    (hMoves : MovesOut h.space h.name h.entry
      (s.ports h.entry.ieObject) msgtName out) :
    RightStepOk copyoutChanges s
        (s.copiedOut i h.entry.ieObject msgtName out)
        (fun _ => 0) ∧
      ∀ q, LogKept (s.ports q)
        ((s.copiedOut i h.entry.ieObject msgtName out).ports q)
        (s.log q)
        ((s.copiedOut i h.entry.ieObject msgtName
          out).log q) := by
  rcases @copiedOut_frame s i h.entry.ieObject msgtName out
    with ⟨hPorts, hEntries, hLog, hFrame⟩
  rcases @copiedOut_counts s i h.entry.ieObject msgtName out
    hHas with ⟨hSends, hOnces, hLimbo⟩
  have hPort : (s.copiedOut i h.entry.ieObject msgtName
      out).ports h.entry.ieObject = out.port := by
    rw [hPorts]
    exact update_self ..
  have hOther : ∀ q, q ≠ h.entry.ieObject →
      (s.copiedOut i h.entry.ieObject msgtName out).ports q =
        s.ports q := by
    intro q hNe
    rw [hPorts]
    exact update_of_ne hNe ..
  have hTurn : Turn s
      (s.copiedOut i h.entry.ieObject msgtName out)
      h.entry.ieObject h.space h.name (some h.entry)
      (some out.entry) 0 := by
    refine ⟨?_, hOther, hFrame, fun _ => Or.inl rfl, ?_, ?_,
      ?_, ?_, ?_, fun _ => hMoves.active.1, ?_, ?_, ?_⟩
    · rw [hEntries]
      exact putEntry_split (some out.entry) hAt
    · intro e hEq
      cases hEq
      exact Or.inl rfl
    · intro e hEq
      cases hEq
      exact Or.inl hMoves.object
    · intro e hEq
      cases hEq
      refine Or.inr ⟨?_, hMoves.entry.2⟩
      rw [hMoves.object, hPort]
      exact hMoves.entry.1
    · rw [hPort]
      rcases hMoves.receiver with ⟨_, hSame, _⟩ | ⟨hNull, _⟩
      · exact Or.inl hSame
      · exact Or.inr (Or.inr hNull)
    · intro hIn
      rcases hLimbo hIn with ⟨hOld, hNone⟩
      rw [hPort]
      rcases hMoves.receiver with ⟨_, hSame, _⟩ | ⟨_, hOne⟩
      · rw [hSame.active, hSame.receiverName]
        exact hInv.limbo _ hOld
      · omega
    · intro _
      rw [hPort, bears_some, bears_some]
      have hLaw := hMoves.sends
      omega
    · rw [hPort, bears_some, bears_some]
      have hLaw := hMoves.onces
      omega
    · intro _
      rw [hPort, bears_some, bears_some]
      have hLaw := hMoves.onces
      omega
  constructor
  · have hStep := RightStepOk.ofTurn hTurn hInv
      (Or.inl (hInv.at hAt).2.1) (by
        intro e e' hOld hNew
        cases hOld
        cases hNew
        exact hMoves.bits)
    exact hStep.exact
  · intro q
    rw [hLog]
    by_cases hIs : q = h.entry.ieObject
    · rw [hIs, hPort]
      exact .quiet
        (hMoves.active.2.trans hMoves.active.1.symm)
        hMoves.nsrequest hMoves.last rfl
    · rw [hOther q hIs]
      exact .refl _ _

/- The state after a dead object was put back. -/
def undone
    (s : RightState)
    (i : Nat)
    (e : EntryFields)
    (object type : Nat) : RightState :=
  let t := { s with entries := putEntry s.entries i (some e) }
  if object = ioDead then t else t.takeNaked object type

theorem undone_frame
    {e : EntryFields}
    {object type : Nat} :
    (undone s i e object type).ports = s.ports ∧
      (undone s i e object type).entries =
        putEntry s.entries i (some e) ∧
      (undone s i e object type).log = s.log ∧
      ∀ q, q ≠ object →
        (undone s i e object type).sends q = s.sends q ∧
        (undone s i e object type).onces q = s.onces q ∧
        (undone s i e object type).limbo q = s.limbo q := by
  unfold undone
  by_cases hDead : object = ioDead
  · rw [if_pos hDead]
    exact ⟨rfl, rfl, rfl, fun q _ => ⟨rfl, rfl, rfl⟩⟩
  · rw [if_neg hDead]
    rcases @takeNaked_same
      { s with entries := putEntry s.entries i (some e) }
      object type with ⟨hPorts, hEntries, hLog⟩
    exact ⟨hPorts, hEntries, hLog, fun q hNe =>
      takeNaked_frame object type q hNe⟩

/- Fewer naked rights of the object, at most. -/
theorem undone_counts
    {e : EntryFields}
    {object type : Nat}
    (hHas : object = ioDead ∨
      s.hasNaked object type = true) :
    (undone s i e object type).onces object ≤
        s.onces object ∧
      ((undone s i e object type).limbo object = true →
        s.limbo object = true) ∧
      (object = ioDead →
        (undone s i e object type).sends object =
            s.sends object ∧
          (undone s i e object type).onces object =
            s.onces object) := by
  unfold undone
  by_cases hDead : object = ioDead
  · rw [if_pos hDead]
    exact ⟨Nat.le_refl _, id, fun _ => ⟨rfl, rfl⟩⟩
  · rw [if_neg hDead]
    have hNaked := hHas.resolve_left hDead
    rcases @takeNaked_counts
      { s with entries := putEntry s.entries i (some e) }
      object type hNaked with ⟨_, hOnces, hLimbo⟩
    refine ⟨?_, fun hIn => (hLimbo hIn).1, fun hIs =>
      absurd hIs hDead⟩
    have hSame : ({ s with
      entries := putEntry s.entries i (some e) } :
        RightState).onces object = s.onces object := rfl
    omega

theorem undone_stepOk
    {object type : Nat}
    (hInv : RightsInv s)
    (hAt : s.entries[i]? = some h)
    (hHas : object = ioDead ∨
      (s.ports object).ipActive = false ∧
        s.hasNaked object type = true)
    (hUndone : Undone h.entry e object) :
    RightStepOk copyinUndoChanges s (undone s i e object type) (fun _ => 0) ∧
      ∀ q, LogKept (s.ports q)
        ((undone s i e object type).ports q)
        (s.log q) ((undone s i e object type).log q) := by
  rcases @undone_frame s i e object type
    with ⟨hPorts, hEntries, hLog, hFrame⟩
  rcases @undone_counts s i e object type
    (hHas.imp id fun hBoth => hBoth.2) with
    ⟨hOnces, hLimbo, hSame⟩
  have hNone : ∀ kind, machPortTypeDeadName &&& kind = 0 →
      Bearing kind e = false := fun kind hKind =>
    not_bearing_of_dead hUndone.isDead hKind
  have hTurn : Turn s (undone s i e object type) object
      h.space h.name (some h.entry) (some e) 0 := by
    refine ⟨?_, ?_, hFrame, fun _ => Or.inl rfl, ?_, ?_, ?_,
      ?_, ?_, ?_, ?_, ?_, ?_⟩
    · rw [hEntries]
      exact putEntry_split (some e) hAt
    · intro q _
      rw [hPorts]
    · intro x hEq
      cases hEq
      cases hSend : Bearing machPortTypeSend h.entry with
      | true => exact Or.inl (hUndone.sends hSend).1
      | false =>
          exact Or.inr ⟨hSend, hUndone.onces, hUndone.receive⟩
    · intro x hEq
      cases hEq
      exact Or.inr ⟨hNone _ (by decide), hNone _ (by decide),
        hNone _ (by decide)⟩
    · intro x hEq
      cases hEq
      have hDead := hUndone.isDead
      refine Or.inr ⟨.deadName hDead.1 hDead.2.1 hDead.2.2.1
        hDead.2.2.2, fun _ => hDead.2.2.2⟩
    · rw [hPorts]
      exact Or.inl (.refl _)
    · rw [hPorts]
      exact fun hIn => hInv.limbo _ (hLimbo hIn)
    · rw [hPorts]
      exact id
    · rw [hPorts, bears_some, bears_some,
        hNone _ (by decide)]
      intro hLive
      rcases hHas with hDead | ⟨hInactive, _⟩
      · -- The entry of a dead name has no send right.
        have hNot : Bearing machPortTypeSend h.entry =
            false := by
          by_contra hBear
          rw [Bool.not_eq_false] at hBear
          exact (hUndone.sends hBear).2 hDead
        rw [hNot, (hSame hDead).1]
        rfl
      · rw [hLive] at hInactive
        cases hInactive
    · rw [hPorts, bears_some, bears_some,
        hNone _ (by decide)]
      have hZero : (false : Bool).toNat = 0 := rfl
      omega
    · rw [hPorts, bears_some, bears_some,
        hNone _ (by decide), hUndone.onces]
      intro hLive
      rcases hHas with hDead | ⟨hInactive, _⟩
      · rw [(hSame hDead).2]
      · rw [hLive] at hInactive
        cases hInactive
  constructor
  · have hStep := RightStepOk.ofTurn hTurn hInv
      (Or.inl (hInv.at hAt).2.1) (by
        intro x x' hOld hNew
        cases hOld
        cases hNew
        exact hUndone.bits)
    exact hStep.exact
  · intro q
    rw [hPorts, hLog]
    exact .refl _ _

end Outs

------
-- Every Step of an Entry
------

section EntrySteps

variable {s t : RightState} {i : Nat} {h : Holding}
variable {a : RightAction}

/- By how much a step leaves the send rights of a port too high. -/
def stepLeak
    (s : RightState)
    (a : RightAction)
    (q : Nat) : Nat :=
  match a.position.bind fun i => s.entries[i]? with
  | some h =>
      if q = h.entry.ieObject then
        leakBy h.entry (s.ports h.entry.ieObject) a
      else 0
  | none => 0

theorem stepLeak_at
    (hPosition : a.position = some i)
    (hAt : s.entries[i]? = some h) :
    stepLeak s a = fun q => if q = h.entry.ieObject then
      leakBy h.entry (s.ports h.entry.ieObject) a else 0 := by
  funext q
  unfold stepLeak
  rw [hPosition, Option.bind_some, hAt]

theorem stepLeak_zero
    (hPosition : a.position = some i)
    (hAt : s.entries[i]? = some h)
    (hNone : leakBy h.entry (s.ports h.entry.ieObject) a = 0) :
    stepLeak s a = fun _ => 0 := by
  rw [stepLeak_at hPosition hAt, hNone]
  funext q
  exact ite_self 0

/- An entry with a type denotes a right. -/
theorem HoldsOk.entry
    (hOk : HoldsOk s h)
    (hSome : ieBitsType h.entry.ieBits ≠ machPortTypeNone) :
    EntryOk h.space h.name
        (s.ports h.entry.ieObject).toRightPort h.entry ∧
      SetQuiet h.entry := by
  rcases hOk with ⟨hNone, _⟩ | hBoth
  · exact absurd hNone hSome
  · exact hBoth

theorem toOption_some
    {α : Type}
    {run : Except Trap α}
    {x : α}
    (hRun : run.toOption = some x) :
    run = .ok x := by
  cases run with
  | error e => cases hRun
  | ok y =>
      cases hRun
      rfl

/- What an operation that may drop a right does. -/
theorem dropStep_stepOk
    (hInv : RightsInv s)
    (hPosition : a.position = some i)
    (hAt : s.entries[i]? = some h)
    (hStep : (if ieBitsType h.entry.ieBits = machPortTypeNone
        then none
      else do
        let run ← dropAction h (s.ports h.entry.ieObject) a
        let out ← run.toOption
        some (s.dropped i h.entry.ieObject out)) = some t) :
    RightStepOk a.changes s t (stepLeak s a) ∧
      ∀ q, LogKept (s.ports q) (t.ports q) (s.log q)
        (t.log q) := by
  rcases hInv.at hAt with ⟨hMem, _, hOk⟩
  split_ifs at hStep with hType
  rcases hOk.entry hType with ⟨hEntry, hQuiet⟩
  rcases Option.bind_eq_some_iff.mp hStep with
    ⟨run, hAction, hRest⟩
  rcases Option.bind_eq_some_iff.mp hRest with
    ⟨out, hRun, hEnd⟩
  cases hEnd
  rw [stepLeak_at hPosition hAt]
  exact dropped_stepOk hInv hAt hEntry hQuiet
    (dropAction_ok hEntry (hInv.covers hMem) hQuiet hAction
      (toOption_some hRun))

theorem entryStep_stepOk
    (hInv : RightsInv s)
    (hPosition : a.position = some i)
    (hAt : s.entries[i]? = some h)
    (hStep : entryStep s i h a = some t) :
    RightStepOk a.changes s t (stepLeak s a) ∧
      ∀ q, LogKept (s.ports q) (t.ports q) (s.log q)
        (t.log q) := by
  rcases hInv.at hAt with ⟨hMem, _, hOk⟩
  cases a with
  | freeEntry j =>
      unfold entryStep at hStep
      dsimp only at hStep
      split_ifs at hStep with hNone
      cases hStep
      rw [stepLeak_zero hPosition hAt rfl]
      exact ⟨freed_stepOk hInv hAt hNone, fun q =>
        .refl _ _⟩
  | copyin j msgtName deadok =>
      unfold entryStep at hStep
      dsimp only at hStep
      split_ifs at hStep with hType
      rcases hOk.entry hType with ⟨hEntry, hQuiet⟩
      rcases Option.bind_eq_some_iff.mp hStep with
        ⟨type, hMsgt, hRest⟩
      rcases Option.bind_eq_some_iff.mp hRest with
        ⟨out, hRun, hEnd⟩
      cases hEnd
      rw [stepLeak_zero hPosition hAt rfl]
      exact copiedIn_stepOk hInv hAt hQuiet
        (ipcRightCopyin_movesIn hEntry (hInv.covers hMem)
          (toOption_some hMsgt) (toOption_some hRun))
  | copyinTwo j =>
      unfold entryStep at hStep
      dsimp only at hStep
      split_ifs at hStep with hType
      rcases hOk.entry hType with ⟨hEntry, hQuiet⟩
      rcases Option.bind_eq_some_iff.mp hStep with
        ⟨out, hRun, hEnd⟩
      cases hEnd
      rw [stepLeak_zero hPosition hAt rfl]
      exact copiedIn_stepOk hInv hAt hQuiet
        (ipcRightCopyinTwo_movesIn hEntry j
          (toOption_some hRun))
  | copyinUndo j msgtName object soright =>
      rcases Option.bind_eq_some_iff.mp hStep with
        ⟨type, _, hRest⟩
      by_cases hObject : object = ioDead ∨
          (s.ports object).ipActive = false ∧
            s.hasNaked object type = true
      · rw [if_pos hObject] at hRest
        rcases Option.bind_eq_some_iff.mp hRest with
          ⟨⟨x, hash⟩, hRun, hEnd⟩
        have hIs : t = undone s i x object type := by
          cases hEnd
          rfl
        rw [stepLeak_zero hPosition hAt rfl, hIs]
        refine undone_stepOk hInv hAt hObject
          (ipcRightCopyinUndo_dead
            (hOk.imp id fun hBoth => hBoth.1) ?_
            (toOption_some hRun))
        intro hNot
        exact (hObject.resolve_left hNot).1
      · rw [if_neg hObject] at hRest
        cases hRest
  | copyout j msgtName overflow =>
      unfold entryStep at hStep
      dsimp only at hStep
      split_ifs at hStep with hHas
      rcases Option.bind_eq_some_iff.mp hStep with
        ⟨out, hRun, hEnd⟩
      cases hEnd
      rw [stepLeak_zero hPosition hAt rfl]
      refine copiedOut_stepOk hInv hAt hHas.1 ?_
      refine ipcRightCopyout_movesOut ?_ hHas.2
        (toOption_some hRun)
      rcases hOk with ⟨hNone, _⟩ | ⟨hEntry, _⟩
      · exact Or.inl hNone
      · exact Or.inr hEntry
  | check j | dealloc j => exact dropStep_stepOk hInv hPosition hAt hStep
  | dnrequest j immediate notify slot
  | delta j right delta circular timestamp
  | destroy j circular timestamp
  | clean j circular timestamp =>
      exact dropStep_stepOk hInv hPosition hAt hStep
  | _ => cases hPosition

end EntrySteps

end Ipc

end OsfMach
