import OsfMach.Ipc.RightCopyout

/-
  Every right is an entry's, or naked, and the counts of its
  port cover it.

  A step changes an entry at one place of the list, one port
  and the naked rights of that port.

  Main declarations:
    * `owed`, `RightsInv`
    * `Turn`
    * `Turn.inv`, `Turn.excess`
-/

------
-- Rights of Ports
------

namespace OsfMach

namespace Ipc

open List
open Lib

/- Whether an entry bears a right of a kind to a port. -/
def bearsRight
    (kind : EntryBits)
    (p : Nat)
    (h : Holding) : Bool :=
  Bearing kind h.entry && h.entry.ieObject = p

/- How many entries bear a right of a kind to a port. -/
def owed
    (s : RightState)
    (kind : EntryBits)
    (p : Nat) : Nat :=
  s.entries.countP (bearsRight kind p)

/- A space and a name in it. -/
def Holding.key (h : Holding) : Nat × Nat := (h.space, h.name)

/- An entry denotes no right, or a right that it may denote. -/
def HoldsOk (s : RightState) (h : Holding) : Prop :=
  ieBitsType h.entry.ieBits = machPortTypeNone ∧
      h.entry.ieRequest = 0 ∨
    EntryOk h.space h.name
        (s.ports h.entry.ieObject).toRightPort h.entry ∧
      SetQuiet h.entry

structure RightsInv (s : RightState) : Prop where
  keys : (s.entries.map Holding.key).Nodup
  names : ∀ h ∈ s.entries, h.name ≠ machPortNull
  entries : ∀ h ∈ s.entries, HoldsOk s h
  limbo : ∀ p, s.limbo p = true →
    (s.ports p).ipActive = true ∧
      (s.ports p).ipReceiverName = machPortNull
  sends : ∀ p, (s.ports p).ipActive = true →
    owed s machPortTypeSend p + s.sends p ≤
      (s.ports p).ipSrights
  onces : ∀ p,
    owed s machPortTypeSendOnce p + s.onces p ≤
      (s.ports p).ipSorights
  oncesActive : ∀ p, (s.ports p).ipActive = true →
    owed s machPortTypeSendOnce p + s.onces p =
      (s.ports p).ipSorights

theorem RightsInv.start : RightsInv .start := by
  refine ⟨nodup_nil, ?_, ?_, ?_, ?_, ?_, ?_⟩
  · intro h hMem
    cases hMem
  · intro h hMem
    cases hMem
  · intro p hLimbo
    cases hLimbo
  · intro p hActive
    cases hActive
  · intro p
    exact Nat.le_refl _
  · intro p hActive
    cases hActive

------
-- Places in the List
------

/- An entry that is there or not, as a list. -/
def placed
    (space name : Nat)
    (e : Option EntryFields) : List Holding :=
  (e.map fun x => ⟨space, name, x⟩).toList

theorem putEntry_split
    {l : List Holding}
    {i : Nat}
    {h : Holding}
    (e : Option EntryFields)
    (hAt : l[i]? = some h) :
    ∃ xs ys, l = xs ++ (placed h.space h.name (some h.entry) ++
        ys) ∧
      putEntry l i e = xs ++ (placed h.space h.name e ++
        ys) := by
  refine ⟨l.take i, l.drop (i + 1), ?_, ?_⟩
  · rcases List.getElem?_eq_some_iff.mp hAt with ⟨hLt, hGet⟩
    calc
      l = l.take i ++ l.drop i := (take_append_drop i l).symm
      _ = l.take i ++ (h :: l.drop (i + 1)) := by
        rw [drop_eq_getElem_cons hLt, hGet]
  · unfold putEntry
    rw [hAt]
    cases e with
    | none => rfl
    | some x => rfl

/- What the entry at one place counts as. -/
theorem countP_placed
    {kind : EntryBits}
    {p : Nat}
    {space name : Nat}
    {e : Option EntryFields}
    {xs ys : List Holding}
    (hObject : ∀ x, e = some x →
      x.ieObject = p ∨ Bearing kind x = false) :
    (xs ++ (placed space name e ++ ys)).countP
        (bearsRight kind p) =
      (xs ++ ys).countP (bearsRight kind p) +
        (bears kind e).toNat := by
  rw [countP_append, countP_append, countP_append]
  have hPlace : (placed space name e).countP
      (bearsRight kind p) = (bears kind e).toNat := by
    cases e with
    | none => rfl
    | some x =>
        have hBears : bearsRight kind p ⟨space, name, x⟩ =
            Bearing kind x := by
          unfold bearsRight
          rcases hObject x rfl with hSame | hNone
          · simp [hSame]
          · simp [hNone]
        unfold placed
        rw [Option.map_some, Option.toList_some,
          countP_singleton, hBears]
        dsimp only [bears]
        cases Bearing kind x with
        | false => rfl
        | true => rfl
  omega

/- At another port it counts as nothing. -/
theorem countP_placed_other
    {kind : EntryBits}
    {p q : Nat}
    {space name : Nat}
    {e : Option EntryFields}
    {xs ys : List Holding}
    (hObject : ∀ x, e = some x →
      x.ieObject = p ∨ Bearing kind x = false)
    (hNe : q ≠ p) :
    (xs ++ (placed space name e ++ ys)).countP
        (bearsRight kind q) =
      (xs ++ ys).countP (bearsRight kind q) := by
  rw [countP_append, countP_append, countP_append]
  have hPlace : (placed space name e).countP
      (bearsRight kind q) = 0 := by
    rw [countP_eq_zero]
    intro h hMem
    cases e with
    | none => cases hMem
    | some x =>
        cases mem_singleton.mp hMem
        unfold bearsRight
        rcases hObject x rfl with hSame | hNone
        · simp [hSame, hNe.symm]
        · simp [hNone]
  omega

------
-- Turns
------

/- An entry of a port, or one that bears no right. -/
def IsOf (p : Nat) (e : EntryFields) : Prop :=
  e.ieObject = p ∨
    Bearing machPortTypeSend e = false ∧
      Bearing machPortTypeSendOnce e = false ∧
      Bearing machPortTypeReceive e = false

/-
  What a step does: `old` is the entry that it changed, `new`
  the entry that it left, and `p` the port. `leak` is by how
  much the count of the send rights is then too high.
-/
structure Turn
    (s t : RightState)
    (p space name : Nat)
    (old new : Option EntryFields)
    (leak : Nat) : Prop where
  place : ∃ xs ys,
    s.entries = xs ++ (placed space name old ++ ys) ∧
      t.entries = xs ++ (placed space name new ++ ys)
  ports : ∀ q, q ≠ p → t.ports q = s.ports q
  frame : ∀ q, q ≠ p → t.sends q = s.sends q ∧
    t.onces q = s.onces q ∧ t.limbo q = s.limbo q
  fresh : new.isSome = true → old.isSome = true ∨
    s.Unnamed space name
  oldObject : ∀ e, old = some e → IsOf p e
  newObject : ∀ e, new = some e → IsOf p e
  holds : ∀ e, new = some e → HoldsOk t ⟨space, name, e⟩
  receiver : SameReceiver (s.ports p) (t.ports p) ∨
    bears machPortTypeReceive old = true ∨
    (s.ports p).ipReceiverName = machPortNull
  limbo : t.limbo p = true →
    (t.ports p).ipActive = true ∧
      (t.ports p).ipReceiverName = machPortNull
  active : (t.ports p).ipActive = true →
    (s.ports p).ipActive = true
  sends : (t.ports p).ipActive = true →
    (t.ports p).ipSrights +
        (bears machPortTypeSend old).toNat + s.sends p =
      (s.ports p).ipSrights +
        (bears machPortTypeSend new).toNat + t.sends p + leak
  onces :
    (bears machPortTypeSendOnce new).toNat + t.onces p +
        (s.ports p).ipSorights ≤
      (bears machPortTypeSendOnce old).toNat + s.onces p +
        (t.ports p).ipSorights
  oncesActive : (t.ports p).ipActive = true →
    (bears machPortTypeSendOnce new).toNat + t.onces p +
        (s.ports p).ipSorights =
      (bears machPortTypeSendOnce old).toNat + s.onces p +
        (t.ports p).ipSorights

namespace Turn

variable {s t : RightState} {p space name leak : Nat}
variable {old new : Option EntryFields}

/- The rights of entries before and after. -/
theorem owed_eq
    {kind : EntryBits}
    (h : Turn s t p space name old new leak)
    (hKind : ∀ e, IsOf p e →
      e.ieObject = p ∨ Bearing kind e = false) :
    owed t kind p + (bears kind old).toNat =
        owed s kind p + (bears kind new).toNat ∧
      ∀ q, q ≠ p → owed t kind q = owed s kind q := by
  rcases h.place with ⟨xs, ys, hOld, hPut⟩
  have hOldObject : ∀ e, old = some e →
      e.ieObject = p ∨ Bearing kind e = false :=
    fun e hEq => hKind e (h.oldObject e hEq)
  have hNew : ∀ e, new = some e →
      e.ieObject = p ∨ Bearing kind e = false :=
    fun e hEq => hKind e (h.newObject e hEq)
  unfold owed
  rw [hOld, hPut]
  constructor
  · rw [countP_placed hOldObject, countP_placed hNew]
    omega
  · intro q hNe
    rw [countP_placed_other hOldObject hNe,
      countP_placed_other hNew hNe]

/- What is left of the entries apart from the one. -/
theorem mem_or
    {h : Holding}
    (hTurn : Turn s t p space name old new leak)
    (hMem : h ∈ t.entries) :
    (∃ e, new = some e ∧ h = ⟨space, name, e⟩) ∨
      h ∈ s.entries ∧
        (∀ e, old = some e →
          (s.entries.map Holding.key).Nodup →
            h.key ≠ (space, name)) := by
  rcases hTurn.place with ⟨xs, ys, hOld, hPut⟩
  rw [hPut] at hMem
  have hCases : h ∈ placed space name new ∨ h ∈ xs ++ ys := by
    rw [mem_append, mem_append] at hMem
    rw [mem_append]
    rcases hMem with hLeft | hPlace | hRight
    · exact Or.inr (Or.inl hLeft)
    · exact Or.inl hPlace
    · exact Or.inr (Or.inr hRight)
  rcases hCases with hPlace | hRest
  · cases new with
    | none => cases hPlace
    | some e =>
        exact Or.inl ⟨e, rfl, mem_singleton.mp hPlace⟩
  · refine Or.inr ⟨?_, ?_⟩
    · rw [hOld, mem_append, mem_append]
      rcases mem_append.mp hRest with hLeft | hRight
      · exact Or.inl hLeft
      · exact Or.inr (Or.inr hRight)
    · intro e hEq hKeys hSame
      rw [hOld, hEq] at hKeys
      have hNodup : ((xs ++ (⟨space, name, e⟩ ::
          ys)).map Holding.key).Nodup := hKeys
      rw [map_append, map_cons, nodup_middle,
        nodup_cons, ← map_append] at hNodup
      apply hNodup.1
      have hKey := mem_map_of_mem (f := Holding.key) hRest
      rw [hSame] at hKey
      exact hKey

theorem keys
    (h : Turn s t p space name old new leak)
    (hKeys : (s.entries.map Holding.key).Nodup) :
    (t.entries.map Holding.key).Nodup := by
  rcases h.place with ⟨xs, ys, hOld, hPut⟩
  rw [hPut]
  have hRest : ((xs ++ ys).map Holding.key).Nodup := by
    refine List.Nodup.sublist ?_ hKeys
    rw [hOld]
    apply List.Sublist.map
    exact List.Sublist.append (List.Sublist.refl xs)
      (sublist_append_right _ ys)
  cases new with
  | none => exact hRest
  | some e =>
      have hPlace : ((xs ++ (⟨space, name, e⟩ ::
          ys)).map Holding.key).Nodup := by
        rw [map_append, map_cons, nodup_middle,
          nodup_cons, ← map_append]
        refine ⟨?_, hRest⟩
        rcases h.fresh rfl with hSome | hUnnamed
        · cases hOldIs : old with
          | none =>
              rw [hOldIs] at hSome
              cases hSome
          | some x =>
              rw [hOld, hOldIs] at hKeys
              have hNodup : ((xs ++ (⟨space, name, x⟩ ::
                  ys)).map Holding.key).Nodup := hKeys
              rw [map_append, map_cons, nodup_middle,
                nodup_cons, ← map_append] at hNodup
              exact hNodup.1
        · intro hMem
          rcases mem_map.mp hMem with ⟨x, hx, hKey⟩
          cases hKey
          apply hUnnamed.2 x ?_ ⟨rfl, rfl⟩
          rw [hOld, mem_append, mem_append]
          rcases mem_append.mp hx with hLeft | hRight
          · exact Or.inl hLeft
          · exact Or.inr (Or.inr hRight)
      exact hPlace

/- Another entry denotes what it denoted. -/
theorem holds_other
    {h : Holding}
    (hTurn : Turn s t p space name old new leak)
    (hInv : RightsInv s)
    (hMem : h ∈ s.entries)
    (hOther : ∀ e, old = some e →
      (s.entries.map Holding.key).Nodup →
        h.key ≠ (space, name)) :
    HoldsOk t h := by
  rcases hInv.entries h hMem with hNone | ⟨hOk, hQuiet⟩
  · exact Or.inl hNone
  · refine Or.inr ⟨?_, hQuiet⟩
    by_cases hAt : h.entry.ieObject = p
    · rw [hAt] at hOk ⊢
      rcases hTurn.receiver with hSame | hOld | hLimbo
      · exact hOk.congr hSame.active hSame.receiver
          hSame.receiverName
      · apply hOk.of_not_receive
        by_contra hBears
        rw [Bool.not_eq_false] at hBears
        cases hOldIs : old with
        | none =>
            rw [hOldIs] at hOld
            cases hOld
        | some e =>
            rw [hOldIs] at hOld
            rcases hTurn.place with ⟨xs, ys, hSplit, _⟩
            have hIn : ⟨space, name, e⟩ ∈ s.entries := by
              rw [hSplit, hOldIs]
              exact mem_append_right _
                (mem_append_left _ (mem_singleton.mpr rfl))
            have hObject : e.ieObject = p := by
              rcases hTurn.oldObject e hOldIs with
                hSame | ⟨_, _, hNone⟩
              · exact hSame
              · have hBear : Bearing machPortTypeReceive e =
                    true := hOld
                rw [hNone] at hBear
                cases hBear
            rcases hInv.entries _ hIn with ⟨hNone, _⟩ | ⟨hIs, _⟩
            · have hBear : Bearing machPortTypeReceive e =
                  true := hOld
              rw [bearing_of_type hNone] at hBear
              exact absurd hBear (by decide)
            · rw [hObject] at hIs
              rcases hIs.receiver_facts hOld with
                ⟨_, _, hSpace, hName⟩
              rcases hOk.receiver_facts hBears with
                ⟨_, _, hSpace', hName'⟩
              apply hOther e hOldIs hInv.keys
              unfold Holding.key
              rw [← hSpace', ← hName', hSpace, hName]
      · apply hOk.of_not_receive
        by_contra hBears
        rw [Bool.not_eq_false] at hBears
        rcases hOk.receiver_facts hBears with ⟨_, _, _, hName⟩
        exact hInv.names h hMem (hName.symm.trans hLimbo)
    · rw [hTurn.ports _ hAt]
      exact hOk

section Turn

variable (h : Turn s t p space name old new leak)

include h

theorem owed_send :
    owed t machPortTypeSend p +
          (bears machPortTypeSend old).toNat =
        owed s machPortTypeSend p +
          (bears machPortTypeSend new).toNat ∧
      ∀ q, q ≠ p → owed t machPortTypeSend q =
        owed s machPortTypeSend q := by
  apply h.owed_eq
  rintro e (hSame | ⟨hNone, _, _⟩)
  · exact Or.inl hSame
  · exact Or.inr hNone

theorem owed_sendOnce :
    owed t machPortTypeSendOnce p +
          (bears machPortTypeSendOnce old).toNat =
        owed s machPortTypeSendOnce p +
          (bears machPortTypeSendOnce new).toNat ∧
      ∀ q, q ≠ p → owed t machPortTypeSendOnce q =
        owed s machPortTypeSendOnce q := by
  apply h.owed_eq
  rintro e (hSame | ⟨_, hNone, _⟩)
  · exact Or.inl hSame
  · exact Or.inr hNone

/- A step keeps the invariant. -/
theorem inv
    (hInv : RightsInv s)
    (hName : name ≠ machPortNull ∨ new = none) :
    RightsInv t := by
  rcases h.owed_send with ⟨hSend, hSends⟩
  rcases h.owed_sendOnce with ⟨hOnce, hOnces⟩
  refine ⟨h.keys hInv.keys, ?_, ?_, ?_, ?_, ?_, ?_⟩
  · intro x hMem
    rcases h.mem_or hMem with ⟨e, hNew, hIs⟩ | ⟨hOld, _⟩
    · rcases hName with hNonzero | hNone
      · rw [hIs]
        exact hNonzero
      · rw [hNone] at hNew
        cases hNew
    · exact hInv.names x hOld
  · intro x hMem
    rcases h.mem_or hMem with ⟨e, hNew, hIs⟩ | ⟨hOld, hOther⟩
    · rw [hIs]
      exact h.holds e hNew
    · exact h.holds_other hInv hOld hOther
  · intro q hLimbo
    by_cases hAt : q = p
    · subst hAt
      exact h.limbo hLimbo
    · rw [(h.frame q hAt).2.2] at hLimbo
      rw [h.ports q hAt]
      exact hInv.limbo q hLimbo
  · intro q hActive
    by_cases hAt : q = p
    · subst hAt
      have hBefore := hInv.sends q (h.active hActive)
      have hLaw := h.sends hActive
      omega
    · rw [h.ports q hAt] at hActive ⊢
      rw [hSends q hAt, (h.frame q hAt).1]
      exact hInv.sends q hActive
  · intro q
    by_cases hAt : q = p
    · subst hAt
      have hBefore := hInv.onces q
      have hLaw := h.onces
      omega
    · rw [h.ports q hAt, hOnces q hAt, (h.frame q hAt).2.1]
      exact hInv.onces q
  · intro q hActive
    by_cases hAt : q = p
    · subst hAt
      have hBefore := hInv.oncesActive q (h.active hActive)
      have hLaw := h.oncesActive hActive
      omega
    · rw [h.ports q hAt] at hActive ⊢
      rw [hOnces q hAt, (h.frame q hAt).2.1]
      exact hInv.oncesActive q hActive

/- By how much the count of the send rights is too high. -/
theorem excess
    (q : Nat)
    (hActive : (t.ports q).ipActive = true) :
    (s.ports q).ipActive = true ∧
      (t.ports q).ipSrights + owed s machPortTypeSend q +
          s.sends q =
        (s.ports q).ipSrights + owed t machPortTypeSend q +
          t.sends q + (if q = p then leak else 0) := by
  rcases h.owed_send with ⟨hSend, hSends⟩
  by_cases hAt : q = p
  · subst hAt
    have hLaw := h.sends hActive
    refine ⟨h.active hActive, ?_⟩
    rw [if_pos rfl]
    omega
  · rw [h.ports q hAt] at hActive ⊢
    rw [hSends q hAt, (h.frame q hAt).1, if_neg hAt]
    exact ⟨hActive, rfl⟩

end Turn

end Turn

end Ipc

end OsfMach
