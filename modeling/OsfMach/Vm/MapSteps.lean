import OsfMach.Vm.MapProg
import OsfMach.Vm.MapSimplify

/-
  What the parts of programs on a map do to a map.

  Key definitions include:
    * `MapOk`, `Steady`

-/

------
-- Maps and Pointers
------

namespace OsfMach

namespace Vm

open Lib
open Lib.Prog

variable {m : VmMap} {i : Nat} {e : VmMapEntry}
variable {l r : List VmMapEntry} {f : VmMapEntry → VmMapEntry}
variable {address : Nat}

/- A map whose addresses are words. -/
structure MapOk (m : VmMap) : Prop extends MapInv m where
  word : m.maxOffset < offsetModulus

/- A map that is as it should be, with the same bounds. -/
structure Steady (m m' : VmMap) : Prop where
  ok : MapOk m'
  minOffset : m'.minOffset = m.minOffset
  maxOffset : m'.maxOffset = m.maxOffset

theorem MapOk.steady
    {m m' : VmMap}
    (h : MapOk m)
    (hInv : MapInv m')
    (hMin : m'.minOffset = m.minOffset)
    (hMax : m'.maxOffset = m.maxOffset) :
    Steady m m' := by
  refine ⟨⟨hInv, ?_⟩, hMin, hMax⟩
  rw [hMax]
  exact h.word

theorem MapOk.refl
    (h : MapOk m) :
    Steady m m :=
  ⟨h, rfl, rfl⟩

theorem Steady.trans
    {m m₁ m₂ : VmMap}
    (h₁ : Steady m m₁)
    (h₂ : Steady m₁ m₂) :
    Steady m m₂ :=
  ⟨h₂.ok, h₂.minOffset.trans h₁.minOffset,
    h₂.maxOffset.trans h₁.maxOffset⟩

theorem mem_of_find
    (h : m.find i = some e) :
    e ∈ m.entries ∧ e.entryId = i := by
  rcases exists_split h with ⟨hId, l, r, hSplit⟩
  refine ⟨?_, hId⟩
  rw [hSplit]
  simp

section MapOrder

variable (h : MapOrder m)

include h

theorem MapOrder.find_eq
    (he : e ∈ m.entries) :
    m.find e.entryId = some e := by
  rcases List.append_of_mem he with ⟨l, r, hSplit⟩
  have hIds := h.idsOf hSplit
  exact find_split hIds hSplit

/- Entries behind the same pointer are the same. -/
theorem MapOrder.eq_of_id
    {e e' : VmMapEntry}
    (he : e ∈ m.entries)
    (he' : e' ∈ m.entries)
    (hId : e.entryId = e'.entryId) :
    e = e' := by
  have hFind := h.find_eq he
  rw [hId, h.find_eq he'] at hFind
  exact (Option.some.inj hFind).symm

/- Everything about an entry in its place. -/
theorem MapOrder.place
    (he : e ∈ m.entries) :
    m.minOffset ≤ e.vmeStart ∧ e.vmeStart < e.vmeEnd ∧
      e.vmeEnd ≤ m.maxOffset :=
  Tiles.of_mem h.tiles he

theorem MapOrder.left_le
    (hSplit : m.entries = l ++ e :: r) :
    ∀ x ∈ l, x.vmeEnd ≤ e.vmeStart := by
  have hTiles := h.tilesOf hSplit
  rcases tiles_append.mp hTiles with ⟨c, hLeft, hRight⟩
  intro x hx
  exact Nat.le_trans (Tiles.of_mem hLeft hx).2.2 hRight.1

theorem MapOrder.right_ge
    (hSplit : m.entries = l ++ e :: r) :
    ∀ x ∈ r, e.vmeEnd ≤ x.vmeStart := by
  have hTiles := h.tilesOf hSplit
  rcases tiles_append.mp hTiles with ⟨c, _, hRight⟩
  intro x hx
  exact (Tiles.of_mem hRight.2.2 hx).1

/- Two entries with an address in common are the same. -/
theorem MapOrder.eq_of_inside
    {x e : VmMapEntry}
    {a : Nat}
    (hx : x ∈ m.entries)
    (he : e ∈ m.entries)
    (hInX : x.vmeStart ≤ a ∧ a < x.vmeEnd)
    (hInE : e.vmeStart ≤ a ∧ a < e.vmeEnd) :
    x = e := by
  rcases List.append_of_mem he with ⟨l, r, hSplit⟩
  rw [hSplit, List.mem_append, List.mem_cons] at hx
  rcases hx with hLeft | hEq | hRight
  · have hEnd := h.left_le hSplit x hLeft
    omega
  · exact hEq
  · have hStart := h.right_ge hSplit x hRight
    omega

/- The entries up to an entry end where it does, or below. -/
theorem MapOrder.upTo_le
    (hSplit : m.entries = l ++ e :: r) :
    ∀ x ∈ l ++ [e], x.vmeEnd ≤ e.vmeEnd := by
  intro x hx
  rcases List.mem_append.mp hx with hl | hOne
  · have hBefore := h.left_le hSplit x hl
    have hIn := h.place (e := e) (by rw [hSplit]; simp)
    omega
  · exact Nat.le_of_eq
      (congrArg _ (List.mem_singleton.mp hOne))

/- What holds of the next entry holds of those after it. -/
theorem MapOrder.right_of_head
    {a : Nat}
    (hSplit : m.entries = l ++ r)
    (hHead : ∀ x ∈ r.head?, a ≤ x.vmeStart) :
    ∀ x ∈ r, a ≤ x.vmeStart := by
  cases r with
  | nil =>
      intro x hx
      cases hx
  | cons y r =>
      intro x hx
      have hy : a ≤ y.vmeStart := hHead y rfl
      rcases List.mem_cons.mp hx with rfl | hTail
      · exact hy
      · have hAfter := h.right_ge hSplit x hTail
        have hIn := h.place (e := y) (by
          rw [hSplit]
          simp)
        omega

end MapOrder

------
-- Reading
------

section Reading

variable {β : Type} {m : VmMap} {Q : β → VmMap → Prop}

theorem ensures_deref
    {i : Option Nat}
    {f : VmMapEntry → MapProg β}
    (hf : ∀ e, e ∈ m.entries → i = some e.entryId →
      Ensures (f e) m Q) :
    Ensures (MapProg.deref i >>= f) m Q := by
  unfold MapProg.deref
  rw [ensures_bind, ensures_bind, ensures_get]
  cases hFind : i.bind m.find with
  | none =>
      exact ensures_stuck
  | some e =>
      rw [ensures_pure]
      rcases Option.bind_eq_some_iff.mp hFind with
        ⟨j, hi, hj⟩
      rcases mem_of_find hj with ⟨hMem, hId⟩
      exact hf e hMem (by rw [hi, hId])

/- A lookup that finds no entry leaves the hint below. -/
theorem lookupEntry_below
    (hNot : (m.lookupEntry address).1 = false) :
    (m.lookupEntry address).2.2.hint =
      (m.lookupEntry address).2.1 := by
  unfold VmMap.lookupEntry at hNot ⊢
  cases hFind : m.lookupFrom.bind m.find with
  | none => rfl
  | some e =>
      rw [hFind] at hNot
      dsimp only at hNot ⊢
      split_ifs at hNot ⊢
      · rfl
      · rfl

theorem ensures_lookup_hint
    {f : Bool × Option Nat → MapProg β}
    (h : MapOk m)
    (hf : ∀ found i m', Looked m address found i m' →
      Steady m m' → m'.entries = m.entries →
      (found = false → m'.hint = i) →
      Ensures (f (found, i)) m' Q) :
    Ensures (MapProg.lookupEntry address >>= f) m Q := by
  unfold MapProg.lookupEntry
  rw [ensures_bind, ensures_bind, ensures_get, ensures_bind,
    ensures_set, ensures_pure]
  have hLook := h.toMapCore.lookupEntry address
  rcases hLook.inv h.toMapInv with ⟨hInv, hEntries⟩
  rcases hLook.same with ⟨hint, hEq, _⟩
  apply hf _ _ _ hLook
  · refine h.steady hInv ?_ ?_
    · rw [hEq]
      rfl
    · rw [hEq]
      rfl
  · exact hEntries
  · exact lookupEntry_below

/- A lookup finds the entry around an address, or moves. -/
theorem ensures_lookup
    {f : Bool × Option Nat → MapProg β}
    (h : MapOk m)
    (hf : ∀ found i m', Looked m address found i m' →
      Steady m m' → m'.entries = m.entries →
      Ensures (f (found, i)) m' Q) :
    Ensures (MapProg.lookupEntry address >>= f) m Q := by
  apply ensures_lookup_hint h
  intro found i m' hLook hSteady hEntries _
  exact hf found i m' hLook hSteady hEntries

end Reading

------
-- Changing Entries in Place
------

theorem modify_absent
    (h : ∀ e ∈ m.entries, e.entryId ≠ i) :
    m.modify i f = m := by
  have hSame :
      m.entries.map
          (fun e => if e.entryId = i then f e else e) =
        m.entries := by
    nth_rewrite 2 [← List.map_id m.entries]
    apply List.map_congr_left
    intro e he
    rw [if_neg (h e he)]
    rfl
  unfold VmMap.modify
  rw [hSame]

theorem MapOk.modify
    (h : MapOk m)
    (hf : KeepsRange f)
    (i : Nat) :
    Steady m (m.modify i f) := by
  by_cases hIn : ∃ e ∈ m.entries, e.entryId = i
  · rcases hIn with ⟨e, he, hId⟩
    subst hId
    rcases List.append_of_mem he with ⟨l, r, hSplit⟩
    exact h.steady (h.toMapInv.modify hf hSplit) rfl rfl
  · rw [modify_absent (fun e he hId => hIn ⟨e, he, hId⟩)]
    exact h.refl

theorem mem_modify
    (he : e ∈ m.entries)
    (f : VmMapEntry → VmMapEntry) :
    f e ∈ (m.modify e.entryId f).entries := by
  apply List.mem_map.mpr
  exact ⟨e, he, if_pos rfl⟩

/- An entry of a changed map was in the same place. -/
theorem mem_of_modify
    (hf : KeepsRange f)
    (he : e ∈ (m.modify i f).entries) :
    ∃ x ∈ m.entries, x.entryId = e.entryId ∧
      x.vmeStart = e.vmeStart ∧ x.vmeEnd = e.vmeEnd := by
  rcases List.mem_map.mp he with ⟨x, hx, hEq⟩
  refine ⟨x, hx, ?_⟩
  by_cases hId : x.entryId = i
  · rw [if_pos hId] at hEq
    rw [← hEq]
    exact ⟨(hf.entryId x).symm, (hf.vmeStart x).symm,
      (hf.vmeEnd x).symm⟩
  · rw [if_neg hId] at hEq
    rw [hEq]
    exact ⟨rfl, rfl, rfl⟩

------
-- Clipping
------

theorem updateFirstFree_entries
    (m : VmMap)
    (i : Option Nat) :
    (m.updateFirstFree i).entries = m.entries := by
  unfold VmMap.updateFirstFree
  cases m.bounds i with
  | none => rfl
  | some b => rfl

theorem updateFirstFree_nextEntry
    (m : VmMap)
    (i : Option Nat) :
    (m.updateFirstFree i).nextEntry = m.nextEntry := by
  unfold VmMap.updateFirstFree
  cases m.bounds i with
  | none => rfl
  | some b => rfl

section Clip

variable {β : Type}

end Clip

------
-- Growing and Inserting
------

/- A range between entries of a map. -/
structure Gap
    (m : VmMap)
    (l r : List VmMapEntry)
    (start stop : Nat) : Prop where
  split : m.entries = l ++ r
  below : ∀ x ∈ l, x.vmeEnd ≤ start
  above : ∀ x ∈ r, stop ≤ x.vmeStart
  minLe : m.minOffset ≤ start
  leMax : stop ≤ m.maxOffset

end Vm

end OsfMach
