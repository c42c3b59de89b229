import OsfMach.Vm.MapSteps

/-
  What `vm_map_lookup_entry` answers.

  The answer depends on the entries and the address alone:
  whatever entry the hint is, it is the last entry that
  starts at or below the address.
-/

------
-- The Answer of a Lookup
------

namespace OsfMach

namespace Vm

open List

variable {m : VmMap} {address : Nat}
variable {found : Bool} {i : Option Nat} {m' : VmMap}
variable {l r : List VmMapEntry}

/- A pointer to an entry, or to the header. -/
def VmMap.Legal (m : VmMap) (i : Option Nat) : Prop :=
  ∀ j, i = some j → ∃ e ∈ m.entries, e.entryId = j

/- The entries that start at or below an address. -/
def VmMap.upTo (m : VmMap) (address : Nat) : List VmMapEntry :=
  m.entries.takeWhile fun e => decide (e.vmeStart ≤ address)

def VmMapEntry.Contains (e : VmMapEntry) (a : Nat) : Prop :=
  e.vmeStart ≤ a ∧ a < e.vmeEnd

theorem upTo_eq
    (hSplit : m.entries = l ++ r)
    (hLeft : ∀ x ∈ l, x.vmeStart ≤ address)
    (hRight : ∀ x ∈ r, address < x.vmeStart) :
    m.upTo address = l := by
  have hNone : r.takeWhile
      (fun e => decide (e.vmeStart ≤ address)) = [] := by
    cases r with
    | nil => rfl
    | cons x r =>
        have hAbove := hRight x mem_cons_self
        rw [takeWhile_cons_of_neg]
        simpa using hAbove
  unfold VmMap.upTo
  rw [hSplit, takeWhile_append_of_pos, hNone, append_nil]
  intro x hx
  exact decide_eq_true (hLeft x hx)

/- An entry that contains an address is the last of these. -/
theorem MapOrder.upTo_of_contains
    {e : VmMapEntry}
    (h : MapOrder m)
    (he : e ∈ m.entries)
    (hIn : e.Contains address) :
    lastId (m.upTo address) = some e.entryId := by
  rcases append_of_mem he with ⟨l, r, hSplit⟩
  have hUpTo : m.upTo address = l ++ [e] := by
    apply upTo_eq (r := r)
    · rw [hSplit, append_assoc, singleton_append]
    · intro x hx
      rcases mem_append.mp hx with hl | hLast
      · have hx := h.place (hSplit ▸ mem_append_left _ hl)
        have hEnd := h.left_le hSplit x hl
        have hStart := hIn.1
        omega
      · rw [mem_singleton.mp hLast]
        exact hIn.1
    · intro x hx
      exact Nat.lt_of_lt_of_le hIn.2 (h.right_ge hSplit x hx)
  rw [hUpTo]
  simp [lastId]

theorem Looked.found_iff
    (h : Looked m address found i m') :
    found = true ↔ ∃ e ∈ m.entries, e.Contains address := by
  constructor
  · intro hFound
    rcases h.inside hFound with ⟨l, e, r, hSplit, _, hIn⟩
    refine ⟨e, ?_, hIn⟩
    rw [hSplit]
    exact mem_append_cons_self
  · rintro ⟨e, he, hIn⟩
    cases hFound : found with
    | true => rfl
    | false =>
        rcases h.outside hFound with
          ⟨l, r, hSplit, _, hLeft, hRight⟩
        rw [hSplit] at he
        rcases mem_append.mp he with hl | hr
        · exact absurd hIn.2 (Nat.not_lt.mpr (hLeft e hl))
        · exact absurd hIn.1 (Nat.not_le.mpr (hRight e hr))

theorem Looked.entry_eq
    (h : Looked m address found i m')
    (hOrder : MapOrder m) :
    i = lastId (m.upTo address) := by
  cases hFound : found with
  | true =>
      rcases h.inside hFound with
        ⟨l, e, r, hSplit, hId, hIn⟩
      have he : e ∈ m.entries := by
        rw [hSplit]
        exact mem_append_cons_self
      exact hId.trans (hOrder.upTo_of_contains he hIn).symm
  | false =>
      rcases h.outside hFound with
        ⟨l, r, hSplit, hId, hLeft, hRight⟩
      have hStart : ∀ x ∈ l, x.vmeStart ≤ address := by
        intro x hx
        have hx' := hOrder.place
          (hSplit ▸ mem_append_left r hx)
        have hEnd := hLeft x hx
        omega
      rw [upTo_eq hSplit hStart hRight]
      exact hId

/-
  With any legal hint a lookup finds the entry that contains
  the address if there is one. It hands out the last entry
  that starts at or below the address, or the header.
-/
theorem vmMapLookupEntry_exact
    {hint : Option Nat}
    (h : MapInv m)
    (hHint : m.Legal hint) :
    ∃ found hint',
      (m.saveHint hint).lookupEntry address =
          (found, lastId (m.upTo address),
            m.saveHint hint') ∧
        m.Legal hint' ∧
        (found = true ↔
          ∃ e ∈ m.entries, e.Contains address) ∧
        ∀ e ∈ m.entries, e.Contains address →
          lastId (m.upTo address) = some e.entryId ∧
            ∀ x ∈ m.entries, x.Contains address → x = e := by
  have hCore : MapCore (m.saveHint hint) :=
    { h.toMapCore with hint := hHint }
  have hAny := hCore.lookupEntry address
  rcases hRun : (m.saveHint hint).lookupEntry address with
    ⟨found, i, m'⟩
  rw [hRun] at hAny
  -- an answer does not show which hint there was
  have hLook : Looked m address found i m' :=
    ⟨hAny.same, hAny.inside, hAny.outside⟩
  rcases hLook.same with ⟨hint', hSame, hLegal⟩
  refine ⟨found, hint', ?_, hLegal, hLook.found_iff, ?_⟩
  · rw [hSame, ← hLook.entry_eq h.toMapOrder]
  · intro e he hIn
    exact ⟨h.toMapOrder.upTo_of_contains he hIn, fun x hx hAt =>
      h.toMapOrder.eq_of_inside hx he hAt hIn⟩

/- The hint is the entry, and the address in its second page. -/
theorem vmMapLookupEntry_exact_second :
    ∃ hint',
      (twoPages.map.saveHint (some 0)).lookupEntry 8192 =
          (true, some 0, twoPages.map.saveHint hint') ∧
        twoPages.map.Legal hint' ∧
        ∃ e ∈ twoPages.map.entries, e.Contains 8192 := by
  have hLegal : twoPages.map.Legal (some 0) := by
    rintro j ⟨⟩
    exact ⟨_, List.mem_singleton.mpr rfl, rfl⟩
  have hIn : ∃ e ∈ twoPages.map.entries, e.Contains 8192 :=
    ⟨_, List.mem_singleton.mpr rfl, by decide, by decide⟩
  rcases @vmMapLookupEntry_exact _ 8192 _ twoPages_inv hLegal
    with ⟨found, hint', hRun, hHint, hFound, _⟩
  rw [hFound.mpr hIn] at hRun
  exact ⟨hint', hRun, hHint, hIn⟩

end Vm

end OsfMach
