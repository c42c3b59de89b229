import OsfMach.Vm.MapSteps

/-
  Allocating addresses keeps a map as it should be.

  Main declarations:
    * `FreePlace`
    * `spaceFrom_spec`, `rangeAllocate_spec`
-/

------
-- Free Ranges
------

namespace OsfMach

namespace Vm

open Lib
open Lib.Prog

variable {l r : List VmMapEntry}
variable {start : Nat} {place : Place}

theorem alignUp_aligned
    (h : Aligned start)
    (mask : Nat) :
    Aligned (alignUp start mask) := by
  unfold Aligned pageSize at h ⊢
  unfold alignUp offsetModulus
  by_cases hMask : mask < 2 ^ 32
  · -- the low bits are those of the mask, and of its inverse
    have hLow : (start + mask) % 2 ^ 12 = mask % 2 ^ 12 := by
      omega
    have hBits :
        ∀ i, i < 12 →
          (start + mask).testBit i = mask.testBit i := by
      intro i hi
      have hBoth := congrArg (fun x => x.testBit i) hLow
      rw [Nat.testBit_mod_two_pow,
        Nat.testBit_mod_two_pow] at hBoth
      simpa [hi] using hBoth
    rw [show 4096 = 2 ^ 12 by rfl,
      show 2 ^ 32 - 1 - mask = 2 ^ 32 - (mask + 1) by omega]
    apply Nat.eq_of_testBit_eq
    intro i
    rw [Nat.testBit_mod_two_pow, Nat.testBit_and,
      Nat.testBit_mod_two_pow,
      Nat.testBit_two_pow_sub_succ hMask]
    by_cases hi : i < 12
    · rw [hBits i hi]
      cases mask.testBit i with
      | false => simp
      | true => simp
    · simp [hi]
  · rw [show 2 ^ 32 - 1 - mask = 0 by omega, Nat.and_zero]

/- A range of a size that is free in a map. -/
structure FreePlace
    (m : VmMap)
    (size : Nat)
    (place : Place)
    (l r : List VmMapEntry) : Prop extends
      Gap m l r place.start place.stop where
  insp : place.insp = lastId l
  startAligned : Aligned place.start
  stopAligned : Aligned place.stop
  stop : place.stop = place.start + size

section Space

variable {m : VmMap} {size mask start : Nat}

/- A turn of the loop at which the range fits. -/
theorem FreePlace.of_fits
    (hSize : Aligned size)
    (hWord : size < offsetModulus)
    (hSplit : m.entries = l ++ r)
    (hBelow : ∀ x ∈ l, x.vmeEnd ≤ start)
    (hMin : m.minOffset ≤ start)
    (hStart : Aligned start)
    (hWraps : ¬ alignUp start mask < start)
    (hFull :
      ¬ (m.maxOffset <
          (alignUp start mask + size) % offsetModulus ∨
        (alignUp start mask + size) % offsetModulus <
          alignUp start mask))
    (hAbove :
      ∀ x ∈ r,
        (alignUp start mask + size) % offsetModulus ≤
          x.vmeStart) :
    FreePlace m size
      ⟨lastId l, alignUp start mask,
        (alignUp start mask + size) % offsetModulus⟩ l r := by
  have hAligned := alignUp_aligned hStart mask
  have hStop :
      (alignUp start mask + size) % offsetModulus =
        alignUp start mask + size := by
    unfold offsetModulus at *
    omega
  refine ⟨⟨hSplit, ?_, hAbove, ?_, ?_⟩, rfl, hAligned, ?_,
    hStop⟩
  · intro x hx
    have hEnd := hBelow x hx
    dsimp only
    omega
  · dsimp only
    omega
  · dsimp only
    omega
  · dsimp only
    unfold Aligned pageSize at *
    omega

/-
  The loop for a free range, over the entries after the one
  that precedes the proposed range.
-/
theorem spaceFrom_spec
    {place : Place}
    {l r : List VmMapEntry}
    (h : MapOk m)
    (hSize : Aligned size)
    (hWord : size < offsetModulus)
    (hSplit : m.entries = l ++ r)
    (hBelow : ∀ x ∈ l, x.vmeEnd ≤ start)
    (hMin : m.minOffset ≤ start)
    (hStart : Aligned start)
    (hFound :
      spaceFrom m.maxOffset size mask (lastId l) start r =
        .found place) :
    ∃ l r, FreePlace m size place l r := by
  induction r generalizing l start with
  | nil =>
      unfold spaceFrom at hFound
      dsimp only at hFound
      split_ifs at hFound with hWraps hFull
      refine ⟨l, [], ?_⟩
      rw [← SpaceResult.found.inj hFound]
      exact FreePlace.of_fits hSize hWord hSplit hBelow hMin
        hStart hWraps hFull (by simp)
  | cons next r ih =>
      unfold spaceFrom at hFound
      dsimp only at hFound
      split_ifs at hFound with hWraps hFull hFits
      · refine ⟨l, next :: r, ?_⟩
        rw [← SpaceResult.found.inj hFound]
        apply FreePlace.of_fits hSize hWord hSplit hBelow
          hMin hStart hWraps hFull
        intro x hx
        rcases List.mem_cons.mp hx with rfl | hTail
        · exact hFits
        · have hAfter := h.toMapOrder.right_ge hSplit x hTail
          have hIn := h.toMapOrder.place (e := next) (by
            rw [hSplit]
            simp)
          omega
      · have hLast :
            lastId (l ++ [next]) = some next.entryId := by
          simp [lastId]
        have hMem : next ∈ m.entries := by
          rw [hSplit]
          simp
        have hIn := h.toMapOrder.place hMem
        rw [← hLast] at hFound
        exact ih (hSplit.trans (List.append_cons _ _ _))
          (h.toMapOrder.upTo_le hSplit) (by omega)
          (h.aligned next hMem).2 hFound

/- The loop from the end of an entry. -/
theorem spaceAfter_spec
    {e : VmMapEntry}
    (h : MapOk m)
    (hSize : Aligned size)
    (hWord : size < offsetModulus)
    (hSplit : m.entries = l ++ e :: r)
    (hFound :
      spaceFrom m.maxOffset size mask (some e.entryId)
        e.vmeEnd r = .found place) :
    ∃ l r, FreePlace m size place l r := by
  have he : e ∈ m.entries := by
    rw [hSplit]
    simp
  have hIn := h.toMapOrder.place he
  have hLast : lastId (l ++ [e]) = some e.entryId := by
    simp [lastId]
  rw [← hLast] at hFound
  exact spaceFrom_spec h hSize hWord
    (hSplit.trans (List.append_cons _ _ _))
    (h.toMapOrder.upTo_le hSplit) (by omega)
    (h.aligned e he).2 hFound

end Space

------
-- Choosing a Range
------

section Allocate

variable {m : VmMap} {size mask : Nat}

/- A range that starts before the lowest hole is found. -/
theorem spaceFromFree_spec
    (h : MapOk m)
    (hSize : Aligned size)
    (hWord : size < offsetModulus) :
    Ensures (spaceFromFree size mask) m fun result m' =>
      m' = m ∧ ∀ place, result = .found place →
        ∃ l r, FreePlace m size place l r := by
  unfold spaceFromFree
  rw [ensures_bind, ensures_get]
  cases hFree : m.firstFree with
  | none =>
      rw [ensures_pure]
      refine ⟨rfl, ?_⟩
      intro place hFound
      exact @spaceFrom_spec m size mask m.minOffset place []
        m.entries h hSize hWord rfl (by simp)
        (Nat.le_refl _) h.minAligned hFound
  | some i =>
      apply ensures_deref
      intro e he hId
      rw [ensures_pure]
      refine ⟨rfl, ?_⟩
      intro place hFound
      rcases List.append_of_mem he with ⟨l, r, hSplit⟩
      have hIds := h.idsOf hSplit
      rw [hId, after_split hIds hSplit] at hFound
      exact spaceAfter_spec h hSize hWord hSplit hFound

theorem FreePlace.of_entries
    {m' : VmMap}
    (hPlace : FreePlace m size place l r)
    (hEntries : m'.entries = m.entries)
    (hSteady : Steady m m') :
    FreePlace m' size place l r := by
  refine ⟨⟨hEntries.trans hPlace.split, hPlace.below,
    hPlace.above, ?_, ?_⟩, hPlace.insp, hPlace.startAligned,
    hPlace.stopAligned, hPlace.stop⟩
  · rw [hSteady.minOffset]
    exact hPlace.minLe
  · rw [hSteady.maxOffset]
    exact hPlace.leMax

/- The search that `anywhere` asks for. -/
theorem spaceAnywhere_spec
    (h : MapOk m)
    (hSize : Aligned size)
    (hWord : size < offsetModulus)
    (hMin : m.minOffset ≤ start)
    (hStart : Aligned start) :
    Ensures (spaceAnywhere size mask start) m
      fun result m' => Steady m m' ∧
        ∀ place, result = .found place →
          ∃ l r, FreePlace m' size place l r := by
  unfold spaceAnywhere
  rw [ensures_bind, ensures_get]
  apply ensures_ite
  · intro _
    apply (spaceFromFree_spec h hSize hWord).mono
    intro result m' hBoth
    rw [hBoth.1]
    exact ⟨h.refl, hBoth.2⟩
  · intro _
    apply ensures_lookup h
    intro found i m' hLook hSteady hEntries
    apply ensures_ite
    · intro hFound
      apply ensures_deref
      intro e he hId
      rw [ensures_pure]
      refine ⟨hSteady, ?_⟩
      intro place hPlace
      rw [hEntries] at he
      rcases List.append_of_mem he with ⟨l, r, hSplit⟩
      have hIds := h.idsOf hSplit
      rw [hId, after_split hIds hSplit] at hPlace
      rcases spaceAfter_spec h hSize hWord hSplit hPlace with
        ⟨l', r', hFree⟩
      exact ⟨l', r', hFree.of_entries hEntries hSteady⟩
    · intro hFound
      rw [ensures_pure]
      refine ⟨hSteady, ?_⟩
      intro place hPlace
      rcases hLook.outside
        ((Bool.not_eq_true _).mp hFound) with
        ⟨l, r, hSplit, hi, hLeft, _⟩
      have hIds := h.idsOf hSplit
      rw [hi, after_part hIds hSplit] at hPlace
      rcases spaceFrom_spec h hSize hWord hSplit hLeft hMin
        hStart hPlace with ⟨l', r', hFree⟩
      exact ⟨l', r', hFree.of_entries hEntries hSteady⟩

theorem rangeAllocate_spec
    {address : Nat}
    (h : MapOk m)
    (hAddress : Aligned address)
    (hSize : Aligned size)
    (hWord : size < offsetModulus)
    (a : VmAnswers)
    (anywhere : Bool) :
    Ensures (rangeAllocate a address size mask anywhere) m
      fun result m' => Steady m m' ∧
        ∀ place, result = .ok place →
          (anywhere = true ∨ 0 < size) ∧
            ∃ l r, FreePlace m' size place l r := by
  unfold rangeAllocate
  rw [ensures_bind, ensures_get]
  cases anywhere with
  | true =>
      simp only [if_true]
      have hLow :
          m.minOffset ≤
              (if address < m.minOffset then m.minOffset
              else address) ∧
            Aligned
              (if address < m.minOffset then m.minOffset
              else address) := by
        split_ifs with hLt
        · exact ⟨Nat.le_refl _, h.minAligned⟩
        · exact ⟨Nat.le_of_not_lt hLt, hAddress⟩
      apply ensures_ite
      · intro _
        rw [ensures_pure]
        exact ⟨h.refl, by simp⟩
      · intro _
        apply (spaceAnywhere_spec h hSize hWord hLow.1
          hLow.2).bind
        intro result m' hBoth
        cases result with
        | found place =>
            rw [ensures_pure]
            refine ⟨hBoth.1, ?_⟩
            intro place' hEq
            rw [← Except.ok.inj hEq]
            exact ⟨Or.inl trivial, hBoth.2 place rfl⟩
        | wraps =>
            rw [ensures_pure]
            exact ⟨hBoth.1, by simp⟩
        | full =>
            apply ensures_ite
            · intro _
              exact ensures_stuck
            · intro _
              rw [ensures_pure]
              exact ⟨hBoth.1, by simp⟩
  | false =>
      simp only [Bool.false_eq_true, if_false]
      apply ensures_ite
      · intro _
        rw [ensures_pure]
        exact ⟨h.refl, by simp⟩
      · intro _
        apply ensures_ite
        · intro _
          rw [ensures_pure]
          exact ⟨h.refl, by simp⟩
        · intro hIn
          have hStop :
              (address + size) % offsetModulus =
                address + size := by
            unfold offsetModulus at *
            omega
          apply ensures_lookup h
          intro found i m' hLook hSteady hEntries
          apply ensures_ite
          · intro _
            rw [ensures_pure]
            exact ⟨hSteady, by simp⟩
          · intro hFound
            rcases hLook.outside
              ((Bool.not_eq_true _).mp hFound) with
              ⟨l, r, hSplit, hi, hLeft, hRight⟩
            have hIds := h.idsOf hSplit
            have hFree :
                (∀ x ∈ r.head?,
                  address + size ≤ x.vmeStart) →
                FreePlace m' size
                  ⟨i, address, address + size⟩ l r := by
              intro hHead
              refine FreePlace.of_entries ?_ hEntries hSteady
              refine ⟨⟨hSplit, hLeft, ?_, ?_, ?_⟩, hi,
                hAddress, ?_, rfl⟩
              · exact h.toMapOrder.right_of_head hSplit hHead
              · dsimp only
                omega
              · dsimp only
                omega
              · unfold Aligned pageSize at *
                dsimp only
                omega
            rw [hi, after_part hIds hSplit, ← hi, hStop]
            cases r with
            | nil =>
                dsimp only [List.head?_nil]
                rw [ensures_pure]
                refine ⟨hSteady, ?_⟩
                intro place hEq
                rw [← Except.ok.inj hEq]
                exact ⟨Or.inr (by omega), l, [],
                  hFree (by simp)⟩
            | cons next r =>
                apply ensures_ite
                · intro _
                  rw [ensures_pure]
                  exact ⟨hSteady, by simp⟩
                · intro hFits
                  rw [ensures_pure]
                  refine ⟨hSteady, ?_⟩
                  intro place hEq
                  rw [← Except.ok.inj hEq]
                  refine ⟨Or.inr (by omega), l, next :: r,
                    hFree ?_⟩
                  intro x hx
                  rw [← Option.some.inj hx]
                  exact Nat.le_of_not_lt hFits

end Allocate

end Vm

end OsfMach
