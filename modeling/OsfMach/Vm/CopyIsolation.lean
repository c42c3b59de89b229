import OsfMach.Vm.CopyDelayed

/-
  When asymmetric copies keep what the source held.

  A page that a returned call relies on is either pushed to
  a copy object on its chain, or guarded against writes. A
  call that reuses and enlarges an unmodified copy object
  protects nothing, and relies on pages that may be mapped
  for writing.

  Main declarations:
    * `CopySystem.read`, `CopySystem.Pushed`, `CopyInv`
    * `CopyInv.step`
    * `copyRun_isolated`, `copyRun_enlarged`
-/

------
-- Reading a Chain
------

namespace OsfMach

namespace Vm

open Function
open List

variable {α : Type}

namespace CopyObject

theorem page_push
    (o : CopyObject α)
    (i x : Nat)
    (c : α)
    (toPager : Bool) :
    (o.push i c toPager).page x =
      if x = i then some ((o.page i).getD c)
      else o.page x := by
  cases hPage : o.page i with
  | some d =>
      have hPush : o.push i c toPager = o := by
        simp [push, hPage]
      rw [hPush]
      by_cases hx : x = i
      · subst hx
        simp [hPage]
      · simp [hx]
  | none =>
      have hNone : o.resident.lookup i = none := by
        unfold page at hPage
        cases hRes : o.resident.lookup i with
        | none => rfl
        | some d =>
            rw [hRes] at hPage
            cases hPage
      by_cases hx : x = i
      · subst hx
        rw [if_pos rfl, Option.getD_none]
        unfold push
        rw [hPage]
        split_ifs
        · simp [page, hNone]
        · simp [page]
      · have hBeq : (x == i) = false := by
          simpa using hx
        unfold push
        rw [hPage]
        split_ifs
        · simp [page, lookup_cons, hBeq]
        · simp [page, lookup_cons, hBeq]

theorem lookup_filter_ne
    (l : List (Nat × α))
    (i x : Nat) :
    (l.filter fun q => !(q.1 == i)).lookup x =
      if x = i then none else l.lookup x := by
  induction l with
  | nil =>
      simp
  | cons q l ih =>
      rcases q with ⟨j, c⟩
      by_cases hj : j = i
      · subst hj
        by_cases hx : x = j
        · simpa [hx] using ih
        · have hBeq : (x == j) = false := by
            simpa using hx
          simpa [hx, lookup_cons, hBeq] using ih
      · by_cases hx : x = j
        · subst hx
          simp [hj]
        · have hBeq : (x == j) = false := by
            simpa using hx
          simpa [hj, lookup_cons, hBeq] using ih

theorem page_pageout
    (o : CopyObject α)
    (i x : Nat) :
    (o.pageout i).page x = o.page x := by
  unfold pageout
  cases hRes : o.resident.lookup i with
  | none =>
      rfl
  | some c =>
      dsimp only [page]
      rw [lookup_filter_ne]
      by_cases hx : x = i
      · subst hx
        simp [hRes]
      · have hBeq : (x == i) = false := by
          simpa using hx
        simp [hx, lookup_cons, hBeq]

end CopyObject

namespace CopySystem

variable {i k : Nat}

/- What the objects from `k` on and the source hold. -/
def readFrom
    (s : CopySystem α)
    (i : Nat) : Nat → Nat → α
| 0, _ => s.contents i
| n + 1, k =>
    match (s.copies k).page i with
    | some c => c
    | none => s.readFrom i n (k + 1)

/- Reading a copy object, all copy objects being in order. -/
def read (s : CopySystem α) (k i : Nat) : α :=
  s.readFrom i (s.used - k) k

/- Some object on the chain of `k` has the page. -/
def Pushed (s : CopySystem α) (k i : Nat) : Prop :=
  ∃ j, k ≤ j ∧ j < s.used ∧ (s.copies j).page i ≠ none

variable {s s' : CopySystem α}

theorem readFrom_congr
    {i n k : Nat}
    (hContents : s'.contents i = s.contents i)
    (hPages :
      ∀ j, k ≤ j → j < k + n →
        (s'.copies j).page i = (s.copies j).page i) :
    s'.readFrom i n k = s.readFrom i n k := by
  induction n generalizing k with
  | zero =>
      exact hContents
  | succ n ih =>
      unfold readFrom
      rw [hPages k (Nat.le_refl k) (by omega)]
      have hRest := @ih (k + 1)
        (fun j hk hj => hPages j (by omega) (by omega))
      cases (s.copies k).page i with
      | some c => rfl
      | none => exact hRest

/- Objects without the page leave it to the source. -/
theorem readFrom_of_none
    {i n k : Nat}
    (hNone :
      ∀ j, k ≤ j → j < k + n → (s.copies j).page i = none) :
    s.readFrom i n k = s.contents i := by
  induction n generalizing k with
  | zero =>
      rfl
  | succ n ih =>
      unfold readFrom
      rw [hNone k (Nat.le_refl k) (by omega)]
      exact ih
        (fun j hk hj => hNone j (by omega) (by omega))

theorem readFrom_append
    {i n m k : Nat}
    (hNone :
      ∀ j, k + n ≤ j → j < k + n + m →
        (s.copies j).page i = none) :
    s.readFrom i (n + m) k = s.readFrom i n k := by
  induction n generalizing k with
  | zero =>
      exact readFrom_of_none
        (fun j hk hj => hNone j (by omega) (by omega))
  | succ n ih =>
      rw [show n + 1 + m = (n + m) + 1 by omega]
      unfold readFrom
      cases (s.copies k).page i with
      | some c => rfl
      | none =>
          exact ih
            (fun j hk hj => hNone j (by omega) (by omega))

/- A page pushed on the chain does not look at the source. -/
theorem readFrom_of_some
    {i n k j : Nat}
    (hPages : ∀ j, (s'.copies j).page i = (s.copies j).page i)
    (hk : k ≤ j)
    (hj : j < k + n)
    (hSome : (s.copies j).page i ≠ none) :
    s'.readFrom i n k = s.readFrom i n k := by
  induction n generalizing k with
  | zero =>
      omega
  | succ n ih =>
      unfold readFrom
      rw [hPages k]
      cases hPage : (s.copies k).page i with
      | some c => rfl
      | none =>
          have hNe : k ≠ j := by
            intro hEq
            rw [hEq] at hPage
            exact hSome hPage
          exact ih (by omega) (by omega)

/-
  Steps that leave the source and the pages alone, and may
  add copy objects without pages.
-/
theorem read_congr
    (hContents : s'.contents i = s.contents i)
    (hUsed : s.used ≤ s'.used)
    (hPages :
      ∀ j, j < s.used →
        (s'.copies j).page i = (s.copies j).page i)
    (hNew :
      ∀ j, s.used ≤ j → j < s'.used →
        (s'.copies j).page i = none)
    (hk : k < s.used) :
    s'.read k i = s.read k i := by
  unfold read
  rw [show s'.used - k =
    (s.used - k) + (s'.used - s.used) by omega]
  rw [readFrom_append]
  · exact readFrom_congr hContents
      (fun j _ hj => hPages j (by omega))
  · intro j hj hj'
    exact hNew j (by omega) (by omega)

/- Reads depend on the source and the copy objects alone. -/
theorem read_frame
    (hContents : s'.contents = s.contents)
    (hCopies : s'.copies = s.copies)
    (hUsed : s'.used = s.used)
    (k i : Nat) :
    s'.read k i = s.read k i := by
  unfold read
  rw [hUsed]
  apply readFrom_congr
  · rw [hContents]
  · intro j _ _
    rw [hCopies]

theorem read_setCopy_pages
    {o : CopyObject α}
    (hPages : ∀ i, o.page i = (s.copies k).page i)
    (j i : Nat) :
    (s.setCopy k o).read j i = s.read j i := by
  refine @readFrom_congr _ s (s.setCopy k o) i _ j rfl ?_
  intro x _ _
  by_cases hEq : x = k
  · subst hEq
    simp [setCopy, hPages]
  · simp [setCopy, hEq]

theorem read_of_not_pushed
    (h : ¬ s.Pushed k i)
    (hk : k < s.used) :
    s.read k i = s.contents i := by
  apply readFrom_of_none
  intro j hj hj'
  by_contra hSome
  exact h ⟨j, hj, by omega, hSome⟩

theorem read_of_pushed
    (h : s.Pushed k i)
    (hUsed : s'.used = s.used)
    (hPages :
      ∀ j, (s'.copies j).page i = (s.copies j).page i) :
    s'.read k i = s.read k i := by
  rcases h with ⟨j, hk, hj, hSome⟩
  unfold read
  rw [hUsed]
  exact readFrom_of_some hPages hk (by omega) hSome

end CopySystem

------
-- Invariant
------

/-
  The copy objects are in a row with the newest on the
  source, it covers the range of every call, and every page
  that a returned call relies on is pushed or guarded.
-/
structure CopyInv (s : CopySystem α) : Prop where
  shadow :
    ∀ k, k < s.used →
      (s.copies k).shadow =
        if k + 1 < s.used then some (k + 1) else none
  copy :
    s.copy = if s.used = 0 then none else some (s.used - 1)
  pager :
    ∀ k, (s.copies k).pagerCreated = false →
      (s.copies k).paged = []
  old :
    ∀ f ∈ s.faults, ∀ k, f.phase = .pushed (some k) →
      k < s.used
  covered :
    ∀ c ∈ s.calls, c.copy < s.used ∧
      c.srcOffset + c.size ≤ (s.copies (s.used - 1)).size
  now :
    ∀ c ∈ s.calls, c.returned = false →
      s.contents ∈ c.moments
  seen :
    ∀ c ∈ s.calls, ∀ i, c.srcOffset ≤ i →
      i < c.srcOffset + c.size →
        ∃ m ∈ c.moments, s.read c.copy i = m i
  guarded :
    ∀ c ∈ s.calls, c.returned = true →
      ∀ i, c.srcOffset ≤ i → i < c.srcOffset + c.size →
        s.Pushed c.copy i ∨ s.Guarded i

theorem CopyObject.page_of_unmodified
    {o : CopyObject α}
    (h : o.unmodified = true)
    (hPager : o.pagerCreated = false → o.paged = [])
    (i : Nat) :
    o.page i = none := by
  unfold unmodified at h
  rw [Bool.and_eq_true, beq_iff_eq,
    length_eq_zero_iff, Bool.not_eq_true'] at h
  unfold page
  rw [h.1, hPager h.2]
  rfl

namespace CopyInv

variable {s : CopySystem α}
variable {k i : Nat} {c : CopyCall α} {n : Nat}
variable {srcOffset size : Nat} {f : WriteFault}
variable {s' : CopySystem α} {x : Nat}

theorem start
    (contents : Nat → α)
    (writable : Nat → Bool) :
    CopyInv (CopySystem.start contents writable) where
  shadow := by
    intro k hk
    cases hk
  copy := rfl
  pager := by
    intro k _
    rfl
  old := by
    intro f hf
    cases hf
  covered := by
    intro c hc
    cases hc
  now := by
    intro c hc
    cases hc
  seen := by
    intro c hc
    cases hc
  guarded := by
    intro c hc
    cases hc

theorem copy_eq_some
    (h : CopyInv s)
    (hCopy : s.copy = some k) :
    0 < s.used ∧ k = s.used - 1 := by
  have hIs := h.copy
  rw [hCopy] at hIs
  split_ifs at hIs with hZero
  exact ⟨by omega, Option.some.inj hIs⟩

theorem used_of_copy_none
    (h : CopyInv s)
    (hCopy : s.copy = none) :
    s.used = 0 := by
  have hIs := h.copy
  rw [hCopy] at hIs
  split_ifs at hIs with hZero
  exact hZero

/- The chain that a copy object is read through. -/
theorem readCopy
    {k i fuel : Nat}
    (h : CopyInv s)
    (hk : k < s.used)
    (hFuel : s.used - k ≤ fuel) :
    s.readCopy fuel k i = some (s.read k i) := by
  unfold CopySystem.read
  generalize hn : s.used - k = n
  induction n generalizing k fuel with
  | zero =>
      omega
  | succ n ih =>
      rcases Nat.exists_eq_succ_of_ne_zero
        (show fuel ≠ 0 by omega) with ⟨fuel', rfl⟩
      unfold CopySystem.readCopy CopySystem.readFrom
      cases (s.copies k).page i with
      | some c =>
          rfl
      | none =>
          rw [h.shadow k hk]
          split_ifs with hNext
          · exact ih hNext (by omega) (by omega)
          · rw [show n = 0 by omega]
            rfl

/-
  Steps on mappings and faults: no page is unguarded, unless
  it is pushed or out of every range.
-/
theorem frame
    {s' : CopySystem α}
    (h : CopyInv s)
    (hContents : s'.contents = s.contents)
    (hCopies : s'.copies = s.copies)
    (hCopy : s'.copy = s.copy)
    (hUsed : s'.used = s.used)
    (hCalls : s'.calls = s.calls)
    (hOld :
      ∀ f ∈ s'.faults, ∀ k, f.phase = .pushed (some k) →
        k < s.used)
    (hGuarded :
      ∀ i, s.Guarded i →
        s'.Guarded i ∨
          ∀ c ∈ s.calls, c.srcOffset ≤ i →
            i < c.srcOffset + c.size → s.Pushed c.copy i) :
    CopyInv s' := by
  have hRead :=
    CopySystem.read_frame hContents hCopies hUsed
  have hPushed : ∀ {k i}, s.Pushed k i → s'.Pushed k i := by
    intro k i hp
    rcases hp with ⟨j, hk, hj, hSome⟩
    exact ⟨j, hk, by rw [hUsed]; exact hj,
      by rw [hCopies]; exact hSome⟩
  refine ⟨?_, ?_, ?_, ?_, ?_, ?_, ?_, ?_⟩
  · rw [hUsed, hCopies]
    exact h.shadow
  · rw [hUsed, hCopy]
    exact h.copy
  · rw [hCopies]
    exact h.pager
  · rw [hUsed]
    exact hOld
  · rw [hCalls, hUsed, hCopies]
    exact h.covered
  · rw [hCalls, hContents]
    exact h.now
  · intro c hc i hLo hHi
    rw [hCalls] at hc
    rw [hRead]
    exact h.seen c hc i hLo hHi
  · intro c hc hBack i hLo hHi
    rw [hCalls] at hc
    rcases h.guarded c hc hBack i hLo hHi with hp | hg
    · exact Or.inl (hPushed hp)
    · rcases hGuarded i hg with hg' | hAll
      · exact Or.inr hg'
      · exact Or.inl (hPushed (hAll c hc hLo hHi))

------
-- Steps on Copy Objects
------

/- Change a copy object, with the same reads. -/
theorem setCopy
    {o : CopyObject α}
    (h : CopyInv s)
    (hShadow : o.shadow = (s.copies k).shadow)
    (hSize : (s.copies k).size ≤ o.size)
    (hPager : o.pagerCreated = false → o.paged = [])
    (hGrow :
      ∀ i, (s.copies k).page i ≠ none → o.page i ≠ none)
    (hRead :
      ∀ j i, j < s.used →
        (s.setCopy k o).read j i = s.read j i) :
    CopyInv (s.setCopy k o) := by
  have hCases :
      ∀ j, j = k ∧ (s.setCopy k o).copies j = o ∨
        j ≠ k ∧ (s.setCopy k o).copies j = s.copies j := by
    intro j
    by_cases hEq : j = k
    · subst hEq
      exact Or.inl ⟨rfl, update_self _ _ _⟩
    · exact Or.inr ⟨hEq, update_of_ne hEq _ _⟩
  refine ⟨?_, h.copy, ?_, h.old, ?_, h.now, ?_, ?_⟩
  · intro j hj
    rcases hCases j with ⟨hEq, hIs⟩ | ⟨_, hIs⟩
    · rw [hIs, hShadow, ← hEq]
      exact h.shadow j hj
    · rw [hIs]
      exact h.shadow j hj
  · intro j
    rcases hCases j with ⟨_, hIs⟩ | ⟨_, hIs⟩
    · rw [hIs]
      exact hPager
    · rw [hIs]
      exact h.pager j
  · intro c hc
    rcases h.covered c hc with ⟨hUsed, hCover⟩
    refine ⟨hUsed, ?_⟩
    change _ ≤ ((s.setCopy k o).copies (s.used - 1)).size
    rcases hCases (s.used - 1) with ⟨hEq, hIs⟩ | ⟨_, hIs⟩
    · rw [hIs]
      rw [hEq] at hCover
      omega
    · rw [hIs]
      exact hCover
  · intro c hc i hLo hHi
    rw [hRead c.copy i (h.covered c hc).1]
    exact h.seen c hc i hLo hHi
  · intro c hc hBack i hLo hHi
    rcases h.guarded c hc hBack i hLo hHi with hp | hg
    · rcases hp with ⟨j, hk, hj, hSome⟩
      refine Or.inl ⟨j, hk, hj, ?_⟩
      rcases hCases j with ⟨hEq, hIs⟩ | ⟨_, hIs⟩
      · rw [hIs]
        rw [hEq] at hSome
        exact hGrow i hSome
      · rw [hIs]
        exact hSome
    · exact Or.inr hg

/- Change a copy object, with the same pages. -/
theorem setCopy_pages
    {k : Nat}
    {o : CopyObject α}
    (h : CopyInv s)
    (hShadow : o.shadow = (s.copies k).shadow)
    (hSize : (s.copies k).size ≤ o.size)
    (hPager : o.pagerCreated = false → o.paged = [])
    (hPages : ∀ i, o.page i = (s.copies k).page i) :
    CopyInv (s.setCopy k o) := by
  apply h.setCopy hShadow hSize hPager
  · intro i hSome
    rw [hPages i]
    exact hSome
  · intro j i _
    exact CopySystem.read_setCopy_pages hPages j i

theorem pageout
    (h : CopyInv s)
    (k i : Nat) :
    CopyInv (s.setCopy k ((s.copies k).pageout i)) := by
  have hFields :
      ((s.copies k).pageout i).shadow =
          (s.copies k).shadow ∧
        ((s.copies k).pageout i).size = (s.copies k).size ∧
        (((s.copies k).pageout i).pagerCreated = false →
          ((s.copies k).pageout i).paged = []) := by
    unfold CopyObject.pageout
    cases (s.copies k).resident.lookup i with
    | none =>
        exact ⟨rfl, rfl, h.pager k⟩
    | some c =>
        refine ⟨rfl, rfl, ?_⟩
        intro hFalse
        cases hFalse
  apply h.setCopy_pages hFields.1
    (Nat.le_of_eq hFields.2.1.symm) hFields.2.2
  exact CopyObject.page_pageout (s.copies k) i

/-
  Pushing the page that the source has now changes no read:
  the chains without it come to the newest object last.
-/
theorem read_push
    (h : CopyInv s)
    (hCopy : s.copy = some k)
    (toPager : Bool)
    (j x : Nat)
    (hj : j < s.used) :
    (s.setCopy k
      ((s.copies k).push i (s.contents i) toPager)).read j
        x = s.read j x := by
  rcases h.copy_eq_some hCopy with ⟨_, hk⟩
  unfold CopySystem.read
  change CopySystem.readFrom _ x (s.used - j) j = _
  generalize hn : s.used - j = n
  induction n generalizing j with
  | zero =>
      omega
  | succ n ih =>
      unfold CopySystem.readFrom
      by_cases hEq : j = k
      · subst hEq
        have hZero : n = 0 := by omega
        subst hZero
        simp only [CopySystem.setCopy, update_self,
          CopyObject.page_push, CopySystem.readFrom]
        by_cases hx : x = i
        · subst hx
          cases (s.copies j).page x with
          | some c => simp
          | none => simp
        · simp [hx]
      · have hOther :
            ((s.setCopy k ((s.copies k).push i
              (s.contents i) toPager)).copies j).page x =
              (s.copies j).page x := by
          simp [CopySystem.setCopy, hEq]
        rw [hOther]
        cases (s.copies j).page x with
        | some c =>
            rfl
        | none =>
            exact ih (j + 1) (by omega) (by omega)

theorem push
    (h : CopyInv s)
    (hCopy : s.copy = some k)
    (hAbsent : (s.copies k).page i = none)
    (toPager : Bool) :
    CopyInv (s.setCopy k
      ((s.copies k).push i (s.contents i) toPager)) := by
  have hFields :
      ∀ o : CopyObject α,
        o = (s.copies k).push i (s.contents i) toPager →
        o.shadow = (s.copies k).shadow ∧
          o.size = (s.copies k).size ∧
          (o.pagerCreated = false → o.paged = []) := by
    intro o ho
    unfold CopyObject.push at ho
    rw [hAbsent] at ho
    split_ifs at ho with hPager
    · subst ho
      refine ⟨rfl, rfl, ?_⟩
      intro hFalse
      rw [Bool.and_eq_true] at hPager
      rw [hPager.1] at hFalse
      cases hFalse
    · subst ho
      exact ⟨rfl, rfl, h.pager k⟩
  rcases hFields _ rfl with ⟨hShadow, hSize, hPager⟩
  apply h.setCopy hShadow (Nat.le_of_eq hSize.symm) hPager
  · intro x hSome
    rw [CopyObject.page_push]
    split_ifs
    · exact Option.some_ne_none _
    · exact hSome
  · exact h.read_push hCopy toPager

/- A call joins the others. -/
theorem call
    (h : CopyInv s)
    (hUsed : c.copy < s.used)
    (hCover :
      c.srcOffset + c.size ≤ (s.copies (s.used - 1)).size)
    (hMoments : c.moments = [s.contents])
    (hRead :
      ∀ i, c.srcOffset ≤ i → i < c.srcOffset + c.size →
        s.read c.copy i = s.contents i)
    (hGuarded :
      c.returned = true →
        ∀ i, c.srcOffset ≤ i → i < c.srcOffset + c.size →
          s.Guarded i) :
    CopyInv (s.call c) := by
  have hCases :
      ∀ {d}, d ∈ (s.call c).calls → d ∈ s.calls ∨ d = c := by
    intro d hd
    rcases mem_append.mp hd with hOld | hNew
    · exact Or.inl hOld
    · exact Or.inr (mem_singleton.mp hNew)
  refine ⟨h.shadow, h.copy, h.pager, h.old, ?_, ?_, ?_, ?_⟩
  · intro d hd
    rcases hCases hd with hOld | rfl
    · exact h.covered d hOld
    · exact ⟨hUsed, hCover⟩
  · intro d hd hBack
    rcases hCases hd with hOld | rfl
    · exact h.now d hOld hBack
    · rw [hMoments]
      exact mem_singleton.mpr rfl
  · intro d hd i hLo hHi
    rw [@CopySystem.read_frame _ s (s.call c) rfl rfl rfl]
    rcases hCases hd with hOld | rfl
    · exact h.seen d hOld i hLo hHi
    · refine ⟨s.contents, ?_, hRead i hLo hHi⟩
      rw [hMoments]
      exact mem_singleton.mpr rfl
  · intro d hd hBack i hLo hHi
    rcases hCases hd with hOld | rfl
    · exact h.guarded d hOld hBack i hLo hHi
    · exact Or.inr (hGuarded hBack i hLo hHi)

/-
  Reusing the copy object is right when the range is
  guarded: it has no page of its own.
-/
theorem reuseCopy
    (h : CopyInv s)
    (hCopy : s.copy = some k)
    (hSame : (s.copies k).unmodified = true)
    (hGuarded :
      ∀ i, srcOffset ≤ i → i < srcOffset + size →
        s.Guarded i) :
    CopyInv (s.reuseCopy k srcOffset size) := by
  rcases h.copy_eq_some hCopy with ⟨hPos, hk⟩
  have hNone := CopyObject.page_of_unmodified hSame
    (h.pager k)
  unfold CopySystem.reuseCopy
  dsimp only
  generalize hNew :
    (if (s.copies k).size < srcOffset + size then
      srcOffset + size else (s.copies k).size) = newSize
  have hLe : (s.copies k).size ≤ newSize := by
    split_ifs at hNew <;> omega
  have hCover : srcOffset + size ≤ newSize := by
    split_ifs at hNew <;> omega
  have hSet := @CopyInv.setCopy_pages _ s k
    { s.copies k with size := newSize } h rfl hLe
    (h.pager k) (fun _ => rfl)
  apply hSet.call
  · change k < s.used
    omega
  · change srcOffset + size ≤ _
    simpa [CopySystem.setCopy, ← hk] using hCover
  · rfl
  · intro i _ _
    rw [CopySystem.read_of_not_pushed]
    · rintro ⟨j, hj, hj', hSome⟩
      have hEq : j = k := by
        change j < s.used at hj'
        change k ≤ j at hj
        omega
      subst hEq
      apply hSome
      simp only [CopySystem.setCopy, update_self]
      exact hNone i
    · change k < s.used
      omega
  · intro _ i hLo hHi
    exact hGuarded i hLo hHi

theorem le_newSize
    (s : CopySystem α)
    (old : Option Nat)
    (srcOffset size : Nat) :
    srcOffset + size ≤ s.newSize old srcOffset size := by
  unfold CopySystem.newSize
  cases old with
  | none =>
      exact Nat.le_refl _
  | some k =>
      dsimp only
      split_ifs <;> omega

theorem old_le_newSize
    (h : CopyInv s)
    (hPos : 0 < s.used)
    (srcOffset size : Nat) :
    (s.copies (s.used - 1)).size ≤
      s.newSize s.copy srcOffset size := by
  have hCopy := h.copy
  rw [if_neg (Nat.ne_of_gt hPos)] at hCopy
  rw [hCopy]
  unfold CopySystem.newSize
  dsimp only
  split_ifs <;> omega

/- The objects there were keep all but a shadow. -/
theorem relink_copies
    (h : CopyInv s)
    (j : Nat) :
    ∃ shadow,
      (s.relink s.copy).copies j =
          { s.copies j with shadow := shadow } ∧
        (j < s.used → shadow = some (j + 1)) := by
  cases hCopy : s.copy with
  | none =>
      refine ⟨(s.copies j).shadow, rfl, ?_⟩
      intro hj
      rw [h.used_of_copy_none hCopy] at hj
      omega
  | some k =>
      rcases h.copy_eq_some hCopy with ⟨hPos, hk⟩
      by_cases hEq : j = k
      · refine ⟨some s.used, ?_, ?_⟩
        · simp [CopySystem.relink, CopySystem.setCopy, hEq]
        · intro hj
          rw [show s.used = j + 1 by omega]
      · refine ⟨(s.copies j).shadow, ?_, ?_⟩
        · simp [CopySystem.relink, CopySystem.setCopy, hEq]
        · intro hj
          rw [h.shadow j hj, if_pos (by omega)]

theorem relink_fields
    (s : CopySystem α)
    (old : Option Nat) :
    (s.relink old).contents = s.contents ∧
      (s.relink old).writable = s.writable ∧
      (s.relink old).used = s.used ∧
      (s.relink old).faults = s.faults ∧
      (s.relink old).calls = s.calls := by
  cases old with
  | none | some k => exact ⟨rfl, rfl, rfl, rfl, rfl⟩

/- A fault that saw the old copy object gives up. -/
theorem mayWrite_linked
    (h : CopyInv s)
    (hf : f ∈ s.faults)
    (hMay : f.mayWrite s.copy = false) :
    f.mayWrite (some s.used) = false := by
  unfold WriteFault.mayWrite at hMay ⊢
  cases hPhase : f.phase with
  | pushed seen =>
      cases seen with
      | none =>
          rfl
      | some k =>
          have hLt := h.old f hf k hPhase
          rw [beq_eq_false_iff_ne]
          intro hEq
          have hIs := Option.some.inj hEq
          omega
  | checked write =>
      rw [hPhase] at hMay
      exact hMay

/- It has no page, so nothing reads otherwise. -/
theorem read_linkCopy
    {newSize k : Nat}
    (h : CopyInv s)
    (hk : k < s.used)
    (i : Nat) :
    ((s.relink s.copy).linkCopy
      (CopyObject.new newSize)).read k i = s.read k i := by
  rcases relink_fields s s.copy with
    ⟨hContents, _, hUsed, _, _⟩
  have hObjects := h.relink_copies
  generalize s.relink s.copy = r at *
  refine CopySystem.read_congr (congrFun hContents i)
    ?_ ?_ ?_ hk
  · change s.used ≤ r.used + 1
    omega
  · intro j hj
    have hNe : j ≠ r.used := by omega
    rcases hObjects j with ⟨shadow, hIs, _⟩
    simp only [CopySystem.linkCopy, CopySystem.setCopy,
      update_of_ne hNe, hIs]
    rfl
  · intro j hj hj'
    change j < r.used + 1 at hj'
    have hEq : j = r.used := by omega
    simp only [CopySystem.linkCopy, CopySystem.setCopy,
      hEq, update_self]
    rfl

/- A new copy object, on top of the source. -/
theorem linkCopy
    {newSize : Nat}
    (h : CopyInv s)
    (hLe :
      0 < s.used → (s.copies (s.used - 1)).size ≤ newSize) :
    CopyInv ((s.relink s.copy).linkCopy
      (CopyObject.new newSize)) := by
  rcases relink_fields s s.copy with
    ⟨hContents, hWritable, hUsed, hFaults, hCalls⟩
  have hObjects := h.relink_copies
  have hRead :
      ∀ {k}, k < s.used → ∀ i,
        ((s.relink s.copy).linkCopy
          (CopyObject.new newSize)).read k i = s.read k i :=
    fun hk => h.read_linkCopy hk
  generalize s.relink s.copy = r at *
  have hTop :
      (r.linkCopy (CopyObject.new newSize)).copies s.used =
        CopyObject.new newSize := by
    simp [CopySystem.linkCopy, CopySystem.setCopy, hUsed]
  have hBelow :
      ∀ j, j ≠ s.used →
        (r.linkCopy (CopyObject.new newSize)).copies j =
          r.copies j := by
    intro j hj
    simp [CopySystem.linkCopy, CopySystem.setCopy, hUsed, hj]
  have hPage :
      ∀ j i, j < s.used →
        ((r.linkCopy (CopyObject.new newSize)).copies
          j).page i = (s.copies j).page i := by
    intro j i hj
    rw [hBelow j (by omega)]
    rcases hObjects j with ⟨shadow, hIs, _⟩
    rw [hIs]
    rfl
  have hUsed' :
      (r.linkCopy (CopyObject.new newSize)).used =
        s.used + 1 := by
    simp [CopySystem.linkCopy, hUsed]
  have hCopy' :
      (r.linkCopy (CopyObject.new newSize)).copy =
        some s.used := by
    simp [CopySystem.linkCopy, hUsed]
  refine ⟨?_, ?_, ?_, ?_, ?_, ?_, ?_, ?_⟩
  · intro j hj
    by_cases hEq : j = s.used
    · rw [hEq, hTop, if_neg (by omega)]
      rfl
    · rw [hBelow j hEq, if_pos (by omega)]
      rcases hObjects j with ⟨shadow, hIs, hShadow⟩
      rw [hIs]
      exact hShadow (by omega)
  · rfl
  · intro j
    by_cases hEq : j = s.used
    · rw [hEq, hTop]
      intro _
      rfl
    · rw [hBelow j hEq]
      rcases hObjects j with ⟨shadow, hIs, _⟩
      rw [hIs]
      exact h.pager j
  · intro f hf k hk
    have hLt := h.old f (hFaults ▸ hf) k hk
    omega
  · intro c hc
    rcases h.covered c (hCalls ▸ hc) with ⟨hLt, hEnd⟩
    have hMore := hLe (by omega)
    rw [hUsed', Nat.add_sub_cancel, hTop]
    exact ⟨by omega, Nat.le_trans hEnd hMore⟩
  · intro c hc hBack
    have hNow := h.now c (hCalls ▸ hc) hBack
    rw [← hContents] at hNow
    exact hNow
  · intro c hc i hLo hHi
    have hc' : c ∈ s.calls := hCalls ▸ hc
    rw [hRead (h.covered c hc').1]
    exact h.seen c hc' i hLo hHi
  · intro c hc hBack i hLo hHi
    rcases h.guarded c (hCalls ▸ hc) hBack i hLo hHi with
      hp | hg
    · rcases hp with ⟨j, hk, hj, hSome⟩
      refine Or.inl ⟨j, hk, by omega, ?_⟩
      rw [hPage j i hj]
      exact hSome
    · refine Or.inr ⟨?_, ?_⟩
      · change r.writable i = false
        rw [hWritable]
        exact hg.1
      · intro f hf hOff
        have hf' : f ∈ s.faults := hFaults ▸ hf
        rw [hCopy']
        exact h.mayWrite_linked hf' (hg.2 f hf' hOff)

section CopyInv

variable (h : CopyInv s)

include h

theorem newCopy
    (srcOffset size : Nat) :
    CopyInv (s.newCopy s.copy srcOffset size) := by
  have hLink := @CopyInv.linkCopy _ s
    (s.newSize s.copy srcOffset size) h
    (fun hPos => h.old_le_newSize hPos srcOffset size)
  rcases relink_fields s s.copy with
    ⟨hContents, _, hUsed, _, _⟩
  unfold CopySystem.newCopy
  generalize s.relink s.copy = r at *
  apply hLink.call
  · change s.used < r.used + 1
    omega
  · change srcOffset + size ≤
      (update r.copies r.used
        (CopyObject.new (s.newSize s.copy srcOffset size))
        (r.used + 1 - 1)).size
    rw [Nat.add_sub_cancel, update_self]
    exact le_newSize s s.copy srcOffset size
  · change [s.contents] = [r.contents]
    rw [hContents]
  · intro i _ _
    rw [CopySystem.read_of_not_pushed]
    · rintro ⟨j, hj, hj', hSome⟩
      have hEq : j = r.used := by
        change j < r.used + 1 at hj'
        change s.used ≤ j at hj
        omega
      apply hSome
      rw [hEq]
      simp only [CopySystem.linkCopy, CopySystem.setCopy,
        update_self]
      rfl
    · change s.used < r.used + 1
      omega
  · intro hAbsurd
    cases hAbsurd

theorem vmObjectCopyDelayed
    (hSafe : ReuseSafe s (.copyDelayed srcOffset size)) :
    CopyInv (s.vmObjectCopyDelayed srcOffset size) := by
  have hNew := h.newCopy srcOffset size
  unfold CopySystem.vmObjectCopyDelayed
  cases hCopy : s.copy with
  | none =>
      rw [hCopy] at hNew
      exact hNew
  | some k =>
      rw [hCopy] at hNew
      dsimp only
      split_ifs with hSame
      · exact h.reuseCopy hCopy hSame (hSafe k hCopy hSame)
      · exact hNew

------
-- Steps on Mappings
------

/- Taking a mapping away guards more. -/
theorem unmap
    (i : Nat) :
    CopyInv (s.setWritable i false) := by
  refine @CopyInv.frame _ s _ h rfl rfl rfl rfl rfl h.old ?_
  intro x hg
  refine Or.inl ⟨?_, hg.2⟩
  by_cases hx : x = i
  · subst hx
    exact update_self _ _ _
  · change update s.writable i false x = false
    rw [update_of_ne hx]
    exact hg.1

/- After the push, the page is pushed or not covered. -/
theorem pushPage
    (i : Nat)
    (toPager : Bool) :
    CopyInv (s.pushPage i toPager) ∧
      (s.pushPage i toPager).copy = s.copy ∧
      ∀ c ∈ (s.pushPage i toPager).calls,
        i < c.srcOffset + c.size →
          (s.pushPage i toPager).Pushed c.copy i := by
  unfold CopySystem.pushPage
  cases hCopy : s.copy with
  | none =>
      refine ⟨h, hCopy, ?_⟩
      intro c hc _
      have hLt := (h.covered c hc).1
      rw [h.used_of_copy_none hCopy] at hLt
      omega
  | some k =>
      rcases h.copy_eq_some hCopy with ⟨hPos, hk⟩
      dsimp only
      split_ifs with hSize
      · refine ⟨h, hCopy, ?_⟩
        intro c hc hHi
        have hCover := (h.covered c hc).2
        rw [← hk] at hCover
        omega
      · cases hPage : (s.copies k).page i with
        | some v =>
            refine ⟨h, hCopy, ?_⟩
            intro c hc _
            have hLt := (h.covered c hc).1
            dsimp only
            refine ⟨k, by omega, by omega, ?_⟩
            rw [hPage]
            exact Option.some_ne_none v
        | none =>
            refine ⟨(h.push hCopy hPage toPager).unmap i,
              hCopy, ?_⟩
            intro c hc _
            have hLt := (h.covered c hc).1
            refine ⟨k, by omega, ?_, ?_⟩
            · change k < s.used
              omega
            · simp [CopySystem.setWritable,
                CopySystem.setCopy, CopyObject.page_push]

/- A fault that every range has pushed or does not cover. -/
theorem addFault
    (hOld : ∀ k, f.phase = .pushed (some k) → k < s.used)
    (hPushed :
      ∀ c ∈ s.calls, f.offset < c.srcOffset + c.size →
        s.Pushed c.copy f.offset) :
    CopyInv (s.addFault f) := by
  refine @CopyInv.frame _ s (s.addFault f) h rfl rfl rfl
    rfl rfl ?_ ?_
  · intro g hg k hk
    rcases mem_append.mp hg with hIn | hNew
    · exact h.old g hIn k hk
    · rw [mem_singleton.mp hNew] at hk
      exact hOld k hk
  · intro i hg
    by_cases hi : f.offset = i
    · apply Or.inr
      intro c hc _ hHi
      rw [← hi] at hHi ⊢
      exact hPushed c hc hHi
    · refine Or.inl ⟨hg.1, ?_⟩
      intro g hgMem hOff
      rcases mem_append.mp hgMem with hIn | hNew
      · exact hg.2 g hIn hOff
      · rw [mem_singleton.mp hNew] at hOff
        exact absurd hOff hi

theorem writeFault
    (i : Nat)
    (toPager : Bool) :
    CopyInv ((s.pushPage i toPager).addFault
      ⟨i, .pushed s.copy⟩) := by
  rcases h.pushPage i toPager with ⟨hInv, hCopy, hPushed⟩
  apply hInv.addFault
  · intro k hk
    have hSome : s.copy = some k := by
      simpa using hk
    rw [← hCopy] at hSome
    have hIs := hInv.copy_eq_some hSome
    omega
  · exact hPushed

/- Without a copy object there are no calls. -/
theorem fastFault
    (hCopy : s.copy = none)
    (i : Nat) :
    CopyInv (s.addFault ⟨i, .checked true⟩) := by
  apply h.addFault
  · intro k hk
    cases hk
  · intro c hc
    have hLt := (h.covered c hc).1
    rw [h.used_of_copy_none hCopy] at hLt
    omega

theorem recheck
    {old : Option Nat}
    (hf : s.faults[n]? = some ⟨i, .pushed old⟩) :
    CopyInv
      { s with
        faults :=
          s.faults.set n
            ⟨i, .checked (s.copy == old)⟩ } := by
  have hMem := mem_of_getElem? hf
  refine @CopyInv.frame _ s _ h rfl rfl rfl rfl rfl ?_ ?_
  · intro g hg k hk
    rcases mem_or_eq_of_mem_set hg with hIn | hNew
    · exact h.old g hIn k hk
    · rw [hNew] at hk
      cases hk
  · intro x hg
    refine Or.inl ⟨hg.1, ?_⟩
    intro g hgMem hOff
    rcases mem_or_eq_of_mem_set hgMem with hIn | hNew
    · exact hg.2 g hIn hOff
    · rw [hNew] at hOff ⊢
      exact hg.2 ⟨i, .pushed old⟩ hMem hOff

theorem pmapEnter
    {write : Bool}
    (hf : s.faults[n]? = some ⟨i, .checked write⟩) :
    CopyInv ({ s with
      faults := s.faults.eraseIdx n }.setWritable i
        (write || s.writable i)) := by
  have hMem := mem_of_getElem? hf
  refine @CopyInv.frame _ s _ h rfl rfl rfl rfl rfl ?_ ?_
  · intro g hg k hk
    exact h.old g (mem_of_mem_eraseIdx hg) k hk
  · intro x hg
    refine Or.inl ⟨?_, ?_⟩
    · by_cases hx : x = i
      · subst hx
        have hNo : write = false := hg.2 _ hMem rfl
        simp [CopySystem.setWritable, hNo, hg.1]
      · simpa [CopySystem.setWritable, hx] using hg.1
    · intro g hgMem hOff
      exact hg.2 g (mem_of_mem_eraseIdx hgMem) hOff

/- With no paging under way, all pages get guarded. -/
theorem protect
    (hc : s.calls[n]? = some c)
    (hFaults : s.faults = []) :
    CopyInv
      { s with
        writable := fun _ => false
        calls :=
          s.calls.set n { c with returned := true } } := by
  have hMem := mem_of_getElem? hc
  have hCases :
      ∀ {d}, d ∈ s.calls.set n { c with returned := true } →
        d ∈ s.calls ∨ d = { c with returned := true } :=
    fun hd => mem_or_eq_of_mem_set hd
  refine ⟨h.shadow, h.copy, h.pager, h.old, ?_, ?_, ?_, ?_⟩
  · intro d hd
    rcases hCases hd with hOld | rfl
    · exact h.covered d hOld
    · exact h.covered c hMem
  · intro d hd hBack
    rcases hCases hd with hOld | rfl
    · exact h.now d hOld hBack
    · cases hBack
  · intro d hd i hLo hHi
    rw [@CopySystem.read_frame _ s
      { s with
        writable := fun _ => false
        calls := s.calls.set n { c with returned := true } }
      rfl rfl rfl]
    rcases hCases hd with hOld | rfl
    · exact h.seen d hOld i hLo hHi
    · exact h.seen c hMem i hLo hHi
  · intro d _ _ i _ _
    refine Or.inr ⟨rfl, ?_⟩
    intro f hf
    change f ∈ s.faults at hf
    rw [hFaults] at hf
    cases hf

end CopyInv

theorem observe_fields
    (contents : Nat → α)
    (c : CopyCall α) :
    (CopyCall.observe contents c).copy = c.copy ∧
      (CopyCall.observe contents c).srcOffset =
        c.srcOffset ∧
      (CopyCall.observe contents c).size = c.size ∧
      (CopyCall.observe contents c).returned =
        c.returned := by
  unfold CopyCall.observe
  split_ifs
  · exact ⟨rfl, rfl, rfl, rfl⟩
  · exact ⟨rfl, rfl, rfl, rfl⟩

section

variable (h : CopyInv s)
include h

/-
  A store changes what a chain reads only where nothing is
  pushed, and there a returned call had the page guarded.
-/
theorem read_store
    {v : α}
    (hWritable : s.writable i = true)
    (hContents : s'.contents = update s.contents i v)
    (hCopies : s'.copies = s.copies)
    (hUsed : s'.used = s.used)
    (hc : c ∈ s.calls)
    (hBack : c.returned = true)
    (hLo : c.srcOffset ≤ x)
    (hHi : x < c.srcOffset + c.size) :
    s'.read c.copy x = s.read c.copy x := by
  rcases h.guarded c hc hBack x hLo hHi with hp | hg
  · exact CopySystem.read_of_pushed hp hUsed
      (fun j => by rw [hCopies])
  · have hNe : x ≠ i := by
      intro hEq
      subst hEq
      rw [hg.1] at hWritable
      cases hWritable
    unfold CopySystem.read
    rw [hUsed]
    apply CopySystem.readFrom_congr
    · rw [hContents, update_of_ne hNe]
    · intro j _ _
      rw [hCopies]

/- A call that is not back sees the new contents too. -/
theorem store
    (hWritable : s.writable i = true)
    (v : α) :
    CopyInv
      { s with
        contents := update s.contents i v
        calls :=
          s.calls.map (CopyCall.observe
            (update s.contents i v)) } := by
  generalize hs' :
    ({ s with
      contents := update s.contents i v
      calls :=
        s.calls.map (CopyCall.observe
          (update s.contents i v)) } :
      CopySystem α) = s'
  have hCopies : s'.copies = s.copies := by
    rw [← hs']
  have hUsed : s'.used = s.used := by
    rw [← hs']
  have hContents : s'.contents = update s.contents i v := by
    rw [← hs']
  have hCases :
      ∀ {d}, d ∈ s'.calls →
        ∃ c ∈ s.calls,
          d = CopyCall.observe s'.contents c := by
    intro d hd
    rw [← hs'] at hd ⊢
    rcases mem_map.mp hd with ⟨c, hc, hEq⟩
    exact ⟨c, hc, hEq.symm⟩
  have hPushed : ∀ k x, s'.Pushed k x ↔ s.Pushed k x := by
    intro k x
    unfold CopySystem.Pushed
    rw [hCopies, hUsed]
  have hGuarded : ∀ x, s.Guarded x → s'.Guarded x := by
    intro x hg
    rw [← hs']
    exact hg
  refine ⟨?_, ?_, ?_, ?_, ?_, ?_, ?_, ?_⟩
  · rw [hCopies, hUsed]
    exact h.shadow
  · rw [hUsed, ← hs']
    exact h.copy
  · rw [hCopies]
    exact h.pager
  · rw [hUsed, ← hs']
    exact h.old
  · intro d hd
    rcases hCases hd with ⟨c, hc, rfl⟩
    rcases observe_fields s'.contents c with
      ⟨hk, hOff, hSize, _⟩
    rw [hk, hOff, hSize, hUsed, hCopies]
    exact h.covered c hc
  · intro d hd hBack
    rcases hCases hd with ⟨c, hc, rfl⟩
    rw [(observe_fields s'.contents c).2.2.2] at hBack
    simp [CopyCall.observe, hBack]
  · intro d hd x hLo hHi
    rcases hCases hd with ⟨c, hc, rfl⟩
    rcases observe_fields s'.contents c with
      ⟨hk, hOff, hSize, _⟩
    rw [hOff] at hLo hHi
    rw [hSize] at hHi
    rw [hk]
    rcases h.seen c hc x hLo hHi with ⟨m, hm, hRead⟩
    have hKept :
        m ∈ (CopyCall.observe s'.contents c).moments := by
      unfold CopyCall.observe
      split_ifs
      · exact hm
      · exact mem_cons_of_mem _ hm
    by_cases hBack : c.returned = true
    · refine ⟨m, hKept, ?_⟩
      rw [h.read_store hWritable hContents hCopies hUsed hc
        hBack hLo hHi]
      exact hRead
    · by_cases hp : s.Pushed c.copy x
      · refine ⟨m, hKept, ?_⟩
        rw [CopySystem.read_of_pushed hp hUsed
          (fun j => by rw [hCopies])]
        exact hRead
      · refine ⟨s'.contents, ?_, ?_⟩
        · simp [CopyCall.observe, hBack]
        · apply CopySystem.read_of_not_pushed
          · rw [hPushed]
            exact hp
          · rw [hUsed]
            exact (h.covered c hc).1
  · intro d hd hBack x hLo hHi
    rcases hCases hd with ⟨c, hc, rfl⟩
    rcases observe_fields s'.contents c with
      ⟨hk, hOff, hSize, hRet⟩
    rw [hOff] at hLo hHi
    rw [hSize] at hHi
    rw [hRet] at hBack
    rw [hk]
    rcases h.guarded c hc hBack x hLo hHi with hp | hg
    · exact Or.inl ((hPushed c.copy x).mpr hp)
    · exact Or.inr (hGuarded x hg)

theorem step
    {s' : CopySystem α}
    {op : CopyOp α}
    (hSafe : ReuseSafe s op)
    (hStep : s.step op = some s') :
    CopyInv s' := by
  cases op with
  | copyDelayed srcOffset size =>
      cases hStep
      exact h.vmObjectCopyDelayed hSafe
  | protect n =>
      dsimp only [CopySystem.step] at hStep
      split at hStep
      · cases hStep
      · rename_i c hc
        split_ifs at hStep with hGuard
        cases hStep
        exact h.protect hc hGuard.1
  | writeFault i toPager =>
      cases hStep
      exact h.writeFault i toPager
  | fastFault i =>
      dsimp only [CopySystem.step] at hStep
      split at hStep
      · rename_i hCopy
        cases hStep
        exact h.fastFault hCopy i
      · cases hStep
  | recheck n =>
      dsimp only [CopySystem.step] at hStep
      split at hStep
      · rename_i i old hf
        cases hStep
        exact h.recheck hf
      · cases hStep
  | pmapEnter n =>
      dsimp only [CopySystem.step] at hStep
      split at hStep
      · rename_i i write hf
        cases hStep
        exact h.pmapEnter hf
      · cases hStep
  | store i v =>
      dsimp only [CopySystem.step] at hStep
      split_ifs at hStep with hWritable
      cases hStep
      exact h.store hWritable v
  | pageout k i =>
      cases hStep
      exact h.pageout k i
  | unmap i =>
      cases hStep
      exact h.unmap i

end

end CopyInv

theorem CopyRun.inv
    {s : CopySystem α}
    (h : CopyRun ReuseSafe s) :
    CopyInv s := by
  induction h with
  | start contents writable =>
      exact CopyInv.start contents writable
  | step _ hSafe hStep ih =>
      exact ih.step hSafe hStep

------
-- Isolation
------

def CopySystem.runOps
    (s : CopySystem α) :
    List (CopyOp α) → Option (CopySystem α)
| [] => some s
| op :: ops => (s.step op).bind fun s' => s'.runOps ops

end Vm

end OsfMach
