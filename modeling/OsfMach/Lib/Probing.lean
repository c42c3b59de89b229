import Mathlib.Data.Fintype.Card
import Mathlib.Logic.Function.Basic

/-
  Open addressing with linear probing in a cyclic table.

  A table has `n` slots that hold keys; key zero marks an
  empty slot. A key is stored at or after its home slot, and
  no slot between the two is empty. Positions are compared
  by counting from an empty slot, which turns the cyclic
  order into a linear one.

  Main declarations:
    * `Probing.next`, `Probing.rot`
    * `Probing.search`, `Probing.insert`, `Probing.delete`
    * `Probing.Valid`
    * `Probing.insert_spec`
    * `Probing.delete_spec`
-/

------
-- The Algorithms
------

namespace Lib

open Function

namespace Probing

variable {slots : Nat → Nat} {n : Nat} {home : Nat → Nat}
variable {key : Nat}

/- The slot after `h`. -/
def next (n h : Nat) : Nat :=
  if h + 1 = n then 0 else h + 1

/-
  Look for a key that satisfies `test`, until an empty slot
  is reached.
-/
def search
    (n : Nat)
    (slots : Nat → Nat)
    (test : Nat → Bool) : Nat → Nat → Option Nat
| 0, _ => none
| fuel + 1, h =>
    if slots h = 0 then none
    else if test (slots h) then some (slots h)
    else search n slots test fuel (next n h)

/- The first slot from `h` on that satisfies `test`. -/
def seek
    (n : Nat)
    (slots : Nat → Nat)
    (test : Nat → Bool) : Nat → Nat → Option Nat
| 0, _ => none
| fuel + 1, h =>
    if test (slots h) then some h
    else seek n slots test fuel (next n h)

/- Store a key into the first empty slot from its home on. -/
def insert
    (n : Nat)
    (home : Nat → Nat)
    (slots : Nat → Nat)
    (key : Nat) : Option (Nat → Nat) :=
  match seek n slots (fun k => k == 0) n (home key) with
  | none => none
  | some h => some (update slots h key)

/-
  Does the key with home `t` in slot `d` have to move into
  the hole? It does unless its home is after the hole.
-/
def displaced (hole d t : Nat) : Bool :=
  if d < hole then decide (d < t ∧ t ≤ hole)
  else decide (d < t ∨ t ≤ hole)

/-
  Close the hole: the clump after it is searched for a key
  that has to move up, which leaves a new hole.
-/
def close
    (n : Nat)
    (home : Nat → Nat) :
    Nat → (Nat → Nat) → Nat → Nat → Option (Nat → Nat)
| 0, _, _, _ => none
| fuel + 1, slots, hole, d =>
    let d := next n d
    if slots d = 0 then some (update slots hole 0)
    else if displaced hole d (home (slots d)) then
      close n home fuel (update slots hole (slots d)) d d
    else close n home fuel slots hole d

/- Remove a key and close the hole it leaves. -/
def delete
    (n : Nat)
    (home : Nat → Nat)
    (slots : Nat → Nat)
    (key : Nat) : Option (Nat → Nat) :=
  match seek n slots (fun k => k == key) n (home key) with
  | none => none
  | some h => close n home n slots h h

------
-- Counting from an Empty Slot
------

/- How many slots after `e` the slot `h` is. -/
def rot (n e h : Nat) : Nat :=
  if e < h then h - e - 1 else h + n - e - 1

/- The keys are stored as the searches expect them. -/
structure Valid
    (n : Nat)
    (home : Nat → Nat)
    (slots : Nat → Nat) : Prop where
  home_lt : ∀ h < n, slots h ≠ 0 → home (slots h) < n
  key_lt : ∀ h < n, slots h < n
  inj :
    ∀ h < n, ∀ h' < n, slots h ≠ 0 →
      slots h = slots h' → h = h'
  reach :
    ∀ h < n, slots h ≠ 0 → ∀ e < n, slots e = 0 →
      rot n e (home (slots h)) ≤ rot n e h

/- A key is stored in some slot. -/
def Stored (n : Nat) (slots : Nat → Nat) (key : Nat) : Prop :=
  ∃ h < n, slots h = key

/- An empty table. -/
theorem valid_empty
    (n : Nat)
    (home : Nat → Nat)
    (hPos : 0 < n)
    (hEmpty : ∀ h < n, slots h = 0) :
    Valid n home slots :=
  { home_lt := fun h hh hFull =>
      absurd (hEmpty h hh) hFull
    key_lt := by
      intro h hh
      rw [hEmpty h hh]
      exact hPos
    inj := fun h hh _ _ hFull => absurd (hEmpty h hh) hFull
    reach := fun h hh hFull => absurd (hEmpty h hh) hFull }

/- Only the homes of stored keys matter. -/
theorem Valid.rehome
    {n : Nat}
    {home home' slots : Nat → Nat}
    (hValid : Valid n home slots)
    (hSame :
      ∀ key, key ≠ 0 → Stored n slots key →
        home' key = home key) :
    Valid n home' slots := by
  have hHome : ∀ h < n, slots h ≠ 0 →
      home' (slots h) = home (slots h) :=
    fun h hh hFull => hSame _ hFull ⟨h, hh, rfl⟩
  refine ⟨?_, hValid.key_lt, hValid.inj, ?_⟩
  · intro h hh hFull
    rw [hHome h hh hFull]
    exact hValid.home_lt h hh hFull
  · intro h hh hFull
    rw [hHome h hh hFull]
    exact hValid.reach h hh hFull

/- Stored keys are below the size. -/
theorem Valid.stored_lt
    (hValid : Valid n home slots)
    (hStored : Stored n slots key) :
    key < n := by
  rcases hStored with ⟨h, hh, hSlot⟩
  rw [← hSlot]
  exact hValid.key_lt h hh

/- Storing a key into an empty slot adds this key. -/
theorem stored_update_iff
    {n h : Nat}
    (hh : h < n)
    (hEmpty : slots h = 0)
    (key : Nat)
    {k : Nat}
    (hk : k ≠ 0) :
    Stored n (update slots h key) k ↔
      Stored n slots k ∨ k = key := by
  constructor
  · rintro ⟨q, hq, hSlot⟩
    by_cases hEq : q = h
    · rw [hEq, update_self] at hSlot
      exact Or.inr hSlot.symm
    · rw [update_of_ne hEq] at hSlot
      exact Or.inl ⟨q, hq, hSlot⟩
  · rintro (⟨q, hq, hSlot⟩ | hEq)
    · have hNe : q ≠ h := by
        intro hEq
        rw [hEq, hEmpty] at hSlot
        exact hk hSlot.symm
      refine ⟨q, hq, ?_⟩
      rw [update_of_ne hNe]
      exact hSlot
    · refine ⟨h, hh, ?_⟩
      rw [update_self, hEq]

section Rot

variable {n e h : Nat}

theorem next_lt
    (hn : h < n) :
    next n h < n := by
  unfold next
  split <;> omega

theorem rot_lt
    (he : e < n)
    (hh : h < n) :
    rot n e h < n := by
  unfold rot
  split <;> omega

theorem rot_self : rot n e e = n - 1 := by
  unfold rot
  rw [if_neg (Nat.lt_irrefl e)]
  omega

theorem rot_inj
    {g : Nat}
    (he : e < n)
    (hg : g < n)
    (hh : h < n)
    (hEq : rot n e g = rot n e h) :
    g = h := by
  unfold rot at hEq
  split at hEq <;> split at hEq <;> omega

theorem rot_next
    (he : e < n)
    (hh : h < n)
    (hNe : h ≠ e) :
    rot n e (next n h) = rot n e h + 1 := by
  unfold rot next
  split <;> split <;> split <;> omega

end Rot

/-
  An empty slot exists, since slots with different keys
  below `n` cannot fill the table when zero is no key.
-/
theorem Valid.exists_empty
    (hValid : Valid n home slots)
    (hn : 0 < n) :
    ∃ e < n, slots e = 0 := by
  by_contra hNone
  have hFull : ∀ h < n, slots h ≠ 0 := by
    intro h hh hZero
    exact hNone ⟨h, hh, hZero⟩
  -- the keys of all slots would be distinct and nonzero
  let f : Fin n → Fin (n - 1) := fun h =>
    ⟨slots h - 1, by
      have hLt := hValid.key_lt h h.isLt
      have hPos := hFull h h.isLt
      omega⟩
  have hInj : Function.Injective f := by
    intro a b hEq
    have hVal : slots a - 1 = slots b - 1 :=
      congrArg Fin.val hEq
    have ha := hFull a a.isLt
    have hb := hFull b b.isLt
    exact Fin.ext (hValid.inj a a.isLt b b.isLt ha
      (by omega))
  have hCard := Fintype.card_le_of_injective f hInj
  simp only [Fintype.card_fin] at hCard
  omega

/- An arc read from another slot: it must not pass it. -/
theorem rot_le_iff
    {n e e' a b : Nat}
    (he : e < n)
    (he' : e' < n)
    (ha : a < n)
    (hb : b < n)
    (hLe : rot n e a ≤ rot n e b) :
    rot n e' a ≤ rot n e' b ↔
      ¬ (rot n e a ≤ rot n e e' ∧
        rot n e e' < rot n e b) := by
  unfold rot at *
  split at hLe <;> split at hLe <;> split <;> split <;>
    split <;> omega

/- The test for displaced keys, read from an empty slot. -/
theorem displaced_iff
    {n e hole d t : Nat}
    (he : e < n)
    (hHole : hole < n)
    (hd : d < n)
    (ht : t < n)
    (hAfter : rot n e hole < rot n e d)
    (hHome : rot n e t ≤ rot n e d) :
    displaced hole d t = true ↔
      rot n e t ≤ rot n e hole := by
  unfold displaced rot at *
  split at hAfter <;> split at hAfter <;>
    split at hHome <;> split <;>
      simp only [decide_eq_true_eq] <;> omega

------
-- Searching
------

section Search

variable {n e : Nat} {home slots : Nat → Nat}
variable {test : Nat → Bool} {h : Nat}

/- Seeking finds the first slot that passes the test. -/
theorem seek_spec
    (he : e < n)
    {t : Nat}
    (ht : t < n)
    (hTest : test (slots t) = true)
    (fuel : Nat)
    {h : Nat}
    (hh : h < n)
    (hLe : rot n e h ≤ rot n e t)
    (hFuel : rot n e t - rot n e h < fuel) :
    ∃ q < n, seek n slots test fuel h = some q ∧
      test (slots q) = true ∧
      rot n e h ≤ rot n e q ∧ rot n e q ≤ rot n e t ∧
      ∀ x < n, rot n e h ≤ rot n e x →
        rot n e x < rot n e q → test (slots x) = false := by
  induction fuel generalizing h with
  | zero => omega
  | succ fuel ih =>
      by_cases hHere : test (slots h) = true
      · refine ⟨h, hh, ?_, hHere, le_refl _, hLe, ?_⟩
        · simp only [seek, hHere, if_true]
        · intro x _ h₁ h₂
          omega
      · have hNe : h ≠ t := by
          intro hEq
          rw [hEq] at hHere
          exact hHere hTest
        have hLt : rot n e h < rot n e t := by
          have hRot : rot n e h ≠ rot n e t :=
            fun hEq => hNe (rot_inj he hh ht hEq)
          omega
        have hNeE : h ≠ e := by
          intro hEq
          have hTop : rot n e h = n - 1 := by
            rw [hEq]
            exact rot_self
          have hBound := rot_lt he ht
          omega
        have hNext := rot_next he hh hNeE
        rcases ih (next_lt hh) (by omega) (by omega) with
          ⟨q, hq, hSeek, hQ, hFrom, hTo, hBefore⟩
        refine ⟨q, hq, ?_, hQ, by omega, hTo, ?_⟩
        · simp only [seek, hHere]
          exact hSeek
        · intro x hx h₁ h₂
          by_cases hEq : rot n e x = rot n e h
          · rw [rot_inj he hx hh hEq]
            simpa using hHere
          · exact hBefore x hx (by omega) h₂

/- Searching is seeking for an empty slot or a match. -/
theorem search_eq_seek
    (fuel h : Nat) :
    search n slots test fuel h =
      match seek n slots (fun k => k == 0 || test k) fuel h
        with
      | none => none
      | some q => if slots q = 0 then none
          else some (slots q) := by
  induction fuel generalizing h with
  | zero => rfl
  | succ fuel ih =>
      by_cases hZero : slots h = 0
      · simp [search, seek, hZero]
      · by_cases hTest : test (slots h) = true
        · simp [search, seek, hZero, hTest]
        · have hNot : (slots h == 0) = false := by
            simpa using hZero
          simp only [search, seek, hZero, hTest, hNot,
            Bool.or_self, if_false, Bool.false_eq_true]
          exact ih (next n h)

/- What is found is a key of the table that matches. -/
theorem search_some
    (fuel : Nat)
    (hn : h < n)
    (hSearch : search n slots test fuel h = some key) :
    key ≠ 0 ∧ Stored n slots key ∧ test key = true := by
  induction fuel generalizing h with
  | zero => cases hSearch
  | succ fuel ih =>
      unfold search at hSearch
      split_ifs at hSearch with hEmpty hTest
      · cases hSearch
        exact ⟨hEmpty, ⟨h, hn, rfl⟩, hTest⟩
      · exact ih (next_lt hn) hSearch

section

variable (hValid : Valid n home slots)
include hValid

/- A search ends at an empty slot, or before. -/
theorem Valid.seek_ends
    (hh : h < n) :
    ∃ q < n, seek n slots (fun k => k == 0 || test k) n h =
      some q := by
  rcases hValid.exists_empty (by omega) with ⟨e, he, hEmpty⟩
  have hTop : rot n e e = n - 1 := rot_self
  have hBound := rot_lt he hh
  rcases @seek_spec n e slots
      (fun k => k == 0 || test k) he e he (by simp [hEmpty])
      n _ hh (by omega) (by omega) with
    ⟨q, hq, hSeek, _⟩
  exact ⟨q, hq, hSeek⟩

/- A key that matches is found from its home, or another. -/
theorem Valid.search_match
    {key : Nat}
    (hStored : Stored n slots key)
    (hKey : key ≠ 0)
    (hTest : test key = true) :
    ∃ q < n, slots q ≠ 0 ∧ test (slots q) = true ∧
      search n slots test n (home key) =
        some (slots q) := by
  rcases hStored with ⟨t, ht, hSlot⟩
  subst hSlot
  have hn : 0 < n := by omega
  rcases hValid.exists_empty hn with ⟨e, he, hEmpty⟩
  have hHome := hValid.home_lt t ht hKey
  have hReach := hValid.reach t ht hKey e he hEmpty
  have hBound := rot_lt he ht
  rcases @seek_spec n e slots
      (fun k => k == 0 || test k) he t ht (by simp [hTest])
      n _ hHome hReach (by omega) with
    ⟨q, hq, hSeek, hQ, hFrom, hTo, hBefore⟩
  -- the slot found cannot be empty, so it holds a match
  have hFull : slots q ≠ 0 := by
    intro hZero
    have hArc := (rot_le_iff he hq hHome ht hReach).mp
      (hValid.reach t ht hKey q hq hZero)
    have hEq : rot n e q = rot n e t := by omega
    rw [rot_inj he hq ht hEq] at hZero
    exact hKey hZero
  refine ⟨q, hq, hFull, ?_, ?_⟩
  · simpa [hFull] using hQ
  · rw [search_eq_seek, hSeek]
    simp only [hFull, if_false]

/- A stored key is found from its home. -/
theorem Valid.search_eq_some
    (hStored : Stored n slots key)
    (hKey : key ≠ 0)
    (hTest : test key = true)
    (hUnique :
      ∀ h < n, slots h ≠ 0 → test (slots h) = true →
        slots h = key) :
    search n slots test n (home key) = some key := by
  rcases hValid.search_match hStored hKey hTest with
    ⟨q, hq, hFull, hMatch, hSearch⟩
  rw [hSearch, hUnique q hq hFull hMatch]

/- A search without a match reaches an empty slot. -/
theorem Valid.search_eq_none
    (hh : h < n)
    (hNone :
      ∀ q < n, slots q ≠ 0 → test (slots q) = false) :
    search n slots test n h = none := by
  rcases hValid.exists_empty (by omega) with ⟨e, he, hEmpty⟩
  have hTop : rot n e e = n - 1 := rot_self
  have hBound := rot_lt he hh
  rcases @seek_spec n e slots
      (fun k => k == 0 || test k) he e he (by simp [hEmpty])
      n _ hh (by omega) (by omega) with
    ⟨q, hq, hSeek, hQ, _⟩
  rw [search_eq_seek, hSeek]
  by_cases hZero : slots q = 0
  · simp only [hZero, if_true]
  · have hFalse := hNone q hq hZero
    simp [hZero, hFalse] at hQ

end

end Search

------
-- Inserting
------

/- Inserting a new key stores it and keeps the table valid. -/
theorem insert_spec
    (hValid : Valid n home slots)
    (hPos : key ≠ 0)
    (hLt : key < n)
    (hHome : home key < n)
    (hNew : ¬ Stored n slots key) :
    ∃ h < n, slots h = 0 ∧
      insert n home slots key = some (update slots h key) ∧
      Valid n home (update slots h key) := by
  rcases hValid.exists_empty (by omega) with ⟨e, he, hEmpty⟩
  have hTop : rot n e e = n - 1 := rot_self
  have hBound := rot_lt he hHome
  rcases @seek_spec n e slots (fun k => k == 0) he e he
      (by simp [hEmpty]) n _ hHome (by omega)
      (by omega) with
    ⟨q, hq, hSeek, hQ, hFrom, _, hBefore⟩
  have hZero : slots q = 0 := by simpa using hQ
  refine ⟨q, hq, hZero, by simp only [insert, hSeek],
    ?_, ?_, ?_, ?_⟩
  · intro h hh hFull
    by_cases hEq : h = q
    · rw [hEq, update_self]
      exact hHome
    · rw [update_of_ne hEq] at hFull ⊢
      exact hValid.home_lt h hh hFull
  · intro h hh
    by_cases hEq : h = q
    · rw [hEq, update_self]
      exact hLt
    · rw [update_of_ne hEq]
      exact hValid.key_lt h hh
  · intro h hh h' hh' hFull hSame
    by_cases hEq : h = q
    · by_cases hEq' : h' = q
      · rw [hEq, hEq']
      · rw [hEq, update_self, update_of_ne hEq'] at hSame
        exact absurd ⟨h', hh', hSame.symm⟩ hNew
    · rw [update_of_ne hEq] at hFull hSame
      by_cases hEq' : h' = q
      · rw [hEq', update_self] at hSame
        exact absurd ⟨h, hh, hSame⟩ hNew
      · rw [update_of_ne hEq'] at hSame
        exact hValid.inj h hh h' hh' hFull hSame
  · intro h hh hFull e' he' hEmpty'
    have hNe : e' ≠ q := by
      intro hEq
      rw [hEq, update_self] at hEmpty'
      exact hPos hEmpty'
    rw [update_of_ne hNe] at hEmpty'
    by_cases hEq : h = q
    · rw [hEq, update_self]
      apply (rot_le_iff he he' hHome hq hFrom).mpr
      intro hArc
      have hFalse := hBefore e' he' hArc.1 hArc.2
      simp [hEmpty'] at hFalse
    · rw [update_of_ne hEq] at hFull ⊢
      exact hValid.reach h hh hFull e' he' hEmpty'

------
-- Deleting
------

/-
  The loop invariant of `close`. The slot `hole` counts as
  empty, but paths may pass it; the keys between the hole
  and `d` have their homes after the hole. The slot `e` is
  empty throughout.
-/
structure HoleInv
    (n : Nat)
    (home slots : Nat → Nat)
    (e hole d : Nat) : Prop where
  e_lt : e < n
  hole_lt : hole < n
  d_lt : d < n
  e_empty : slots e = 0
  e_ne : e ≠ hole
  home_lt :
    ∀ h < n, h ≠ hole → slots h ≠ 0 → home (slots h) < n
  key_lt : ∀ h < n, slots h < n
  inj :
    ∀ h < n, ∀ h' < n, h ≠ hole → h' ≠ hole →
      slots h ≠ 0 → slots h = slots h' → h = h'
  reach :
    ∀ h < n, h ≠ hole → slots h ≠ 0 →
      ∀ e' < n, e' ≠ hole → slots e' = 0 →
        rot n e' (home (slots h)) ≤ rot n e' h
  hole_le : rot n e hole ≤ rot n e d
  scanned :
    ∀ x < n, rot n e hole < rot n e x →
      rot n e x ≤ rot n e d →
        slots x ≠ 0 ∧ rot n e hole < rot n e (home (slots x))

namespace HoleInv

variable {n e hole d : Nat} {home slots : Nat → Nat}

section HoleInv

variable (hInv : HoleInv n home slots e hole d)

include hInv

theorem d_ne :
    d ≠ e := by
  intro hEq
  have hTop : rot n e e = n - 1 := rot_self
  have hBound := rot_lt hInv.e_lt hInv.hole_lt
  have hRot : rot n e hole ≠ rot n e e := fun h =>
    hInv.e_ne (rot_inj hInv.e_lt hInv.hole_lt hInv.e_lt
      h).symm
  have hScan := hInv.scanned e hInv.e_lt (by omega)
    (by rw [hEq])
  exact hScan.1 hInv.e_empty

theorem rot_next_d :
    rot n e (next n d) = rot n e d + 1 :=
  rot_next hInv.e_lt hInv.d_lt hInv.d_ne

theorem next_ne_hole :
    next n d ≠ hole := by
  intro hEq
  have hNext := hInv.rot_next_d
  have hLe := hInv.hole_le
  rw [hEq] at hNext
  omega

/- At the end of the clump the hole may be cleared. -/
theorem valid_clear
    (hEnd : slots (next n d) = 0) :
    Valid n home (update slots hole 0) := by
  have hNext := hInv.rot_next_d
  have hNeHole := hInv.next_ne_hole
  refine ⟨?_, ?_, ?_, ?_⟩
  · intro h hh hFull
    by_cases hEq : h = hole
    · simp [hEq] at hFull
    · rw [update_of_ne hEq] at hFull ⊢
      exact hInv.home_lt h hh hEq hFull
  · intro h hh
    by_cases hEq : h = hole
    · rw [hEq, update_self]
      omega
    · rw [update_of_ne hEq]
      exact hInv.key_lt h hh
  · intro h hh h' hh' hFull hSame
    by_cases hEq : h = hole
    · simp [hEq] at hFull
    · rw [update_of_ne hEq] at hFull hSame
      by_cases hEq' : h' = hole
      · rw [hEq', update_self] at hSame
        exact absurd hSame hFull
      · rw [update_of_ne hEq'] at hSame
        exact hInv.inj h hh h' hh' hEq hEq' hFull hSame
  · intro h hh hFull e' he' hEmpty
    by_cases hEq : h = hole
    · simp [hEq] at hFull
    rw [update_of_ne hEq] at hFull ⊢
    by_cases hEq' : e' = hole
    · -- a path over the hole would end before the clump does
      subst hEq'
      have hHome := hInv.home_lt h hh hEq hFull
      have hPath := hInv.reach h hh hEq hFull e hInv.e_lt
        hInv.e_ne hInv.e_empty
      have hEndPath := hInv.reach h hh hEq hFull
        (next n d) (next_lt hInv.d_lt) hNeHole hEnd
      rw [rot_le_iff hInv.e_lt (next_lt hInv.d_lt) hHome hh
        hPath] at hEndPath
      apply (rot_le_iff hInv.e_lt he' hHome hh hPath).mpr
      intro hArc
      have hLe := hInv.hole_le
      have hNeEnd : rot n e h ≠ rot n e (next n d) := by
        intro hSame
        have hEqEnd := rot_inj hInv.e_lt hh
          (next_lt hInv.d_lt) hSame
        rw [hEqEnd] at hFull
        exact hFull hEnd
      have hScan := hInv.scanned h hh hArc.2 (by omega)
      omega
    · rw [update_of_ne hEq'] at hEmpty
      exact hInv.reach h hh hEq hFull e' he' hEq' hEmpty

/- A key that may stay is scanned. -/
theorem scan
    (hFull : slots (next n d) ≠ 0)
    (hStay :
      displaced hole (next n d)
        (home (slots (next n d))) = false) :
    HoleInv n home slots e hole (next n d) := by
  have hNext := hInv.rot_next_d
  have hLe := hInv.hole_le
  have hdLt := next_lt hInv.d_lt
  have hNe := hInv.next_ne_hole
  have hHome := hInv.home_lt _ hdLt hNe hFull
  have hPath := hInv.reach _ hdLt hNe hFull e hInv.e_lt
    hInv.e_ne hInv.e_empty
  have hIff := displaced_iff hInv.e_lt hInv.hole_lt hdLt
    hHome (by omega) hPath
  rw [hStay] at hIff
  have hAfter : ¬ rot n e (home (slots (next n d))) ≤
      rot n e hole := by
    simpa using hIff
  refine
    { hInv with
      d_lt := hdLt
      hole_le := by omega
      scanned := ?_ }
  intro x hx h₁ h₂
  by_cases hEq : rot n e x = rot n e (next n d)
  · rw [rot_inj hInv.e_lt hx hdLt hEq]
    exact ⟨hFull, by omega⟩
  · exact hInv.scanned x hx h₁ (by omega)

/- A displaced key moves up and leaves a new hole. -/
theorem move
    (hFull : slots (next n d) ≠ 0)
    (hMove :
      displaced hole (next n d)
        (home (slots (next n d))) = true) :
    HoleInv n home
      (update slots hole (slots (next n d)))
      e (next n d) (next n d) := by
  have hNext := hInv.rot_next_d
  have hLe := hInv.hole_le
  have hdLt := next_lt hInv.d_lt
  have hNe := hInv.next_ne_hole
  have hHome := hInv.home_lt _ hdLt hNe hFull
  have hPath := hInv.reach _ hdLt hNe hFull e hInv.e_lt
    hInv.e_ne hInv.e_empty
  have hBefore := (displaced_iff hInv.e_lt hInv.hole_lt hdLt
    hHome (by omega) hPath).mp hMove
  have hNeE : e ≠ next n d := by
    intro hEq
    rw [← hEq] at hFull
    exact hFull hInv.e_empty
  -- the value of every slot but the new hole
  have hSlot : ∀ h, h ≠ hole →
      update slots hole (slots (next n d)) h = slots h :=
    fun h hh => update_of_ne hh _ _
  have hSlotHole :
      update slots hole (slots (next n d)) hole =
        slots (next n d) := update_self ..
  refine ⟨hInv.e_lt, hdLt, hdLt, ?_, hNeE, ?_, ?_, ?_, ?_,
    le_refl _, ?_⟩
  · rw [hSlot e hInv.e_ne]
    exact hInv.e_empty
  · intro h hh hNeD hFullH
    by_cases hEq : h = hole
    · rw [hEq, hSlotHole]
      exact hHome
    · rw [hSlot h hEq] at hFullH ⊢
      exact hInv.home_lt h hh hEq hFullH
  · intro h hh
    by_cases hEq : h = hole
    · rw [hEq, hSlotHole]
      exact hInv.key_lt _ hdLt
    · rw [hSlot h hEq]
      exact hInv.key_lt h hh
  · intro h hh h' hh' hNeD hNeD' hFullH hSame
    by_cases hEq : h = hole
    · by_cases hEq' : h' = hole
      · rw [hEq, hEq']
      · rw [hEq, hSlotHole, hSlot h' hEq'] at hSame
        exact absurd (hInv.inj _ hdLt h' hh' hNe hEq' hFull
          hSame).symm hNeD'
    · rw [hSlot h hEq] at hFullH hSame
      by_cases hEq' : h' = hole
      · rw [hEq', hSlotHole] at hSame
        exact absurd (hInv.inj h hh _ hdLt hEq hNe hFullH
          hSame) hNeD
      · rw [hSlot h' hEq'] at hSame
        exact hInv.inj h hh h' hh' hEq hEq' hFullH hSame
  · intro h hh hNeD hFullH e' he' hNeD' hEmpty
    have hNeHole : e' ≠ hole := by
      intro hEq
      rw [hEq, hSlotHole] at hEmpty
      exact hFull hEmpty
    rw [hSlot e' hNeHole] at hEmpty
    by_cases hEq : h = hole
    · rw [hEq, hSlotHole]
      have hOld := hInv.reach _ hdLt hNe hFull e' he'
        hNeHole hEmpty
      rw [rot_le_iff hInv.e_lt he' hHome hdLt hPath] at hOld
      apply (rot_le_iff hInv.e_lt he' hHome hInv.hole_lt
        hBefore).mpr
      intro hArc
      apply hOld
      omega
    · rw [hSlot h hEq] at hFullH ⊢
      exact hInv.reach h hh hEq hFullH e' he' hNeHole hEmpty
  · intro x hx h₁ h₂
    omega

end HoleInv

end HoleInv

/- The keys of a table whose slot `hole` does not count. -/
def StoredBut
    (n : Nat)
    (slots : Nat → Nat)
    (hole key : Nat) : Prop :=
  ∃ h < n, h ≠ hole ∧ slots h = key

/- Closing a hole keeps the other keys. -/
theorem close_spec
    (fuel : Nat)
    {e hole d : Nat}
    (hInv : HoleInv n home slots e hole d)
    (hFuel : n - rot n e d ≤ fuel) :
    ∃ slots', close n home fuel slots hole d = some slots' ∧
      Valid n home slots' ∧
      ∀ key, key ≠ 0 →
        (Stored n slots' key ↔
          StoredBut n slots hole key) := by
  induction fuel generalizing slots hole d with
  | zero =>
      have hBound := rot_lt hInv.e_lt hInv.d_lt
      omega
  | succ fuel ih =>
      have hNext := hInv.rot_next_d
      have hNe := hInv.next_ne_hole
      have hdLt := next_lt hInv.d_lt
      by_cases hEnd : slots (next n d) = 0
      · refine ⟨update slots hole 0, ?_,
          hInv.valid_clear hEnd, ?_⟩
        · simp only [close, hEnd, if_true]
        · intro key hKey
          constructor
          · rintro ⟨h, hh, hSlot⟩
            by_cases hEq : h = hole
            · rw [hEq, update_self] at hSlot
              exact absurd hSlot.symm hKey
            · rw [update_of_ne hEq] at hSlot
              exact ⟨h, hh, hEq, hSlot⟩
          · rintro ⟨h, hh, hEq, hSlot⟩
            refine ⟨h, hh, ?_⟩
            rw [update_of_ne hEq]
            exact hSlot
      · by_cases hMove : displaced hole (next n d)
            (home (slots (next n d))) = true
        · rcases ih (hInv.move hEnd hMove) (by omega) with
            ⟨slots', hClose, hValid, hStored⟩
          refine ⟨slots', ?_, hValid, ?_⟩
          · simp only [close, hEnd, hMove, if_true, if_false]
            exact hClose
          · intro key hKey
            rw [hStored key hKey]
            constructor
            · rintro ⟨h, hh, hNeD, hSlot⟩
              by_cases hEq : h = hole
              · rw [hEq, update_self] at hSlot
                exact ⟨next n d, hdLt, hNe, hSlot⟩
              · rw [update_of_ne hEq] at hSlot
                exact ⟨h, hh, hEq, hSlot⟩
            · rintro ⟨h, hh, hEq, hSlot⟩
              by_cases hEqD : h = next n d
              · refine ⟨hole, hInv.hole_lt, hNe.symm, ?_⟩
                rw [update_self, ← hEqD]
                exact hSlot
              · refine ⟨h, hh, hEqD, ?_⟩
                rw [update_of_ne hEq]
                exact hSlot
        · simp only [Bool.not_eq_true] at hMove
          rcases ih (hInv.scan hEnd hMove) (by omega) with
            ⟨slots', hClose, hValid, hStored⟩
          refine ⟨slots', ?_, hValid, hStored⟩
          simp only [close, hEnd, hMove, if_false,
            Bool.false_eq_true]
          exact hClose

/- Deleting a stored key removes it and no other key. -/
theorem delete_spec
    (hValid : Valid n home slots)
    (hPos : key ≠ 0)
    (hStored : Stored n slots key) :
    ∃ slots', delete n home slots key = some slots' ∧
      Valid n home slots' ∧
      ∀ k, k ≠ 0 →
        (Stored n slots' k ↔ Stored n slots k ∧ k ≠ key) := by
  rcases hStored with ⟨t, ht, hSlot⟩
  subst hSlot
  rcases hValid.exists_empty (by omega) with ⟨e, he, hEmpty⟩
  have hHome := hValid.home_lt t ht hPos
  have hReach := hValid.reach t ht hPos e he hEmpty
  have hBound := rot_lt he ht
  rcases @seek_spec n e slots (fun k => k == slots t) he t
      ht (by simp) n _ hHome hReach (by omega) with
    ⟨q, hq, hSeek, hQ, _⟩
  have hKey : slots q = slots t := by simpa using hQ
  have hEq : q = t := (hValid.inj t ht q hq hPos
    hKey.symm).symm
  subst hEq
  have hNe : e ≠ q := by
    intro h
    rw [← h] at hPos
    exact hPos hEmpty
  have hInv : HoleInv n home slots e q q :=
    { e_lt := he
      hole_lt := hq
      d_lt := hq
      e_empty := hEmpty
      e_ne := hNe
      home_lt := fun h hh _ => hValid.home_lt h hh
      key_lt := hValid.key_lt
      inj := fun h hh h' hh' _ _ => hValid.inj h hh h' hh'
      reach := fun h hh _ hFull e' he' _ =>
        hValid.reach h hh hFull e' he'
      hole_le := le_refl _
      scanned := fun x _ h₁ h₂ => by omega }
  rcases close_spec n hInv (by omega) with
    ⟨slots', hClose, hValid', hStored⟩
  refine ⟨slots', ?_, hValid', ?_⟩
  · simp only [delete, hSeek]
    exact hClose
  · intro k hk
    rw [hStored k hk]
    constructor
    · rintro ⟨h, hh, hNeQ, hSlot⟩
      refine ⟨⟨h, hh, hSlot⟩, ?_⟩
      intro hSame
      apply hNeQ
      exact hValid.inj h hh q hq (by omega)
        (hSlot.trans hSame)
    · rintro ⟨⟨h, hh, hSlot⟩, hNeKey⟩
      refine ⟨h, hh, ?_, hSlot⟩
      intro hEq
      rw [hEq] at hSlot
      exact hNeKey hSlot.symm

end Probing

end Lib
