import Mathlib.Tactic.SplitIfs
import OsfMach.Lib.Loop

/-
  A scan of the slots of a cyclic table, from the one after
  the slot that was used last and back to it.

  Looking at a slot may fail; the table is not trusted to
  have a slot for every index that is looked at.

  Main declarations:
    * `RoundRobin.turn`, `RoundRobin.scan`
    * `RoundRobin.scan_ends`
    * `RoundRobin.scan_found`, `RoundRobin.scan_none`
-/

------
-- The Scan
------

namespace Lib

namespace RoundRobin

variable {ε : Type} {fuel : Nat}

/- The index that is looked at, after the last slot. -/
def wrap (max j : Int) : Int :=
  if max < j then 0 else j

/- Take the slot, stop at the start, or go on. -/
def turn
    (look : Int → Except ε Bool)
    (max start j : Int) :
    Except (Except ε (Option Int)) Int :=
  match look (wrap max j) with
  | .error e => .error (.error e)
  | .ok true => .error (.ok (some (wrap max j)))
  | .ok false =>
      if wrap max j = start then .error (.ok none)
      else .ok (wrap max j + 1)

def scan
    (look : Int → Except ε Bool)
    (max start : Int)
    (fuel : Nat) : Option (Except ε (Option Int)) :=
  Loop.run (turn look max start) fuel (start + 1)

variable {look : Int → Except ε Bool} {max start j k : Int}

/- What a turn that goes on has seen. -/
theorem turn_ok
    (h : turn look max start j = .ok k) :
    look (wrap max j) = .ok false ∧
      wrap max j ≠ start ∧
      k = wrap max j + 1 := by
  unfold turn at h
  cases hLook : look (wrap max j) with
  | error e =>
      rw [hLook] at h
      cases h
  | ok b =>
      rw [hLook] at h
      cases b with
      | true => cases h
      | false =>
          split_ifs at h with hStart
          cases h
          exact ⟨rfl, hStart, rfl⟩

/- What a turn that ends without a failure has seen. -/
theorem turn_ended
    {r : Option Int}
    (h : turn look max start j = .error (.ok r)) :
    (look (wrap max j) = .ok true ∧ r = some (wrap max j)) ∨
    (look (wrap max j) = .ok false ∧
      wrap max j = start ∧ r = none) := by
  unfold turn at h
  cases hLook : look (wrap max j) with
  | error e =>
      rw [hLook] at h
      cases h
  | ok b =>
      rw [hLook] at h
      cases b with
      | true =>
          cases h
          exact .inl ⟨rfl, rfl⟩
      | false =>
          split_ifs at h with hStart
          cases h
          exact .inr ⟨rfl, hStart, rfl⟩

theorem turn_failed
    {e : ε}
    (h : turn look max start j = .error (.error e)) :
    look (wrap max j) = .error e := by
  unfold turn at h
  cases hLook : look (wrap max j) with
  | error e' =>
      rw [hLook] at h
      cases h
      rfl
  | ok b =>
      rw [hLook] at h
      cases b with
      | true => cases h
      | false =>
          split_ifs at h
          cases h

------
-- Its End
------

/- How many slots are left to look at. -/
def left (max start j : Int) : Nat :=
  if start < j then
    (max + 1 - j).toNat + (start + 1).toNat
  else (start + 1 - j).toNat

theorem left_turn
    (hStart : 0 ≤ start)
    (hMax : start ≤ max)
    (h : turn look max start j = .ok k) :
    left max start k < left max start j := by
  rcases turn_ok h with ⟨_, hNe, rfl⟩
  unfold wrap at hNe ⊢
  unfold left
  split_ifs at hNe ⊢ <;> omega

/- Starting at a slot, the scan ends. -/
theorem scan_ends
    (look : Int → Except ε Bool)
    (hStart : 0 ≤ start)
    (hMax : start ≤ max) :
    ∃ r, scan look max start (max.toNat + 2) = some r := by
  apply Option.isSome_iff_exists.mp
  apply Loop.run_isSome (f := left max start)
  · intro u t hTurn
    exact left_turn hStart hMax hTurn
  · unfold left
    split_ifs <;> omega

/- The slots that have been passed were not taken. -/
structure Passed
    (look : Int → Except ε Bool)
    (max start j : Int) : Prop where
  low : 0 < j
  le : j ≤ max + 1
  upper :
    ∀ k, start < k → k ≤ max → (start < j → k < j) →
      look k = .ok false
  lower :
    j ≤ start → ∀ k, 0 ≤ k → k < j → look k = .ok false

theorem Passed.first
    (look : Int → Except ε Bool)
    (hStart : 0 ≤ start)
    (hMax : start ≤ max) :
    Passed look max start (start + 1) :=
  { low := by omega
    le := by omega
    upper := by
      intro k hk hMax hLt
      omega
    lower := by
      intro hLe
      omega }

theorem Passed.turn
    (hPassed : Passed look max start j)
    (h : turn look max start j = .ok k) :
    Passed look max start k := by
  rcases turn_ok h with ⟨hLook, hNe, rfl⟩
  have hLow := hPassed.low
  have hLe := hPassed.le
  unfold wrap at hLook hNe ⊢
  by_cases hEnd : max < j
  · -- The scan goes on with the first slot.
    rw [if_pos hEnd] at hLook hNe ⊢
    refine ⟨by omega, by omega, ?_, ?_⟩
    · intro k hk hMax _
      exact hPassed.upper k hk hMax (fun _ => by omega)
    · intro _ k hk hLt
      rw [show k = 0 by omega]
      exact hLook
  · rw [if_neg hEnd] at hLook hNe ⊢
    refine ⟨by omega, by omega, ?_, ?_⟩
    · intro k hk hMax hLt
      by_cases hEq : k = j
      · rw [hEq]
        exact hLook
      · apply hPassed.upper k hk hMax
        intro hAfter
        omega
    · intro hBefore k hk hLt
      by_cases hEq : k = j
      · rw [hEq]
        exact hLook
      · exact hPassed.lower (by omega) k hk (by omega)

/- The turn that ends a scan, and what it has passed. -/
theorem scan_last
    {r : Except ε (Option Int)}
    (hStart : 0 ≤ start)
    (hMax : start ≤ max)
    (h : scan look max start fuel = some r) :
    ∃ j, Passed look max start j ∧
      turn look max start j = .error r := by
  rcases Loop.turn_of_run h with ⟨n, j, hAfter, hTurn⟩
  refine ⟨j, ?_, hTurn⟩
  exact Loop.after_invariant
    (P := fun _ j => Passed look max start j)
    (Passed.first look hStart hMax)
    (fun _ _ _ hPassed hNext =>
      hPassed.turn hNext)
    hAfter

theorem Passed.wrap_mem
    (hMax : 0 ≤ max)
    (hPassed : Passed look max start j) :
    0 ≤ wrap max j ∧ wrap max j ≤ max := by
  have hLow := hPassed.low
  unfold wrap
  split_ifs <;> omega

/- A slot that was taken is one of the table. -/
theorem scan_found
    (hStart : 0 ≤ start)
    (hMax : start ≤ max)
    (h : scan look max start fuel = some (.ok (some k))) :
    0 ≤ k ∧ k ≤ max ∧ look k = .ok true := by
  rcases scan_last hStart hMax h with ⟨j, hPassed, hTurn⟩
  rcases hPassed.wrap_mem (by omega) with ⟨hLow, hLe⟩
  rcases turn_ended hTurn with ⟨hLook, hEq⟩ | ⟨_, _, hEq⟩
  · cases hEq
    exact ⟨hLow, hLe, hLook⟩
  · cases hEq

/- Otherwise no slot of the table can be taken. -/
theorem scan_none
    (hStart : 0 ≤ start)
    (hMax : start ≤ max)
    (h : scan look max start fuel = some (.ok none)) :
    ∀ k, 0 ≤ k → k ≤ max → look k = .ok false := by
  rcases scan_last hStart hMax h with ⟨j, hPassed, hTurn⟩
  rcases turn_ended hTurn with ⟨_, hEq⟩ | ⟨hLook, hAt, _⟩
  · cases hEq
  · intro k hk hkMax
    unfold wrap at hLook hAt
    split_ifs at hLook hAt with hEnd
    · -- The start is the first slot, looked at last.
      by_cases hEq : k = 0
      · rw [hEq]
        exact hLook
      · exact hPassed.upper k (by omega) hkMax
          (fun _ => by omega)
    · by_cases hEq : k = j
      · rw [hEq]
        exact hLook
      · by_cases hAfter : start < k
        · exact hPassed.upper k hAfter hkMax
            (fun hLt => by omega)
        · exact hPassed.lower (by omega) k hk (by omega)

/- A failure is that of a slot of the table. -/
theorem scan_failed
    {e : ε}
    (hStart : 0 ≤ start)
    (hMax : start ≤ max)
    (h : scan look max start fuel = some (.error e)) :
    ∃ k, 0 ≤ k ∧ k ≤ max ∧ look k = .error e := by
  rcases scan_last hStart hMax h with ⟨j, hPassed, hTurn⟩
  rcases hPassed.wrap_mem (by omega) with ⟨hLow, hLe⟩
  exact ⟨_, hLow, hLe, turn_failed hTurn⟩

end RoundRobin

end Lib
