import Mathlib.Data.List.Basic
import Mathlib.Logic.Function.Basic

/-
  Singly linked lists of array indices.

  Every index has a link to the next one; the link zero ends
  the list. `Chain` says which indices a list runs through.

  Main declarations:
    * `IndexChain.Chain`
    * `IndexChain.pred`
    * `Chain.push`, `Chain.pop`
    * `Chain.unlink`, `Chain.drop`
-/

------
-- Chains
------

namespace Lib

open Function

namespace IndexChain

/- The links from `i` on run through `indices` to the end. -/
def Chain (next : Nat → Nat) : Nat → List Nat → Prop
| i, [] => next i = 0
| i, a :: indices =>
    next i = a ∧ a ≠ 0 ∧ Chain next a indices

/- The index before `index` on the list that starts at `i`. -/
def pred (next : Nat → Nat) (index : Nat) :
    Nat → Nat → Option Nat
| 0, _ => none
| fuel + 1, i =>
    if next i = index then some i
    else pred next index fuel (next i)

namespace Chain

variable {next next' : Nat → Nat}
variable {i : Nat} {indices : List Nat} {a : Nat}

/- A chain only depends on its own links. -/
theorem congr
    {i : Nat}
    {indices : List Nat}
    (hChain : Chain next i indices)
    (hSame : ∀ j ∈ i :: indices, next' j = next j) :
    Chain next' i indices := by
  induction indices generalizing i with
  | nil =>
      have hEnd : next i = 0 := hChain
      have hLink := hSame i (by simp)
      exact hLink.trans hEnd
  | cons a indices ih =>
      rcases hChain with ⟨hNext, hPos, hRest⟩
      have hLink := hSame i (by simp)
      refine ⟨hLink.trans hNext, hPos, ?_⟩
      apply ih hRest
      intro j hj
      exact hSame j (List.mem_cons_of_mem _ hj)

theorem zero_notMem
    (hChain : Chain next i indices) :
    0 ∉ indices := by
  induction indices generalizing i with
  | nil => simp
  | cons a indices ih =>
      rcases hChain with ⟨_, hPos, hRest⟩
      have hTail := ih hRest
      simp only [List.mem_cons, not_or]
      exact ⟨Ne.symm hPos, hTail⟩

/- The first index of a chain, or zero. -/
theorem next_eq_zero_iff
    (hChain : Chain next i indices) :
    next i = 0 ↔ indices = [] := by
  cases indices with
  | nil =>
      have hEnd : next i = 0 := hChain
      simp [hEnd]
  | cons a indices =>
      have hNext := hChain.1
      have hPos := hChain.2.1
      simp [hNext, hPos]

/- Linking a new index in after `i`. -/
theorem push
    (hChain : Chain next i indices)
    (ha : a ≠ 0)
    (hNew : next' i = a)
    (hLink : next' a = next i)
    (hSame : ∀ j ∈ indices, next' j = next j) :
    Chain next' i (a :: indices) := by
  refine ⟨hNew, ha, ?_⟩
  cases indices with
  | nil =>
      have hEnd : next i = 0 := hChain
      exact hLink.trans hEnd
  | cons b indices =>
      rcases hChain with ⟨hNext, hPos, hRest⟩
      exact ⟨hLink.trans hNext, hPos, hRest.congr hSame⟩

/- Taking the first index off. -/
theorem pop
    (hChain : Chain next i (a :: indices))
    (hLink : next' i = next a)
    (hSame : ∀ j ∈ indices, next' j = next j) :
    Chain next' i indices := by
  rcases hChain with ⟨_, _, hRest⟩
  cases indices with
  | nil =>
      have hEnd : next a = 0 := hRest
      exact hLink.trans hEnd
  | cons b indices =>
      rcases hRest with ⟨hNext, hPos, hTail⟩
      exact ⟨hLink.trans hNext, hPos, hTail.congr hSame⟩

/-
  The search for the predecessor ends, and redirecting its
  link takes the index out of the chain.
-/
theorem unlink
    {index : Nat}
    (fuel : Nat)
    (hChain : Chain next i indices)
    (hNodup : (i :: indices).Nodup)
    (hMem : index ∈ indices)
    (hFuel : indices.length ≤ fuel) :
    ∃ p, pred next index fuel i = some p ∧
      p ∈ i :: indices ∧ p ≠ index ∧
      Chain (update next p (next index)) i
        (indices.erase index) := by
  induction fuel generalizing i indices with
  | zero =>
      have hNil := List.length_eq_zero_iff.mp
        (Nat.le_zero.mp hFuel)
      simp [hNil] at hMem
  | succ fuel ih =>
      cases indices with
      | nil => simp at hMem
      | cons a indices =>
          have hChain' := hChain
          rcases hChain with ⟨hNext, hPos, hRest⟩
          have hParts := List.nodup_cons.mp hNodup
          by_cases hEq : a = index
          · -- the predecessor is the start
            subst hEq
            have hNe : i ≠ a := by
              intro h
              apply hParts.1
              simp [h]
            refine ⟨i, ?_, by simp, hNe, ?_⟩
            · simp only [pred, hNext, if_true]
            · rw [List.erase_cons_head]
              apply hChain'.pop
              · rw [update_self]
              · intro j hj
                apply update_of_ne
                intro h
                apply hParts.1
                rw [← h]
                exact List.mem_cons_of_mem _ hj
          · have hMem' : index ∈ indices := by
              rcases List.mem_cons.mp hMem with h | h
              · exact absurd h.symm hEq
              · exact h
            have hLen : indices.length ≤ fuel := by
              simpa using hFuel
            rcases ih hRest hParts.2 hMem' hLen with
              ⟨p, hPred, hIn, hNe, hChain''⟩
            refine ⟨p, ?_, List.mem_cons_of_mem _ hIn, hNe, ?_⟩
            · simp only [pred, hNext, hEq, if_false]
              exact hPred
            · have hErase : (a :: indices).erase index =
                  a :: indices.erase index :=
                List.erase_cons_tail (by simpa using hEq)
              rw [hErase]
              refine ⟨?_, hPos, hChain''⟩
              rw [update_of_ne]
              · exact hNext
              · intro h
                apply hParts.1
                rw [h]
                exact hIn

/-
  An index is taken out of the middle of a chain when the
  link of the one before it is redirected.
-/
theorem drop
    {l r : List Nat}
    (hChain : Chain next i (l ++ a :: r))
    (hNodup : (i :: (l ++ a :: r)).Nodup)
    (hLink : next' (l.getLastD i) = next a)
    (hSame :
      ∀ j ∈ i :: (l ++ r), j ≠ l.getLastD i →
        next' j = next j) :
    Chain next' i (l ++ r) := by
  induction l generalizing i with
  | nil =>
      apply hChain.pop hLink
      intro j hj
      apply hSame j (List.mem_cons_of_mem _ hj)
      intro hEq
      have hIs : j = i := hEq
      apply (List.nodup_cons.mp hNodup).1
      rw [← hIs]
      exact List.mem_cons_of_mem _ hj
  | cons b l ih =>
      rcases hChain with ⟨hNext, hPos, hRest⟩
      rw [List.getLastD_cons] at hLink hSame
      have hParts := List.nodup_cons.mp hNodup
      refine ⟨?_, hPos, ?_⟩
      · rw [hSame i List.mem_cons_self]
        · exact hNext
        · -- the start is not among the others
          intro hEq
          apply hParts.1
          rw [hEq]
          apply List.mem_append_left
          exact List.getLastD_mem_cons
      · apply ih hRest hParts.2 hLink
        intro j hj
        exact hSame j (List.mem_cons_of_mem _ hj)

/- The link of an index leads to the one after it. -/
theorem next_eq
    {l r : List Nat}
    (hChain : Chain next i (l ++ a :: r)) :
    next a = r.headD 0 := by
  induction l generalizing i with
  | nil =>
      have hRest := hChain.2.2
      cases r with
      | nil => exact hRest
      | cons b r => exact hRest.1
  | cons b l ih => exact ih hChain.2.2

end Chain

end IndexChain

end Lib
