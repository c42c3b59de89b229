import Mathlib.Algebra.Order.BigOperators.Group.Finset
import Mathlib.Algebra.BigOperators.Group.Finset.Basic
import Mathlib.Algebra.BigOperators.Group.Finset.Piecewise
import Mathlib.Data.Fintype.Card
import Mathlib.Data.Set.Card

/-
  How many indices of a finite family have a property, and
  how this changes with one member of the family.

  Main declarations:
    * `Counting.count`
    * `Counting.finCount`, for a family that need not be finite
    * `Counting.count_update`, `Counting.finCount_update`
    * `Counting.count_eq_zero`
-/

------
-- Counting
------

namespace Lib

open Function

namespace Counting

variable {ι α : Type} [Fintype ι]

def count (p : α → Bool) (f : ι → α) : Nat :=
  ∑ i, (p (f i)).toNat

variable {p : α → Bool} {f : ι → α}

theorem count_le_card :
    count p f ≤ Fintype.card ι := by
  calc
    count p f ≤ ∑ _i : ι, 1 :=
      Finset.sum_le_sum fun i _ => Bool.toNat_le (p (f i))
    _ = Fintype.card ι :=
      (Finset.card_eq_sum_ones Finset.univ).symm

theorem count_eq_zero :
    count p f = 0 ↔ ∀ i, p (f i) = false := by
  unfold count
  rw [Finset.sum_eq_zero_iff]
  constructor
  · intro h i
    exact Bool.toNat_eq_zero.mp (h i (Finset.mem_univ i))
  · intro h i _
    exact Bool.toNat_eq_zero.mpr (h i)

/- One member of the family is replaced by another. -/
theorem count_update
    [DecidableEq ι]
    (f : ι → α)
    (i : ι)
    (a : α) :
    count p (update f i a) + (p (f i)).toNat =
      count p f + (p a).toNat := by
  have hNew : ∀ j, (p (update f i a j)).toNat =
      update (fun j => (p (f j)).toNat) i
        (p a).toNat j := by
    intro j
    by_cases hEq : j = i
    · subst hEq
      rw [update_self, update_self]
    · rw [update_of_ne hEq, update_of_ne hEq]
  have hRest := Finset.sum_update_of_mem (Finset.mem_univ i)
    (fun j => (p (f j)).toNat) (p a).toNat
  have hOld := Finset.sum_erase_add Finset.univ
    (fun j => (p (f j)).toNat) (Finset.mem_univ i)
  rw [Finset.erase_eq] at hOld
  unfold count
  simp only [hNew]
  omega

------
-- Families with Finitely Many Members of a Kind
------

section Infinite

variable {κ : Type} {g : κ → α}

noncomputable def finCount (p : α → Bool) (g : κ → α) : Nat :=
  {k | p (g k) = true}.ncard

section

variable (hFinite : {k | p (g k) = true}.Finite)
include hFinite

theorem finCount_pos
    {k : κ}
    (hk : p (g k) = true) :
    0 < finCount p g :=
  (Set.ncard_pos hFinite).mpr ⟨k, hk⟩

/- The indices but one, and that one. -/
theorem finCount_split
    (k : κ) :
    finCount p g =
      ({k | p (g k) = true} \ {k}).ncard +
        (p (g k)).toNat := by
  cases hk : p (g k) with
  | true =>
      have hMem : k ∈ {k | p (g k) = true} := hk
      exact (Set.ncard_sdiff_singleton_add_one hMem
        hFinite).symm
  | false =>
      have hNot : k ∉ {k | p (g k) = true} := by
        simp [hk]
      rw [Set.sdiff_singleton_eq_self hNot]
      rfl

theorem finite_update
    [DecidableEq κ]
    (k : κ)
    (a : α) :
    {j | p (update g k a j) = true}.Finite := by
  apply (hFinite.insert k).subset
  intro j hj
  by_cases hEq : j = k
  · exact Or.inl hEq
  · rw [Set.mem_ofPred_eq, update_of_ne hEq] at hj
    exact Or.inr hj

/- One member of the family is replaced by another. -/
theorem finCount_update
    [DecidableEq κ]
    (k : κ)
    (a : α) :
    finCount p (update g k a) + (p (g k)).toNat =
      finCount p g + (p a).toNat := by
  have hNew := finCount_split (finite_update hFinite k a) k
  have hOld := finCount_split hFinite k
  have hSame :
      {j | p (update g k a j) = true} \ {k} =
        {j | p (g j) = true} \ {k} := by
    ext j
    constructor
    · rintro ⟨hj, hNe⟩
      rw [Set.mem_ofPred_eq, update_of_ne hNe] at hj
      exact ⟨hj, hNe⟩
    · rintro ⟨hj, hNe⟩
      refine ⟨?_, hNe⟩
      rw [Set.mem_ofPred_eq, update_of_ne hNe]
      exact hj
  rw [update_self, hSame] at hNew
  omega

end

end Infinite

end Counting

end Lib
