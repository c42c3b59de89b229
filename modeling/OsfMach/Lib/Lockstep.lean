import Mathlib.Data.List.Basic

/-
  Two lists that are walked in step, where elements of either
  that are skipped have no partner.

  Main declarations:
    * `Lockstep.pairs`
    * `Lockstep.pairs_skip`
    * `Lockstep.pairs_none`, `Lockstep.pairs_cons`
-/

------
-- Pairs
------

namespace Lib

namespace Lockstep

variable {α β : Type}

/-
  The elements that are not skipped, paired in order. The
  longer list's last elements have no partner.
-/
def pairs
    (skip : α → Bool)
    (skip' : β → Bool)
    (as : List α)
    (bs : List β) : List (α × β) :=
  (as.filter fun a => !skip a).zip
    (bs.filter fun b => !skip' b)

variable {skip : α → Bool} {skip' : β → Bool} {a : α} {b : β}
variable {as : List α} {bs bs' : List β}

theorem pairs_nil :
    pairs skip skip' [] bs = [] := rfl

theorem pairs_skip
    (h : skip a = true) :
    pairs skip skip' (a :: as) bs =
      pairs skip skip' as bs := by
  unfold pairs
  rw [List.filter_cons_of_neg (by simp [h])]

/- What is skipped at the front has no partner. -/
theorem filter_dropWhile_skip
    (bs : List β) :
    (bs.dropWhile skip').filter (fun b => !skip' b) =
      bs.filter fun b => !skip' b := by
  induction bs with
  | nil => rfl
  | cons b bs ih =>
      by_cases hSkip : skip' b = true
      · rw [List.dropWhile_cons_of_pos hSkip,
          List.filter_cons_of_neg (by simp [hSkip])]
        exact ih
      · rw [List.dropWhile_cons_of_neg hSkip]

theorem not_skip_of_dropWhile
    (h : bs.dropWhile skip' = b :: bs') :
    skip' b = false := by
  have hHead := List.head_dropWhile_not skip' (l := bs) (by
    rw [h]
    simp)
  simpa [h] using hHead

theorem pairs_none
    (h : bs.dropWhile skip' = []) :
    pairs skip skip' as bs = [] := by
  unfold pairs
  rw [← filter_dropWhile_skip bs, h]
  exact List.zip_nil_right

theorem pairs_cons
    (hSkip : skip a = false)
    (h : bs.dropWhile skip' = b :: bs') :
    pairs skip skip' (a :: as) bs =
      (a, b) :: pairs skip skip' as bs' := by
  have hNot := not_skip_of_dropWhile h
  unfold pairs
  rw [← filter_dropWhile_skip bs, h,
    List.filter_cons_of_pos (by simp [hSkip]),
    List.filter_cons_of_pos (by simp [hNot])]
  rfl

/- A partner comes from the list. -/
theorem mem_of_dropWhile
    (h : bs.dropWhile skip' = b :: bs') :
    b ∈ bs ∧ ∀ x, x ∈ bs' → x ∈ bs := by
  have hSuffix : (b :: bs').IsSuffix bs := by
    rw [← h]
    exact List.dropWhile_suffix skip'
  exact ⟨hSuffix.subset List.mem_cons_self, fun x hIn =>
    hSuffix.subset (List.mem_cons_of_mem _ hIn)⟩

end Lockstep

end Lib
