import Mathlib.Data.List.Basic
import Mathlib.Data.List.Range

/-
  Ranges of addresses and the pages that they touch.

  Main declarations:
    * `Pages.pages`
    * `Pages.Apart`, `Pages.OtherPages`
    * `Pages.OtherPages.apart`
-/

------
-- Pages
------

namespace Lib

namespace Pages

/- The pages of a range, from the first to the last. -/
def pages (pageSize addr size : Nat) : List Nat :=
  List.range' (addr / pageSize)
    ((addr + size - 1) / pageSize + 1 - addr / pageSize)

/- Two ranges without a common address. -/
def Apart (a m b n : Nat) : Prop :=
  a + m ≤ b ∨ b + n ≤ a

/- Two ranges without a common page. -/
def OtherPages (pageSize a m b n : Nat) : Prop :=
  ∀ p, p ∈ pages pageSize a m → p ∉ pages pageSize b n

variable {pageSize a m b n p : Nat}

theorem mem_pages :
    p ∈ pages pageSize a m ↔
      a / pageSize ≤ p ∧ p ≤ (a + m - 1) / pageSize := by
  unfold pages
  rw [List.mem_range'_1]
  omega

/- A range inside another one. -/
theorem pages_subset
    (hLow : b ≤ a)
    (hHigh : a + m ≤ b + n)
    (h : p ∈ pages pageSize a m) :
    p ∈ pages pageSize b n := by
  rw [mem_pages] at h ⊢
  have hFirst := Nat.div_le_div_right (c := pageSize) hLow
  have hLast := Nat.div_le_div_right (c := pageSize)
    (show a + m - 1 ≤ b + n - 1 by omega)
  omega

theorem Apart.symm
    (h : Apart a m b n) :
    Apart b n a m :=
  Or.symm h

theorem OtherPages.symm
    (h : OtherPages pageSize a m b n) :
    OtherPages pageSize b n a m :=
  fun p hb ha => h p ha hb

/- The page of a common address is a common page. -/
theorem OtherPages.apart
    (h : OtherPages pageSize a m b n)
    (hm : 0 < m)
    (hn : 0 < n) :
    Apart a m b n := by
  by_contra hNot
  unfold Apart at hNot
  rcases Nat.le_total a b with hLe | hLe
  · apply h (b / pageSize)
    · rw [mem_pages]
      exact ⟨Nat.div_le_div_right hLe,
        Nat.div_le_div_right (by omega)⟩
    · rw [mem_pages]
      exact ⟨Nat.le_refl _, Nat.div_le_div_right (by omega)⟩
  · apply h (a / pageSize)
    · rw [mem_pages]
      exact ⟨Nat.le_refl _, Nat.div_le_div_right (by omega)⟩
    · rw [mem_pages]
      exact ⟨Nat.div_le_div_right hLe,
        Nat.div_le_div_right (by omega)⟩

/- Parts of ranges that are apart. -/
theorem Apart.sub
    {a' m' : Nat}
    (h : Apart a m b n)
    (hLow : a ≤ a')
    (hHigh : a' + m' ≤ a + m) :
    Apart a' m' b n := by
  rcases h with h | h
  · exact Or.inl (by omega)
  · exact Or.inr (by omega)

theorem OtherPages.sub
    {a' m' : Nat}
    (h : OtherPages pageSize a m b n)
    (hLow : a ≤ a')
    (hHigh : a' + m' ≤ a + m) :
    OtherPages pageSize a' m' b n :=
  fun p hp => h p (pages_subset hLow hHigh hp)

end Pages

end Lib
