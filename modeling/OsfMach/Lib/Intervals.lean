import Mathlib.Data.List.Basic
import Mathlib.Data.List.Nodup

/-
  Lists of items that each cover an interval of numbers.

  The items of a list are in order and do not overlap. What
  covers a number is a partial function, and a list also has
  an item before its lowest hole. Replacing some neighbours
  by others that cover the same numbers changes neither the
  order of the rest nor what covers other numbers.

  Main declarations:
    * `Tiles`, `covering`, `beforeHole`, `Contiguous`
    * `tiles_append`, `covering_append`
    * `Tiles.covering_eq_some`
    * `beforeHole_of_contiguous`
-/

------
-- Order
------

namespace Lib

variable {β : Type*}
variable {a b : Nat} {l r : List β} {e : β} {x : Nat}

/- In order, within bounds, and each item is not empty. -/
def Tiles (lo hi : β → Nat) : Nat → Nat → List β → Prop
| a, b, [] => a ≤ b
| a, b, e :: rest =>
    a ≤ lo e ∧ lo e < hi e ∧ Tiles lo hi (hi e) b rest

/- The item that covers a number. -/
def covering
    (lo hi : β → Nat)
    (x : Nat)
    (l : List β) : Option β :=
  l.find? fun e => decide (lo e ≤ x ∧ x < hi e)

variable {lo hi : β → Nat}

theorem Tiles.le
    (h : Tiles lo hi a b l) :
    a ≤ b := by
  induction l generalizing a with
  | nil =>
      exact h
  | cons e rest ih =>
      rcases h with ⟨hLo, hLt, hRest⟩
      have hLe := ih hRest
      omega

theorem tiles_append :
    Tiles lo hi a b (l ++ r) ↔
      ∃ c, Tiles lo hi a c l ∧ Tiles lo hi c b r := by
  induction l generalizing a with
  | nil =>
      constructor
      · intro h
        exact ⟨a, Nat.le_refl a, h⟩
      · rintro ⟨c, hLe, h⟩
        cases r with
        | nil =>
            exact Nat.le_trans hLe h
        | cons e rest =>
            exact ⟨Nat.le_trans hLe h.1, h.2⟩
  | cons e rest ih =>
      constructor
      · rintro ⟨hLo, hLt, hRest⟩
        rcases ih.mp hRest with ⟨c, hLeft, hRight⟩
        exact ⟨c, ⟨hLo, hLt, hLeft⟩, hRight⟩
      · rintro ⟨c, ⟨hLo, hLt, hLeft⟩, hRight⟩
        exact ⟨hLo, hLt, ih.mpr ⟨c, hLeft, hRight⟩⟩

theorem Tiles.mono
    {a a' b b' : Nat}
    (h : Tiles lo hi a b l)
    (ha : a' ≤ a)
    (hb : b ≤ b') :
    Tiles lo hi a' b' l := by
  induction l generalizing a a' with
  | nil =>
      exact Nat.le_trans ha (Nat.le_trans h hb)
  | cons e rest ih =>
      rcases h with ⟨hLo, hLt, hRest⟩
      exact ⟨Nat.le_trans ha hLo, hLt, ih hRest (Nat.le_refl _)⟩

theorem Tiles.of_mem
    (h : Tiles lo hi a b l)
    (he : e ∈ l) :
    a ≤ lo e ∧ lo e < hi e ∧ hi e ≤ b := by
  induction l generalizing a with
  | nil =>
      cases he
  | cons e' rest ih =>
      rcases h with ⟨hLo, hLt, hRest⟩
      rcases List.mem_cons.mp he with rfl | hTail
      · exact ⟨hLo, hLt, hRest.le⟩
      · have hIn := ih hRest hTail
        omega

------
-- What Covers a Number
------

theorem covering_append
    (x : Nat)
    (l r : List β) :
    covering lo hi x (l ++ r) =
      (covering lo hi x l).or (covering lo hi x r) :=
  List.find?_append

theorem covering_eq_none
    (h : ∀ e ∈ l, x < lo e ∨ hi e ≤ x) :
    covering lo hi x l = none := by
  apply List.find?_eq_none.mpr
  intro e he
  have hOut := h e he
  simp only [decide_eq_true_eq]
  omega

/- Numbers below all items are covered by none. -/
theorem Tiles.covering_below
    (h : Tiles lo hi a b l)
    (hx : x < a) :
    covering lo hi x l = none := by
  apply covering_eq_none
  intro e he
  have hIn := h.of_mem he
  exact Or.inl (by omega)

theorem Tiles.covering_above
    (h : Tiles lo hi a b l)
    (hx : b ≤ x) :
    covering lo hi x l = none := by
  apply covering_eq_none
  intro e he
  have hIn := h.of_mem he
  exact Or.inr (by omega)

theorem covering_cons
    (x : Nat)
    (e : β)
    (l : List β) :
    covering lo hi x (e :: l) =
      if lo e ≤ x ∧ x < hi e then some e
      else covering lo hi x l := by
  unfold covering
  by_cases h : lo e ≤ x ∧ x < hi e
  · simp [h]
  · simp [h]

/- The item around a number covers it in the list. -/
theorem Tiles.covering_eq_some
    (h : Tiles lo hi a b (l ++ e :: r))
    (hLo : lo e ≤ x)
    (hHi : x < hi e) :
    covering lo hi x (l ++ e :: r) = some e := by
  rcases tiles_append.mp h with ⟨c, hLeft, hRight⟩
  have hBelow := hLeft.covering_above
    (Nat.le_trans hRight.1 hLo)
  rw [covering_append, hBelow, covering_cons, if_pos ⟨hLo, hHi⟩]
  rfl

------
-- The Lowest Hole
------

/- The last item of those without a hole from `pos` on. -/
def beforeHole
    (lo hi : β → Nat) :
    Nat → Option β → List β → Option β
| _, cur, [] => cur
| pos, cur, e :: rest =>
    if lo e = pos then beforeHole lo hi (hi e) (some e) rest
    else cur

/- Items without a hole from one number to another. -/
def Contiguous (lo hi : β → Nat) :
    Nat → Nat → List β → Prop
| a, b, [] => a = b
| a, b, e :: rest =>
    lo e = a ∧ Contiguous lo hi (hi e) b rest

theorem contiguous_append :
    Contiguous lo hi a b (l ++ r) ↔
      ∃ c, Contiguous lo hi a c l ∧
        Contiguous lo hi c b r := by
  induction l generalizing a with
  | nil =>
      constructor
      · intro h
        exact ⟨a, rfl, h⟩
      · rintro ⟨c, hEq, h⟩
        cases hEq
        exact h
  | cons e rest ih =>
      constructor
      · rintro ⟨hLo, hRest⟩
        rcases ih.mp hRest with ⟨c, hLeft, hRight⟩
        exact ⟨c, ⟨hLo, hLeft⟩, hRight⟩
      · rintro ⟨c, ⟨hLo, hLeft⟩, hRight⟩
        exact ⟨hLo, ih.mpr ⟨c, hLeft, hRight⟩⟩

/- The walk for the lowest hole may start further on. -/
theorem beforeHole_of_contiguous
    {a c : Nat}
    {cur : Option β}
    (h : Contiguous lo hi a c l) :
    beforeHole lo hi a cur (l ++ r) =
      beforeHole lo hi c (l.getLast?.or cur) r := by
  induction l generalizing a cur with
  | nil =>
      cases h
      rfl
  | cons e rest ih =>
      rcases h with ⟨hLo, hRest⟩
      rw [List.cons_append, beforeHole, if_pos hLo, ih hRest]
      cases rest with
      | nil => rfl
      | cons e' rest' =>
          rw [List.getLast?_cons_cons]
          cases hLast : (e' :: rest').getLast? with
          | none =>
              exact absurd hLast (by simp)
          | some x => rfl

/- The items up to the lowest hole. -/
theorem exists_contiguous
    (lo hi : β → Nat)
    (a : Nat)
    (cur : Option β)
    (l : List β) :
    ∃ p r c, l = p ++ r ∧ Contiguous lo hi a c p ∧
      beforeHole lo hi a cur l = p.getLast?.or cur := by
  induction l generalizing a cur with
  | nil =>
      exact ⟨[], [], a, rfl, rfl, rfl⟩
  | cons e rest ih =>
      by_cases hLo : lo e = a
      · rcases ih (hi e) (some e) with
          ⟨p, r, c, hEq, hCont, hHole⟩
        refine ⟨e :: p, r, c, by rw [hEq]; rfl,
          ⟨hLo, hCont⟩, ?_⟩
        rw [beforeHole, if_pos hLo, hHole]
        cases p with
        | nil => rfl
        | cons e' p' =>
            rw [List.getLast?_cons_cons]
            cases hLast : (e' :: p').getLast? with
            | none =>
                exact absurd hLast (by simp)
            | some x => rfl
      · refine ⟨[], e :: rest, a, rfl, rfl, ?_⟩
        rw [beforeHole, if_neg hLo]
        rfl

end Lib
