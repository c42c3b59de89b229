import Mathlib.Data.Option.Basic

/-
  Loops whose turn either goes on or ends with a result.

  Main declarations:
    * `Loop.after`, `Loop.run`
    * `Loop.after_invariant`
    * `Loop.run_isSome`
-/

------
-- Loops
------

namespace Lib

namespace Loop

variable {σ ρ : Type}

/- The state after some turns, or the result before. -/
def after (turn : σ → Except ρ σ) (s : σ) : Nat → Except ρ σ
| 0 => .ok s
| n + 1 => (after turn s n).bind turn

/- The result of a loop that ends within some turns. -/
def run
    (turn : σ → Except ρ σ)
    (fuel : Nat)
    (s : σ) : Option ρ :=
  match after turn s fuel with
  | .ok _ => none
  | .error r => some r

variable {turn : σ → Except ρ σ} {s t : σ} {n : Nat}

theorem after_succ :
    after turn s (n + 1) = .ok t ↔
      ∃ u, after turn s n = .ok u ∧ turn u = .ok t := by
  rw [after]
  cases after turn s n with
  | error r =>
      constructor
      · intro h
        cases h
      · rintro ⟨u, h, _⟩
        cases h
  | ok u =>
      constructor
      · intro h
        exact ⟨u, rfl, h⟩
      · rintro ⟨u', h, hTurn⟩
        cases h
        exact hTurn

/- What every turn preserves holds after each of them. -/
theorem after_invariant
    {P : Nat → σ → Prop}
    (hStart : P 0 s)
    (hTurn : ∀ n u t, P n u → turn u = .ok t → P (n + 1) t)
    (h : after turn s n = .ok t) :
    P n t := by
  induction n generalizing t with
  | zero =>
      cases h
      exact hStart
  | succ n ih =>
      rcases after_succ.mp h with ⟨u, hu, ht⟩
      exact hTurn n u t (ih hu) ht

theorem after_error
    {r : ρ}
    {m : Nat}
    (h : after turn s n = .error r)
    (hLe : n ≤ m) :
    after turn s m = .error r := by
  induction hLe with
  | refl => exact h
  | step _ ih =>
      rw [after, ih]
      rfl

/- The result is that of a turn. -/
theorem turn_of_run
    {fuel : Nat}
    {r : ρ}
    (hRun : run turn fuel s = some r) :
    ∃ n t, after turn s n = .ok t ∧ turn t = .error r := by
  unfold run at hRun
  induction fuel with
  | zero => cases hRun
  | succ fuel ih =>
      rw [after] at hRun
      cases hFuel : after turn s fuel with
      | error r' =>
          rw [hFuel] at hRun ih
          exact ih hRun
      | ok t =>
          rw [hFuel] at hRun
          refine ⟨fuel, t, hFuel, ?_⟩
          cases hTurn : turn t with
          | ok u =>
              rw [Except.bind, hTurn] at hRun
              cases hRun
          | error r' =>
              rw [Except.bind, hTurn] at hRun
              cases hRun
              rfl

/- The result is that of the only turn without another. -/
theorem run_eq_of_turn
    {fuel : Nat}
    {r r' : ρ}
    (hRun : run turn fuel s = some r)
    (h : after turn s n = .ok t)
    (hTurn : turn t = .error r') :
    r' = r := by
  unfold run at hRun
  cases hFuel : after turn s fuel with
  | ok u =>
      rw [hFuel] at hRun
      cases hRun
  | error r'' =>
      rw [hFuel] at hRun
      cases hRun
      have hNext : after turn s (n + 1) = .error r' := by
        rw [after, h]
        exact hTurn
      rcases Nat.le_total fuel (n + 1) with hLe | hLe
      · have hSame := after_error hFuel hLe
        rw [hNext] at hSame
        exact Except.error.inj hSame
      · have hSame := after_error hNext hLe
        rw [hFuel] at hSame
        exact (Except.error.inj hSame).symm

/- A loop ends when each turn brings a measure down. -/
theorem run_isSome
    {f : σ → Nat}
    (hTurn : ∀ u t, turn u = .ok t → f t < f u)
    (hFuel : f s < n) :
    (run turn n s).isSome = true := by
  have hDown :
      ∀ n t, after turn s n = .ok t → f t + n ≤ f s := by
    intro n t h
    refine after_invariant
      (P := fun n t => f t + n ≤ f s)
      (Nat.le_refl _) ?_ h
    intro n u t hu ht
    have hLt := hTurn u t ht
    omega
  unfold run
  cases hAfter : after turn s n with
  | error r => rfl
  | ok t =>
      have hLe := hDown n t hAfter
      omega

end Loop

end Lib
