import Mathlib.Data.Option.Basic

/-
  Runs of a system whose actions are steps that may not be
  possible in a state.

  Main declarations:
    * `Runs.exec`, `Runs.Meets`
    * `Runs.exec_append`
    * `Runs.exec_invariant`, `Runs.exec_preserves`
    * `Runs.states_iff_meets`
-/

------
-- Runs
------

namespace Lib

namespace Runs

variable {σ α : Type}

/- The state after some actions, if each is possible. -/
def exec (step : σ → α → Option σ) : σ → List α → Option σ
| s, [] => some s
| s, a :: as => (step s a).bind fun t => exec step t as

/- Each action of a run meets a condition in its state. -/
def Meets
    (step : σ → α → Option σ)
    (ok : σ → α → Prop) : σ → List α → Prop
| _, [] => True
| s, a :: as =>
    ok s a ∧ ∀ t, step s a = some t → Meets step ok t as

variable {step : σ → α → Option σ} {ok : σ → α → Prop} {s t : σ}
variable {a : α} {as bs : List α}

theorem exec_cons :
    exec step s (a :: as) = some t ↔
      ∃ u, step s a = some u ∧ exec step u as = some t := by
  rw [exec, Option.bind_eq_some_iff]

theorem exec_append :
    exec step s (as ++ bs) = some t ↔
      ∃ u, exec step s as = some u ∧
        exec step u bs = some t := by
  induction as generalizing s with
  | nil =>
      constructor
      · intro h
        exact ⟨s, rfl, h⟩
      · rintro ⟨u, hu, h⟩
        cases hu
        exact h
  | cons a as ih =>
      rw [List.cons_append, exec_cons]
      constructor
      · rintro ⟨u, hu, hRest⟩
        rcases ih.mp hRest with ⟨v, hv, h⟩
        exact ⟨v, exec_cons.mpr ⟨u, hu, hv⟩, h⟩
      · rintro ⟨v, hv, h⟩
        rcases exec_cons.mp hv with ⟨u, hu, hRest⟩
        exact ⟨u, hu, ih.mpr ⟨v, hRest, h⟩⟩

theorem meets_append
    (h : Meets step ok s (as ++ bs))
    (hExec : exec step s as = some t) :
    Meets step ok s as ∧ Meets step ok t bs := by
  induction as generalizing s with
  | nil =>
      cases hExec
      exact ⟨trivial, h⟩
  | cons a as ih =>
      rcases h with ⟨hOk, hRest⟩
      rcases exec_cons.mp hExec with ⟨u, hu, hExec⟩
      rcases ih (hRest u hu) hExec with ⟨hLeft, hRight⟩
      refine ⟨⟨hOk, ?_⟩, hRight⟩
      intro v hv
      rw [hu] at hv
      cases hv
      exact hLeft

/- A weaker condition is met too. -/
theorem Meets.imp
    {ok' : σ → α → Prop}
    (h : Meets step ok s as)
    (hImp : ∀ s a, ok s a → ok' s a) :
    Meets step ok' s as := by
  induction as generalizing s with
  | nil => trivial
  | cons a as ih =>
      rcases h with ⟨hOk, hRest⟩
      exact ⟨hImp s a hOk, fun t ht => ih (hRest t ht)⟩

/- What each step that meets a condition preserves. -/
theorem exec_invariant
    {P : σ → Prop}
    (hStep : ∀ s a t, P s → ok s a → step s a = some t → P t)
    (hStart : P s)
    (hMeets : Meets step ok s as)
    (hExec : exec step s as = some t) :
    P t := by
  induction as generalizing s with
  | nil =>
      cases hExec
      exact hStart
  | cons a as ih =>
      rcases hMeets with ⟨hOk, hRest⟩
      rcases exec_cons.mp hExec with ⟨u, hu, hExec⟩
      exact ih (hStep s a u hStart hOk hu) (hRest u hu) hExec

/- What each step preserves. -/
theorem exec_preserves
    {P : σ → Prop}
    (hStep : ∀ s a t, P s → step s a = some t → P t)
    (hStart : P s)
    (hExec : exec step s as = some t) :
    P t := by
  induction as generalizing s with
  | nil =>
      cases hExec
      exact hStart
  | cons a as ih =>
      rcases exec_cons.mp hExec with ⟨u, hu, hExec⟩
      exact ih (hStep s a u hStart hu) hExec

/-
  Where a property survives a step exactly when a condition
  is met, it holds all along a run exactly when each of the
  steps meets the condition.
-/
theorem states_iff_meets
    {I P : σ → Prop}
    (hKeep : ∀ s a t, I s → step s a = some t → I t)
    (hStep : ∀ s a t, I s → P s → step s a = some t →
      (P t ↔ ok s a))
    (hInv : I s)
    (hStart : P s)
    (hExec : exec step s as = some t) :
    (∀ bs u, bs <+: as → exec step s bs = some u → P u) ↔
      Meets step ok s as := by
  induction as generalizing s with
  | nil =>
      constructor
      · intro _
        trivial
      · intro _ bs u hPrefix hRun
        cases List.prefix_nil.mp hPrefix
        cases hRun
        exact hStart
  | cons a as ih =>
      rcases exec_cons.mp hExec with ⟨v, hv, hExec⟩
      have hNext := hStep s a v hInv hStart hv
      constructor
      · intro h
        have hP : P v :=
          h [a] v ⟨as, rfl⟩ (exec_cons.mpr ⟨v, hv, rfl⟩)
        refine ⟨hNext.mp hP, ?_⟩
        intro w hw
        rw [hv] at hw
        cases hw
        apply (ih (hKeep s a v hInv hv) hP hExec).mp
        intro bs u hPrefix hRun
        exact h (a :: bs) u
          (List.prefix_cons_inj a |>.mpr hPrefix)
          (exec_cons.mpr ⟨v, hv, hRun⟩)
      · rintro ⟨hOk, hRest⟩ bs u hPrefix hRun
        have hP : P v := hNext.mpr hOk
        cases bs with
        | nil =>
            cases hRun
            exact hStart
        | cons b bs =>
            rcases List.cons_prefix_cons.mp hPrefix with
              ⟨hEq, hPrefix⟩
            rcases exec_cons.mp hRun with ⟨w, hw, hRun⟩
            rw [hEq, hv] at hw
            cases hw
            exact (ih (hKeep s a v hInv hv) hP hExec).mpr
              (hRest v hv) bs u hPrefix hRun

end Runs

end Lib
