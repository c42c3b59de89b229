import Mathlib.Data.Option.Basic
import Mathlib.Tactic.SplitIfs

/-
  Programs that change a state and may not return.

  What a program ensures from a state is said of what it
  returns: a program that does not return ensures anything.

  Main declarations:
    * `Prog`, `Prog.stuck`, `Prog.Ensures`
    * `Prog.bind_eq`
    * `Prog.ensures_bind`
    * `Prog.Ensures.mono`
    * `Prog.ensures_ite`
-/

------
-- Programs
------

namespace Lib

/- A program on a state, with a result if it returns. -/
abbrev Prog (σ α : Type) := StateT σ Option α

namespace Prog

variable {σ α β : Type}
variable {x : Prog σ α} {f : α → Prog σ β} {Q : α → σ → Prop}

/- The program that does not return. -/
def stuck : Prog σ α :=
  fun _ => none

/- Run a program in one case, and nothing in the other. -/
def onlyIf
    (c : Prop)
    [Decidable c]
    (x : Prog σ Unit) : Prog σ Unit :=
  if c then x else pure ()

/- The second part runs from where the first one returned. -/
theorem bind_eq
    {s t : σ}
    {a : α}
    (hx : x s = some (a, t)) :
    (x >>= f) s = f a t := by
  have hRun :
      (x >>= f) s = (x s).bind fun r => f r.1 r.2 := rfl
  rw [hRun, hx, Option.bind_some]

theorem bind_none
    (hx : x s = none) :
    (x >>= f) s = none := by
  have hRun :
      (x >>= f) s = (x s).bind fun r => f r.1 r.2 := rfl
  rw [hRun, hx, Option.bind_none]

/- What a program returns from a state satisfies this. -/
structure Ensures
    (x : Prog σ α)
    (s : σ)
    (Q : α → σ → Prop) : Prop where
  returned : ∀ a t, x s = some (a, t) → Q a t

variable {s : σ}

@[simp] theorem ensures_stuck :
    Ensures stuck s Q := by
  constructor
  intro a t h
  cases h

@[simp] theorem ensures_pure
    {a : α} :
    Ensures (pure a) s Q ↔ Q a s := by
  constructor
  · intro h
    exact h.returned a s rfl
  · intro h
    constructor
    intro b t hEq
    cases hEq
    exact h

theorem ensures_bind
    {Q : β → σ → Prop} :
    Ensures (x >>= f) s Q ↔
      Ensures x s fun a t => Ensures (f a) t Q := by
  have hRun :
      (x >>= f) s = (x s).bind fun r => f r.1 r.2 := rfl
  constructor
  · intro h
    refine ⟨fun a t hx => ⟨fun b u hf => ?_⟩⟩
    apply h.returned b u
    rw [hRun, hx]
    exact hf
  · intro h
    constructor
    intro b u hRuns
    rcases Option.bind_eq_some_iff.mp hRuns with
      ⟨⟨a, t⟩, hx, hf⟩
    exact (h.returned a t hx).returned b u hf

@[simp] theorem ensures_get
    {Q : σ → σ → Prop} :
    Ensures (get : Prog σ σ) s Q ↔ Q s s := by
  constructor
  · intro h
    exact h.returned s s rfl
  · intro h
    constructor
    intro b u hEq
    cases hEq
    exact h

@[simp] theorem ensures_set
    {t : σ}
    {Q : Unit → σ → Prop} :
    Ensures (set t : Prog σ PUnit) s Q ↔ Q () t := by
  constructor
  · intro h
    exact h.returned () t rfl
  · intro h
    constructor
    intro b u hEq
    cases hEq
    exact h

theorem Ensures.mono
    {Q R : α → σ → Prop}
    (h : Ensures x s Q)
    (hQR : ∀ a t, Q a t → R a t) :
    Ensures x s R := by
  constructor
  intro a t hx
  exact hQR a t (h.returned a t hx)

/- Run the first part, and go on from what it ensures. -/
theorem Ensures.bind
    {R : β → σ → Prop}
    (h : Ensures x s Q)
    (hf : ∀ a t, Q a t → Ensures (f a) t R) :
    Ensures (x >>= f) s R :=
  ensures_bind.mpr (h.mono hf)

theorem ensures_ite
    {c : Prop}
    [Decidable c]
    {x y : Prog σ α}
    (hPos : c → Ensures x s Q)
    (hNeg : ¬ c → Ensures y s Q) :
    Ensures (if c then x else y) s Q := by
  split_ifs with h
  · exact hPos h
  · exact hNeg h

end Prog

end Lib
