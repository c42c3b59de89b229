import Mathlib.Tactic.SplitIfs

/-
  Programs that change a state and may stop before their end.

  A program always ends, with a result or with the reason why
  it stopped, and in some state.

  Main declarations:
    * `Checked`, `Checked.stop`, `Checked.require`
    * `Checked.Ends`, `Checked.After`, `Checked.Returns`
    * `Checked.onPart`, `Checked.Keeps`, `Checked.Yields`
    * `Checked.Adds`, `Checked.Spends`, `Checked.Appends`
    * `Checked.bind_ok`, `Checked.bind_run`
-/

------
-- Programs
------

namespace Lib

/- A program on a state, which may stop for a reason. -/
def Checked (σ ε α : Type) := σ → Except ε α × σ

namespace Checked

variable {σ ε α β : Type} {x : Checked σ ε α} {a : α} {t : σ}
variable {e : ε} {c : Prop} {log : σ → List β}
variable {f : Unit → Checked σ ε α} {y : Checked σ ε α}
variable {R : α → Prop}
variable {b : β} {r : Except ε α}

instance : Monad (Checked σ ε) where
  pure a := fun s => (.ok a, s)
  bind x f := fun s =>
    match x s with
    | (.ok a, t) => f a t
    | (.error e, t) => (.error e, t)

/- A pure computation that returns has parts that return. -/
theorem bind_ok
    {x : Except ε α}
    {f : α → Except ε β}
    (h : (x >>= f) = .ok b) :
    ∃ a, x = .ok a ∧ f a = .ok b := by
  cases x with
  | error e => cases h
  | ok a => exact ⟨a, rfl, h⟩

def read : Checked σ ε σ :=
  fun s => (.ok s, s)

def change (f : σ → σ) : Checked σ ε Unit :=
  fun s => (.ok (), f s)

def stop (e : ε) : Checked σ ε α :=
  fun s => (.error e, s)

/- Stop unless a condition holds. -/
def require
    (c : Prop)
    [Decidable c]
    (e : ε) : Checked σ ε Unit :=
  if c then pure () else stop e

/- A pure computation that may stop. -/
def lift (x : Except ε α) : Checked σ ε α :=
  fun s => (x, s)

/- Go on with the reason why a part stopped as a result. -/
def attempt (x : Checked σ ε α) :
    Checked σ β (Except ε α) :=
  fun s => (.ok (x s).1, (x s).2)

/- How a program ends satisfies this. -/
def Ends
    (x : Checked σ ε α)
    (s : σ)
    (Q : Except ε α → σ → Prop) : Prop :=
  Q (x s).1 (x s).2

/- What a part leaves satisfies this, if it does not stop. -/
def After
    (x : Checked σ ε α)
    (s : σ)
    (P : α → σ → Prop) : Prop :=
  ∀ a t, x s = (.ok a, t) → P a t

variable {s : σ}

theorem after_run
    (h : x s = (.ok a, t))
    (P : α → σ → Prop) :
    After x s P ↔ P a t := by
  unfold After
  rw [h]
  constructor
  · intro hAll
    exact hAll a t rfl
  · intro hP a' t' hEq
    injection hEq with hResult hState
    injection hResult with hSame
    rw [← hSame, ← hState]
    exact hP

theorem after_stop
    (h : x s = (.error e, t))
    (P : α → σ → Prop) :
    After x s P := by
  intro a t' hEq
  rw [h] at hEq
  injection hEq with hResult
  injection hResult

theorem bind_run
    (h : x s = (.ok a, t))
    (f : α → Checked σ ε β) :
    (x >>= f) s = f a t := by
  have hRun : (x >>= f) s =
      match x s with
      | (.ok a, t) => f a t
      | (.error e, t) => (.error e, t) := rfl
  rw [hRun, h]

theorem bind_stop
    (h : x s = (.error e, t))
    (f : α → Checked σ ε β) :
    (x >>= f) s = (.error e, t) := by
  have hRun : (x >>= f) s =
      match x s with
      | (.ok a, t) => f a t
      | (.error e, t) => (.error e, t) := rfl
  rw [hRun, h]

/- A run that returns has parts that return. -/
theorem of_bind_run
    {f : α → Checked σ ε β}
    (h : (x >>= f) s = (.ok b, t)) :
    ∃ a u, x s = (.ok a, u) ∧ f a u = (.ok b, t) := by
  rcases hFirst : x s with ⟨_ | a, u⟩
  · rw [bind_stop hFirst] at h
    cases h
  · rw [bind_run hFirst] at h
    exact ⟨a, u, rfl, h⟩

theorem attempt_run
    (h : x s = (r, t)) :
    (attempt x : Checked σ β _) s = (.ok r, t) := by
  unfold attempt
  rw [h]

theorem read_bind
    (f : σ → Checked σ ε β) :
    (read >>= f) s = f s s := rfl

theorem change_bind
    (g : σ → σ)
    (f : Unit → Checked σ ε β) :
    (change g >>= f) s = f () (g s) := rfl

theorem require_run
    [Decidable c]
    (h : c) :
    require c e s = (.ok (), s) := by
  unfold require
  rw [if_pos h]
  rfl

theorem require_stop
    [Decidable c]
    (h : ¬ c) :
    require c e s = (.error e, s) := by
  unfold require
  rw [if_neg h]
  rfl

/- A condition was met in a run that returns. -/
theorem of_require_run
    [Decidable c]
    (h : (require c e >>= f) s = (.ok a, t)) :
    c ∧ f () s = (.ok a, t) := by
  by_cases hc : c
  · rw [bind_run (require_run hc)] at h
    exact ⟨hc, h⟩
  · rw [bind_stop (require_stop hc)] at h
    cases h

theorem Ends.mono
    {Q R : Except ε α → σ → Prop}
    (h : Ends x s Q)
    (hQR : ∀ r t, Q r t → R r t) :
    Ends x s R :=
  hQR _ _ h

------
-- Parts of the State
------

/- A program on a part of the state. -/
def onPart
    {τ : Type}
    (get : σ → τ)
    (set : σ → τ → σ)
    (x : Checked τ ε α) : Checked σ ε α :=
  fun s => ((x (get s)).1, set s (x (get s)).2)

section Parts

variable {τ : Type} {get : σ → τ} {set : σ → τ → σ}

theorem onPart_run
    {x : Checked τ ε α}
    {t : τ}
    (h : x (get s) = (r, t)) :
    onPart get set x s = (r, set s t) := by
  unfold onPart
  rw [h]

end Parts

------
-- Results
------

/- Every result of a part satisfies this. -/
def Returns
    (P : α → Prop)
    (x : Checked σ ε α) : Prop :=
  ∀ s a t, x s = (.ok a, t) → P a

section Results

variable {P : α → Prop} {γ : Type}

theorem returns_pure
    (h : P a) :
    Returns P (pure a : Checked σ ε α) := by
  intro s b t hRun
  injection hRun with hResult
  injection hResult with hEq
  exact hEq ▸ h

theorem returns_stop :
    Returns P (stop e : Checked σ ε α) := by
  intro s a t hRun
  injection hRun with hResult
  injection hResult

theorem returns_bind
    {x : Checked σ ε γ}
    {f : γ → Checked σ ε α}
    (h : ∀ c, Returns P (f c)) :
    Returns P (x >>= f) := by
  intro s a t hRun
  rcases of_bind_run hRun with ⟨c, u, hFirst, hRun⟩
  exact h c u a t hRun

/- What comes after a condition has it. -/
theorem returns_require
    [Decidable c]
    (h : c → Returns P (f ())) :
    Returns P (require c e >>= f) := by
  intro s a t hRun
  rcases of_require_run hRun with ⟨hc, hRun⟩
  exact h hc s a t hRun

theorem returns_ite
    [Decidable c]
    (hPos : c → Returns P x)
    (hNeg : ¬ c → Returns P y) :
    Returns P (if c then x else y) := by
  split_ifs with h
  · exact hPos h
  · exact hNeg h

theorem Returns.mono
    {Q : α → Prop}
    (h : Returns P x)
    (hImp : ∀ a, P a → Q a) :
    Returns Q x :=
  fun s a t hRun => hImp a (h s a t hRun)

end Results

------
-- Frames
------

/- A part leaves something of the state as it was. -/
def Keeps
    {γ : Type}
    (get : σ → γ)
    (x : Checked σ ε α) : Prop :=
  ∀ s, get (x s).2 = get s

section Frames

variable {γ τ : Type} {get : σ → γ}
variable {part : σ → τ} {set : σ → τ → σ}

theorem keeps_pure :
    Keeps get (pure a : Checked σ ε α) := fun _ => rfl

theorem keeps_read :
    Keeps get (read : Checked σ ε σ) := fun _ => rfl

theorem keeps_change
    {f : σ → σ}
    (h : ∀ s, get (f s) = get s) :
    Keeps get (change f : Checked σ ε Unit) := h

theorem keeps_require
    [Decidable c] :
    Keeps get (require c e : Checked σ ε Unit) := by
  intro s
  unfold require
  split_ifs
  · rfl
  · rfl

theorem keeps_onPart
    {x : Checked τ ε α}
    (h : ∀ s t, get (set s t) = get s) :
    Keeps get (onPart part set x) :=
  fun s => h s _

theorem Keeps.onPart
    {get : τ → γ}
    {x : Checked τ ε α}
    (hx : Keeps get x)
    (h : ∀ s t, part (set s t) = t) :
    Keeps (fun s => get (part s))
      (Checked.onPart part set x) := by
  intro s
  have hSet : part (Checked.onPart part set x s).2 =
      (x (part s)).2 := h s _
  exact (congrArg get hSet).trans (hx (part s))

theorem Keeps.bind
    {f : α → Checked σ ε β}
    (hx : Keeps get x)
    (hf : ∀ a, Keeps get (f a)) :
    Keeps get (x >>= f) := by
  intro s
  have hFirst := hx s
  rcases hRun : x s with ⟨r, t⟩
  rw [hRun] at hFirst
  cases r with
  | error e =>
      rw [bind_stop hRun]
      exact hFirst
  | ok a =>
      rw [bind_run hRun]
      exact (hf a t).trans hFirst

theorem keeps_ite
    [Decidable c]
    (hx : Keeps get x)
    (hy : Keeps get y) :
    Keeps get (if c then x else y) := by
  split_ifs
  · exact hx
  · exact hy

end Frames

/- What a part adds to a log when it has a result. -/
def Adds
    (log : σ → List β)
    (l : List β)
    (x : Checked σ ε α) : Prop :=
  ∀ s a t, x s = (.ok a, t) → log t = log s ++ l

theorem Keeps.adds
    (h : Keeps log x) :
    Adds log [] x := by
  intro s a t hRun
  have hSame := h s
  rw [hRun] at hSame
  rw [List.append_nil]
  exact hSame

theorem Adds.bind
    {γ : Type}
    {l l' : List β}
    {P : α → Prop}
    {f : α → Checked σ ε γ}
    (hx : Adds log l x)
    (hP : Returns P x)
    (hf : ∀ a, P a → Adds log l' (f a)) :
    Adds log (l ++ l') (x >>= f) := by
  intro s c t hRun
  rcases of_bind_run hRun with ⟨a, u, hFirst, hRun⟩
  rw [hf a (hP s a u hFirst) u c t hRun,
    hx s a u hFirst, List.append_assoc]

theorem adds_stop
    {l : List β} :
    Adds log l (stop e : Checked σ ε α) := by
  intro s a t hRun
  injection hRun with hResult
  injection hResult

theorem returns_true :
    Returns (fun _ => True) x :=
  fun _ _ _ _ => trivial

------
-- Conditions
------

/- From states with a condition every result has another. -/
def Yields
    (P : σ → Prop)
    (x : Checked σ ε α)
    (Q : α → σ → Prop) : Prop :=
  ∀ s, P s → After x s Q

section Conditions

variable {γ : Type} {P : σ → Prop} {Q : α → σ → Prop}

theorem yields_pure
    (h : ∀ s, P s → Q a s) :
    Yields P (pure a : Checked σ ε α) Q := by
  intro s hP
  exact (after_run rfl Q).mpr (h s hP)

theorem yields_change
    {g : σ → σ}
    {Q : Unit → σ → Prop}
    (h : ∀ s, P s → Q () (g s)) :
    Yields P (change g : Checked σ ε Unit) Q := by
  intro s hP
  exact (after_run rfl Q).mpr (h s hP)

theorem Yields.bind
    {x : Checked σ ε γ}
    {f : γ → Checked σ ε α}
    {R : γ → σ → Prop}
    (hx : Yields P x R)
    (hf : ∀ c, Yields (R c) (f c) Q) :
    Yields P (x >>= f) Q := by
  intro s hP a t hRun
  rcases of_bind_run hRun with ⟨c, u, hFirst, hRun⟩
  exact hf c u (hx s hP c u hFirst) a t hRun

/- After a part of which nothing is known. -/
theorem Yields.after
    {x : Checked σ ε γ}
    {f : γ → Checked σ ε α}
    (hf : ∀ c, Yields (fun _ => True) (f c) Q) :
    Yields P (x >>= f) Q :=
  Yields.bind (fun _ _ _ _ _ => trivial) hf

/- What is not about the state stays so. -/
theorem yields_fact :
    Yields (fun _ => c) x fun _ _ => c :=
  fun _ hc _ _ _ => hc

theorem yields_of_fact
    (h : c → Yields (fun _ => True) x Q) :
    Yields (fun _ => c) x Q :=
  fun s hc => h hc s trivial

/- What comes after a condition has it. -/
theorem yields_require
    [Decidable c]
    (h : c → Yields P (f ()) Q) :
    Yields P (require c e >>= f) Q := by
  intro s hP a t hRun
  rcases of_require_run hRun with ⟨hc, hRun⟩
  exact h hc s hP a t hRun

theorem yields_ite
    [Decidable c]
    (hPos : c → Yields P x Q)
    (hNeg : ¬ c → Yields P y Q) :
    Yields P (if c then x else y) Q := by
  split_ifs with h
  · exact hPos h
  · exact hNeg h

theorem Returns.yields
    (h : Returns R x) :
    Yields P x fun a _ => R a :=
  fun s _ a t hRun => h s a t hRun

/- A condition on what a part leaves as it was. -/
theorem Keeps.yields
    {get : σ → γ}
    (h : Keeps get x)
    (C : γ → Prop) :
    Yields (fun s => C (get s)) x fun _ t => C (get t) := by
  intro s hC a t hRun
  have hSame := h s
  rw [hRun] at hSame
  exact hSame ▸ hC

end Conditions

------
-- Spending
------

/-
  A part with a result keeps an invariant, and makes a size
  smaller by as much.
-/
def Spends
    (I : σ → Prop)
    (size : σ → Nat)
    (n : Nat)
    (x : Checked σ ε α) : Prop :=
  ∀ s a t, I s → x s = (.ok a, t) → I t ∧ size t + n ≤ size s

section Spending

variable {γ : Type} {I : σ → Prop} {size : σ → Nat} {n m : Nat}

theorem spends_pure :
    Spends I size 0 (pure a : Checked σ ε α) := by
  intro s b t hI hRun
  injection hRun with _ hState
  rw [← hState]
  exact ⟨hI, Nat.le_refl _⟩

theorem spends_stop :
    Spends I size n (stop e : Checked σ ε α) := by
  intro s a t hI hRun
  injection hRun with hResult
  injection hResult

theorem spends_require
    [Decidable c] :
    Spends I size 0 (require c e : Checked σ ε Unit) := by
  unfold require
  split_ifs
  · exact spends_pure
  · exact spends_stop

theorem spends_change
    {f : σ → σ}
    (h : ∀ s, I s → I (f s) ∧ size (f s) + n ≤ size s) :
    Spends I size n (change f : Checked σ ε Unit) := by
  intro s a t hI hRun
  injection hRun with _ hState
  rw [← hState]
  exact h s hI

theorem Spends.mono
    (h : Spends I size n x)
    (hLe : m ≤ n) :
    Spends I size m x := by
  intro s a t hI hRun
  rcases h s a t hI hRun with ⟨hKept, hSize⟩
  exact ⟨hKept, by omega⟩

theorem Spends.bind_returns
    {f : α → Checked σ ε γ}
    (hx : Spends I size n x)
    (hR : Returns R x)
    (hf : ∀ a, R a → Spends I size m (f a)) :
    Spends I size (n + m) (x >>= f) := by
  intro s c t hI hRun
  rcases of_bind_run hRun with ⟨a, u, hFirst, hRun⟩
  rcases hx s a u hI hFirst with ⟨hKept, hSize⟩
  rcases hf a (hR s a u hFirst) u c t hKept hRun with
    ⟨hKept', hSize'⟩
  exact ⟨hKept', by omega⟩

theorem Spends.bind
    {f : α → Checked σ ε γ}
    (hx : Spends I size n x)
    (hf : ∀ a, Spends I size m (f a)) :
    Spends I size (n + m) (x >>= f) :=
  hx.bind_returns (fun _ _ _ _ => trivial) fun a _ => hf a

/- A first part that takes nothing off. -/
theorem Spends.after
    {f : α → Checked σ ε γ}
    (hx : Spends I size 0 x)
    (hf : ∀ a, Spends I size n (f a)) :
    Spends I size n (x >>= f) :=
  (hx.bind hf).mono (by omega)

/- A last part that takes nothing off. -/
theorem Spends.last
    {f : α → Checked σ ε γ}
    (hx : Spends I size n x)
    (hf : ∀ a, Spends I size 0 (f a)) :
    Spends I size n (x >>= f) :=
  (hx.bind hf).mono (by omega)

/- What is read satisfies the invariant. -/
theorem Spends.read
    {f : σ → Checked σ ε α}
    (h : ∀ s, I s → Spends I size n (f s)) :
    Spends I size n (Checked.read >>= f) := by
  intro s a t hI hRun
  exact h s hI s a t hI hRun

theorem Spends.require
    [Decidable c]
    (h : c → Spends I size n (f ())) :
    Spends I size n (Checked.require c e >>= f) := by
  intro s a t hI hRun
  rcases of_require_run hRun with ⟨hc, hRun⟩
  exact h hc s a t hI hRun

theorem spends_ite
    [Decidable c]
    (hx : c → Spends I size n x)
    (hy : ¬ c → Spends I size n y) :
    Spends I size n (if c then x else y) := by
  split_ifs with hc
  · exact hx hc
  · exact hy hc

theorem Spends.onPart
    {τ : Type}
    {part : σ → τ}
    {set : σ → τ → σ}
    {J : τ → Prop}
    {size' : τ → Nat}
    {x : Checked τ ε α}
    (hx : Spends J size' n x)
    (h : ∀ s t, part (set s t) = t) :
    Spends (fun s => J (part s)) (fun s => size' (part s)) n
      (Checked.onPart part set x) := by
  intro s a t hI hRun
  injection hRun with hResult hState
  have hEnd := hx (part s) a (x (part s)).2 hI
    (Prod.ext hResult rfl)
  have hSet : part t = (x (part s)).2 := by
    rw [← hState]
    exact h s _
  dsimp only
  rw [hSet]
  exact hEnd

end Spending

------
-- Logs
------

/- What a part adds to the end of a log satisfies this. -/
def Appends
    {β : Type}
    (log : σ → List β)
    (P : β → Prop)
    (x : Checked σ ε α) : Prop :=
  ∀ s, ∃ l, log (x s).2 = log s ++ l ∧ ∀ b, b ∈ l → P b

section Logs

variable {γ : Type} {log : σ → List β} {P : β → Prop}

/- A part that does not touch the log. -/
theorem appends_of_keeps
    (h : ∀ s, log (x s).2 = log s) :
    Appends log P x := by
  intro s
  refine ⟨[], ?_, fun b hIn => ?_⟩
  · rw [h, List.append_nil]
  · simp at hIn

theorem Keeps.appends
    (h : Keeps log x) :
    Appends log P x :=
  appends_of_keeps h

/- Nothing is added where nothing may be. -/
theorem Appends.keeps
    (h : Appends log (fun _ => False) x) :
    Keeps log x := by
  intro s
  rcases h s with ⟨l, hLog, hAll⟩
  have hNil : l = [] :=
    List.eq_nil_iff_forall_not_mem.mpr hAll
  rw [hLog, hNil, List.append_nil]

theorem appends_pure :
    Appends log P (pure a : Checked σ ε α) :=
  appends_of_keeps fun _ => rfl

theorem appends_read :
    Appends log P (read : Checked σ ε σ) :=
  appends_of_keeps fun _ => rfl

theorem appends_stop :
    Appends log P (stop e : Checked σ ε α) :=
  appends_of_keeps fun _ => rfl

theorem appends_lift
    {x : Except ε α} :
    Appends log P (lift x : Checked σ ε α) :=
  appends_of_keeps fun _ => rfl

theorem appends_change
    {f : σ → σ}
    (h : ∀ s, log (f s) = log s) :
    Appends log P (change f : Checked σ ε Unit) :=
  appends_of_keeps h

theorem appends_require
    [Decidable c] :
    Appends log P (require c e : Checked σ ε Unit) := by
  apply appends_of_keeps
  intro s
  unfold require
  split_ifs
  · rfl
  · rfl

theorem Appends.bind_returns
    {f : α → Checked σ ε γ}
    (hx : Appends log P x)
    (hR : Returns R x)
    (hf : ∀ a, R a → Appends log P (f a)) :
    Appends log P (x >>= f) := by
  intro s
  rcases hx s with ⟨l, hLog, hAll⟩
  rcases hRun : x s with ⟨r, t⟩
  rw [hRun] at hLog
  cases r with
  | error e =>
      rw [bind_stop hRun]
      exact ⟨l, hLog, hAll⟩
  | ok a =>
      rw [bind_run hRun]
      rcases hf a (hR s a t hRun) t with ⟨l', hLog', hAll'⟩
      refine ⟨l ++ l', ?_, fun b hIn => ?_⟩
      · rw [hLog', hLog, List.append_assoc]
      · rcases List.mem_append.mp hIn with hFirst | hSecond
        · exact hAll b hFirst
        · exact hAll' b hSecond

theorem Appends.bind
    {f : α → Checked σ ε γ}
    (hx : Appends log P x)
    (hf : ∀ a, Appends log P (f a)) :
    Appends log P (x >>= f) :=
  hx.bind_returns returns_true fun a _ => hf a

/- A log that was empty has only what was added. -/
theorem Appends.all
    (hx : Appends log P x)
    (hEmpty : log s = [])
    (hIn : b ∈ log (x s).2) :
    P b := by
  rcases hx s with ⟨l, hLog, hAll⟩
  rw [hLog, hEmpty, List.nil_append] at hIn
  exact hAll b hIn

/- What comes after a part leaves what that part added. -/
theorem Appends.after
    {f : α → Checked σ ε γ}
    (hf : ∀ a, Appends log P (f a))
    (s : σ) :
    ∃ l, log ((x >>= f) s).2 = log (x s).2 ++ l := by
  rcases hRun : x s with ⟨r, t⟩
  cases r with
  | error e =>
      rw [bind_stop hRun]
      exact ⟨[], (List.append_nil _).symm⟩
  | ok a =>
      rw [bind_run hRun]
      rcases hf a t with ⟨l, hLog, _⟩
      exact ⟨l, hLog⟩

theorem Appends.onPart
    {τ : Type}
    {part : σ → τ}
    {set : σ → τ → σ}
    {log : τ → List γ}
    {P : γ → Prop}
    {x : Checked τ ε α}
    (hx : Appends log P x)
    (h : ∀ s t, part (set s t) = t) :
    Appends (fun s => log (part s)) P
      (Checked.onPart part set x) := by
  intro s
  have hSet : part (Checked.onPart part set x s).2 =
      (x (part s)).2 := h s _
  dsimp only
  rw [hSet]
  exact hx (part s)

theorem Appends.attempt
    (hx : Appends log P x) :
    Appends log P
      (Checked.attempt x : Checked σ γ (Except ε α)) := hx

theorem appends_ite
    [Decidable c]
    (hx : Appends log P x)
    (hy : Appends log P y) :
    Appends log P (if c then x else y) := by
  split_ifs
  · exact hx
  · exact hy

end Logs

end Checked

end Lib
