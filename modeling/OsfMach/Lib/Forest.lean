import Mathlib.Data.List.Nodup
import Mathlib.Logic.Function.Basic
import Mathlib.Logic.Relation

/-
  Nodes that point to at most one other node.

  A chain follows the pointers from a node to a node that
  points nowhere. Every chain of a forest ends. Pointing a
  root at a node keeps that, as long as the chain of the
  node does not end at the root, and so does cutting a
  pointer.

  Main declarations:
    * `Chain`, `Forest`, `Leads`
    * `Chain.nodup`, `Chain.eq_of_root_mem`
    * `Forest.link`, `Forest.cut`
    * `leads_root_iff`
-/

------
-- Chains
------

namespace Lib

variable {α : Type*} {next : α → Option α} {l : List α}
variable {b p d : α}

/-
  The nodes from `i` on, along the pointers, to a node `b`
  that points nowhere.
-/
inductive Chain
    (next : α → Option α) : α → α → List α → Prop where
| root {b : α} :
    next b = none →
    Chain next b b [b]
| step {i j b : α} {l : List α} :
    next i = some j →
    Chain next j b l →
    Chain next i b (i :: l)

/- Every chain ends. -/
def Forest (next : α → Option α) : Prop :=
  ∀ i, ∃ b l, Chain next i b l

/- Following the pointers from `i` comes to `j`. -/
def Leads (next : α → Option α) : α → α → Prop :=
  Relation.ReflTransGen (fun a c => next a = some c)

namespace Chain

variable {next : α → Option α} {i b : α} {l : List α}

section Chain

variable (h : Chain next i b l)

include h

theorem next_end :
    next b = none := by
  induction h with
  | root hNone =>
      exact hNone
  | step _ _ ih =>
      exact ih

theorem leads :
    Leads next i b := by
  induction h with
  | root _ =>
      exact Relation.ReflTransGen.refl
  | step hNext _ ih =>
      exact Relation.ReflTransGen.head hNext ih

theorem unique
    {c : α}
    {m : List α}
    (h' : Chain next i c m) :
    b = c ∧ l = m := by
  induction h generalizing m with
  | root hNone =>
      cases h' with
      | root _ =>
          exact ⟨rfl, rfl⟩
      | step hNext _ =>
          rw [hNone] at hNext
          cases hNext
  | step hNext _ ih =>
      cases h' with
      | root hNone =>
          rw [hNone] at hNext
          cases hNext
      | step hNext' hRest =>
          rw [hNext] at hNext'
          cases hNext'
          rcases ih hRest with ⟨hEnd, hList⟩
          exact ⟨hEnd, by rw [hList]⟩

/- The chain of a node on a chain is the rest of it. -/
theorem of_mem
    {x : α}
    (hx : x ∈ l) :
    ∃ m, Chain next x b m ∧ m <:+ l := by
  induction h with
  | root hNone =>
      rw [List.mem_singleton] at hx
      subst hx
      exact ⟨_, Chain.root hNone, List.suffix_rfl⟩
  | step hNext hRest ih =>
      rcases List.mem_cons.mp hx with hHead | hTail
      · subst hHead
        exact ⟨_, Chain.step hNext hRest, List.suffix_rfl⟩
      · rcases ih hTail with ⟨m, hChain, hSuffix⟩
        exact ⟨m, hChain, hSuffix.trans (List.suffix_cons _ _)⟩

/-
  No node is met twice: the chain from its second place on
  would be shorter than the chain from its first.
-/
theorem nodup :
    l.Nodup := by
  induction h with
  | root _ =>
      exact List.nodup_singleton _
  | step hNext hRest ih =>
      refine List.nodup_cons.mpr ⟨?_, ih⟩
      intro hMem
      rcases hRest.of_mem hMem with ⟨m, hChain, hSuffix⟩
      have hEq := ((Chain.step hNext hRest).unique hChain).2
      have hLe := hSuffix.length_le
      rw [← hEq, List.length_cons] at hLe
      omega

/- A root on a chain is its end. -/
theorem eq_of_root_mem
    (hRoot : next p = none)
    (hp : p ∈ l) :
    p = b := by
  rcases h.of_mem hp with ⟨m, hChain, _⟩
  exact ((Chain.root hRoot).unique hChain).1

end Chain

/- A chain depends on the pointers of its nodes alone. -/
theorem congr
    {next' : α → Option α}
    (h : Chain next i b l)
    (hSame : ∀ x ∈ l, next' x = next x) :
    Chain next' i b l := by
  induction h with
  | root hNone =>
      apply Chain.root
      rw [hSame _ (List.mem_singleton.mpr rfl), hNone]
  | step hNext _ ih =>
      apply Chain.step
      · rw [hSame _ List.mem_cons_self, hNext]
      · apply ih
        intro x hx
        exact hSame x (List.mem_cons_of_mem _ hx)

end Chain

/- A root is led to from the nodes whose chain ends there. -/
theorem leads_root_iff
    {i b p : α}
    (h : Chain next i b l)
    (hRoot : next p = none) :
    Leads next i p ↔ b = p := by
  constructor
  · intro hLeads
    induction hLeads using
      Relation.ReflTransGen.head_induction_on
        generalizing l with
    | refl =>
        exact (h.unique (Chain.root hRoot)).1
    | head hNext _ ih =>
        cases h with
        | root hNone =>
            rw [hNone] at hNext
            cases hNext
        | step hNext' hRest =>
            rw [hNext] at hNext'
            cases hNext'
            exact ih hRest
  · intro hEq
    rw [← hEq]
    exact h.leads

------
-- Changing One Pointer
------

namespace Forest

variable [DecidableEq α] {next : α → Option α}

/-
  After a pointer is changed, a chain either avoids its
  node or comes to it first.
-/
theorem reaches
    {i b p : α}
    (h : Chain next i b l)
    (v : Option α) :
    (∃ m, Chain (Function.update next p v) i b m) ∨
      ∀ c m, Chain (Function.update next p v) p c m →
        ∃ m', Chain (Function.update next p v) i c m' := by
  induction h with
  | @root b hNone =>
      by_cases hEq : b = p
      · subst hEq
        exact Or.inr fun c m hChain => ⟨m, hChain⟩
      · apply Or.inl
        refine ⟨_, Chain.root ?_⟩
        rw [Function.update_of_ne hEq, hNone]
  | @step i j b l hNext hRest ih =>
      by_cases hEq : i = p
      · subst hEq
        exact Or.inr fun c m hChain => ⟨m, hChain⟩
      · have hSame :
            Function.update next p v i = some j := by
          rw [Function.update_of_ne hEq, hNext]
        rcases ih with hDone | hTo
        · rcases hDone with ⟨m, hChain⟩
          exact Or.inl ⟨_, Chain.step hSame hChain⟩
        · apply Or.inr
          intro c m hChain
          rcases hTo c m hChain with ⟨m', hChain'⟩
          exact ⟨_, Chain.step hSame hChain'⟩

/- It is enough that the chain of the changed node ends. -/
theorem update
    {v : Option α}
    (h : Forest next)
    (hEnds :
      ∃ b l, Chain (Function.update next p v) p b l) :
    Forest (Function.update next p v) := by
  intro i
  rcases h i with ⟨b, l, hChain⟩
  rcases reaches hChain v with hDone | hTo
  · rcases hDone with ⟨m, hChain'⟩
    exact ⟨b, m, hChain'⟩
  · rcases hEnds with ⟨c, m, hChain'⟩
    rcases hTo c m hChain' with ⟨m', hChain''⟩
    exact ⟨c, m', hChain''⟩

theorem cut
    (h : Forest next)
    (p : α) :
    Forest (Function.update next p none) := by
  apply h.update
  refine ⟨p, [p], Chain.root ?_⟩
  rw [Function.update_self]

end Forest

/- The chain of a root that now points at `d`. -/
theorem Chain.link
    [DecidableEq α]
    (h : Chain next d b l)
    (hRoot : next p = none)
    (hNe : b ≠ p) :
    Chain (Function.update next p (some d)) p b
      (p :: l) := by
  apply Chain.step (Function.update_self _ _ _)
  apply h.congr
  intro x hx
  apply Function.update_of_ne
  intro hEq
  subst hEq
  exact hNe (h.eq_of_root_mem hRoot hx).symm

theorem Forest.link
    [DecidableEq α]
    (hForest : Forest next)
    (h : Chain next d b l)
    (hRoot : next p = none)
    (hNe : b ≠ p) :
    Forest (Function.update next p (some d)) :=
  hForest.update ⟨b, p :: l, h.link hRoot hNe⟩

end Lib
