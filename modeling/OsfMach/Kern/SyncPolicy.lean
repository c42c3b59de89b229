import Mathlib.Data.List.Basic
import Mathlib.Order.Basic
import Mathlib.Tactic.SplitIfs

/-
  Queues of blocked threads, from `kern/sync_policy.c`.

  A thread that is put in a queue goes to its end, or before
  the first one of a higher priority number.

  Main declarations:
    * `syncPolicyEnqueue`
    * `perm_enqueue`
    * `enqueue_erase`
-/

------
-- Policies
------

namespace OsfMach

namespace Kern

open List

inductive SyncPolicy where
| fifo
| fixedPriority
deriving DecidableEq, Repr

variable {τ : Type}

/-
  `sync_policy_enqueue`. The other two functions take the
  first thread off, and a thread that is in the queue.
-/
def syncPolicyEnqueue
    (policy : SyncPolicy)
    (priority : τ → Int)
    (q : List τ)
    (thread : τ) : List τ :=
  match policy with
  | .fixedPriority =>
      let before := fun scan =>
        decide (priority scan ≤ priority thread)
      q.takeWhile before ++ thread :: q.dropWhile before
  | .fifo => q ++ [thread]

variable {policy : SyncPolicy} {priority : τ → Int} {q : List τ}
variable {t u : τ}

theorem perm_enqueue
    (policy : SyncPolicy)
    (priority : τ → Int)
    (q : List τ)
    (t : τ) :
    (syncPolicyEnqueue policy priority q t).Perm
      (t :: q) := by
  cases policy with
  | fifo => exact perm_append_singleton t q
  | fixedPriority =>
      refine perm_middle.trans ?_
      rw [takeWhile_append_dropWhile]

theorem mem_enqueue :
    u ∈ syncPolicyEnqueue policy priority q t ↔
      u = t ∨ u ∈ q := by
  rw [(perm_enqueue policy priority q t).mem_iff, mem_cons]

theorem length_enqueue :
    (syncPolicyEnqueue policy priority q t).length =
      q.length + 1 := by
  rw [(perm_enqueue policy priority q t).length_eq, length_cons]

/- The order in which the queue of a policy is kept. -/
def QueueSorted
    (policy : SyncPolicy)
    (priority : τ → Int)
    (q : List τ) : Prop :=
  policy = .fixedPriority →
    q.Pairwise fun t u => priority t ≤ priority u

theorem QueueSorted.sublist
    {q' : List τ}
    (h : QueueSorted policy priority q)
    (hSub : q'.Sublist q) :
    QueueSorted policy priority q' := by
  intro hPolicy
  exact (h hPolicy).sublist hSub

/- A queue in order is cut where the priorities pass one. -/
theorem dropWhile_above
    (h : q.Pairwise fun t u => priority t ≤ priority u)
    (t : τ) :
    ∀ x ∈ q.dropWhile
        (fun scan => decide (priority scan ≤ priority t)),
      priority t < priority x := by
  induction q with
  | nil =>
      intro x hx
      cases hx
  | cons y q ih =>
      rw [pairwise_cons] at h
      intro x hx
      rw [dropWhile_cons] at hx
      split_ifs at hx with hLe
      · exact ih h.2 x hx
      · have hLt : priority t < priority y := by
          simpa using hLe
        rcases mem_cons.mp hx with rfl | hTail
        · exact hLt
        · exact Int.lt_of_lt_of_le hLt (h.1 x hTail)

theorem takeWhile_below
    (priority : τ → Int)
    (q : List τ)
    (t : τ) :
    ∀ x ∈ q.takeWhile
        (fun scan => decide (priority scan ≤ priority t)),
      priority x ≤ priority t := by
  intro x hx
  have hAll := all_eq_true.mp (all_takeWhile
    (p := fun scan => decide (priority scan ≤ priority t))
    (l := q)) x hx
  exact of_decide_eq_true hAll

/- Where a thread goes in a queue that is cut. -/
theorem enqueue_split
    {l r : List τ}
    (hLeft : ∀ x ∈ l, priority x ≤ priority t)
    (hRight : ∀ x ∈ r, priority t < priority x) :
    syncPolicyEnqueue .fixedPriority priority (l ++ r) t =
      l ++ t :: r := by
  have hTake :
      (l ++ r).takeWhile
        (fun scan => decide (priority scan ≤ priority t)) =
          l := by
    rw [takeWhile_append_of_pos]
    · cases r with
      | nil => simp
      | cons y r =>
          have hNot := hRight y mem_cons_self
          rw [takeWhile_cons_of_neg]
          · simp
          · simpa using hNot
    · intro x hx
      simpa using hLeft x hx
  have hDrop :
      (l ++ r).dropWhile
        (fun scan => decide (priority scan ≤ priority t)) =
          r := by
    rw [dropWhile_append_of_pos]
    · cases r with
      | nil => rfl
      | cons y r =>
          have hNot := hRight y mem_cons_self
          rw [dropWhile_cons_of_neg]
          simpa using hNot
    · intro x hx
      simpa using hLeft x hx
  unfold syncPolicyEnqueue
  dsimp only
  rw [hTake, hDrop]

theorem QueueSorted.enqueue
    (h : QueueSorted policy priority q)
    (t : τ) :
    QueueSorted policy priority
      (syncPolicyEnqueue policy priority q t) := by
  intro hPolicy
  have hSorted := h hPolicy
  subst hPolicy
  have hLeft := takeWhile_below priority q t
  have hRight := dropWhile_above hSorted t
  unfold syncPolicyEnqueue
  rw [pairwise_append, pairwise_cons]
  refine ⟨?_, ⟨?_, ?_⟩, ?_⟩
  · exact hSorted.sublist (takeWhile_sublist _)
  · intro x hx
    exact Int.le_of_lt (hRight x hx)
  · exact hSorted.sublist (dropWhile_sublist _)
  · intro x hx y hy
    rcases mem_cons.mp hy with rfl | hTail
    · exact hLeft x hx
    · exact Int.le_trans (hLeft x hx)
        (Int.le_of_lt (hRight y hTail))

/- A thread that comes and goes leaves the queue as it was. -/
theorem erase_enqueue
    [DecidableEq τ]
    (hOut : t ∉ q) :
    (syncPolicyEnqueue policy priority q t).erase t = q := by
  cases policy with
  | fifo =>
      unfold syncPolicyEnqueue
      rw [erase_append_right _ hOut,
        erase_cons_head, append_nil]
  | fixedPriority =>
      have hLeft : t ∉ q.takeWhile (fun scan =>
          decide (priority scan ≤ priority t)) := by
        intro hIn
        exact hOut (takeWhile_subset _ hIn)
      unfold syncPolicyEnqueue
      rw [erase_append_right _ hLeft, erase_cons_head,
        takeWhile_append_dropWhile]

/- A thread that leaves makes no difference to the others. -/
theorem enqueue_erase
    [DecidableEq τ]
    (h : QueueSorted policy priority q)
    (hMem : t ∈ q)
    (hNe : u ≠ t) :
    (syncPolicyEnqueue policy priority q u).erase t =
      syncPolicyEnqueue policy priority (q.erase t) u := by
  cases policy with
  | fifo => exact erase_append_left [u] hMem
  | fixedPriority =>
      have hLeft := takeWhile_below priority q u
      have hRight := dropWhile_above (h rfl) u
      have hSplit := q.takeWhile_append_dropWhile
        (p := fun scan => decide (priority scan ≤ priority u))
      generalize q.takeWhile (fun scan =>
        decide (priority scan ≤ priority u)) = l at *
      generalize q.dropWhile (fun scan =>
        decide (priority scan ≤ priority u)) = r at *
      subst hSplit
      rw [enqueue_split hLeft hRight]
      by_cases hl : t ∈ l
      · rw [erase_append_left _ hl, erase_append_left _ hl]
        symm
        apply enqueue_split
        · intro x hx
          exact hLeft x (mem_of_mem_erase hx)
        · exact hRight
      · rw [erase_append_right _ hl,
          erase_append_right _ hl,
          erase_cons_tail (by simpa using hNe)]
        symm
        apply enqueue_split hLeft
        intro x hx
        exact hRight x (mem_of_mem_erase hx)

end Kern

end OsfMach
