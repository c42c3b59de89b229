import OsfMach.Kern.SyncPolicy
import OsfMach.Lib.Ring
import OsfMach.Lib.Runs

/-
  The queues of `kern/sync_policy.c` in memory.

  The head of a queue and the threads on it store their links
  in different places. A queue is a ring of its head and its
  threads, in the order of the policy.

  Main declarations:
    * `SyncQueue`, `SyncState`
    * `Arrived`, `FirstOfBest`
    * `SyncQueue.Holds.enqueue`, `SyncQueue.Holds.remqueue`
    * `syncQueue_ordered`
-/

------
-- Queues in Memory
------

namespace OsfMach

namespace Kern

open Function
open List
open Lib

/- `queue_entry`; a pointer to nothing is to the head. -/
structure QueueChain (τ : Type) where
  next : Option τ
  prev : Option τ

/- The head of a queue, and `wait_link` of each thread. -/
structure SyncQueue (τ : Type) where
  head : QueueChain τ
  waitLink : τ → QueueChain τ

namespace SyncQueue

variable {τ : Type}

/- The links of what a pointer is to. -/
def chain (q : SyncQueue τ) : Option τ → QueueChain τ
| none => q.head
| some t => q.waitLink t

/- `queue_init`. -/
def init (q : SyncQueue τ) : SyncQueue τ :=
  { q with head := ⟨none, none⟩ }

/- The loop for the insertion point, for so many turns. -/
def insertionPoint
    (q : SyncQueue τ)
    (priority : τ → Int)
    (thread : τ) : Nat → Option τ → Option (Option τ)
| _, none => some none
| 0, some _ => none
| fuel + 1, some scan =>
    if priority scan ≤ priority thread then
      q.insertionPoint priority thread fuel
        (q.waitLink scan).next
    else some (some scan)

------
-- Rings
------

def links (q : SyncQueue τ) : Links (Option τ) :=
  ⟨fun e => (q.chain e).next, fun e => (q.chain e).prev⟩

/- A queue and its threads, in order. -/
def Holds (q : SyncQueue τ) (l : List τ) : Prop :=
  q.links.IsRing (some none) (none :: l.map some)

variable {q : SyncQueue τ} {l r : List τ} {t : τ}
variable {scan : Option τ}

/- The pointers around a thread, and from the head. -/
theorem Holds.next_eq
    (h : q.Holds (l ++ t :: r)) :
    (q.waitLink t).next = r.head? := by
  have hSegment := h.2.2
  rw [map_append, map_cons, Links.segment_append] at hSegment
  cases r with
  | nil => exact hSegment.2.1
  | cons u r => exact hSegment.2.1.1

theorem Holds.head_next
    (h : q.Holds l) :
    q.head.next = l.head? := by
  have hSegment := h.2.2
  cases l with
  | nil => exact hSegment.1
  | cons u l => exact hSegment.1.1

/- The loop stops at the first thread of a higher number. -/
theorem Holds.insertionPoint
    (h : q.Holds (l ++ r))
    (priority : τ → Int)
    (thread : τ)
    {fuel : Nat}
    (hFuel : r.length ≤ fuel) :
    q.insertionPoint priority thread fuel r.head? =
      some (r.dropWhile fun scan =>
        decide (priority scan ≤ priority thread)).head? := by
  induction r generalizing l fuel with
  | nil =>
      cases fuel with
      | zero | succ fuel => rfl
  | cons u r ih =>
      cases fuel with
      | zero => cases hFuel
      | succ fuel =>
          unfold SyncQueue.insertionPoint
          rw [head?_cons]
          dsimp only
          rw [h.next_eq, dropWhile_cons]
          by_cases hLe : priority u ≤ priority thread
          · rw [if_pos hLe, if_pos (by simpa using hLe)]
            rw [append_cons] at h
            exact ih h (Nat.le_of_succ_le_succ hFuel)
          · rw [if_neg hLe, if_neg (by simpa using hLe)]
            rfl

/- A ring is the same from any of its nodes on. -/
theorem holds_iff :
    q.Holds (l ++ t :: r) ↔
      q.links.IsRing (some (some t))
        (some t :: (r.map some ++ none :: l.map some)) := by
  unfold Holds
  rw [map_append, map_cons]
  exact ⟨Links.IsRing.rotate, Links.IsRing.rotate⟩

------
-- Stores
------

variable [DecidableEq τ]

/- Where links are stored depends on what the pointer is. -/
def modify
    (q : SyncQueue τ)
    (e : Option τ)
    (f : QueueChain τ → QueueChain τ) : SyncQueue τ :=
  match e with
  | none => { q with head := f q.head }
  | some t =>
      { q with
        waitLink := update q.waitLink t (f (q.waitLink t)) }

def setNext
    (q : SyncQueue τ)
    (e x : Option τ) : SyncQueue τ :=
  q.modify e fun c => { c with next := x }

def setPrev
    (q : SyncQueue τ)
    (e x : Option τ) : SyncQueue τ :=
  q.modify e fun c => { c with prev := x }

/- The splice after the loop of `sync_policy_enqueue`. -/
def insertBefore
    (q : SyncQueue τ)
    (scan : Option τ)
    (thread : τ) : SyncQueue τ :=
  let prev := (q.chain scan).prev
  (((q.setPrev scan (some thread)).setNext prev
    (some thread)).setPrev (some thread) prev).setNext
      (some thread) scan

def syncPolicyEnqueue
    (fuel : Nat)
    (policy : SyncPolicy)
    (priority : τ → Int)
    (q : SyncQueue τ)
    (thread : τ) : Option (SyncQueue τ) :=
  match policy with
  | .fixedPriority =>
      (q.insertionPoint priority thread fuel q.head.next).map
        fun scan => q.insertBefore scan thread
  | .fifo =>
      -- `queue_enter`
      let prev := q.head.prev
      some ((((q.setNext prev (some thread)).setPrev
        (some thread) prev).setNext (some thread)
          none).setPrev none (some thread))

/- An empty queue has no thread to read the links of. -/
def syncPolicyDequeue
    (q : SyncQueue τ) : Option (τ × SyncQueue τ) :=
  match q.head.next with
  | none => none
  | some thread =>
      let next := (q.waitLink thread).next
      some (thread, (q.setPrev next none).setNext none next)

def syncPolicyRemqueue
    (q : SyncQueue τ)
    (thread : τ) : SyncQueue τ :=
  let next := (q.waitLink thread).next
  let prev := (q.waitLink thread).prev
  (q.setPrev next prev).setNext prev next

------
-- Threads That Come and Go
------

theorem links_modify
    (q : SyncQueue τ)
    (e : Option τ)
    (f : QueueChain τ → QueueChain τ) :
    (q.modify e f).links =
      ⟨update q.links.next e (f (q.chain e)).next,
        update q.links.prev e (f (q.chain e)).prev⟩ := by
  have hChain : (q.modify e f).chain =
      update q.chain e (f (q.chain e)) := by
    funext w
    cases e <;> cases w <;> simp [modify, chain, update_apply]
  unfold links
  rw [hChain]
  exact congrArg₂ Links.mk
    (comp_update QueueChain.next q.chain e _)
    (comp_update QueueChain.prev q.chain e _)

theorem links_setNext
    (q : SyncQueue τ)
    (e x : Option τ) :
    (q.setNext e x).links = q.links.setNext e x :=
  (links_modify q e _).trans
    (congrArg (Links.mk _) (update_eq_self e _))

theorem links_setPrev
    (q : SyncQueue τ)
    (e x : Option τ) :
    (q.setPrev e x).links = q.links.setPrev e x :=
  (links_modify q e _).trans
    (congrArg (Links.mk · _) (update_eq_self e _))

/- A thread that is put before any node of the ring. -/
theorem links_insertBefore
    {nodes : List (Option τ)}
    (hRing : q.links.IsRing (some scan) (scan :: nodes))
    (hNew : some t ∉ scan :: nodes) :
    (q.insertBefore scan t).links.IsRing (some scan)
      (scan :: nodes ++ [some t]) := by
  have hApart : ∀ w ∈ scan :: nodes, w ≠ some t := by
    intro w hw hEq
    exact hNew (hEq ▸ hw)
  have hInit : (q.links.init (some t)).IsRing (some scan)
      (scan :: nodes) := by
    apply hRing.congr
    · intro w hw
      exact update_of_ne (hApart w hw) _ _
    · intro w hw
      exact update_of_ne (hApart w hw) _ _
  have hEnqueue := hInit.enqueue hNew
    ⟨update_self _ _ _, update_self _ _ _⟩
  have hScan := hApart scan mem_cons_self
  have hPrev : (q.chain scan).prev ≠ some t :=
    hApart _ hRing.prev_mem
  have hSame : (q.insertBefore scan t).links =
      ((q.links.init (some t)).enqueue (some t)
        (some scan)).2 := by
    unfold SyncQueue.insertBefore
    rw [links_setNext, links_setPrev, links_setNext,
      links_setPrev]
    unfold Links.enqueue Links.init Links.setNext
      Links.setPrev
    dsimp only
    rw [update_idem, update_idem, update_of_ne hScan,
      update_comm hPrev, update_comm hScan]
    rfl
  rw [hSame]
  exact hEnqueue

theorem Holds.insertBefore
    (h : q.Holds (l ++ r))
    (hNew : t ∉ l ++ r) :
    (q.insertBefore r.head? t).Holds (l ++ t :: r) := by
  cases r with
  | nil =>
      rw [append_nil] at h hNew
      have hRing := links_insertBefore h (t := t)
        (by simpa using hNew)
      unfold Holds
      rw [map_append]
      exact hRing
  | cons u r =>
      simp only [mem_append, mem_cons, not_or] at hNew
      have hRing := links_insertBefore (holds_iff.mp h)
        (t := t) (by simp [hNew])
      rw [append_cons]
      apply holds_iff.mpr
      simpa using hRing

theorem links_remqueue
    {y : Option τ}
    {nodes : List (Option τ)}
    (hRing : q.links.IsRing (some (some t))
      (some t :: y :: nodes)) :
    (q.syncPolicyRemqueue t).links.IsRing (some y)
      (y :: nodes) := by
  have hRest := hRing.removeFirst.1
  have hOut := (nodup_cons.mp hRing.2.1).1
  have hNext : (q.waitLink t).next = y := hRing.2.2.1.1
  have hApart : ∀ w ∈ y :: nodes, w ≠ some t := by
    intro w hw hEq
    exact hOut (hEq ▸ hw)
  have hNe : q.links.next (some t) ≠ some t := by
    change (q.waitLink t).next ≠ some t
    rw [hNext]
    exact hApart y mem_cons_self
  rw [hRest.base_eq] at hRest
  unfold syncPolicyRemqueue
  rw [links_setNext, links_setPrev]
  -- the links of the thread itself do not matter
  unfold Links.removeFirst at hRest
  rw [if_neg hNe] at hRest
  apply hRest.congr
  · intro w hw
    exact (update_of_ne (hApart w hw) _ _).symm
  · intro w hw
    exact (update_of_ne (hApart w hw) _ _).symm

theorem Holds.remqueue
    (h : q.Holds (l ++ t :: r)) :
    (q.syncPolicyRemqueue t).Holds (l ++ r) := by
  have hRing := holds_iff.mp h
  cases r with
  | nil =>
      rw [append_nil]
      exact links_remqueue hRing
  | cons u r => exact holds_iff.mpr (links_remqueue hRing)

/- The first thread has the head of the queue before it. -/
theorem Holds.dequeue
    (h : q.Holds (t :: l)) :
    q.syncPolicyDequeue =
      some (t, q.syncPolicyRemqueue t) := by
  have hPrev : (q.waitLink t).prev = none := h.2.2.1.2
  unfold syncPolicyDequeue syncPolicyRemqueue
  rw [h.head_next, hPrev]
  rfl

theorem Holds.enqueue
    (h : q.Holds l)
    (hNew : t ∉ l)
    (policy : SyncPolicy)
    (priority : τ → Int) :
    ∃ q', q.syncPolicyEnqueue l.length policy priority t =
        some q' ∧
      q'.Holds (Kern.syncPolicyEnqueue policy priority l t) := by
  cases policy with
  | fifo =>
      refine ⟨_, rfl, ?_⟩
      rw [← append_nil l] at h hNew
      have hHolds := h.insertBefore hNew
      have hSame : q.insertBefore none t =
          (((q.setNext q.head.prev (some t)).setPrev (some t)
            q.head.prev).setNext (some t) none).setPrev none
              (some t) := by
        unfold SyncQueue.insertBefore chain
        cases q.head.prev with
        | none | some u => rfl
      rw [← hSame]
      exact hHolds
  | fixedPriority =>
      have hPoint := (show q.Holds ([] ++ l) from h)
        |>.insertionPoint priority t l.length.le_refl
      unfold syncPolicyEnqueue
      rw [h.head_next, hPoint]
      refine ⟨_, rfl, ?_⟩
      apply Holds.insertBefore
      · rw [takeWhile_append_dropWhile]
        exact h
      · rw [takeWhile_append_dropWhile]
        exact hNew

end SyncQueue

------
-- Orders of Arrival
------

section Arrivals

variable {τ : Type} {policy : SyncPolicy}
variable {priority : τ → Int} {a l : List τ} {t : τ}

/- With the FIFO policy all threads have one priority. -/
def rank
    (policy : SyncPolicy)
    (priority : τ → Int) : τ → Int :=
  match policy with
  | .fifo => fun _ => 0
  | .fixedPriority => priority

theorem enqueue_rank :
    syncPolicyEnqueue policy priority l t =
      syncPolicyEnqueue .fixedPriority (rank policy priority)
        l t := by
  cases policy with
  | fixedPriority => rfl
  | fifo =>
      have hLast := @enqueue_split τ (fun _ => 0) t l []
        (fun _ _ => Int.le_refl _) (fun _ h => nomatch h)
      rw [append_nil] at hLast
      exact hLast.symm

/- A queue, and its threads in the order they arrived in. -/
structure Arrived
    (priority : τ → Int)
    (a l : List τ) : Prop where
  perm : l.Perm a
  nodup : a.Nodup
  sorted : l.Pairwise fun t u => priority t ≤ priority u
  stable :
    ∀ p, (l.filter fun t => decide (priority t = p)) =
      a.filter fun t => decide (priority t = p)

/- The earliest thread to arrive of the best priority. -/
def FirstOfBest
    (priority : τ → Int)
    (a : List τ)
    (t : τ) : Prop :=
  ∃ before after, a = before ++ t :: after ∧
    (∀ x ∈ before, priority t < priority x) ∧
    ∀ x ∈ after, priority t ≤ priority x

namespace Arrived

theorem enqueue
    (h : Arrived priority a l)
    (hNew : t ∉ a) :
    Arrived priority (a ++ [t])
      (syncPolicyEnqueue .fixedPriority priority l t) := by
  have hSorted :
      QueueSorted .fixedPriority priority l := fun _ => h.sorted
  refine ⟨?_, ?_, hSorted.enqueue t rfl, ?_⟩
  · refine (perm_enqueue _ priority l t).trans ?_
    exact (h.perm.cons t).trans (perm_append_singleton t a).symm
  · refine h.nodup.append (nodup_singleton t) ?_
    simpa using hNew
  · intro p
    have hAbove := dropWhile_above h.sorted t
    have hSplit : ∀ f : τ → Bool, l.filter f =
        (l.takeWhile fun scan =>
          decide (priority scan ≤ priority t)).filter f ++
        (l.dropWhile fun scan =>
          decide (priority scan ≤ priority t)).filter f := by
      intro f
      rw [← filter_append, takeWhile_append_dropWhile]
    unfold syncPolicyEnqueue
    rw [filter_append, filter_append, ← h.stable p,
      hSplit, filter_cons, filter_singleton]
    by_cases hp : priority t = p
    · have hNone : (l.dropWhile fun scan =>
          decide (priority scan ≤ priority t)).filter
            (fun t => decide (priority t = p)) = [] := by
        apply filter_eq_nil_iff.mpr
        intro x hx hEq
        have hLt := hAbove x hx
        rw [hp, of_decide_eq_true hEq] at hLt
        exact Int.lt_irrefl _ hLt
      rw [hNone]
      simp [hp]
    · simp [hp]

theorem congr
    {priority' : τ → Int}
    (h : Arrived priority a l)
    (hSame : ∀ t ∈ a, priority' t = priority t) :
    Arrived priority' a l := by
  have hQueue : ∀ t ∈ l, priority' t = priority t :=
    fun t ht => hSame t (h.perm.mem_iff.mp ht)
  refine ⟨h.perm, h.nodup, ?_, ?_⟩
  · apply h.sorted.imp_of_mem
    intro x y hx hy hLe
    rw [hQueue x hx, hQueue y hy]
    exact hLe
  · intro p
    have hFilter : ∀ q : List τ,
        (∀ t ∈ q, priority' t = priority t) →
          (q.filter fun t => decide (priority' t = p)) =
            q.filter fun t => decide (priority t = p) := by
      intro q hq
      apply filter_congr
      intro x hx
      rw [hq x hx]
    rw [hFilter l hQueue, hFilter a hSame]
    exact h.stable p

theorem first
    (h : Arrived priority a (t :: l)) :
    FirstOfBest priority a t := by
  rcases append_of_mem (h.perm.mem_iff.mp mem_cons_self) with
    ⟨before, after, hSplit⟩
  have hNodup := h.nodup
  rw [hSplit] at hNodup
  have hOut : t ∉ before := fun hMem =>
    (nodup_append.mp hNodup).2.2 t hMem t mem_cons_self rfl
  have hFront : ∀ b l' c : List τ, t ∉ b →
      t :: l' = b ++ t :: c → b = [] := by
    intro b l' c hb hEq
    cases b with
    | nil => rfl
    | cons x b =>
        rw [(cons.inj hEq).1] at hb
        exact absurd mem_cons_self hb
  have hLe : ∀ x ∈ a, priority t ≤ priority x := by
    intro x hx
    rcases mem_cons.mp (h.perm.mem_iff.mpr hx) with rfl | hl
    · exact Int.le_refl _
    · exact (pairwise_cons.mp h.sorted).1 x hl
  rw [hSplit] at hLe
  refine ⟨before, after, hSplit, ?_,
    fun x hx => hLe x (by simp [hx])⟩
  have hStable := h.stable (priority t)
  rw [hSplit, filter_append, filter_cons_of_pos (by simp),
    filter_cons_of_pos (by simp)] at hStable
  have hNone := hFront _ _ _
    (fun hMem => hOut (mem_of_mem_filter hMem)) hStable
  intro x hx
  have hNe := filter_eq_nil_iff.mp hNone x hx
  have hAtLeast := hLe x (by simp [hx])
  simp only [decide_eq_true_eq] at hNe
  omega

theorem erase
    [DecidableEq τ]
    (h : Arrived priority a l)
    (t : τ) :
    Arrived priority (a.erase t) (l.erase t) := by
  have hNodup := h.perm.nodup_iff.mpr h.nodup
  refine ⟨h.perm.erase t, h.nodup.erase t,
    h.sorted.sublist erase_sublist, ?_⟩
  intro p
  rw [hNodup.erase_eq_filter, h.nodup.erase_eq_filter,
    filter_comm, h.stable p, filter_comm]

end Arrived

------
-- Runs
------

/- A thread comes with the priority that it then has. -/
inductive SyncOp (τ : Type) where
| enqueue (t : τ) (priority : Int)
| dequeue
| remqueue (t : τ)

/- A queue, the priorities, and who waits, by arrival. -/
structure SyncState (τ : Type) where
  queue : SyncQueue τ
  priority : τ → Int
  arrived : List τ

variable [DecidableEq τ] {s : SyncState τ}

/-
  An operation, where its callers may do it: a thread comes
  when it does not wait, and one that goes waits.
-/
def SyncState.step
    (policy : SyncPolicy)
    (s : SyncState τ) : SyncOp τ → Option (SyncState τ)
| .enqueue t n =>
    let priority := update s.priority t n
    if t ∈ s.arrived then none
    else
      (s.queue.syncPolicyEnqueue s.arrived.length policy
        priority t).map fun q => ⟨q, priority, s.arrived ++ [t]⟩
| .dequeue =>
    if s.arrived = [] then none
    else
      s.queue.syncPolicyDequeue.map fun r =>
        ⟨r.2, s.priority, s.arrived.erase r.1⟩
| .remqueue t =>
    if t ∈ s.arrived then
      some ⟨s.queue.syncPolicyRemqueue t, s.priority,
        s.arrived.erase t⟩
    else none

namespace SyncState

/- The queue in memory is one in the order of the policy. -/
def Orderly (policy : SyncPolicy) (s : SyncState τ) : Prop :=
  ∃ l, s.queue.Holds l ∧
    Arrived (rank policy s.priority) s.arrived l

namespace Orderly

section

variable (h : s.Orderly policy)
include h

theorem enqueue
    (hNew : t ∉ s.arrived)
    (n : Int) :
    ∃ s', s.step policy (.enqueue t n) = some s' ∧
      s'.Orderly policy := by
  rcases h with ⟨l, hHolds, hArrived⟩
  have hOut : t ∉ l := fun hMem =>
    hNew (hArrived.perm.mem_iff.mp hMem)
  have hSame : ∀ u ∈ s.arrived,
      rank policy (update s.priority t n) u =
        rank policy s.priority u := by
    intro u hu
    cases policy with
    | fifo => rfl
    | fixedPriority =>
        apply update_of_ne
        rintro rfl
        exact hNew hu
  rcases hHolds.enqueue hOut policy (update s.priority t n)
    with ⟨q, hRun, hNext⟩
  rw [hArrived.perm.length_eq] at hRun
  rw [enqueue_rank] at hNext
  refine ⟨⟨q, _, _⟩, ?_, _, hNext,
    (hArrived.congr hSame).enqueue hNew⟩
  unfold step
  dsimp only
  rw [if_neg hNew, hRun]
  rfl

/- A queue that holds a thread is taken apart around it. -/
theorem remqueue
    (hMem : t ∈ s.arrived) :
    Orderly policy ⟨s.queue.syncPolicyRemqueue t, s.priority,
      s.arrived.erase t⟩ := by
  rcases h with ⟨l, hHolds, hArrived⟩
  have hNodup := hArrived.perm.nodup_iff.mpr hArrived.nodup
  rcases append_of_mem (hArrived.perm.mem_iff.mpr hMem) with
    ⟨f, r, hSplit⟩
  rw [hSplit] at hHolds hNodup
  have hOut : t ∉ f := fun hf =>
    (nodup_append.mp hNodup).2.2 t hf t mem_cons_self rfl
  have hErase := hArrived.erase t
  rw [hSplit, erase_append_right _ hOut,
    erase_cons_head] at hErase
  exact ⟨f ++ r, hHolds.remqueue, hErase⟩

theorem dequeue
    (hSome : s.arrived ≠ []) :
    ∃ t, t ∈ s.arrived ∧
      s.queue.syncPolicyDequeue =
        some (t, s.queue.syncPolicyRemqueue t) ∧
      FirstOfBest (rank policy s.priority) s.arrived t := by
  rcases h with ⟨l, hHolds, hArrived⟩
  cases l with
  | nil => exact absurd hArrived.perm.nil_eq.symm hSome
  | cons t l =>
      exact ⟨t, hArrived.perm.mem_iff.mp mem_cons_self,
        hHolds.dequeue, hArrived.first⟩

theorem step
    {op : SyncOp τ}
    {s' : SyncState τ}
    (hStep : s.step policy op = some s') :
    s'.Orderly policy := by
  cases op with
  | enqueue t n =>
      by_cases hMem : t ∈ s.arrived
      · simp [SyncState.step, hMem] at hStep
      · rcases h.enqueue hMem n with ⟨u, hDone, hNext⟩
        rw [hDone] at hStep
        cases hStep
        exact hNext
  | dequeue =>
      unfold SyncState.step at hStep
      split_ifs at hStep with hNone
      rcases h.dequeue hNone with ⟨t, hMem, hTaken, _⟩
      rw [hTaken] at hStep
      cases hStep
      exact h.remqueue hMem
  | remqueue t =>
      unfold SyncState.step at hStep
      dsimp only at hStep
      split_ifs at hStep with hMem
      cases hStep
      exact h.remqueue hMem

end

end Orderly

end SyncState

/-
  Whatever comes and goes, the queue is a ring in the order
  of its policy. A thread can be put on it, and the one that
  is taken off is the first to have arrived of those of the
  best priority.
-/
theorem syncQueue_ordered
    {q : SyncQueue τ}
    {ops : List (SyncOp τ)}
    (hRun : Runs.exec (SyncState.step policy)
      ⟨q.init, priority, []⟩ ops = some s) :
    s.Orderly policy ∧
      (∀ t n, t ∉ s.arrived →
        ∃ s', s.step policy (.enqueue t n) = some s') ∧
      (s.arrived ≠ [] → ∃ t q',
        s.queue.syncPolicyDequeue = some (t, q') ∧
          FirstOfBest (rank policy s.priority) s.arrived t) := by
  have hStart : SyncState.Orderly policy
      ⟨q.init, priority, []⟩ := by
    refine ⟨[], ⟨rfl, nodup_singleton _, rfl, rfl⟩, ?_⟩
    exact ⟨.nil, nodup_nil, .nil, fun _ => rfl⟩
  have hOrderly : s.Orderly policy :=
    Runs.exec_preserves (fun _ _ _ h hStep => h.step hStep)
      hStart hRun
  refine ⟨hOrderly, ?_, ?_⟩
  · intro t n hNew
    rcases hOrderly.enqueue hNew n with ⟨s', hDone, _⟩
    exact ⟨s', hDone⟩
  · intro hSome
    rcases hOrderly.dequeue hSome with ⟨t, _, hTaken, hFirst⟩
    exact ⟨t, _, hTaken, hFirst⟩

/- No thread has come yet. -/
def noThread : SyncQueue Nat :=
  ⟨⟨none, none⟩, fun _ => ⟨none, none⟩⟩

theorem syncQueue_ordered_two :
    ∃ s : SyncState Nat,
      Runs.exec (SyncState.step .fixedPriority)
        ⟨noThread.init, fun _ => 0, []⟩
        [.enqueue 0 2, .enqueue 1 1] = some s ∧
      s.Orderly .fixedPriority := by
  have hRun : ∃ s, Runs.exec (SyncState.step .fixedPriority)
      ⟨noThread.init, fun _ => 0, []⟩
      [.enqueue 0 2, .enqueue 1 1] = some s := ⟨_, rfl⟩
  rcases hRun with ⟨s, hRun⟩
  exact ⟨s, hRun, (syncQueue_ordered hRun).1⟩

end Arrivals

end Kern

end OsfMach
