import OsfMach.Kern.LockSet
import Mathlib.Data.List.Nodup

/-
  What holds of a lock set as long as it is active.

  The facts about a thread are put in terms of what the
  thread sees: where it is, and whether it is in a queue, in
  a hand-off or the owner. A step changes what one or two
  threads see, and leaves the others alone.

  Main declarations:
    * `holdsOf`, `Holder`
    * `ThreadOk`, `LockInv`, `SameView`
    * `ThreadOk.frame`
    * `LockInv.changed`
-/

------
-- Holders
------

namespace OsfMach

namespace Kern

open Function
open Lib

variable {id : Nat} {r : LockReturn} {j : Nat} {l : List Nat}

def LockOp.acquires (op : LockOp) : Bool :=
  match op with
  | .acquire => true
  | .tryAcquire => true
  | .accept => true
  | .release => false
  | .handoff => false

/- A thread that waits and can still be aborted. -/
def LockStage.pending (st : LockStage) : Bool :=
  match st with
  | .woken r => r == .interrupted
  | _ => true

/- A thread that waits and was not woken. -/
def LockStage.fresh (st : LockStage) : Bool :=
  match st with
  | .entering => true
  | .blocked => true
  | _ => false

variable {τ : Type} [DecidableEq τ]

/-
  Whether the last call of a thread on a ulock that was
  granted took it. A call that fails changes nothing.
-/
def holdsOf (t : τ) (id : Nat) : List (LockCall τ) → Bool
| [] => false
| e :: es =>
    if e.thread = t ∧ e.id = id ∧ e.result.isGrant = true then
      e.op.acquires
    else holdsOf t id es

/- A thread inside a call that gives a ulock away. -/
def Giving (s : LockSet τ) (t : τ) (id : Nat) : Prop :=
  (∃ st, s.phase t = .waiting .handoff id st) ∨
    ∃ op w r, s.phase t = .completing op id w r ∧
      op.acquires = false

/-
  A thread whose acquisition has returned successfully and
  that has not given the ulock away since. The destruction
  of the set is the end of every holding.
-/
def Holder (s : LockSet τ) (t : τ) (id : Nat) : Prop :=
  s.active = true ∧ holdsOf t id s.calls = true ∧
    ¬ Giving s t id

------
-- The Invariant
------

/- A thread that is where its operation has put it. -/
def Registered
    (s : LockSet τ)
    (t : τ)
    (op : LockOp)
    (id : Nat) : Prop :=
  if op = .acquire then t ∈ (s.ulock id).blockedThreads
  else (s.ulock id).hoThread = some t

/- A thread whose operation was done by another one. -/
def Performed
    (s : LockSet τ)
    (t : τ)
    (op : LockOp)
    (id : Nat)
    (st : LockStage) : Prop :=
  (op ≠ .handoff → (s.ulock id).owner = some t) ∧
    (st.fresh = true ∨
      ∃ r, st = .woken r ∧ r.isGrant = true ∧
        s.linked t = false)

/- A thread that gives a ulock away, and has done so. -/
def Leaving (s : LockSet τ) (t : τ) (id : Nat) : Prop :=
  (∃ st, s.phase t = .waiting .handoff id st ∧
      (s.ulock id).hoThread ≠ some t) ∨
    ∃ op w r, s.phase t = .completing op id w r ∧
      op.acquires = false

structure ThreadOk (s : LockSet τ) (t : τ) : Prop where
  queued :
    ∀ id, t ∈ (s.ulock id).blockedThreads →
      s.linked t = true ∧
        ∃ st, s.phase t = .waiting .acquire id st ∧
          st.pending = true
  handing :
    ∀ id, (s.ulock id).hoThread = some t →
      ∃ op st, s.phase t = .waiting op id st ∧
        st.pending = true ∧
        (st.fresh = false → s.linked t = true) ∧
        (op = .handoff ∧ (s.ulock id).owner = some t ∨
          op = .accept ∧ (s.ulock id).owner ≠ some t)
  waiting :
    ∀ op id st, s.phase t = .waiting op id st →
      Registered s t op id ∨ Performed s t op id st
  holds :
    ∀ id, holdsOf t id s.calls = true →
      (s.ulock id).owner = some t ∨ Leaving s t id

/- A thread that another one is about to wake up. -/
def Target (s : LockSet τ) (w : τ) (id : Nat) : Prop :=
  ∃ op st, s.phase w = .waiting op id st ∧
    st.fresh = true ∧ ¬ Registered s w op id

def CompletingOk (s : LockSet τ) (p : τ) : Prop :=
  ∀ op id w r, s.phase p = .completing op id w r →
    (op.acquires = true → (s.ulock id).owner = some p) ∧
      r.isGrant = true ∧ Target s w id

/- The thread that a thread is about to wake up. -/
def LockPhase.target (p : LockPhase τ) : Option τ :=
  match p with
  | .completing _ _ w _ => some w
  | _ => none

structure UlockOk (s : LockSet τ) (id : Nat) : Prop where
  held :
    (s.ulock id).held = true ↔ (s.ulock id).owner ≠ none
  onHeld : id ∈ s.heldUlocks ↔ (s.ulock id).owner ≠ none
  onHandoff :
    id ∈ s.handoffUlocks ↔ (s.ulock id).hoThread ≠ none
  count :
    (s.ulock id).blockedCount =
      (s.ulock id).blockedThreads.length
  nodup : (s.ulock id).blockedThreads.Nodup

structure LockInv (s : LockSet τ) : Prop where
  ulock : ∀ id, UlockOk s id
  heldNodup : s.heldUlocks.Nodup
  handoffNodup : s.handoffUlocks.Nodup
  thread : ∀ t, ThreadOk s t
  completing : ∀ p, CompletingOk s p
  unique :
    ∀ p p' w, (s.phase p).target = some w →
      (s.phase p').target = some w → p = p'

------
-- What a Thread Sees
------

structure SameView (s s' : LockSet τ) (t : τ) : Prop where
  phase : s'.phase t = s.phase t
  linked : s'.linked t = s.linked t
  queue :
    ∀ id, t ∈ (s'.ulock id).blockedThreads ↔
      t ∈ (s.ulock id).blockedThreads
  handoff :
    ∀ id, (s'.ulock id).hoThread = some t ↔
      (s.ulock id).hoThread = some t
  owner :
    ∀ id, (s'.ulock id).owner = some t ↔
      (s.ulock id).owner = some t
  calls : ∀ id, holdsOf t id s'.calls = holdsOf t id s.calls

section View

variable {s s' : LockSet τ} {t : τ}

theorem SameView.registered
    (h : SameView s s' t)
    (op : LockOp)
    (id : Nat) :
    Registered s' t op id ↔ Registered s t op id := by
  unfold Registered
  split_ifs
  · exact h.queue id
  · exact h.handoff id

theorem SameView.target
    (h : SameView s s' t)
    (hTarget : Target s t id) :
    Target s' t id := by
  rcases hTarget with ⟨op, st, hPhase, hFresh, hNot⟩
  refine ⟨op, st, ?_, hFresh, ?_⟩
  · rw [h.phase]
    exact hPhase
  · rw [h.registered]
    exact hNot

theorem ThreadOk.frame
    (hOk : ThreadOk s t)
    (h : SameView s s' t) :
    ThreadOk s' t := by
  constructor
  · intro id hMem
    rw [h.linked, h.phase]
    exact hOk.queued id ((h.queue id).mp hMem)
  · intro id hHo
    rw [h.linked, h.phase, Ne, h.owner]
    exact hOk.handing id ((h.handoff id).mp hHo)
  · intro op id st hPhase
    rw [h.phase] at hPhase
    rw [h.registered]
    unfold Performed
    rw [h.owner, h.linked]
    exact hOk.waiting op id st hPhase
  · intro id hHolds
    rw [h.calls] at hHolds
    unfold Leaving
    rw [h.owner, h.phase, Ne, h.handoff]
    exact hOk.holds id hHolds

/- A change at one ulock that a thread does not notice. -/
theorem sameView_of
    (id : Nat)
    (hPhase : s'.phase t = s.phase t)
    (hLinked : s'.linked t = s.linked t)
    (hOther : ∀ j, j ≠ id → s'.ulock j = s.ulock j)
    (hQueue :
      t ∈ (s'.ulock id).blockedThreads ↔
        t ∈ (s.ulock id).blockedThreads)
    (hHandoff :
      (s'.ulock id).hoThread = some t ↔
        (s.ulock id).hoThread = some t)
    (hOwner :
      (s'.ulock id).owner = some t ↔
        (s.ulock id).owner = some t)
    (hCalls :
      ∀ j, holdsOf t j s'.calls = holdsOf t j s.calls) :
    SameView s s' t := by
  refine ⟨hPhase, hLinked, ?_, ?_, ?_, hCalls⟩
  · intro j
    by_cases hEq : j = id
    · rw [hEq]
      exact hQueue
    · rw [hOther j hEq]
  · intro j
    by_cases hEq : j = id
    · rw [hEq]
      exact hHandoff
    · rw [hOther j hEq]
  · intro j
    by_cases hEq : j = id
    · rw [hEq]
      exact hOwner
    · rw [hOther j hEq]

end View

section Changed

variable {s s' : LockSet τ} {t w : τ}

/-
  A step that changes what two threads see. Nobody else is
  about to wake one of them up, or may still do so.
-/
theorem LockInv.changed
    (h : LockInv s)
    (hSame : ∀ u, u ≠ t → u ≠ w → SameView s s' u)
    (hUlock : ∀ id, UlockOk s' id)
    (hHeld : s'.heldUlocks.Nodup)
    (hHandoff : s'.handoffUlocks.Nodup)
    (ht : ThreadOk s' t)
    (hw : ThreadOk s' w)
    (hCompleting : CompletingOk s' t ∧ CompletingOk s' w)
    (hTarget :
      ∀ p id x op r, p ≠ t → p ≠ w →
        s.phase p = .completing op id x r →
        x = t ∨ x = w → Target s' x id)
    (hUnique :
      ∀ p p' x, (s'.phase p).target = some x →
        (s'.phase p').target = some x → p = p') :
    LockInv s' := by
  refine ⟨hUlock, hHeld, hHandoff, ?_, ?_, hUnique⟩
  · intro u
    by_cases hut : u = t
    · rw [hut]
      exact ht
    by_cases huw : u = w
    · rw [huw]
      exact hw
    · exact (h.thread u).frame (hSame u hut huw)
  · intro p
    by_cases hpt : p = t
    · rw [hpt]
      exact hCompleting.1
    by_cases hpw : p = w
    · rw [hpw]
      exact hCompleting.2
    · intro op id x r hPhase
      have hView := hSame p hpt hpw
      rw [hView.phase] at hPhase
      rcases h.completing p op id x r hPhase with
        ⟨hOwner, hGrant, hBefore⟩
      rw [hView.owner]
      refine ⟨hOwner, hGrant, ?_⟩
      by_cases hxt : x = t
      · exact hTarget p id x op r hpt hpw hPhase (Or.inl hxt)
      by_cases hxw : x = w
      · exact hTarget p id x op r hpt hpw hPhase (Or.inr hxw)
      · exact (hSame x hxt hxw).target hBefore

end Changed

variable {es : List (LockCall τ)}

variable {e : LockCall τ}

section Alone

variable {s s' : LockSet τ} {t w : τ}

omit [DecidableEq τ] in
theorem completingOk_of_target
    (h : (s.phase t).target = none) :
    CompletingOk s t := by
  intro op id w r hPhase
  rw [hPhase] at h
  cases h

/- A step that changes what one thread sees. -/
theorem LockInv.alone
    (h : LockInv s)
    (hSame : ∀ u, u ≠ t → SameView s s' u)
    (hUlock : ∀ id, UlockOk s' id)
    (hHeld : s'.heldUlocks.Nodup)
    (hHandoff : s'.handoffUlocks.Nodup)
    (ht : ThreadOk s' t)
    (hNone : (s'.phase t).target = none)
    (hTarget : ∀ id, Target s t id → Target s' t id) :
    LockInv s' := by
  have hIs := completingOk_of_target hNone
  refine h.changed (t := t) (w := t)
    (fun u hu _ => hSame u hu) hUlock hHeld hHandoff ht ht
    ⟨hIs, hIs⟩ ?_ ?_
  · intro p id x op r _ _ hPhase hx
    rw [or_self] at hx
    subst hx
    exact hTarget id (h.completing p op id x r hPhase).2.2
  · intro p p' x hp hp'
    by_cases hEq : p = t
    · rw [hEq, hNone] at hp
      cases hp
    by_cases hEq' : p' = t
    · rw [hEq', hNone] at hp'
      cases hp'
    · rw [(hSame p hEq).phase] at hp
      rw [(hSame p' hEq').phase] at hp'
      exact h.unique p p' x hp hp'

omit [DecidableEq τ] in
/- The ulocks that a step leaves alone. -/
theorem ulockOk_of
    (id : Nat)
    (h : ∀ j, UlockOk s j)
    (hOther : ∀ j, j ≠ id → s'.ulock j = s.ulock j)
    (hHeld :
      ∀ j, j ≠ id → (j ∈ s'.heldUlocks ↔ j ∈ s.heldUlocks))
    (hHandoff :
      ∀ j, j ≠ id →
        (j ∈ s'.handoffUlocks ↔ j ∈ s.handoffUlocks))
    (hIs : UlockOk s' id) :
    ∀ j, UlockOk s' j := by
  intro j
  by_cases hEq : j = id
  · rw [hEq]
    exact hIs
  · have hj := h j
    constructor
    · rw [hOther j hEq]
      exact hj.held
    · rw [hOther j hEq, hHeld j hEq]
      exact hj.onHeld
    · rw [hOther j hEq, hHandoff j hEq]
      exact hj.onHandoff
    · rw [hOther j hEq]
      exact hj.count
    · rw [hOther j hEq]
      exact hj.nodup

/- A thread outside of all calls. -/
structure Outside (s : LockSet τ) (t : τ) : Prop where
  phase : s.phase t = .outside
  queue : ∀ id, t ∉ (s.ulock id).blockedThreads
  handoff : ∀ id, (s.ulock id).hoThread ≠ some t
  holds :
    ∀ id, holdsOf t id s.calls = true →
      (s.ulock id).owner = some t

theorem Outside.ok
    (h : Outside s t) :
    ThreadOk s t := by
  constructor
  · intro id hMem
    exact absurd hMem (h.queue id)
  · intro id hHo
    exact absurd hHo (h.handoff id)
  · intro op id st hPhase
    rw [h.phase] at hPhase
    cases hPhase
  · intro id hHolds
    exact Or.inl (h.holds id hHolds)

theorem ThreadOk.outside
    (h : ThreadOk s t)
    (hPhase : s.phase t = .outside) :
    Outside s t := by
  refine ⟨hPhase, ?_, ?_, ?_⟩
  · intro id hMem
    rcases (h.queued id hMem).2 with ⟨st, hWaiting, _⟩
    rw [hPhase] at hWaiting
    cases hWaiting
  · intro id hHo
    rcases h.handing id hHo with ⟨op, st, hWaiting, _⟩
    rw [hPhase] at hWaiting
    cases hWaiting
  · intro id hHolds
    rcases h.holds id hHolds with hOwner |
      ⟨st, hWaiting, _⟩ | ⟨op, w, r, hCompleting, _⟩
    · exact hOwner
    · rw [hPhase] at hWaiting
      cases hWaiting
    · rw [hPhase] at hCompleting
      cases hCompleting

omit [DecidableEq τ] in
theorem not_target_of_outside
    (hPhase : s.phase t = .outside)
    (id : Nat) :
    ¬ Target s t id := by
  rintro ⟨op, st, hWaiting, _⟩
  rw [hPhase] at hWaiting
  cases hWaiting

theorem holdsOf_other
    (hNe : t ≠ e.thread)
    (id : Nat) :
    holdsOf t id (e :: es) = holdsOf t id es := by
  rw [holdsOf, if_neg]
  rintro ⟨hEq, _⟩
  exact hNe hEq.symm

theorem holdsOf_failed
    (hFailed : e.result.isGrant = false)
    (id : Nat) :
    holdsOf t id (e :: es) = holdsOf t id es := by
  rw [holdsOf, if_neg]
  rintro ⟨_, _, hGrant⟩
  rw [hFailed] at hGrant
  cases hGrant

theorem holdsOf_granted
    {op : LockOp}
    (hGrant : r.isGrant = true)
    (h : holdsOf t j (⟨t, id, op, r⟩ :: es) = true) :
    j = id ∧ op.acquires = true ∨
      j ≠ id ∧ holdsOf t j es = true := by
  rw [holdsOf] at h
  by_cases hEq : j = id
  · subst hEq
    rw [if_pos ⟨rfl, rfl, hGrant⟩] at h
    exact Or.inl ⟨rfl, h⟩
  · rw [if_neg] at h
    · exact Or.inr ⟨hEq, h⟩
    · rintro ⟨_, hId, _⟩
      exact hEq hId.symm

omit [DecidableEq τ] in
theorem grant_isGrant (u : Ulock τ) :
    u.grant.isGrant = true := by
  unfold Ulock.grant
  split_ifs
  · rfl
  · rfl

/- A call that fails at once. -/
theorem LockInv.refuse
    (h : LockInv s)
    (hPhase : s.phase t = .outside)
    (hFailed : r.isGrant = false)
    (id : Nat)
    (op : LockOp) :
    LockInv (s.finish t id op r) := by
  have hOut := (h.thread t).outside hPhase
  apply h.alone (t := t)
  · intro u hu
    refine sameView_of id ?_ rfl (fun _ _ => rfl)
      Iff.rfl Iff.rfl Iff.rfl ?_
    · exact update_of_ne hu ..
    · exact fun j => holdsOf_other hu j
  · exact ulockOk_of id h.ulock (fun _ _ => rfl)
      (fun _ _ => Iff.rfl) (fun _ _ => Iff.rfl)
      ⟨(h.ulock id).held, (h.ulock id).onHeld,
        (h.ulock id).onHandoff, (h.ulock id).count,
        (h.ulock id).nodup⟩
  · exact h.heldNodup
  · exact h.handoffNodup
  · apply Outside.ok
    refine ⟨update_self .., hOut.queue, hOut.handoff, ?_⟩
    intro j hHolds
    apply hOut.holds j
    rw [← hHolds]
    exact (holdsOf_failed hFailed j).symm
  · show (update s.phase t .outside t).target = none
    rw [update_self]
    rfl
  · intro j hTarget
    exact absurd hTarget (not_target_of_outside hPhase j)

end Alone

------
-- Steps at One Ulock
------

/- What the step of one thread at one ulock leaves alone. -/
structure StepAt
    (s s' : LockSet τ)
    (t : τ)
    (id : Nat) : Prop where
  ulock : ∀ j, j ≠ id → s'.ulock j = s.ulock j
  phase : ∀ u, u ≠ t → s'.phase u = s.phase u
  linked : ∀ u, u ≠ t → s'.linked u = s.linked u
  calls :
    ∀ u, u ≠ t → ∀ j,
      holdsOf u j s'.calls = holdsOf u j s.calls
  held :
    ∀ j, j ≠ id → (j ∈ s'.heldUlocks ↔ j ∈ s.heldUlocks)
  handoff :
    ∀ j, j ≠ id →
      (j ∈ s'.handoffUlocks ↔ j ∈ s.handoffUlocks)
  heldNodup : s'.heldUlocks.Nodup
  handoffNodup : s'.handoffUlocks.Nodup

/- What a thread sees of one ulock. -/
structure SameAt
    (s s' : LockSet τ)
    (u : τ)
    (id : Nat) : Prop where
  queue :
    u ∈ (s'.ulock id).blockedThreads ↔
      u ∈ (s.ulock id).blockedThreads
  handoff :
    (s'.ulock id).hoThread = some u ↔
      (s.ulock id).hoThread = some u
  owner :
    (s'.ulock id).owner = some u ↔
      (s.ulock id).owner = some u

section StepAt

variable {s s' : LockSet τ} {t u w : τ} {id : Nat}

theorem StepAt.sameView
    (h : StepAt s s' t id)
    (hNe : u ≠ t)
    (hAt : SameAt s s' u id) :
    SameView s s' u :=
  sameView_of _ (h.phase u hNe) (h.linked u hNe) h.ulock
    hAt.queue hAt.handoff hAt.owner (h.calls u hNe)

theorem StepAt.inv
    (h : StepAt s s' t id)
    (hInv : LockInv s)
    (hAt : ∀ u, u ≠ t → SameAt s s' u id)
    (hUlock : UlockOk s' id)
    (ht : ThreadOk s' t)
    (hNone : (s'.phase t).target = none)
    (hTarget : ∀ id, Target s t id → Target s' t id) :
    LockInv s' :=
  hInv.alone
    (fun u hu => h.sameView hu (hAt u hu))
    (ulockOk_of _ hInv.ulock h.ulock h.held h.handoff hUlock)
    h.heldNodup h.handoffNodup ht hNone hTarget

/- What a thread that is outside sees of other ulocks. -/
theorem Outside.elsewhere
    (h : Outside s t)
    (hStep : StepAt s s' t id)
    (j : Nat)
    (hNe : j ≠ id) :
    t ∉ (s'.ulock j).blockedThreads ∧
      (s'.ulock j).hoThread ≠ some t ∧
      (holdsOf t j s.calls = true →
        (s'.ulock j).owner = some t) := by
  rw [hStep.ulock j hNe]
  exact ⟨h.queue j, h.handoff j, h.holds j⟩

omit [DecidableEq τ] in
theorem setUlock_self (v : Ulock τ) :
    (s.setUlock id v).ulock id = v :=
  update_self ..

omit [DecidableEq τ] in
theorem setUlock_other
    (v : Ulock τ)
    (hNe : j ≠ id) :
    (s.setUlock id v).ulock j = s.ulock j :=
  update_of_ne hNe ..

theorem setPhase_self (p : LockPhase τ) :
    (s.setPhase t p).phase t = p :=
  update_self ..

theorem setPhase_other
    (p : LockPhase τ)
    (hNe : u ≠ t) :
    (s.setPhase t p).phase u = s.phase u :=
  update_of_ne hNe ..

end StepAt

------
-- What a Step Writes
------

/- A list that may change in one place. -/
def KeepsBut (id : Nat) (l l' : List Nat) : Prop :=
  (∀ j, j ≠ id → (j ∈ l' ↔ j ∈ l)) ∧ l'.Nodup

theorem KeepsBut.refl (h : l.Nodup) : KeepsBut id l l :=
  ⟨fun _ _ => Iff.rfl, h⟩

theorem KeepsBut.erase
    (h : l.Nodup) :
    KeepsBut id l (l.erase id) :=
  ⟨fun _ hNe => List.mem_erase_of_ne hNe, h.erase id⟩

theorem KeepsBut.add
    (h : l.Nodup)
    (hNew : id ∉ l) :
    KeepsBut id l (l ++ [id]) := by
  constructor
  · intro j hNe
    rw [List.mem_append, List.mem_singleton]
    exact or_iff_left hNe
  · rw [List.nodup_append]
    refine ⟨h, List.nodup_singleton id, ?_⟩
    intro a ha b hb hEq
    rw [List.mem_singleton] at hb
    rw [hEq, hb] at ha
    exact hNew ha

/- A step at a ulock, with what it leaves behind. -/
structure Writes
    (s s' : LockSet τ)
    (t : τ)
    (id : Nat)
    (u : Ulock τ)
    (p : LockPhase τ)
    (hs ho : List Nat)
    (cs : List (LockCall τ)) : Prop
    extends StepAt s s' t id where
  ulockIs : s'.ulock id = u
  now : s'.phase t = p
  heldIs : s'.heldUlocks = hs
  handoffIs : s'.handoffUlocks = ho
  callsIs : s'.calls = cs

section Writes

variable {s s' : LockSet τ} {t v : τ} {id : Nat} {u : Ulock τ}
variable {p : LockPhase τ} {hs ho : List Nat}
variable {cs : List (LockCall τ)} {linked : τ → Bool}

theorem writes_of
    (h : { s with
      ulock := update s.ulock id u
      phase := update s.phase t p
      linked := linked
      heldUlocks := hs
      handoffUlocks := ho
      calls := cs } = s')
    (hLinked : ∀ v, v ≠ t → linked v = s.linked v)
    (hCalls : ∀ v, v ≠ t → ∀ j,
      holdsOf v j cs = holdsOf v j s.calls)
    (hHeld : KeepsBut id s.heldUlocks hs)
    (hHandoff : KeepsBut id s.handoffUlocks ho) :
    Writes s s' t id u p hs ho cs := by
  subst h
  exact ⟨⟨fun j hj => update_of_ne hj ..,
    fun v hv => update_of_ne hv .., hLinked, hCalls, hHeld.1,
    hHandoff.1, hHeld.2, hHandoff.2⟩, update_self ..,
    update_self .., rfl, rfl, rfl⟩

variable (h : Writes s s' t id u p hs ho cs)
include h

theorem Writes.sameAt
    (hQueue : v ∈ u.blockedThreads ↔
      v ∈ (s.ulock id).blockedThreads)
    (hHandoff : u.hoThread = some v ↔
      (s.ulock id).hoThread = some v)
    (hOwner : u.owner = some v ↔
      (s.ulock id).owner = some v) :
    SameAt s s' v id := by
  constructor
  · rw [h.ulockIs]
    exact hQueue
  · rw [h.ulockIs]
    exact hHandoff
  · rw [h.ulockIs]
    exact hOwner

theorem Writes.ulockOk
    (hHeld : u.held = true ↔ u.owner ≠ none)
    (hOnHeld : id ∈ hs ↔ u.owner ≠ none)
    (hOnHandoff : id ∈ ho ↔ u.hoThread ≠ none)
    (hCount : u.blockedCount = u.blockedThreads.length)
    (hNodup : u.blockedThreads.Nodup) :
    UlockOk s' id := by
  rw [← h.heldIs] at hOnHeld
  rw [← h.handoffIs] at hOnHandoff
  rw [← h.ulockIs] at *
  exact ⟨hHeld, hOnHeld, hOnHandoff, hCount, hNodup⟩

theorem Writes.inv_of_outside
    (hInv : LockInv s)
    (hPhase : s.phase t = .outside)
    (hNone : p.target = none)
    (hAt : ∀ v, v ≠ t → SameAt s s' v id)
    (hUlock : UlockOk s' id)
    (ht : ThreadOk s' t) :
    LockInv s' :=
  h.toStepAt.inv hInv hAt hUlock ht (h.now ▸ hNone)
    fun j hTarget =>
      absurd hTarget (not_target_of_outside hPhase j)

end Writes

end Kern

end OsfMach
