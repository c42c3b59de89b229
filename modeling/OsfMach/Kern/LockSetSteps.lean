import OsfMach.Kern.LockSetInv

/-
  The operations on a lock set keep its invariant.

  An operation that gives a ulock to a waiting thread does
  so to one that was not aborted.

  Main declarations:
    * `LockOrderly`
    * `lockAcquire_inv`, `lockRelease_inv`
    * `lockHandoff_inv`, `lockHandoffAccept_inv`
    * `lockComplete_inv`, `lockUndo_inv`
-/

------
-- Acquisition
------

namespace OsfMach

namespace Kern

open Function
open Lib

variable {τ : Type} [DecidableEq τ] {op : LockOp}

section Acquire

variable {c : LockConfig τ} {s : LockSet τ} {t : τ} {id : Nat}

/- The checks before the ulock is locked. -/
theorem LockInv.with_ulock
    (h : LockInv s)
    (hPhase : s.phase t = .outside)
    {f : Ulock τ → LockSet τ}
    (hf : s.active = true → LockInv (f (s.ulock id))) :
    LockInv (withUlock c s t id op f) := by
  unfold withUlock
  split_ifs with hBound hActive
  · exact h.refuse hPhase rfl id op
  · exact h.refuse hPhase rfl id op
  · exact hf ((Bool.not_eq_false _).mp hActive)

/- A thread that is outside again after a step. -/
theorem stays_outside
    {s' : LockSet τ}
    (hNow : s'.phase t = .outside)
    (hElse : ∀ j, j ≠ id →
      t ∉ (s'.ulock j).blockedThreads ∧
        (s'.ulock j).hoThread ≠ some t ∧
        (holdsOf t j s.calls = true →
          (s'.ulock j).owner = some t))
    (hThere : t ∉ (s'.ulock id).blockedThreads ∧
      (s'.ulock id).hoThread ≠ some t)
    (hHolds : ∀ j, holdsOf t j s'.calls = true →
      j = id ∧ (s'.ulock id).owner = some t ∨
        j ≠ id ∧ holdsOf t j s.calls = true) :
    ThreadOk s' t := by
  apply Outside.ok
  refine ⟨hNow, ?_, ?_, ?_⟩
  · intro j
    by_cases hEq : j = id
    · rw [hEq]
      exact hThere.1
    · exact (hElse j hEq).1
  · intro j
    by_cases hEq : j = id
    · rw [hEq]
      exact hThere.2
    · exact (hElse j hEq).2.1
  · intro j hHeld
    rcases hHolds j hHeld with ⟨hEq, hOwner⟩ | ⟨hNe, hBefore⟩
    · rw [hEq]
      exact hOwner
    · exact (hElse j hNe).2.2 hBefore

theorem LockInv.take
    (h : LockInv s)
    (hPhase : s.phase t = .outside)
    (hFree : (s.ulock id).held ≠ true)
    (op : LockOp) :
    LockInv (s.take t id op) := by
  have hOut := (h.thread t).outside hPhase
  have hUlock := h.ulock id
  have hNone : (s.ulock id).owner = none := by
    by_contra hOwner
    exact hFree (hUlock.held.mpr hOwner)
  have hNew : id ∉ s.heldUlocks := by
    rw [hUlock.onHeld, hNone]
    exact fun hAbsurd => hAbsurd rfl
  generalize hNext : s.take t id op = s'
  have hStep := writes_of (t := t) hNext (fun _ _ => rfl)
    (fun u hu => holdsOf_other (e := ⟨t, id, op, _⟩) hu)
    (.add h.heldNodup hNew) (.refl h.handoffNodup)
  apply hStep.inv_of_outside h hPhase rfl
  · intro u hu
    refine hStep.sameAt Iff.rfl Iff.rfl ?_
    rw [hNone]
    exact ⟨fun hEq => absurd (Option.some.inj hEq).symm hu,
      fun hEq => nomatch hEq⟩
  · exact hStep.ulockOk
      ⟨fun _ => Option.some_ne_none t, fun _ => rfl⟩
      ⟨fun _ => Option.some_ne_none t, fun _ =>
        List.mem_append_right _ (List.mem_singleton_self id)⟩
      hUlock.onHandoff hUlock.count hUlock.nodup
  · apply stays_outside hStep.now
      (hOut.elsewhere hStep.toStepAt)
    · rw [hStep.ulockIs]
      exact ⟨hOut.queue id, hOut.handoff id⟩
    · intro j hHolds
      rw [hStep.callsIs] at hHolds
      refine (holdsOf_granted (grant_isGrant _) hHolds).imp
        (fun hEq => ⟨hEq.1, ?_⟩) fun hBefore => hBefore
      rw [hStep.ulockIs]

end Acquire

section Wait

variable {c : LockConfig τ} {s : LockSet τ} {t : τ} {id : Nat}

/- A thread that was outside and now waits at a ulock. -/
theorem Outside.enters
    {s' : LockSet τ}
    {st : LockStage}
    (h : Outside s t)
    (hStep : StepAt s s' t id)
    (hPhase : s'.phase t = .waiting op id st)
    (hCalls : s'.calls = s.calls)
    (hOwner :
      (s'.ulock id).owner = some t ↔
        (s.ulock id).owner = some t)
    (hQueued :
      t ∈ (s'.ulock id).blockedThreads →
        s'.linked t = true ∧ op = .acquire ∧
          st.pending = true)
    (hHanding :
      (s'.ulock id).hoThread = some t →
        st.pending = true ∧
        (st.fresh = false → s'.linked t = true) ∧
        (op = .handoff ∧ (s'.ulock id).owner = some t ∨
          op = .accept ∧ (s'.ulock id).owner ≠ some t))
    (hRegistered : Registered s' t op id) :
    ThreadOk s' t := by
  constructor
  · intro j hMem
    by_cases hEq : j = id
    · subst hEq
      rcases hQueued hMem with ⟨hLinked, rfl, hPending⟩
      exact ⟨hLinked, st, hPhase, hPending⟩
    · exact absurd hMem (h.elsewhere hStep j hEq).1
  · intro j hHo
    by_cases hEq : j = id
    · subst hEq
      exact ⟨op, st, hPhase, hHanding hHo⟩
    · exact absurd hHo (h.elsewhere hStep j hEq).2.1
  · intro op' j st' hPhase'
    rw [hPhase] at hPhase'
    cases hPhase'
    exact Or.inl hRegistered
  · intro j hHolds
    left
    rw [hCalls] at hHolds
    by_cases hEq : j = id
    · subst hEq
      exact hOwner.mpr (h.holds j hHolds)
    · exact (h.elsewhere hStep j hEq).2.2 hHolds

variable (h : LockInv s)
include h

/- An acquisition that has to wait. -/
theorem LockInv.enqueue
    (hPhase : s.phase t = .outside) :
    LockInv
      { (s.setUlock id { s.ulock id with
            blockedCount := (s.ulock id).blockedCount + 1
            blockedThreads :=
              syncPolicyEnqueue c.policy c.priority
                (s.ulock id).blockedThreads t }).setPhase
          t (.waiting .acquire id .entering) with
        linked := update s.linked t true } := by
  generalize hNext :
    { (s.setUlock id { s.ulock id with
          blockedCount := (s.ulock id).blockedCount + 1
          blockedThreads :=
            syncPolicyEnqueue c.policy c.priority
              (s.ulock id).blockedThreads t }).setPhase
        t (.waiting .acquire id .entering) with
      linked := update s.linked t true } = s'
  have hOut := (h.thread t).outside hPhase
  have hUlock := h.ulock id
  have hStep := writes_of hNext
    (fun u hu => update_of_ne hu ..) (fun _ _ _ => rfl)
    (.refl h.heldNodup) (.refl h.handoffNodup)
  have hLinked : s'.linked t = true := by
    subst hNext
    exact update_self ..
  have hMem : t ∈ (s'.ulock id).blockedThreads := by
    rw [hStep.ulockIs]
    exact mem_enqueue.mpr (Or.inl rfl)
  apply hStep.inv_of_outside h hPhase rfl
  · exact fun u hu => hStep.sameAt
      (mem_enqueue.trans (or_iff_right hu)) Iff.rfl Iff.rfl
  · refine hStep.ulockOk hUlock.held hUlock.onHeld
      hUlock.onHandoff ?_ ?_
    · rw [length_enqueue, hUlock.count]
      rfl
    · rw [(perm_enqueue _ _ _ _).nodup_iff, List.nodup_cons]
      exact ⟨hOut.queue id, hUlock.nodup⟩
  · apply hOut.enters hStep.toStepAt hStep.now hStep.callsIs
    · rw [hStep.ulockIs]
    · intro _
      exact ⟨hLinked, rfl, rfl⟩
    · intro hHo
      rw [hStep.ulockIs] at hHo
      exact absurd hHo (hOut.handoff id)
    · exact hMem

theorem lockAcquire_inv
    (hPhase : s.phase t = .outside) :
    LockInv (lockAcquire c s t id) := by
  apply h.with_ulock hPhase
  intro hActive
  split_ifs with hHeld
  · exact h.enqueue hPhase
  · exact h.take hPhase hHeld _

theorem lockTry_inv
    (hPhase : s.phase t = .outside) :
    LockInv (lockTry c s t id) := by
  apply h.with_ulock hPhase
  intro hActive
  split_ifs with hHeld hOwner
  · exact h.refuse hPhase rfl id _
  · exact h.refuse hPhase rfl id _
  · exact h.take hPhase hHeld _

/- A hand-off whose other side is not there yet. -/
theorem LockInv.register
    (hPhase : s.phase t = .outside)
    (hNone : (s.ulock id).hoThread = none)
    (hOp :
      op = .handoff ∧ (s.ulock id).owner = some t ∨
        op = .accept ∧ (s.ulock id).owner ≠ some t) :
    LockInv
      { (s.setUlock id { s.ulock id with
            hoThread := some t }).setPhase
          t (.waiting op id .entering) with
        handoffUlocks := s.handoffUlocks ++ [id] } := by
  generalize hNext :
    { (s.setUlock id { s.ulock id with
          hoThread := some t }).setPhase
        t (.waiting op id .entering) with
      handoffUlocks := s.handoffUlocks ++ [id] } = s'
  have hOut := (h.thread t).outside hPhase
  have hUlock := h.ulock id
  have hNew : id ∉ s.handoffUlocks := by
    rw [hUlock.onHandoff, hNone]
    exact fun hAbsurd => hAbsurd rfl
  have hNotAcquire : op ≠ .acquire := by
    rcases hOp with ⟨rfl, _⟩ | ⟨rfl, _⟩
    · decide
    · decide
  have hStep := writes_of hNext (fun _ _ => rfl)
    (fun _ _ _ => rfl) (.refl h.heldNodup)
    (.add h.handoffNodup hNew)
  apply hStep.inv_of_outside h hPhase rfl
  · intro u hu
    refine hStep.sameAt Iff.rfl ?_ Iff.rfl
    rw [hNone]
    exact ⟨fun hEq => absurd (Option.some.inj hEq).symm hu,
      fun hEq => nomatch hEq⟩
  · exact hStep.ulockOk hUlock.held hUlock.onHeld
      ⟨fun _ => Option.some_ne_none t, fun _ =>
        List.mem_append_right _ (List.mem_singleton_self id)⟩
      hUlock.count hUlock.nodup
  · apply hOut.enters hStep.toStepAt hStep.now hStep.callsIs
    · rw [hStep.ulockIs]
    · intro hMem
      rw [hStep.ulockIs] at hMem
      exact absurd hMem (hOut.queue id)
    · intro _
      rw [hStep.ulockIs]
      exact ⟨rfl, fun hAbsurd => (nomatch hAbsurd), hOp⟩
    · unfold Registered
      rw [if_neg hNotAcquire, hStep.ulockIs]

end Wait

------
-- Passing a Ulock On
------

section Pass

variable {s s' : LockSet τ} {t w : τ} {id : Nat}
variable {op op' : LockOp} {st : LockStage} {r : LockReturn}

/- A thread waits at one ulock only. -/
theorem ThreadOk.elsewhere
    (h : ThreadOk s w)
    (hPhase : s.phase w = .waiting op id st)
    {j : Nat}
    (hNe : j ≠ id) :
    w ∉ (s.ulock j).blockedThreads ∧
      (s.ulock j).hoThread ≠ some w ∧
      (holdsOf w j s.calls = true →
        (s.ulock j).owner = some w) := by
  refine ⟨?_, ?_, ?_⟩
  · intro hMem
    rcases (h.queued j hMem).2 with ⟨st', hAt, _⟩
    rw [hPhase] at hAt
    cases hAt
    exact hNe rfl
  · intro hHo
    rcases h.handing j hHo with ⟨op', st', hAt, _⟩
    rw [hPhase] at hAt
    cases hAt
    exact hNe rfl
  · intro hHolds
    rcases h.holds j hHolds with hOwner |
      ⟨st', hAt, _⟩ | ⟨op', x, r, hAt, _⟩
    · exact hOwner
    · rw [hPhase] at hAt
      cases hAt
      exact absurd rfl hNe
    · rw [hPhase] at hAt
      cases hAt

/- A thread whose operation another one has just done. -/
theorem ThreadOk.performed
    (h : ThreadOk s w)
    (hStep : StepAt s s' t id)
    (hNe : w ≠ t)
    (hPhase : s.phase w = .waiting op id st)
    (hFresh : st.fresh = true)
    (hQueue : w ∉ (s'.ulock id).blockedThreads)
    (hHandoff : (s'.ulock id).hoThread ≠ some w)
    (hOwner :
      op = .handoff ∨ (s'.ulock id).owner = some w) :
    ThreadOk s' w := by
  have hNow : s'.phase w = .waiting op id st := by
    rw [hStep.phase w hNe]
    exact hPhase
  constructor
  · intro j hMem
    by_cases hEq : j = id
    · rw [hEq] at hMem
      exact absurd hMem hQueue
    · rw [hStep.ulock j hEq] at hMem
      exact absurd hMem (h.elsewhere hPhase hEq).1
  · intro j hHo
    by_cases hEq : j = id
    · rw [hEq] at hHo
      exact absurd hHo hHandoff
    · rw [hStep.ulock j hEq] at hHo
      exact absurd hHo (h.elsewhere hPhase hEq).2.1
  · intro op' j st' hAt
    rw [hNow] at hAt
    cases hAt
    refine Or.inr ⟨?_, Or.inl hFresh⟩
    intro hNot
    exact hOwner.resolve_left hNot
  · intro j hHolds
    rw [hStep.calls w hNe] at hHolds
    by_cases hEq : j = id
    · subst hEq
      rcases hOwner with rfl | hOwner
      · exact Or.inr (Or.inl ⟨st, hNow, hHandoff⟩)
      · exact Or.inl hOwner
    · rw [hStep.ulock j hEq]
      exact Or.inl ((h.elsewhere hPhase hEq).2.2 hHolds)

/-
  A thread that comes from outside does the operation of one
  that waits, and is about to wake it up.
-/
theorem LockInv.pass
    (h : LockInv s)
    (hStep : StepAt s s' t id)
    (hPhase : s.phase t = .outside)
    (hNow : s'.phase t = .completing op id w r)
    (hCalls : s'.calls = s.calls)
    (hw : s.phase w = .waiting op' id st)
    (hFresh : st.fresh = true)
    (hRegistered : Registered s w op' id)
    (hGrant : r.isGrant = true)
    (hAt : ∀ u, u ≠ t → u ≠ w → SameAt s s' u id)
    (hUlock : UlockOk s' id)
    (ht : t ∉ (s'.ulock id).blockedThreads ∧
      (s'.ulock id).hoThread ≠ some t)
    (hGone : w ∉ (s'.ulock id).blockedThreads ∧
      (s'.ulock id).hoThread ≠ some w)
    (hOwner :
      op = .accept ∧ op' = .handoff ∧
          (s'.ulock id).owner = some t ∨
        op.acquires = false ∧
          (s'.ulock id).owner = some w) :
    LockInv s' := by
  have hNe : w ≠ t := by
    intro hEq
    rw [hEq, hPhase] at hw
    cases hw
  have hOut := (h.thread t).outside hPhase
  have hNowW : s'.phase w = .waiting op' id st := by
    rw [hStep.phase w hNe]
    exact hw
  -- nobody is about to wake up a thread that is registered
  have hNotTarget : ∀ j, ¬ Target s w j := by
    rintro j ⟨opj, stj, hPhasej, _, hNot⟩
    rw [hw] at hPhasej
    cases hPhasej
    exact hNot hRegistered
  have hUntargeted : ∀ p x opx j rx,
      s.phase p = .completing opx j x rx →
        x ≠ t ∧ x ≠ w := by
    intro p x opx j rx hp
    have hTarget := (h.completing p opx j x rx hp).2.2
    constructor
    · intro hEq
      rw [hEq] at hTarget
      exact not_target_of_outside hPhase j hTarget
    · intro hEq
      rw [hEq] at hTarget
      exact hNotTarget j hTarget
  have hNotRegistered : ¬ Registered s' w op' id := by
    unfold Registered
    split_ifs
    · exact hGone.1
    · exact hGone.2
  apply h.changed (t := t) (w := w)
    (fun u hut huw => hStep.sameView hut (hAt u hut huw))
    (ulockOk_of _ h.ulock hStep.ulock hStep.held hStep.handoff
      hUlock) hStep.heldNodup hStep.handoffNodup
  · constructor
    · intro j hMem
      by_cases hEq : j = id
      · rw [hEq] at hMem
        exact absurd hMem ht.1
      · exact absurd hMem (hOut.elsewhere hStep j hEq).1
    · intro j hHo
      by_cases hEq : j = id
      · rw [hEq] at hHo
        exact absurd hHo ht.2
      · exact absurd hHo (hOut.elsewhere hStep j hEq).2.1
    · intro opx j stx hx
      rw [hNow] at hx
      cases hx
    · intro j hHolds
      rw [hCalls] at hHolds
      by_cases hEq : j = id
      · subst hEq
        rcases hOwner with ⟨_, _, hOwner⟩ | ⟨hOp, _⟩
        · exact Or.inl hOwner
        · exact Or.inr (Or.inr ⟨op, w, r, hNow, hOp⟩)
      · exact Or.inl
          ((hOut.elsewhere hStep j hEq).2.2 hHolds)
  · apply (h.thread w).performed hStep hNe hw hFresh hGone.1
      hGone.2
    rcases hOwner with ⟨_, hOp, _⟩ | ⟨_, hOwner⟩
    · exact Or.inl hOp
    · exact Or.inr hOwner
  · constructor
    · intro opx j x rx hx
      rw [hNow] at hx
      cases hx
      refine ⟨?_, hGrant, op', st, hNowW, hFresh,
        hNotRegistered⟩
      intro hOp
      rcases hOwner with ⟨_, _, hOwner⟩ | ⟨hNot, _⟩
      · exact hOwner
      · rw [hNot] at hOp
        cases hOp
    · apply completingOk_of_target
      rw [hNowW]
      rfl
  · intro p j x opx rx _ _ hp hx
    rcases hx with hx | hx
    · exact absurd hx (hUntargeted p x opx j rx hp).1
    · exact absurd hx (hUntargeted p x opx j rx hp).2
  · have hOthers : ∀ p x, p ≠ t →
        (s'.phase p).target = some x →
        (s.phase p).target = some x ∧ x ≠ w := by
      intro p x hp hx
      rw [hStep.phase p hp] at hx
      refine ⟨hx, ?_⟩
      cases hEq : s.phase p with
      | outside | waiting op j st =>
          rw [hEq] at hx
          cases hx
      | completing opx j y rx =>
          rw [hEq] at hx
          cases hx
          exact (hUntargeted p x opx j rx hEq).2
    intro p p' x hp hp'
    have hSelf : (s'.phase t).target = some w := by
      rw [hNow]
      rfl
    by_cases hEq : p = t
    · by_cases hEq' : p' = t
      · rw [hEq, hEq']
      · rw [hEq, hSelf] at hp
        exact absurd (Option.some.inj hp).symm
          (hOthers p' x hEq' hp').2
    · by_cases hEq' : p' = t
      · rw [hEq', hSelf] at hp'
        exact absurd (Option.some.inj hp').symm
          (hOthers p x hEq hp).2
      · exact h.unique p p' x (hOthers p x hEq hp).1
          (hOthers p' x hEq' hp').1

end Pass

section Operations

variable {c : LockConfig τ} {s s' : LockSet τ} {t w : τ}
variable {id : Nat}

/- A thread that waits at a ulock and was not woken. -/
def LockPhase.fresh (p : LockPhase τ) : Bool :=
  match p with
  | .waiting _ _ st => st.fresh
  | _ => false

/- What each action asks of the state before it. -/
def LockOrderly (s : LockSet τ) (a : LockAction τ) : Prop :=
  match a with
  | .release t id =>
      s.active = true → (s.ulock id).owner = some t →
        ∀ w ∈ (s.ulock id).blockedThreads.head?,
          (s.phase w).fresh = true
  | .handoff t id =>
      s.active = true → (s.ulock id).owner = some t →
        ∀ w ∈ (s.ulock id).hoThread, (s.phase w).fresh = true
  | .accept t id =>
      s.active = true →
        match (s.ulock id).hoThread with
        | some w =>
            (s.ulock id).owner = some w →
              (s.phase w).fresh = true
        | none => (s.ulock id).owner ≠ some t
  | .abort t =>
      ∀ op id, s.active = true →
        s.phase t = .waiting op id .blocked →
        Registered s t op id ∧
          (op ≠ .acquire → s.linked t = true)
  | _ => True

/- A ulock that is given up with nobody waiting. -/
theorem LockInv.free
    (h : LockInv s)
    (hPhase : s.phase t = .outside)
    (hOwner : (s.ulock id).owner = some t) :
    LockInv
      ({ s.setUlock id
          { s.ulock id with owner := none, held := false } with
        heldUlocks := s.heldUlocks.erase id }.finish
          t id .release .success) := by
  generalize hNext :
    { s.setUlock id
        { s.ulock id with owner := none, held := false } with
      heldUlocks := s.heldUlocks.erase id }.finish
        t id .release .success = s'
  have hOut := (h.thread t).outside hPhase
  have hUlock := h.ulock id
  have hStep := writes_of hNext (fun _ _ => rfl)
    (fun u hu => holdsOf_other (e := ⟨t, id, .release, _⟩) hu)
    (.erase h.heldNodup) (.refl h.handoffNodup)
  apply hStep.inv_of_outside h hPhase rfl
  · intro u hu
    refine hStep.sameAt Iff.rfl Iff.rfl ?_
    rw [hOwner]
    exact ⟨fun hEq => (nomatch hEq), fun hEq =>
      absurd (Option.some.inj hEq).symm hu⟩
  · exact hStep.ulockOk
      ⟨fun hAbsurd => (nomatch hAbsurd),
        fun hAbsurd => absurd rfl hAbsurd⟩
      ⟨fun hMem => absurd hMem h.heldNodup.not_mem_erase,
        fun hAbsurd => absurd rfl hAbsurd⟩
      hUlock.onHandoff hUlock.count hUlock.nodup
  · apply stays_outside hStep.now
      (hOut.elsewhere hStep.toStepAt)
    · rw [hStep.ulockIs]
      exact ⟨hOut.queue id, hOut.handoff id⟩
    · intro j hHolds
      rw [hStep.callsIs] at hHolds
      rcases holdsOf_granted rfl hHolds with
        ⟨_, hAbsurd⟩ | hBefore
      · cases hAbsurd
      · exact Or.inr hBefore

theorem lockRelease_inv
    (h : LockInv s)
    (hPhase : s.phase t = .outside)
    (hOrderly : LockOrderly s (.release t id)) :
    LockInv (lockReleaseInternal c s t id) := by
  apply h.with_ulock hPhase
  intro hActive
  by_cases hOwner : (s.ulock id).owner = some t
  · rw [if_neg (not_not.mpr hOwner)]
    have hFresh := hOrderly hActive hOwner
    split
    · rename_i w q hQueue
      have hUlock := h.ulock id
      have hOut := (h.thread t).outside hPhase
      have hMem : w ∈ (s.ulock id).blockedThreads := by
        rw [hQueue]
        exact List.mem_cons_self
      have hNodup := hUlock.nodup
      have hCount := hUlock.count
      rw [hQueue] at hFresh hNodup hCount
      rw [List.nodup_cons] at hNodup
      rcases ((h.thread w).queued id hMem).2 with
        ⟨st, hw, _⟩
      have hSt := hFresh w rfl
      rw [hw] at hSt
      have hNotHanding : (s.ulock id).hoThread ≠ some w := by
        intro hHo
        rcases (h.thread w).handing id hHo with
          ⟨op, st', hAt, _, _, ⟨hOp, _⟩ | ⟨hOp, _⟩⟩
        · rw [hw, hOp] at hAt
          cases hAt
        · rw [hw, hOp] at hAt
          cases hAt
      have hTail : t ∉ q := by
        intro hIn
        apply hOut.queue id
        rw [hQueue]
        exact List.mem_cons_of_mem _ hIn
      generalize hNext :
        (s.setUlock id { s.ulock id with
            owner := some w
            blockedCount := (s.ulock id).blockedCount - 1
            blockedThreads := q }).setPhase
          t (.completing .release id w (s.ulock id).grant) =
            s'
      have hStep := writes_of hNext (fun _ _ => rfl)
        (fun _ _ _ => rfl) (.refl h.heldNodup)
        (.refl h.handoffNodup)
      have hSome : (s.ulock id).owner ≠ none := by
        rw [hOwner]
        exact Option.some_ne_none t
      apply h.pass hStep.toStepAt hPhase hStep.now
        hStep.callsIs hw hSt hMem (grant_isGrant _)
      · intro u hut huw
        refine hStep.sameAt ?_ Iff.rfl ?_
        · rw [hQueue, List.mem_cons]
          exact (or_iff_right huw).symm
        · rw [hOwner]
          exact ⟨fun hEq =>
            absurd (Option.some.inj hEq).symm huw, fun hEq =>
            absurd (Option.some.inj hEq).symm hut⟩
      · refine hStep.ulockOk
          ⟨fun _ => Option.some_ne_none w,
            fun _ => hUlock.held.mpr hSome⟩
          ⟨fun _ => Option.some_ne_none w,
            fun _ => hUlock.onHeld.mpr hSome⟩
          hUlock.onHandoff ?_ hNodup.2
        dsimp only
        rw [List.length_cons] at hCount
        omega
      · rw [hStep.ulockIs]
        exact ⟨hTail, hOut.handoff id⟩
      · rw [hStep.ulockIs]
        exact ⟨hNodup.1, hNotHanding⟩
      · rw [hStep.ulockIs]
        exact Or.inr ⟨rfl, rfl⟩
    · exact h.free hPhase hOwner
  · rw [if_pos hOwner]
    exact h.refuse hPhase rfl id _

end Operations

section Handoff

variable {c : LockConfig τ} {s : LockSet τ} {t w x : τ}
variable {id : Nat} {op : LockOp} {r : LockReturn}

section

variable (h : LockInv s) (hPhase : s.phase t = .outside)
include h hPhase

/- A hand-off between the two sides of it. -/
theorem LockInv.transfer
    (hHo : (s.ulock id).hoThread = some w)
    (hFresh : (s.phase w).fresh = true)
    (hGrant : r.isGrant = true)
    (hOwner :
      op = .accept ∧ x = t ∧ (s.ulock id).owner = some w ∨
        op.acquires = false ∧ x = w ∧
          (s.ulock id).owner = some t) :
    LockInv
      { (s.setUlock id { s.ulock id with
            owner := some x, hoThread := none }).setPhase
          t (.completing op id w r) with
        handoffUlocks := s.handoffUlocks.erase id } := by
  generalize hNext :
    { (s.setUlock id { s.ulock id with
          owner := some x, hoThread := none }).setPhase
        t (.completing op id w r) with
      handoffUlocks := s.handoffUlocks.erase id } = s'
  have hOut := (h.thread t).outside hPhase
  have hUlock := h.ulock id
  rcases (h.thread w).handing id hHo with
    ⟨op', st, hw, _, _, hSide⟩
  rw [hw] at hFresh
  have hNotAcquire : op' ≠ .acquire := by
    rcases hSide with ⟨rfl, _⟩ | ⟨rfl, _⟩
    · decide
    · decide
  have hSome : (s.ulock id).owner ≠ none := by
    rcases hOwner with ⟨_, _, hIs⟩ | ⟨_, _, hIs⟩
    · rw [hIs]
      exact Option.some_ne_none w
    · rw [hIs]
      exact Option.some_ne_none t
  have hNotQueued : w ∉ (s.ulock id).blockedThreads := by
    intro hMem
    rcases ((h.thread w).queued id hMem).2 with ⟨st', hAt, _⟩
    rw [hw] at hAt
    cases hAt
    exact hNotAcquire rfl
  have hStep := writes_of hNext (fun _ _ => rfl)
    (fun _ _ _ => rfl) (.refl h.heldNodup)
    (.erase h.handoffNodup)
  apply h.pass hStep.toStepAt hPhase hStep.now hStep.callsIs hw
    hFresh ?_ hGrant
  · intro u hut huw
    refine hStep.sameAt Iff.rfl ?_ ?_
    · rw [hHo]
      exact ⟨fun hEq => (nomatch hEq), fun hEq =>
        absurd (Option.some.inj hEq).symm huw⟩
    · have hx : u ≠ x := by
        rcases hOwner with ⟨_, rfl, _⟩ | ⟨_, rfl, _⟩
        · exact hut
        · exact huw
      have hBefore : (s.ulock id).owner ≠ some u := by
        rcases hOwner with ⟨_, _, hEq⟩ | ⟨_, _, hEq⟩
        · rw [hEq]
          exact fun hEq => huw (Option.some.inj hEq).symm
        · rw [hEq]
          exact fun hEq => hut (Option.some.inj hEq).symm
      exact ⟨fun hEq => absurd (Option.some.inj hEq).symm hx,
        fun hEq => absurd hEq hBefore⟩
  · exact hStep.ulockOk
      ⟨fun _ => Option.some_ne_none x,
        fun _ => hUlock.held.mpr hSome⟩
      ⟨fun _ => Option.some_ne_none x,
        fun _ => hUlock.onHeld.mpr hSome⟩
      ⟨fun hMem => absurd hMem h.handoffNodup.not_mem_erase,
        fun hAbsurd => absurd rfl hAbsurd⟩
      hUlock.count hUlock.nodup
  · rw [hStep.ulockIs]
    exact ⟨hOut.queue id, Option.some_ne_none t |>.symm⟩
  · rw [hStep.ulockIs]
    exact ⟨hNotQueued, Option.some_ne_none w |>.symm⟩
  · rw [hStep.ulockIs]
    rcases hOwner with ⟨hOp, rfl, hEq⟩ | ⟨hOp, rfl, _⟩
    · left
      refine ⟨hOp, ?_, rfl⟩
      rcases hSide with ⟨hIs', _⟩ | ⟨_, hNot⟩
      · exact hIs'
      · exact absurd hEq hNot
    · exact Or.inr ⟨hOp, rfl⟩
  · unfold Registered
    rw [if_neg hNotAcquire]
    exact hHo

theorem lockHandoff_inv
    (hOrderly : LockOrderly s (.handoff t id)) :
    LockInv (lockHandoff c s t id) := by
  apply h.with_ulock hPhase
  intro hActive
  by_cases hOwner : (s.ulock id).owner = some t
  · rw [if_neg (not_not.mpr hOwner)]
    split
    · rename_i w hHo
      exact h.transfer hPhase hHo
        (hOrderly hActive hOwner w hHo) (grant_isGrant _)
        (Or.inr ⟨rfl, rfl, hOwner⟩)
    · rename_i hHo
      exact h.register hPhase hHo (Or.inl ⟨rfl, hOwner⟩)
  · rw [if_pos hOwner]
    exact h.refuse hPhase rfl id _

theorem lockHandoffAccept_inv
    (hOrderly : LockOrderly s (.accept t id)) :
    LockInv (lockHandoffAccept c s t id) := by
  apply h.with_ulock hPhase
  intro hActive
  have hSide := hOrderly hActive
  split
  · rename_i w hHo
    rw [hHo] at hSide
    by_cases hOwner : (s.ulock id).owner = some w
    · rw [if_neg (not_not.mpr hOwner)]
      exact h.transfer hPhase hHo (hSide hOwner) rfl
        (Or.inl ⟨rfl, rfl, hOwner⟩)
    · rw [if_pos hOwner]
      exact h.refuse hPhase rfl id _
  · rename_i hHo
    rw [hHo] at hSide
    exact h.register hPhase hHo (Or.inr ⟨rfl, hSide⟩)

end

/- The mark of a ulock is not part of the invariant. -/
theorem LockInv.mark
    (h : LockInv s)
    (b : Bool) :
    LockInv
      (s.setUlock id { s.ulock id with stable := b }) := by
  generalize hNext :
    s.setUlock id { s.ulock id with stable := b } = s'
  have hIs : s'.ulock id =
      { s.ulock id with stable := b } := by
    subst hNext
    exact setUlock_self _
  have hOther : ∀ j, j ≠ id → s'.ulock j = s.ulock j := by
    subst hNext
    exact fun j hj => setUlock_other _ hj
  have hView : ∀ u, SameView s s' u := by
    intro u
    refine sameView_of id ?_ ?_ hOther ?_ ?_ ?_ ?_
    · subst hNext
      rfl
    · subst hNext
      rfl
    · rw [hIs]
    · rw [hIs]
    · rw [hIs]
    · subst hNext
      exact fun _ => rfl
  have hLists : s'.heldUlocks = s.heldUlocks ∧
      s'.handoffUlocks = s.handoffUlocks := by
    subst hNext
    exact ⟨rfl, rfl⟩
  refine ⟨?_, ?_, ?_, ?_, ?_, ?_⟩
  · apply ulockOk_of id h.ulock hOther
    · exact fun _ _ => by rw [hLists.1]
    · exact fun _ _ => by rw [hLists.2]
    · constructor
      · rw [hIs]
        exact (h.ulock id).held
      · rw [hIs, hLists.1]
        exact (h.ulock id).onHeld
      · rw [hIs, hLists.2]
        exact (h.ulock id).onHandoff
      · rw [hIs]
        exact (h.ulock id).count
      · rw [hIs]
        exact (h.ulock id).nodup
  · rw [hLists.1]
    exact h.heldNodup
  · rw [hLists.2]
    exact h.handoffNodup
  · intro u
    exact (h.thread u).frame (hView u)
  · intro p op j x r hp
    rw [(hView p).phase] at hp
    rw [(hView p).owner]
    rcases h.completing p op j x r hp with
      ⟨hOwner, hGrant, hTarget⟩
    exact ⟨hOwner, hGrant, (hView x).target hTarget⟩
  · intro p p' x hp hp'
    rw [(hView p).phase] at hp
    rw [(hView p').phase] at hp'
    exact h.unique p p' x hp hp'

end Handoff

------
-- After the Sections
------

section After

variable {s s' : LockSet τ} {t w : τ} {id : Nat} {op : LockOp}
variable {st st' : LockStage} {r : LockReturn}

/- A thread that goes on with its wait. -/
theorem LockInv.stage
    (h : LockInv s)
    (hPhase : s.phase t = .waiting op id st)
    (hPending : st'.pending = true)
    (hLinked : Registered s t op id → op ≠ .acquire →
      st'.fresh = false → s.linked t = true)
    (hFresh : ¬ Registered s t op id → st'.fresh = true) :
    LockInv (s.setPhase t (.waiting op id st')) := by
  generalize hNext : s.setPhase t (.waiting op id st') = s'
  have hOk := h.thread t
  have hStep : StepAt s s' t id := by
    subst hNext
    exact ⟨fun _ _ => rfl, fun u hu => setPhase_other _ hu,
      fun _ _ => rfl, fun _ _ _ => rfl, fun _ _ => Iff.rfl,
      fun _ _ => Iff.rfl, h.heldNodup, h.handoffNodup⟩
  have hUlocks : s'.ulock = s.ulock := by
    subst hNext
    rfl
  have hNow : s'.phase t = .waiting op id st' := by
    subst hNext
    exact setPhase_self _
  have hSame : s'.linked = s.linked ∧ s'.calls = s.calls ∧
      s'.heldUlocks = s.heldUlocks ∧
      s'.handoffUlocks = s.handoffUlocks := by
    subst hNext
    exact ⟨rfl, rfl, rfl, rfl⟩
  have hReg : ∀ o j, Registered s' t o j ↔
      Registered s t o j := by
    intro o j
    unfold Registered
    rw [hUlocks]
  apply hStep.inv h
  · intro u hu
    constructor
    · rw [hUlocks]
    · rw [hUlocks]
    · rw [hUlocks]
  · have hUlock := h.ulock id
    constructor
    · rw [hUlocks]
      exact hUlock.held
    · rw [hUlocks, hSame.2.2.1]
      exact hUlock.onHeld
    · rw [hUlocks, hSame.2.2.2]
      exact hUlock.onHandoff
    · rw [hUlocks]
      exact hUlock.count
    · rw [hUlocks]
      exact hUlock.nodup
  · constructor
    · intro j hMem
      rw [hUlocks] at hMem
      rcases hOk.queued j hMem with ⟨hLink, st₀, hAt, _⟩
      rw [hPhase] at hAt
      cases hAt
      rw [hSame.1]
      exact ⟨hLink, st', hNow, hPending⟩
    · intro j hHo
      rw [hUlocks] at hHo ⊢
      rcases hOk.handing j hHo with
        ⟨op₀, st₀, hAt, _, _, hSide⟩
      rw [hPhase] at hAt
      cases hAt
      refine ⟨op, st', hNow, hPending, ?_, hSide⟩
      have hNot : op ≠ .acquire := by
        rcases hSide with ⟨rfl, _⟩ | ⟨rfl, _⟩
        · decide
        · decide
      rw [hSame.1]
      apply hLinked ?_ hNot
      unfold Registered
      rw [if_neg hNot]
      exact hHo
    · intro op₀ j st₀ hAt
      rw [hNow] at hAt
      cases hAt
      rw [hReg]
      by_cases hRegistered : Registered s t op id
      · exact Or.inl hRegistered
      · right
        have hBefore :=
          (hOk.waiting op id st hPhase).resolve_left
            hRegistered
        refine ⟨?_, Or.inl (hFresh hRegistered)⟩
        rw [hUlocks]
        exact hBefore.1
    · intro j hHolds
      rw [hSame.2.1] at hHolds
      rw [hUlocks]
      rcases hOk.holds j hHolds with hOwner |
        ⟨st₀, hAt, hHo⟩ | ⟨op₀, x, r, hAt, _⟩
      · exact Or.inl hOwner
      · rw [hPhase] at hAt
        cases hAt
        refine Or.inr (Or.inl ⟨st', hNow, ?_⟩)
        rw [hUlocks]
        exact hHo
      · rw [hPhase] at hAt
        cases hAt
  · rw [hNow]
    rfl
  · rintro j ⟨op₀, st₀, hAt, _, hNot⟩
    rw [hPhase] at hAt
    cases hAt
    refine ⟨op, st', hNow, hFresh hNot, ?_⟩
    rw [hReg]
    exact hNot

end After

section Return

variable {s s' : LockSet τ} {t w : τ} {id : Nat} {op : LockOp}
variable {st : LockStage} {r : LockReturn}

/- A thread that waits at a ulock and is not registered. -/
theorem ThreadOk.unregistered
    (h : ThreadOk s t)
    (hPhase : s.phase t = .waiting op id st)
    (hNot : ¬ Registered s t op id)
    (j : Nat) :
    t ∉ (s.ulock j).blockedThreads ∧
      (s.ulock j).hoThread ≠ some t := by
  constructor
  · intro hMem
    rcases (h.queued j hMem).2 with ⟨st', hAt, _⟩
    rw [hPhase] at hAt
    cases hAt
    exact hNot hMem
  · intro hHo
    rcases h.handing j hHo with ⟨op', st', hAt, _, _, hSide⟩
    rw [hPhase] at hAt
    cases hAt
    apply hNot
    rcases hSide with ⟨rfl, _⟩ | ⟨rfl, _⟩
    · exact hHo
    · exact hHo

variable (h : LockInv s)
include h

/- A wait whose operation was done returns what it was told. -/
theorem LockInv.return
    (hPhase : s.phase t = .waiting op id (.woken r))
    (hNot : ¬ Registered s t op id)
    (hGrant : r.isGrant = true) :
    LockInv (s.finish t id op r) := by
  have hOk := h.thread t
  have hDone :=
    (hOk.waiting op id _ hPhase).resolve_left hNot
  have hAway := hOk.unregistered hPhase hNot
  apply h.alone (t := t)
  · intro u hu
    refine sameView_of id ?_ rfl (fun _ _ => rfl)
      Iff.rfl Iff.rfl Iff.rfl ?_
    · exact setPhase_other (s := s) _ hu
    · exact fun j => holdsOf_other hu j
  · intro j
    exact ⟨(h.ulock j).held, (h.ulock j).onHeld,
      (h.ulock j).onHandoff, (h.ulock j).count,
      (h.ulock j).nodup⟩
  · exact h.heldNodup
  · exact h.handoffNodup
  · apply Outside.ok
    refine ⟨setPhase_self (s := s) _, fun j => (hAway j).1,
      fun j => (hAway j).2, ?_⟩
    intro j hHolds
    rcases holdsOf_granted hGrant hHolds with
      ⟨hEq, hOp⟩ | ⟨hEq, hBefore⟩
    · rw [hEq]
      apply hDone.1
      intro hIs
      rw [hIs] at hOp
      cases hOp
    · exact (hOk.elsewhere hPhase hEq).2.2 hBefore
  · show (update s.phase t .outside t).target = none
    rw [update_self]
    rfl
  · rintro j ⟨op', st', hAt, hFresh, _⟩
    rw [hPhase] at hAt
    cases hAt
    cases hFresh

theorem lockTest_inv
    (hPhase : s.phase t = .waiting op id (.woken r)) :
    LockInv (lockTest s t op id r) := by
  have hOk := h.thread t
  unfold lockTest
  split_ifs with hLinked
  · have hRegistered : Registered s t op id := by
      rcases hOk.waiting op id _ hPhase with hIs |
        ⟨_, hFresh | ⟨_, _, _, hOff⟩⟩
      · exact hIs
      · cases hFresh
      · rw [hOff] at hLinked
        cases hLinked
    apply h.stage hPhase rfl
    · exact fun _ _ _ => hLinked
    · exact fun hNot => absurd hRegistered hNot
  · have hNot : ¬ Registered s t op id := by
      intro hRegistered
      unfold Registered at hRegistered
      split_ifs at hRegistered
      · exact hLinked (hOk.queued id hRegistered).1
      · rcases hOk.handing id hRegistered with
          ⟨op', st, hAt, _, hLink, _⟩
        rw [hPhase] at hAt
        cases hAt
        exact hLinked (hLink rfl)
    rcases (hOk.waiting op id _ hPhase).resolve_left hNot with
      ⟨_, hFresh | ⟨r', hEq, hGrant, _⟩⟩
    · cases hFresh
    · cases hEq
      exact h.return hPhase hNot hGrant

/- A call that takes back what it did and fails. -/
theorem LockInv.undone
    (hStep : StepAt s s' t id)
    (hPhase : s.phase t = .waiting op id .undoing)
    (hRegistered : Registered s t op id)
    (hNow : s'.phase t = .outside)
    (hCalls : s'.calls = ⟨t, id, op, .aborted⟩ :: s.calls)
    (hAt : ∀ u, u ≠ t → SameAt s s' u id)
    (hUlock : UlockOk s' id)
    (hQueue : t ∉ (s'.ulock id).blockedThreads)
    (hHandoff : (s'.ulock id).hoThread ≠ some t)
    (hOwner : (s'.ulock id).owner = (s.ulock id).owner) :
    LockInv s' := by
  have hOk := h.thread t
  apply hStep.inv h hAt hUlock
  · apply stays_outside hNow
    · intro j hNe
      rw [hStep.ulock j hNe]
      exact hOk.elsewhere hPhase hNe
    · exact ⟨hQueue, hHandoff⟩
    · intro j hHolds
      rw [hCalls, holdsOf_failed rfl] at hHolds
      by_cases hEq : j = id
      · subst hEq
        rw [hOwner]
        rcases hOk.holds j hHolds with hIs |
          ⟨st', hAt, hHo⟩ | ⟨op', x, r, hAt, _⟩
        · exact Or.inl ⟨rfl, hIs⟩
        · rw [hPhase] at hAt
          cases hAt
          exact absurd hRegistered hHo
        · rw [hPhase] at hAt
          cases hAt
      · exact Or.inr ⟨hEq, hHolds⟩
  · rw [hNow]
    rfl
  · rintro j ⟨op', st', hAt, hFresh, _⟩
    rw [hPhase] at hAt
    cases hAt
    cases hFresh

theorem lockUndo_inv
    (hActive : s.active = true)
    (hPhase : s.phase t = .waiting op id .undoing)
    (hRun : lockUndo s t op id = some s') :
    LockInv s' := by
  have hOk := h.thread t
  have hUlock := h.ulock id
  have hRegistered : Registered s t op id := by
    rcases hOk.waiting op id _ hPhase with hIs |
      ⟨_, hFresh | ⟨_, hEq, _⟩⟩
    · exact hIs
    · cases hFresh
    · cases hEq
  unfold lockUndo at hRun
  by_cases hOp : op = .acquire
  · subst hOp
    have hMem : t ∈ (s.ulock id).blockedThreads :=
      hRegistered
    have hNotHanding : (s.ulock id).hoThread ≠ some t := by
      intro hHo
      rcases hOk.handing id hHo with
        ⟨op', st, hAt, _, _, ⟨rfl, _⟩ | ⟨rfl, _⟩⟩
      · rw [hPhase] at hAt
        cases hAt
      · rw [hPhase] at hAt
        cases hAt
    have hLength := List.length_erase_of_mem hMem
    have hPos := List.length_pos_of_mem hMem
    rw [if_pos rfl, if_pos hMem, Option.some.injEq] at hRun
    have hStep := writes_of hRun (fun _ _ => rfl)
      (fun u hu => holdsOf_other (e := ⟨t, id, .acquire, _⟩) hu) (.refl h.heldNodup)
      (.refl h.handoffNodup)
    apply h.undone hStep.toStepAt hPhase hRegistered hStep.now
      hStep.callsIs
    · exact fun u hu => hStep.sameAt (List.mem_erase_of_ne hu)
        Iff.rfl Iff.rfl
    · refine hStep.ulockOk hUlock.held hUlock.onHeld
        hUlock.onHandoff ?_ (hUlock.nodup.erase t)
      dsimp only
      rw [hLength, hUlock.count]
      omega
    · rw [hStep.ulockIs]
      exact hUlock.nodup.not_mem_erase
    · rw [hStep.ulockIs]
      exact hNotHanding
    · rw [hStep.ulockIs]
  · have hHo : (s.ulock id).hoThread = some t := by
      unfold Registered at hRegistered
      rw [if_neg hOp] at hRegistered
      exact hRegistered
    have hOn : id ∈ s.handoffUlocks := by
      rw [hUlock.onHandoff, hHo]
      exact Option.some_ne_none t
    have hNotQueued : t ∉ (s.ulock id).blockedThreads := by
      intro hMem
      rcases (hOk.queued id hMem).2 with ⟨st, hAt, _⟩
      rw [hPhase] at hAt
      cases hAt
      exact hOp rfl
    rw [if_neg hOp, hActive, if_neg (by decide), if_pos hOn,
      Option.some.injEq] at hRun
    have hStep := writes_of hRun (fun _ _ => rfl)
      (fun u hu => holdsOf_other (e := ⟨t, id, op, _⟩) hu) (.refl h.heldNodup)
      (.erase h.handoffNodup)
    apply h.undone hStep.toStepAt hPhase hRegistered hStep.now
      hStep.callsIs
    · intro u hu
      refine hStep.sameAt Iff.rfl ?_ Iff.rfl
      rw [hHo]
      exact ⟨fun hEq => (nomatch hEq), fun hEq =>
        absurd (Option.some.inj hEq).symm hu⟩
    · exact hStep.ulockOk hUlock.held hUlock.onHeld
        ⟨fun hMem => absurd hMem h.handoffNodup.not_mem_erase,
          fun hAbsurd => absurd rfl hAbsurd⟩
        hUlock.count hUlock.nodup
    · rw [hStep.ulockIs]
      exact hNotQueued
    · rw [hStep.ulockIs]
      exact (Option.some_ne_none t).symm
    · rw [hStep.ulockIs]

end Return

end Kern

end OsfMach
