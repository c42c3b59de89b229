import OsfMach.Kern.LockSetSteps

/-
  Whole runs of a lock set.

  A ulock has one holder at most in every run in which no
  thread is woken both by an abort and by the thread that did
  its operation, and the owner does not accept its own ulock.

  Key theorems include:
    * `lockComplete_inv`
    * `lockSetStep_inv`
    * `lockSet_exclusion`
-/

------
-- Waking a Thread Up
------

namespace OsfMach

namespace Kern

open Function
open Lib

variable {τ : Type} [DecidableEq τ]

section Complete

variable {s s' : LockSet τ} {t w : τ} {id : Nat}
variable {op op' : LockOp} {st : LockStage} {r : LockReturn}

/- The stage of a thread after a `clear_wait`. -/
def LockStage.wake (st : LockStage) (r : LockReturn) : LockStage :=
  match st with
  | .blocked => .woken r
  | _ => st

theorem complete_phase
    (hPhase : s.phase w = .waiting op' id st) :
    (s.complete w r).phase w =
      .waiting op' id (st.wake r) := by
  unfold LockSet.complete
  dsimp only
  rw [hPhase]
  cases st with
  | blocked => exact update_self ..
  | entering | woken r' | undoing => exact hPhase

theorem complete_other
    {u : τ}
    (hNe : u ≠ w) :
    (s.complete w r).phase u = s.phase u ∧
      (s.complete w r).linked u = s.linked u := by
  unfold LockSet.complete
  dsimp only
  split
  · exact ⟨update_of_ne hNe ..,
      update_of_ne hNe ..⟩
  · exact ⟨rfl, update_of_ne hNe ..⟩

theorem complete_linked :
    (s.complete w r).linked w = false := by
  unfold LockSet.complete
  dsimp only
  split
  · exact update_self ..
  · exact update_self ..

theorem complete_rest :
    (s.complete w r).active = s.active ∧
      (s.complete w r).ulock = s.ulock ∧
      (s.complete w r).heldUlocks = s.heldUlocks ∧
      (s.complete w r).handoffUlocks = s.handoffUlocks ∧
      (s.complete w r).calls = s.calls := by
  unfold LockSet.complete
  dsimp only
  split
  · exact ⟨rfl, rfl, rfl, rfl, rfl⟩
  · exact ⟨rfl, rfl, rfl, rfl, rfl⟩

/- The thread that is woken up. -/
theorem ThreadOk.woken
    (h : ThreadOk s w)
    (hPhase : s.phase w = .waiting op' id st)
    (hFresh : st.fresh = true)
    (hNot : ¬ Registered s w op' id)
    (hGrant : r.isGrant = true)
    (hUlocks : s'.ulock = s.ulock)
    (hNow : s'.phase w = .waiting op' id (st.wake r))
    (hLinked : s'.linked w = false)
    (hCalls :
      ∀ j, holdsOf w j s'.calls = holdsOf w j s.calls) :
    ThreadOk s' w := by
  have hAway := h.unregistered hPhase hNot
  constructor
  · intro j hMem
    rw [hUlocks] at hMem
    exact absurd hMem (hAway j).1
  · intro j hHo
    rw [hUlocks] at hHo
    exact absurd hHo (hAway j).2
  · intro op₀ j st₀ hAt
    rw [hNow] at hAt
    cases hAt
    right
    have hBefore :=
      (h.waiting op' id st hPhase).resolve_left hNot
    refine ⟨?_, ?_⟩
    · rw [hUlocks]
      exact hBefore.1
    · cases st with
      | entering => exact Or.inl rfl
      | blocked => exact Or.inr ⟨r, rfl, hGrant, hLinked⟩
      | woken r' => cases hFresh
      | undoing => cases hFresh
  · intro j hHolds
    rw [hCalls] at hHolds
    rw [hUlocks]
    rcases h.holds j hHolds with hOwner |
      ⟨st₀, hAt, hHo⟩ | ⟨op₀, x, r₀, hAt, _⟩
    · exact Or.inl hOwner
    · rw [hPhase] at hAt
      cases hAt
      refine Or.inr (Or.inl ⟨_, hNow, ?_⟩)
      rw [hUlocks]
      exact hHo
    · rw [hPhase] at hAt
      cases hAt

/- The thread that has woken another one up returns. -/
theorem ThreadOk.completed
    (h : ThreadOk s t)
    (hPhase : s.phase t = .completing op id w r)
    (hOwner :
      op.acquires = true → (s.ulock id).owner = some t)
    (hUlocks : s'.ulock = s.ulock)
    (hNow : s'.phase t = .outside)
    {r' : LockReturn}
    (hGrant : r'.isGrant = true)
    (hCalls : s'.calls = ⟨t, id, op, r'⟩ :: s.calls) :
    ThreadOk s' t := by
  apply Outside.ok
  refine ⟨hNow, ?_, ?_, ?_⟩
  · intro j hMem
    rw [hUlocks] at hMem
    rcases (h.queued j hMem).2 with ⟨st, hAt, _⟩
    rw [hPhase] at hAt
    cases hAt
  · intro j hHo
    rw [hUlocks] at hHo
    rcases h.handing j hHo with ⟨op₀, st, hAt, _⟩
    rw [hPhase] at hAt
    cases hAt
  · intro j hHolds
    rw [hUlocks]
    rw [hCalls] at hHolds
    rcases holdsOf_granted hGrant hHolds with
      ⟨rfl, hOp⟩ | ⟨hEq, hBefore⟩
    · exact hOwner hOp
    · rcases h.holds j hBefore with hIs |
        ⟨st, hAt, _⟩ | ⟨op₀, x, r₀, hAt, _⟩
      · exact hIs
      · rw [hPhase] at hAt
        cases hAt
      · rw [hPhase] at hAt
        cases hAt
        exact absurd rfl hEq

theorem lockComplete_inv
    (h : LockInv s)
    (hPhase : s.phase t = .completing op id w r) :
    LockInv (lockComplete s t op id w r) := by
  rcases h.completing t op id w r hPhase with
    ⟨hOwner, hGrant, op', st, hw, hFresh, hNot⟩
  have hNe : w ≠ t := by
    intro hEq
    rw [hEq, hPhase] at hw
    cases hw
  have hReturn :
      (if op = .accept then (s.ulock id).grant
        else LockReturn.success).isGrant = true := by
    split_ifs
    · exact grant_isGrant _
    · rfl
  rcases @complete_rest τ _ s w r with
    ⟨_, hUlock, hHeld, hHandoff, hCalls⟩
  generalize hNext : lockComplete s t op id w r = s'
  have hUlocks : s'.ulock = s.ulock := by
    subst hNext
    exact hUlock
  have hNow : s'.phase t = .outside := by
    subst hNext
    exact setPhase_self (s := s.complete w r) _
  have hOthers : ∀ u, u ≠ t →
      s'.phase u = (s.complete w r).phase u := by
    subst hNext
    exact fun u hu => setPhase_other _ hu
  have hLinked : s'.linked = (s.complete w r).linked := by
    subst hNext
    rfl
  have hCalls' : s'.calls =
      ⟨t, id, op, if op = .accept then (s.ulock id).grant
        else .success⟩ :: s.calls := by
    subst hNext
    rw [← hCalls]
    rfl
  have hLists : s'.heldUlocks = s.heldUlocks ∧
      s'.handoffUlocks = s.handoffUlocks := by
    subst hNext
    exact ⟨hHeld, hHandoff⟩
  have hNowW : s'.phase w = .waiting op' id (st.wake r) := by
    rw [hOthers w hNe]
    exact complete_phase hw
  have hSame : ∀ u, u ≠ t → u ≠ w → SameView s s' u := by
    intro u hut huw
    refine sameView_of id ?_ ?_ ?_ ?_ ?_ ?_ ?_
    · rw [hOthers u hut]
      exact (complete_other huw).1
    · rw [hLinked]
      exact (complete_other huw).2
    · intro j _
      rw [hUlocks]
    · rw [hUlocks]
    · rw [hUlocks]
    · rw [hUlocks]
    · intro j
      rw [hCalls']
      exact holdsOf_other hut j
  have hTargets : ∀ p x, (s'.phase p).target = some x →
      (s.phase p).target = some x := by
    intro p x hx
    by_cases hpt : p = t
    · rw [hpt, hNow] at hx
      cases hx
    by_cases hpw : p = w
    · rw [hpw, hNowW] at hx
      cases hx
    · rw [(hSame p hpt hpw).phase] at hx
      exact hx
  apply h.changed (t := t) (w := w) hSame
  · intro j
    have hj := h.ulock j
    constructor
    · rw [hUlocks]
      exact hj.held
    · rw [hUlocks, hLists.1]
      exact hj.onHeld
    · rw [hUlocks, hLists.2]
      exact hj.onHandoff
    · rw [hUlocks]
      exact hj.count
    · rw [hUlocks]
      exact hj.nodup
  · rw [hLists.1]
    exact h.heldNodup
  · rw [hLists.2]
    exact h.handoffNodup
  · exact (h.thread t).completed hPhase hOwner hUlocks hNow
      hReturn hCalls'
  · apply (h.thread w).woken hw hFresh hNot hGrant hUlocks
      hNowW
    · rw [hLinked]
      exact complete_linked
    · intro j
      rw [hCalls']
      exact holdsOf_other hNe j
  · constructor
    · apply completingOk_of_target
      rw [hNow]
      rfl
    · apply completingOk_of_target
      rw [hNowW]
      rfl
  · intro p j x opx rx hpt hpw hp hx
    rcases hx with rfl | rfl
    · rcases (h.completing p opx j x rx hp).2.2 with
        ⟨_, _, hAt, _⟩
      rw [hPhase] at hAt
      cases hAt
    · exfalso
      apply hpt
      apply h.unique p t x
      · rw [hp]
        rfl
      · rw [hPhase]
        rfl
  · intro p p' x hp hp'
    exact h.unique p p' x (hTargets p x hp)
      (hTargets p' x hp')

end Complete

------
-- Runs
------

section Runs

variable {c : LockConfig τ} {s s' : LockSet τ} {t : τ}

theorem withUlock_active
    {id : Nat}
    {op : LockOp}
    {f : Ulock τ → LockSet τ}
    (hf : (f (s.ulock id)).active = s.active) :
    (withUlock c s t id op f).active = s.active := by
  unfold withUlock
  split_ifs
  · rfl
  · rfl
  · exact hf

omit [DecidableEq τ] in
theorem call_some
    {s₁ : LockSet τ}
    (h : s.call t s₁ = some s') :
    s.phase t = .outside ∧ s₁ = s' := by
  unfold LockSet.call at h
  split at h
  · rename_i hPhase
    cases h
    exact ⟨hPhase, rfl⟩
  · cases h

theorem foldl_complete_active
    (l : List τ)
    (r : LockReturn) :
    (l.foldl (fun s t => s.complete t r) s).active =
      s.active := by
  induction l generalizing s with
  | nil => rfl
  | cons u l ih =>
      rw [List.foldl_cons, ih]
      exact complete_rest.1

theorem foldl_destroyHeld_active
    (l : List Nat) :
    (l.foldl destroyHeld s).active = s.active := by
  induction l generalizing s with
  | nil => rfl
  | cons id l ih =>
      rw [List.foldl_cons, ih]
      exact foldl_complete_active _ _

theorem foldlM_destroyHandoff_active
    {l : List Nat}
    (h : l.foldlM destroyHandoff s = some s') :
    s'.active = s.active := by
  induction l generalizing s with
  | nil =>
      cases h
      rfl
  | cons id l ih =>
      rcases Option.bind_eq_some_iff.mp h with
        ⟨s₁, hOne, hRest⟩
      rcases Option.map_eq_some_iff.mp hOne with ⟨u, _, rfl⟩
      rw [ih hRest]
      exact complete_rest.1

/- A set that was destroyed stays so. -/
theorem lockSetDestroy_inactive
    (h : lockSetDestroy s = some s') :
    s'.active = false := by
  unfold lockSetDestroy at h
  split_ifs at h with hActive
  · rcases Option.bind_eq_some_iff.mp h with ⟨s₁, hRun, hEnd⟩
    cases hEnd
    have hSame := foldlM_destroyHandoff_active hRun
    rw [foldl_destroyHeld_active] at hSame
    exact hSame
  · cases h
    exact (Bool.not_eq_true _).mp hActive

theorem lockSetStep_active
    {a : LockAction τ}
    (hStep : lockSetStep c s a = some s')
    (hActive : s'.active = true) :
    s.active = true := by
  cases a with
  | acquire t id =>
      rcases call_some hStep with ⟨_, rfl⟩
      rw [← hActive]
      symm
      apply withUlock_active
      split_ifs
      · rfl
      · rfl
  | tryAcquire t id =>
      rcases call_some hStep with ⟨_, rfl⟩
      rw [← hActive]
      symm
      apply withUlock_active
      split_ifs
      · rfl
      · rfl
      · rfl
  | release t id | handoff t id =>
      rcases call_some hStep with ⟨_, rfl⟩
      rw [← hActive]
      symm
      apply withUlock_active
      split_ifs
      · rfl
      · split
        · rfl
        · rfl
  | accept t id =>
      rcases call_some hStep with ⟨_, rfl⟩
      rw [← hActive]
      symm
      apply withUlock_active
      split
      · split_ifs
        · rfl
        · rfl
      · rfl
  | makeStable t id =>
      rcases call_some hStep with ⟨_, rfl⟩
      unfold lockMakeStable at hActive
      dsimp only at hActive
      split_ifs at hActive
      · exact hActive
      · exact hActive
  | makeUnstable t id =>
      cases hStep
      unfold lockMakeUnstable at hActive
      dsimp only at hActive
      split_ifs at hActive
      · exact hActive
      · exact hActive
  | complete t =>
      unfold lockSetStep at hStep
      dsimp only at hStep
      split at hStep
      · cases hStep
        rw [← hActive]
        exact complete_rest.1.symm
      · cases hStep
  | block t | abort t =>
      unfold lockSetStep at hStep
      dsimp only at hStep
      split at hStep
      · cases hStep
        exact hActive
      · cases hStep
  | test t =>
      unfold lockSetStep at hStep
      dsimp only at hStep
      split at hStep
      · cases hStep
        unfold lockTest at hActive
        split_ifs at hActive
        · exact hActive
        · exact hActive
      · cases hStep
  | undo t =>
      unfold lockSetStep at hStep
      dsimp only at hStep
      split at hStep
      · unfold lockUndo at hStep
        dsimp only at hStep
        split_ifs at hStep
        · cases hStep
          exact hActive
        · cases hStep
          exact hActive
        · cases hStep
          exact hActive
      · cases hStep
  | destroy =>
      rw [lockSetDestroy_inactive hStep] at hActive
      cases hActive

theorem lockSetStep_inv
    (c : LockConfig τ)
    (s : LockSet τ)
    (a : LockAction τ)
    (s' : LockSet τ)
    (h : s.active = true → LockInv s)
    (hOrderly : LockOrderly s a)
    (hStep : lockSetStep c s a = some s')
    (hAfter : s'.active = true) :
    LockInv s' := by
  have hActive := lockSetStep_active hStep hAfter
  have hInv := h hActive
  cases a with
  | acquire t id =>
      rcases call_some hStep with ⟨hPhase, rfl⟩
      exact lockAcquire_inv hInv hPhase
  | tryAcquire t id =>
      rcases call_some hStep with ⟨hPhase, rfl⟩
      exact lockTry_inv hInv hPhase
  | release t id =>
      rcases call_some hStep with ⟨hPhase, rfl⟩
      exact lockRelease_inv hInv hPhase hOrderly
  | handoff t id =>
      rcases call_some hStep with ⟨hPhase, rfl⟩
      exact lockHandoff_inv hInv hPhase hOrderly
  | accept t id =>
      rcases call_some hStep with ⟨hPhase, rfl⟩
      exact lockHandoffAccept_inv hInv hPhase hOrderly
  | makeStable t id =>
      rcases call_some hStep with ⟨_, rfl⟩
      unfold lockMakeStable
      dsimp only
      split_ifs
      · exact hInv.mark true
      · exact hInv
  | makeUnstable t id =>
      cases hStep
      unfold lockMakeUnstable
      dsimp only
      split_ifs
      · exact hInv.mark false
      · exact hInv
  | complete t =>
      unfold lockSetStep at hStep
      dsimp only at hStep
      split at hStep
      · rename_i op id w r hPhase
        cases hStep
        exact lockComplete_inv hInv hPhase
      · cases hStep
  | block t =>
      unfold lockSetStep at hStep
      dsimp only at hStep
      split at hStep
      · rename_i op id hPhase
        cases hStep
        apply hInv.stage hPhase rfl
        · intro _ _ hAbsurd
          cases hAbsurd
        · exact fun _ => rfl
      · cases hStep
  | abort t =>
      unfold lockSetStep at hStep
      dsimp only at hStep
      split at hStep
      · rename_i op id hPhase
        cases hStep
        rcases hOrderly op id hActive hPhase with
          ⟨hRegistered, hLinked⟩
        apply hInv.stage hPhase rfl
        · exact fun _ hOp _ => hLinked hOp
        · exact fun hNot => absurd hRegistered hNot
      · cases hStep
  | test t =>
      unfold lockSetStep at hStep
      dsimp only at hStep
      split at hStep
      · rename_i op id r hPhase
        cases hStep
        exact lockTest_inv hInv hPhase
      · cases hStep
  | undo t =>
      unfold lockSetStep at hStep
      dsimp only at hStep
      split at hStep
      · rename_i op id hPhase
        exact lockUndo_inv hInv hActive hPhase hStep
      · cases hStep
  | destroy =>
      rw [lockSetDestroy_inactive hStep] at hAfter
      cases hAfter

theorem lockSetCreate_inv
    (linked : τ → Bool) :
    LockInv (lockSetCreate linked) := by
  refine ⟨?_, List.nodup_nil, List.nodup_nil, ?_, ?_, ?_⟩
  · intro id
    refine ⟨?_, ?_, ?_, rfl, List.nodup_nil⟩
    all_goals
      constructor
      · intro hAbsurd
        cases hAbsurd
      · intro hAbsurd
        exact absurd rfl hAbsurd
  · intro t
    apply Outside.ok
    refine ⟨rfl, fun _ => List.not_mem_nil, ?_, ?_⟩
    · intro id hAbsurd
      cases hAbsurd
    · intro id hAbsurd
      cases hAbsurd
  · intro p op id w r hAbsurd
    cases hAbsurd
  · intro p p' w hAbsurd
    cases hAbsurd

/- A thread that holds a ulock is the owner of it. -/
theorem LockInv.owner_of_holder
    {id : Nat}
    (h : LockInv s)
    (hHolder : Holder s t id) :
    (s.ulock id).owner = some t := by
  rcases hHolder with ⟨_, hHolds, hNot⟩
  rcases (h.thread t).holds id hHolds with hOwner |
    ⟨st, hPhase, _⟩ | hCompleting
  · exact hOwner
  · exact absurd (Or.inl ⟨st, hPhase⟩) hNot
  · exact absurd (Or.inr hCompleting) hNot

/-
  What holds in every state of a run whose steps are orderly:
  a ulock has one holder at most, which is its owner, and
  while the set is active the fields of a ulock agree with
  the queues it is in.
-/
theorem lockSet_exclusion
    (c : LockConfig τ)
    (linked : τ → Bool)
    {as : List (LockAction τ)}
    {s : LockSet τ}
    (hMeets :
      Runs.Meets (lockSetStep c) LockOrderly
        (lockSetCreate linked) as)
    (hExec :
      Runs.exec (lockSetStep c) (lockSetCreate linked) as =
        some s) :
    (∀ t u id, Holder s t id → Holder s u id → t = u) ∧
    (∀ t id, Holder s t id → (s.ulock id).owner = some t) ∧
    (s.active = true → ∀ id,
      ((s.ulock id).held = true ↔
        (s.ulock id).owner ≠ none) ∧
      ((s.ulock id).held = true ↔ id ∈ s.heldUlocks) ∧
      (id ∈ s.handoffUlocks ↔
        (s.ulock id).hoThread ≠ none) ∧
      (s.ulock id).blockedCount =
        (s.ulock id).blockedThreads.length) := by
  have hInv : s.active = true → LockInv s :=
    Runs.exec_invariant
      (P := fun s => s.active = true → LockInv s)
      (lockSetStep_inv c)
      (fun _ => lockSetCreate_inv linked) hMeets hExec
  have hOwner : ∀ t id, Holder s t id →
      (s.ulock id).owner = some t :=
    fun t id hHolder =>
      (hInv hHolder.1).owner_of_holder hHolder
  refine ⟨?_, hOwner, ?_⟩
  · intro t u id ht hu
    have hEq := hOwner t id ht
    rw [hOwner u id hu] at hEq
    exact (Option.some.inj hEq).symm
  · intro hActive id
    have hUlock := (hInv hActive).ulock id
    exact ⟨hUlock.held, hUlock.held.trans hUlock.onHeld.symm,
      hUlock.onHandoff, hUlock.count⟩

/- Two ulocks, and threads in the order in which they wait. -/
def pairConfig : LockConfig Nat :=
  { policy := .fifo, priority := fun _ => 0, nUlocks := 2 }

/- One thread waits for another one, which releases. -/
theorem lockSet_exclusion_release :
    ∃ s, Runs.exec (lockSetStep pairConfig)
        (lockSetCreate fun _ => false)
        [.acquire 1 0, .acquire 2 0, .block 2, .release 1 0,
          .complete 1, .test 2] = some s ∧
      Holder s 2 0 ∧
      (s.ulock 0).owner = some 2 := by
  have hMeets : Runs.Meets (lockSetStep pairConfig)
      LockOrderly (lockSetCreate fun _ => false)
      [.acquire 1 0, .acquire 2 0, .block 2, .release 1 0,
        .complete 1, .test 2] := by
    refine ⟨trivial, fun s hs => ?_⟩
    cases hs
    refine ⟨trivial, fun s hs => ?_⟩
    cases hs
    refine ⟨trivial, fun s hs => ?_⟩
    cases hs
    refine ⟨?_, fun s hs => ?_⟩
    · intro _ _ w hw
      cases hw
      rfl
    cases hs
    refine ⟨trivial, fun s hs => ?_⟩
    cases hs
    exact ⟨trivial, fun s hs => trivial⟩
  have hAll := lockSet_exclusion pairConfig (fun _ => false)
    hMeets rfl
  have hHolder : ∀ s, Runs.exec (lockSetStep pairConfig)
      (lockSetCreate fun _ => false)
      [.acquire 1 0, .acquire 2 0, .block 2, .release 1 0,
        .complete 1, .test 2] = some s → Holder s 2 0 := by
    intro s hs
    cases hs
    refine ⟨rfl, rfl, ?_⟩
    rintro (⟨_, hAbsurd⟩ | ⟨_, _, _, hAbsurd, _⟩)
    · cases hAbsurd
    · cases hAbsurd
  exact ⟨_, rfl, hHolder _ rfl, hAll.2.1 2 0 (hHolder _ rfl)⟩

/-
  The owner accepts a hand-off of its own ulock. Another
  thread takes it for one that hands the ulock off, and both
  are told that they have it.
-/
theorem lockSet_two_holders :
    ∃ s, Runs.exec (lockSetStep pairConfig)
        (lockSetCreate fun _ => false)
        [.acquire 1 0, .accept 1 0, .block 1, .accept 2 0,
          .complete 2, .test 1] = some s ∧
      Holder s 1 0 ∧ Holder s 2 0 ∧
      (s.ulock 0).owner = some 2 := by
  refine ⟨_, rfl, ⟨rfl, rfl, ?_⟩, ⟨rfl, rfl, ?_⟩, rfl⟩
  · rintro (⟨_, hAbsurd⟩ | ⟨_, _, _, hAbsurd, _⟩)
    · cases hAbsurd
    · cases hAbsurd
  · rintro (⟨_, hAbsurd⟩ | ⟨_, _, _, hAbsurd, _⟩)
    · cases hAbsurd
    · cases hAbsurd

end Runs

end Kern

end OsfMach
