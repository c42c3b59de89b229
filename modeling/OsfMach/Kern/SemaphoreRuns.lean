import OsfMach.Kern.Semaphore

/-
  What holds of a semaphore in every run.

  A thread that an abort or the clock has woken is in the
  queue until it takes itself off. A signal that takes it off
  first is lost, and so is one past the largest count.

  Main declarations:
    * `SemaInv`, `SemaOrderly`
    * `Taken`, `Settled`
    * `semaStep_inv`
    * `Settled.run`
-/

------
-- The Invariant
------

namespace OsfMach

namespace Kern

open Function
open List
open Lib

variable {r : WaitResult}
variable {n : Int}

/- A thread that has to be in the queue. -/
def SemaPhase.waiting (p : SemaPhase) : Bool :=
  match p with
  | .outside _ => false
  | .blocked _ => true
  | .woken r => r != .success
  | .undoing _ => true

variable {τ : Type} [DecidableEq τ]

/- A thread that was signaled, and has not returned yet. -/
def Semaphore.Signaled (s : Semaphore τ) (t : τ) : Prop :=
  s.phase t = .woken .success ∧ s.linked t = false

structure SemaInv
    (c : SemaConfig τ)
    (s : Semaphore τ) : Prop where
  count :
    s.blockedThreads = [] ∧ 0 ≤ s.count ∨
      s.blockedThreads ≠ [] ∧
        s.count = -(s.blockedThreads.length : Int)
  low : -2 ^ 31 ≤ s.count
  high : s.count < 2 ^ 31
  nodup : s.blockedThreads.Nodup
  sorted : QueueSorted c.policy c.priority s.blockedThreads
  queued :
    ∀ t ∈ s.blockedThreads,
      s.linked t = true ∧ (s.phase t).waiting = true
  others :
    ∀ t, t ∉ s.blockedThreads →
      (∃ last, s.phase t = .outside last) ∨ s.Signaled t

/-
  A signal takes off threads that still wait, and no count
  goes past the ends of its type.
-/
def SemaOrderly
    (s : Semaphore τ)
    (a : SemaAction τ) : Prop :=
  match a with
  | .wait _ _ => s.count ≠ -2 ^ 31
  | .signal .one =>
      s.count ≠ 2 ^ 31 - 1 ∧
        ∀ t ∈ s.blockedThreads.head?,
          ∃ timed, s.phase t = .blocked timed
  | .signal .all =>
      ∀ t ∈ s.blockedThreads,
        ∃ timed, s.phase t = .blocked timed
  | .signal (.thread t) =>
      t ∈ s.blockedThreads →
        ∃ timed, s.phase t = .blocked timed
  | _ => True

theorem toInt_eq
    {x : Int}
    (hLow : -2 ^ 31 ≤ x)
    (hHigh : x < 2 ^ 31) :
    toInt x = x := by
  unfold toInt
  rw [Int.bmod_def]
  omega

variable {s₁ s₂ : Semaphore τ}

section Invariant

variable {c : SemaConfig τ} {s : Semaphore τ} {t : τ}

omit [DecidableEq τ] in
theorem SemaInv.conserved
    (h : SemaInv c s) :
    max 0 (-s.count) = s.blockedThreads.length := by
  rcases h.count with ⟨hNil, hNonneg⟩ | ⟨_, hEq⟩
  · rw [hNil]
    simp only [length_nil]
    omega
  · omega

omit [DecidableEq τ] in
theorem SemaInv.mem_of_waiting
    (h : SemaInv c s)
    (hWaiting : (s.phase t).waiting = true) :
    t ∈ s.blockedThreads := by
  by_contra hNot
  rcases h.others t hNot with ⟨last, hLast⟩ | ⟨hWoken, _⟩
  · rw [hLast] at hWaiting
    cases hWaiting
  · rw [hWoken] at hWaiting
    cases hWaiting

omit [DecidableEq τ] in
theorem SemaInv.negative
    (h : SemaInv c s)
    (hMem : t ∈ s.blockedThreads) :
    s.count = -(s.blockedThreads.length : Int) ∧
      0 < s.blockedThreads.length := by
  have hPos := length_pos_of_mem hMem
  rcases h.count with ⟨hNil, _⟩ | ⟨_, hEq⟩
  · rw [hNil] at hMem
    cases hMem
  · exact ⟨hEq, hPos⟩

/- A thread's own steps, which leave the queue alone. -/
theorem SemaInv.setPhase
    {p : SemaPhase}
    (h : SemaInv c s)
    (hQueued : t ∈ s.blockedThreads → p.waiting = true)
    (hOthers : t ∉ s.blockedThreads →
      ∃ last, p = .outside last) :
    SemaInv c (s.setPhase t p) := by
  refine ⟨h.count, h.low, h.high, h.nodup, h.sorted, ?_, ?_⟩
  · intro u hu
    refine ⟨(h.queued u hu).1, ?_⟩
    unfold Semaphore.setPhase
    dsimp only
    by_cases hEq : u = t
    · subst hEq
      rw [update_self]
      exact hQueued hu
    · rw [update_of_ne hEq]
      exact (h.queued u hu).2
  · intro u hu
    unfold Semaphore.setPhase Semaphore.Signaled
    dsimp only
    by_cases hEq : u = t
    · subst hEq
      rw [update_self]
      exact Or.inl (hOthers hu)
    · rw [update_of_ne hEq]
      exact h.others u hu

/- A thread taken out of the queue, and one count more. -/
def Semaphore.without
    (s : Semaphore τ)
    (t : τ) : Semaphore τ :=
  { s with
    count := toInt (s.count + 1)
    blockedThreads := s.blockedThreads.erase t }

theorem SemaInv.without
    {s' : Semaphore τ}
    (h : SemaInv c s)
    (hMem : t ∈ s.blockedThreads)
    (hCount : s'.count = toInt (s.count + 1))
    (hQueue : s'.blockedThreads = s.blockedThreads.erase t)
    (hLinked : ∀ u, u ≠ t → s'.linked u = s.linked u)
    (hPhase : ∀ u, u ≠ t → s'.phase u = s.phase u)
    (hLeaves :
      (∃ last, s'.phase t = .outside last) ∨
        s'.Signaled t) :
    SemaInv c s' ∧ s'.count = s.count + 1 := by
  rcases h.negative hMem with ⟨hNeg, hPos⟩
  have hLow := h.low
  have hLength := length_erase_of_mem hMem
  have hNext : s'.count = s.count + 1 := by
    rw [hCount]
    exact toInt_eq (by omega) (by omega)
  have hOut : t ∉ s'.blockedThreads := by
    rw [hQueue]
    exact h.nodup.not_mem_erase
  refine ⟨⟨?_, by omega, by omega, ?_, ?_, ?_, ?_⟩, hNext⟩
  · rw [hNext, hQueue]
    by_cases hOne : s.blockedThreads.length = 1
    · left
      exact ⟨eq_nil_of_length_eq_zero (by omega),
        by omega⟩
    · right
      refine ⟨?_, by omega⟩
      intro hNil
      rw [hNil] at hLength
      simp only [length_nil] at hLength
      omega
  · rw [hQueue]
    exact h.nodup.erase t
  · rw [hQueue]
    exact h.sorted.sublist erase_sublist
  · intro u hu
    have hNe : u ≠ t := by
      intro hEq
      subst hEq
      exact hOut hu
    rw [hQueue] at hu
    rw [hLinked u hNe, hPhase u hNe]
    exact h.queued u (mem_of_mem_erase hu)
  · intro u hu
    by_cases hEq : u = t
    · subst hEq
      exact hLeaves
    · unfold Semaphore.Signaled
      rw [hLinked u hEq, hPhase u hEq]
      apply h.others u
      intro hIn
      apply hu
      rw [hQueue]
      exact (mem_erase_of_ne hEq).mpr hIn

/- A thread that waits, taken off the queue by a signal. -/
structure Taken
    (s : Semaphore τ)
    (t : τ)
    (s' : Semaphore τ) : Prop where
  count : s'.count = s.count + 1
  queue : s'.blockedThreads = s.blockedThreads.erase t
  signaled : s'.Signaled t
  phase : ∀ u, u ≠ t → s'.phase u = s.phase u
  linked : ∀ u, u ≠ t → s'.linked u = s.linked u

theorem SemaInv.taken
    {timed : Bool}
    (h : SemaInv c s)
    (hMem : t ∈ s.blockedThreads)
    (hPhase : s.phase t = .blocked timed) :
    SemaInv c ((s.without t).complete t) ∧
      Taken s t ((s.without t).complete t) := by
  have hIs : (s.without t).complete t =
      { s.without t with
        linked := update s.linked t false
        phase := update s.phase t (.woken .success) } := by
    unfold Semaphore.complete Semaphore.setPhase
      Semaphore.without
    dsimp only
    rw [hPhase]
  have hSignaled :
      ((s.without t).complete t).Signaled t := by
    rw [hIs]
    unfold Semaphore.Signaled
    dsimp only
    rw [update_self, update_self]
    exact ⟨rfl, rfl⟩
  have hOthers : ∀ u, u ≠ t →
      ((s.without t).complete t).phase u = s.phase u ∧
        ((s.without t).complete t).linked u =
          s.linked u := by
    intro u hNe
    rw [hIs]
    dsimp only
    rw [update_of_ne hNe, update_of_ne hNe]
    exact ⟨rfl, rfl⟩
  have hQueue :
      ((s.without t).complete t).blockedThreads =
        s.blockedThreads.erase t := by
    rw [hIs]
    rfl
  have hCount :
      ((s.without t).complete t).count =
        toInt (s.count + 1) := by
    rw [hIs]
    rfl
  rcases h.without hMem hCount hQueue
    (fun u hu => (hOthers u hu).2)
    (fun u hu => (hOthers u hu).1) (Or.inr hSignaled) with
    ⟨hInv, hNext⟩
  exact ⟨hInv, hNext, hQueue, hSignaled,
    fun u hu => (hOthers u hu).1,
    fun u hu => (hOthers u hu).2⟩

theorem signalFirst_eq
    {q : List τ}
    (hQueue : s.blockedThreads = t :: q) :
    signalFirst s = some ((s.without t).complete t) := by
  unfold signalFirst Semaphore.without
  rw [hQueue, erase_cons_head]

/- A count with nobody in the queue. -/
omit [DecidableEq τ] in
theorem SemaInv.recount
    (h : SemaInv c s)
    (hNil : s.blockedThreads = [])
    (hLow : 0 ≤ n)
    (hHigh : n < 2 ^ 31) :
    SemaInv c { s with count := n } := by
  refine ⟨Or.inl ⟨hNil, hLow⟩, ?_, hHigh, h.nodup, h.sorted,
    h.queued, h.others⟩
  dsimp only
  omega

omit [DecidableEq τ] in
theorem SemaInv.nil_of_nonneg
    (h : SemaInv c s)
    (hNonneg : 0 ≤ s.count) :
    s.blockedThreads = [] := by
  rcases h.count with ⟨hNil, _⟩ | ⟨hSome, hEq⟩
  · exact hNil
  · have hPos := length_pos_iff.mpr hSome
    omega

omit [DecidableEq τ] in
theorem SemaInv.cons_of_negative
    (h : SemaInv c s)
    (hNeg : s.count < 0) :
    ∃ t q, s.blockedThreads = t :: q := by
  rcases h.count with ⟨_, hNonneg⟩ | ⟨hSome, _⟩
  · omega
  · exact exists_cons_of_ne_nil hSome

/- A signal: one thread is taken off, or the count goes up. -/
theorem signalOne_spec
    (h : SemaInv c s)
    (hOrderly : SemaOrderly s (.signal .one)) :
    ∃ s', semaphoreSignalCommon s .one = some s' ∧
      SemaInv c s' ∧
      ((∃ t q, s.blockedThreads = t :: q ∧ Taken s t s') ∨
        0 ≤ s.count ∧
          s' = { s with count := s.count + 1 }) := by
  rcases hOrderly with ⟨hMax, hHead⟩
  have hHigh := h.high
  unfold semaphoreSignalCommon
  split_ifs with hNonneg
  · have hNil := h.nil_of_nonneg hNonneg
    have hCount : toInt (s.count + 1) = s.count + 1 :=
      toInt_eq (by omega) (by omega)
    rw [hCount]
    exact ⟨_, rfl, h.recount hNil (by omega) (by omega),
      Or.inr ⟨hNonneg, rfl⟩⟩
  · rcases h.cons_of_negative (by omega) with ⟨t, q, hQueue⟩
    have hMem : t ∈ s.blockedThreads := by
      rw [hQueue]
      exact mem_cons_self
    rw [hQueue] at hHead
    rcases hHead t rfl with ⟨timed, hPhase⟩
    rcases h.taken hMem hPhase with ⟨hInv, hTaken⟩
    exact ⟨_, signalFirst_eq hQueue, hInv,
      Or.inl ⟨t, q, hQueue, hTaken⟩⟩

/- Every thread taken off the queue. -/
structure Emptied (s s' : Semaphore τ) : Prop where
  queue : s'.blockedThreads = []
  signaled : ∀ t ∈ s.blockedThreads, s'.Signaled t
  others :
    ∀ t, t ∉ s.blockedThreads →
      s'.phase t = s.phase t ∧ s'.linked t = s.linked t

omit [DecidableEq τ] in
theorem Emptied.of_nil
    (hNil : s.blockedThreads = []) :
    Emptied s { s with count := n } := by
  refine ⟨hNil, ?_, fun t _ => ⟨rfl, rfl⟩⟩
  intro t hMem
  rw [hNil] at hMem
  cases hMem

theorem Emptied.of_taken
    (hTaken : Taken s t s₁)
    (hNodup : s.blockedThreads.Nodup)
    (hMem : t ∈ s.blockedThreads)
    (h : Emptied s₁ s₂) :
    Emptied s s₂ := by
  have hOut : t ∉ s₁.blockedThreads := by
    rw [hTaken.queue]
    exact hNodup.not_mem_erase
  refine ⟨h.queue, ?_, ?_⟩
  · intro u hu
    by_cases hEq : u = t
    · subst hEq
      unfold Semaphore.Signaled
      rw [(h.others u hOut).1, (h.others u hOut).2]
      exact hTaken.signaled
    · apply h.signaled u
      rw [hTaken.queue]
      exact (mem_erase_of_ne hEq).mpr hu
  · intro u hu
    have hNe : u ≠ t := by
      intro hEq
      rw [hEq] at hu
      exact hu hMem
    have hNot : u ∉ s₁.blockedThreads := by
      rw [hTaken.queue]
      intro hIn
      exact hu (mem_of_mem_erase hIn)
    rw [(h.others u hNot).1, (h.others u hNot).2]
    exact ⟨hTaken.phase u hNe, hTaken.linked u hNe⟩

theorem signalLoop_spec
    (fuel : Nat)
    (h : SemaInv c s)
    (hBlocked :
      ∀ t ∈ s.blockedThreads,
        ∃ timed, s.phase t = .blocked timed)
    (hFuel : s.blockedThreads.length < fuel) :
    ∃ s', signalLoop fuel s = some s' ∧
      Emptied s s' ∧ SemaInv c { s' with count := 0 } := by
  induction fuel generalizing s with
  | zero => omega
  | succ fuel ih =>
      unfold signalLoop
      split_ifs with hNonneg
      · have hNil := h.nil_of_nonneg hNonneg
        exact ⟨_, rfl, Emptied.of_nil hNil,
          h.recount hNil (Int.le_refl 0) (by decide)⟩
      · rcases h.cons_of_negative (by omega) with
          ⟨t, q, hQueue⟩
        have hMem : t ∈ s.blockedThreads := by
          rw [hQueue]
          exact mem_cons_self
        rcases hBlocked t hMem with ⟨timed, hPhase⟩
        rcases h.taken hMem hPhase with ⟨hInv, hTaken⟩
        have hLength := length_erase_of_mem hMem
        have hPos := length_pos_of_mem hMem
        rw [← hTaken.queue] at hLength
        rw [signalFirst_eq hQueue, Option.bind_eq_bind,
          Option.bind_some]
        generalize (s.without t).complete t = s₁ at *
        split_ifs with hMore
        · have hRest : ∀ u ∈ s₁.blockedThreads,
              ∃ timed, s₁.phase u = .blocked timed := by
            intro u hu
            have hNe : u ≠ t := by
              intro hEq
              rw [hTaken.queue, hEq] at hu
              exact h.nodup.not_mem_erase hu
            rw [hTaken.phase u hNe]
            apply hBlocked u
            rw [hTaken.queue] at hu
            exact mem_of_mem_erase hu
          rcases ih hInv hRest (by omega) with
            ⟨s₂, hRun, hEmptied, hEnd⟩
          exact ⟨s₂, hRun,
            hEmptied.of_taken hTaken h.nodup hMem, hEnd⟩
        · have hNil := hInv.nil_of_nonneg (by omega)
          exact ⟨s₁, rfl,
            (Emptied.of_nil (n := s₁.count) hNil).of_taken
              hTaken h.nodup hMem,
            hInv.recount hNil (Int.le_refl 0) (by decide)⟩

section

variable (h : SemaInv c s)
include h

theorem signalAll_spec
    (hOrderly : SemaOrderly s (.signal .all)) :
    ∃ s', semaphoreSignalCommon s .all = some s' ∧
      SemaInv c s' ∧ s'.count = 0 ∧ Emptied s s' := by
  rcases signalLoop_spec (s.blockedThreads.length + 1) h
    hOrderly (Nat.lt_succ_self _) with ⟨s', hRun, hAll, hInv⟩
  refine ⟨{ s' with count := 0 }, ?_, hInv, rfl,
    ⟨hAll.queue, hAll.signaled, hAll.others⟩⟩
  unfold semaphoreSignalCommon
  rw [hRun]
  rfl

theorem signalThread_spec
    (hOrderly : SemaOrderly s (.signal (.thread t))) :
    ∃ s', semaphoreSignalCommon s (.thread t) = some s' ∧
      SemaInv c s' ∧
      (t ∈ s.blockedThreads ∧ Taken s t s' ∨
        t ∉ s.blockedThreads ∧ s' = s) := by
  unfold semaphoreSignalCommon
  dsimp only
  split_ifs with hMem
  · rcases hOrderly hMem with ⟨timed, hPhase⟩
    rcases h.taken hMem hPhase with ⟨hInv, hTaken⟩
    exact ⟨_, rfl, hInv, Or.inl ⟨hMem, hTaken⟩⟩
  · exact ⟨s, rfl, h, Or.inr ⟨hMem, rfl⟩⟩

/- What the first section of a wait does. -/
theorem wait_spec
    {last : Option SemaReturn}
    (hPhase : s.phase t = .outside last)
    (hMin : s.count ≠ -2 ^ 31)
    (waitTime : Option TvalSpec) :
    SemaInv c (semaphoreWaitCommon c s t waitTime) := by
  have hOut : t ∉ s.blockedThreads := by
    intro hMem
    have hWaiting := (h.queued t hMem).2
    rw [hPhase] at hWaiting
    cases hWaiting
  have hFails : ∀ r, SemaInv c (s.setPhase t (.outside r)) := by
    intro r
    apply h.setPhase
    · intro hMem
      exact absurd hMem hOut
    · intro _
      exact ⟨r, rfl⟩
  have hLow := h.low
  have hHigh := h.high
  have hCount : toInt (s.count - 1) = s.count - 1 :=
    toInt_eq (by omega) (by omega)
  unfold semaphoreWaitCommon
  cases waitTicks c.hz waitTime with
  | error r => exact hFails _
  | ok time =>
      dsimp only
      split_ifs with hNow hBlocks
      · exact hFails _
      · refine ⟨Or.inr ⟨?_, ?_⟩, ?_, ?_, ?_, ?_, ?_, ?_⟩
        · intro hNil
          have hLength := congrArg List.length hNil
          rw [length_enqueue] at hLength
          cases hLength
        · rw [length_enqueue]
          rcases h.count with ⟨hNil, hNonneg⟩ | ⟨_, hEq⟩
          · rw [hNil]
            simp only [length_nil]
            omega
          · push_cast
            omega
        · dsimp only
          omega
        · dsimp only
          omega
        · rw [(perm_enqueue _ _ _ _).nodup_iff, nodup_cons]
          exact ⟨hOut, h.nodup⟩
        · exact h.sorted.enqueue t
        · intro u hu
          unfold Semaphore.setPhase
          dsimp only at hu ⊢
          by_cases hEq : u = t
          · subst hEq
            rw [update_self, update_self]
            exact ⟨rfl, rfl⟩
          · rw [update_of_ne hEq, update_of_ne hEq]
            rcases mem_enqueue.mp hu with hAbsurd | hIn
            · exact absurd hAbsurd hEq
            · exact h.queued u hIn
        · intro u hu
          have hEq : u ≠ t := fun hEq =>
            hu (mem_enqueue.mpr (Or.inl hEq))
          have hNot : u ∉ s.blockedThreads := fun hIn =>
            hu (mem_enqueue.mpr (Or.inr hIn))
          unfold Semaphore.setPhase Semaphore.Signaled
          dsimp only
          rw [update_of_ne hEq, update_of_ne hEq]
          exact h.others u hNot
      · have hNil : s.blockedThreads = [] :=
          h.nil_of_nonneg (by omega)
        exact (hFails _).recount hNil (by omega) (by omega)

/- The thread that undoes its wait is in the queue. -/
theorem undo_spec
    (hPhase : s.phase t = .undoing r) :
    ∃ s', semaphoreUndo s t r = some s' ∧ SemaInv c s' ∧
      s'.count = s.count + 1 ∧
      s'.blockedThreads = s.blockedThreads.erase t ∧
      s'.phase t = .outside (some
        (if r = .timedOut then .operationTimedOut
        else .aborted)) ∧
      s'.linked = s.linked ∧
      (∀ u, u ≠ t → s'.phase u = s.phase u) := by
  have hMem : t ∈ s.blockedThreads := by
    apply h.mem_of_waiting
    rw [hPhase]
    rfl
  unfold semaphoreUndo
  rw [if_pos hMem]
  have hOthers : ∀ p : SemaPhase, ∀ u, u ≠ t →
      update s.phase t p u = s.phase u := by
    intro p u hNe
    rw [update_of_ne hNe]
  refine ⟨_, rfl, ?_⟩
  rcases @SemaInv.without τ _ c s t
    { s.setPhase t (.outside (some
        (if r = .timedOut then .operationTimedOut
        else .aborted))) with
      count := toInt (s.count + 1)
      blockedThreads := s.blockedThreads.erase t }
    h hMem rfl rfl (fun u _ => rfl) (hOthers _)
    (Or.inl ⟨_, update_self ..⟩) with ⟨hInv, hNext⟩
  exact ⟨hInv, hNext, rfl, update_self .., rfl, hOthers _⟩

theorem test_spec
    (hPhase : s.phase t = .woken r) :
    SemaInv c (semaphoreTest s t r) := by
  unfold semaphoreTest
  split_ifs with hLinked
  · apply h.setPhase
    · intro _
      rfl
    · intro hNot
      rcases h.others t hNot with ⟨last, hLast⟩ | ⟨_, hOff⟩
      · rw [hLast] at hPhase
        cases hPhase
      · rw [hOff] at hLinked
        cases hLinked
  · apply h.setPhase
    · intro hMem
      exact absurd (h.queued t hMem).1 hLinked
    · intro _
      exact ⟨_, rfl⟩

/- A thread that is woken but not signaled. -/
theorem SemaInv.wake
    {timed : Bool}
    (hPhase : s.phase t = .blocked timed)
    (hr : r ≠ .success) :
    SemaInv c (s.setPhase t (.woken r)) := by
  apply h.setPhase
  · intro _
    exact bne_iff_ne.mpr hr
  · intro hNot
    have hMem : t ∈ s.blockedThreads := by
      apply h.mem_of_waiting
      rw [hPhase]
      rfl
    exact absurd hMem hNot

end

theorem semaStep_inv
    (c : SemaConfig τ)
    (s : Semaphore τ)
    (a : SemaAction τ)
    (s' : Semaphore τ)
    (h : SemaInv c s)
    (hOrderly : SemaOrderly s a)
    (hStep : semaStep c s a = some s') :
    SemaInv c s' := by
  cases a with
  | wait t waitTime =>
      unfold semaStep at hStep
      dsimp only at hStep
      split at hStep
      · rename_i last hPhase
        cases hStep
        exact wait_spec h hPhase hOrderly waitTime
      · cases hStep
  | timeout t =>
      unfold semaStep at hStep
      dsimp only at hStep
      split at hStep
      · rename_i hPhase
        cases hStep
        exact h.wake hPhase (by decide)
      · cases hStep
  | abort t =>
      unfold semaStep at hStep
      dsimp only at hStep
      split at hStep
      · rename_i timed hPhase
        cases hStep
        exact h.wake hPhase (by decide)
      · cases hStep
  | test t =>
      unfold semaStep at hStep
      dsimp only at hStep
      split at hStep
      · rename_i r hPhase
        cases hStep
        exact test_spec h hPhase
      · cases hStep
  | undo t =>
      unfold semaStep at hStep
      dsimp only at hStep
      split at hStep
      · rename_i r hPhase
        rcases undo_spec h hPhase with ⟨s₁, hRun, hInv, _⟩
        rw [hRun] at hStep
        cases hStep
        exact hInv
      · cases hStep
  | signal target =>
      cases target with
      | one =>
          rcases signalOne_spec h hOrderly with
            ⟨s₁, hRun, hInv, _⟩
          rw [semaStep, hRun] at hStep
          cases hStep
          exact hInv
      | all =>
          rcases signalAll_spec h hOrderly with
            ⟨s₁, hRun, hInv, _⟩
          rw [semaStep, hRun] at hStep
          cases hStep
          exact hInv
      | thread t =>
          rcases signalThread_spec h hOrderly with
            ⟨s₁, hRun, hInv, _⟩
          rw [semaStep, hRun] at hStep
          cases hStep
          exact hInv

omit [DecidableEq τ] in
theorem semaphoreCreate_inv
    (c : SemaConfig τ)
    {value : Int}
    (hLow : 0 ≤ value)
    (hHigh : value < 2 ^ 31) :
    SemaInv c (semaphoreCreate τ value) := by
  unfold semaphoreCreate
  refine ⟨Or.inl ⟨rfl, hLow⟩, ?_, hHigh, nodup_nil,
    fun _ => List.Pairwise.nil, by simp, ?_⟩
  · dsimp only
    omega
  · intro t _
    exact Or.inl ⟨none, rfl⟩

end Invariant

------
-- Threads out of the Queue
------

/-
  What the actions of others do to a thread that is not in
  the queue: nothing.
-/
structure LeavesAlone
    (t : τ)
    (s s' : Semaphore τ) : Prop where
  out : t ∉ s'.blockedThreads
  phase : s'.phase t = s.phase t
  linked : s'.linked t = s.linked t

section Alone

variable {c : SemaConfig τ} {s s' : Semaphore τ} {t u : τ}

omit [DecidableEq τ] in
theorem LeavesAlone.trans
    (h₁ : LeavesAlone t s s₁)
    (h₂ : LeavesAlone t s₁ s₂) :
    LeavesAlone t s s₂ :=
  ⟨h₂.out, h₂.phase.trans h₁.phase,
    h₂.linked.trans h₁.linked⟩

theorem complete_alone
    (hOut : t ∉ s.blockedThreads)
    (hNe : t ≠ u) :
    LeavesAlone t s (s.complete u) := by
  unfold Semaphore.complete
  dsimp only
  split
  · refine ⟨hOut, ?_, ?_⟩
    · exact update_of_ne hNe ..
    · exact update_of_ne hNe ..
  · exact ⟨hOut, rfl, update_of_ne hNe ..⟩

section Threads

variable (hOut : t ∉ s.blockedThreads)

include hOut

theorem setPhase_alone
    (hNe : t ≠ u)
    (p : SemaPhase) :
    LeavesAlone t s (s.setPhase u p) :=
  ⟨hOut, update_of_ne hNe .., rfl⟩

theorem signalFirst_alone
    (h : signalFirst s = some s') :
    LeavesAlone t s s' := by
  unfold signalFirst at h
  split at h
  · cases h
  · rename_i u q hQueue
    rw [hQueue, mem_cons, not_or] at hOut
    cases h
    have hDone := @complete_alone τ _
      { s with
        count := toInt (s.count + 1), blockedThreads := q }
      t u hOut.2 hOut.1
    exact ⟨hDone.out, hDone.phase, hDone.linked⟩

theorem signalLoop_alone
    {fuel : Nat}
    (h : signalLoop fuel s = some s') :
    LeavesAlone t s s' := by
  induction fuel generalizing s with
  | zero =>
      cases h
      exact ⟨hOut, rfl, rfl⟩
  | succ fuel ih =>
      unfold signalLoop at h
      split_ifs at h
      · cases h
        exact ⟨hOut, rfl, rfl⟩
      · rcases Option.bind_eq_some_iff.mp h with
          ⟨s₁, hFirst, hRest⟩
        have hOne := signalFirst_alone hOut hFirst
        split_ifs at hRest
        · exact hOne.trans (ih hOne.out hRest)
        · cases hRest
          exact hOne

theorem signal_alone
    {target : SignalTarget τ}
    (h : semaphoreSignalCommon s target = some s') :
    LeavesAlone t s s' := by
  unfold semaphoreSignalCommon at h
  cases target with
  | one =>
      split_ifs at h
      · cases h
        exact ⟨hOut, rfl, rfl⟩
      · exact signalFirst_alone hOut h
  | all =>
      rcases Option.bind_eq_some_iff.mp h with
        ⟨s₁, hLoop, hRest⟩
      cases hRest
      have hAll := signalLoop_alone hOut hLoop
      exact ⟨hAll.out, hAll.phase, hAll.linked⟩
  | thread u =>
      dsimp only at h
      split_ifs at h with hMem
      · cases h
        have hNe : t ≠ u := by
          intro hEq
          rw [hEq] at hOut
          exact hOut hMem
        have hDone := @complete_alone τ _
          { s with
            count := toInt (s.count + 1)
            blockedThreads := s.blockedThreads.erase u }
          t u (fun hIn => hOut (mem_of_mem_erase hIn))
          hNe
        exact ⟨hDone.out, hDone.phase, hDone.linked⟩
      · cases h
        exact ⟨hOut, rfl, rfl⟩

theorem wait_alone
    (hNe : t ≠ u)
    (waitTime : Option TvalSpec) :
    LeavesAlone t s (semaphoreWaitCommon c s u waitTime) := by
  have hSet := setPhase_alone hOut hNe
  unfold semaphoreWaitCommon
  cases waitTicks c.hz waitTime with
  | error r => exact hSet _
  | ok time =>
      dsimp only
      split_ifs
      · exact hSet _
      · refine ⟨?_, (hSet _).phase,
          update_of_ne hNe ..⟩
        intro hIn
        rcases mem_enqueue.mp hIn with hEq | hIn
        · exact hNe hEq
        · exact hOut hIn
      · exact ⟨hOut, (hSet _).phase, rfl⟩

theorem undo_alone
    (hNe : t ≠ u)
    (h : semaphoreUndo s u r = some s') :
    LeavesAlone t s s' := by
  unfold semaphoreUndo at h
  by_cases hMem : u ∈ s.blockedThreads
  · rw [if_pos hMem] at h
    cases h
    exact ⟨fun hIn => hOut (mem_of_mem_erase hIn),
      (setPhase_alone hOut hNe _).phase, rfl⟩
  · rw [if_neg hMem] at h
    cases h

theorem test_alone
    (hNe : t ≠ u) :
    LeavesAlone t s (semaphoreTest s u r) := by
  unfold semaphoreTest
  split_ifs
  · exact setPhase_alone hOut hNe _
  · exact setPhase_alone hOut hNe _

end Threads

end Alone

/- Whether an action is part of a thread's own wait. -/
def SemaAction.isOf (t : τ) (a : SemaAction τ) : Bool :=
  match a with
  | .wait u _ => u == t
  | .timeout u => u == t
  | .abort u => u == t
  | .test u => u == t
  | .undo u => u == t
  | .signal _ => false

variable {c : SemaConfig τ} {s s' : Semaphore τ} {t : τ}

theorem semaStep_alone
    {a : SemaAction τ}
    (hOut : t ∉ s.blockedThreads)
    (hOf : a.isOf t = false)
    (h : semaStep c s a = some s') :
    LeavesAlone t s s' := by
  unfold semaStep at h
  cases a with
  | wait u waitTime =>
      have hNe : t ≠ u := (beq_eq_false_iff_ne.mp hOf).symm
      dsimp only at h
      split at h
      · cases h
        exact wait_alone hOut hNe waitTime
      · cases h
  | timeout u | abort u =>
      have hNe : t ≠ u := (beq_eq_false_iff_ne.mp hOf).symm
      dsimp only at h
      split at h
      · cases h
        exact setPhase_alone hOut hNe _
      · cases h
  | test u =>
      have hNe : t ≠ u := (beq_eq_false_iff_ne.mp hOf).symm
      dsimp only at h
      split at h
      · cases h
        exact test_alone hOut hNe
      · cases h
  | undo u =>
      have hNe : t ≠ u := (beq_eq_false_iff_ne.mp hOf).symm
      dsimp only at h
      split at h
      · exact undo_alone hOut hNe h
      · cases h
  | signal target => exact signal_alone hOut h

/-
  A thread that was signaled, or that has returned since,
  and says so.
-/
structure Settled (t : τ) (s : Semaphore τ) : Prop where
  out : t ∉ s.blockedThreads
  success :
    s.Signaled t ∨
      ∃ r, s.phase t = .outside (some r) ∧
        r.isSuccess = true

theorem Settled.step
    {c : SemaConfig τ}
    {s s' : Semaphore τ}
    {t : τ}
    {a : SemaAction τ}
    (h : Settled t s)
    (hWait : ∀ waitTime, a ≠ .wait t waitTime)
    (hStep : semaStep c s a = some s') :
    Settled t s' := by
  by_cases hOf : a.isOf t = true
  · -- the only action of its own is the test
    unfold semaStep at hStep
    rcases h with ⟨hOut, ⟨hPhase, hLinked⟩ | ⟨r, hPhase, _⟩⟩
    · cases a with
      | wait u waitTime =>
          rw [beq_iff_eq.mp hOf] at hWait
          exact absurd rfl (hWait waitTime)
      | test u =>
          dsimp only at hStep
          rw [beq_iff_eq.mp hOf, hPhase] at hStep
          cases hStep
          unfold semaphoreTest
          rw [if_neg (by rw [hLinked]; decide)]
          exact ⟨hOut, Or.inr ⟨.waitResult .success,
            update_self .., rfl⟩⟩
      | timeout u | abort u | undo u =>
          dsimp only at hStep
          rw [beq_iff_eq.mp hOf, hPhase] at hStep
          cases hStep
      | signal target => cases hOf
    · cases a with
      | wait u waitTime =>
          rw [beq_iff_eq.mp hOf] at hWait
          exact absurd rfl (hWait waitTime)
      | test u | timeout u | abort u | undo u =>
          dsimp only at hStep
          rw [beq_iff_eq.mp hOf, hPhase] at hStep
          cases hStep
      | signal target => cases hOf
  · have hAlone := semaStep_alone h.out
      ((Bool.not_eq_true _).mp hOf) hStep
    refine ⟨hAlone.out, ?_⟩
    unfold Semaphore.Signaled
    rw [hAlone.phase, hAlone.linked]
    exact h.success

theorem Settled.run
    {as : List (SemaAction τ)}
    (h : Settled t s)
    (hWait : ∀ waitTime, .wait t waitTime ∉ as)
    (hExec : Runs.exec (semaStep c) s as = some s') :
    Settled t s' := by
  induction as generalizing s with
  | nil =>
      cases hExec
      exact h
  | cons a as ih =>
      rcases Runs.exec_cons.mp hExec with ⟨s₁, hStep, hRest⟩
      apply ih (h.step ?_ hStep) ?_ hRest
      · intro waitTime hEq
        apply hWait waitTime
        rw [← hEq]
        exact mem_cons_self
      · intro waitTime hIn
        exact hWait waitTime (mem_cons_of_mem _ hIn)

end Kern

end OsfMach
