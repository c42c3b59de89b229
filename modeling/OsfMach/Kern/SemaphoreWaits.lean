import OsfMach.Kern.SemaphoreRuns

/-
  Waits on a semaphore that end without a signal.

  A run is followed beside the same run without one wait. Up
  to the point where a signal takes the thread off, the two
  differ by that thread only.

  Main declarations:
    * `Twin`
    * `Twin.step`, `Twin.run`
    * `semaphore_conservation`
-/

------
-- A Wait That Was Never Issued
------

namespace OsfMach

namespace Kern

open Function
open List
open Lib

variable {τ : Type} [DecidableEq τ] {c : SemaConfig τ} {t : τ}

/-
  A state beside the same one without a thread's wait. The
  thread is outside in the second.
-/
structure Twin
    (t : τ)
    (s s' : Semaphore τ) : Prop where
  count :
    s'.count =
      s.count + if t ∈ s.blockedThreads then 1 else 0
  queue : s'.blockedThreads = s.blockedThreads.erase t
  phase : ∀ u, u ≠ t → s'.phase u = s.phase u
  linked : ∀ u, u ≠ t → s'.linked u = s.linked u
  outside : ∃ last, s'.phase t = .outside last

section Twin

variable {c : SemaConfig τ} {s s₁ s' : Semaphore τ} {t u : τ}

section

variable (h : Twin t s s')
include h

theorem Twin.inv
    (hInv : SemaInv c s) :
    SemaInv c s' := by
  have hLow := hInv.low
  have hHigh := hInv.high
  have hOut : t ∉ s'.blockedThreads := by
    rw [h.queue]
    exact hInv.nodup.not_mem_erase
  have hCount :
      s'.blockedThreads = [] ∧ 0 ≤ s'.count ∨
        s'.blockedThreads ≠ [] ∧
          s'.count = -(s'.blockedThreads.length : Int) := by
    by_cases hMem : t ∈ s.blockedThreads
    · rcases hInv.negative hMem with ⟨hNeg, hPos⟩
      have hLength := length_erase_of_mem hMem
      rw [h.count, h.queue, if_pos hMem, hLength]
      by_cases hOne : s.blockedThreads.length = 1
      · left
        exact ⟨eq_nil_of_length_eq_zero (by omega),
          by omega⟩
      · right
        refine ⟨?_, by omega⟩
        intro hNil
        rw [hNil, length_nil] at hLength
        omega
    · rw [h.count, h.queue, if_neg hMem,
        erase_of_not_mem hMem, Int.add_zero]
      exact hInv.count
  have hBounds : -2 ^ 31 ≤ s'.count ∧ s'.count < 2 ^ 31 := by
    rw [h.count]
    split_ifs with hMem
    · have hNeg := hInv.negative hMem
      omega
    · omega
  refine ⟨hCount, hBounds.1, hBounds.2, ?_, ?_, ?_, ?_⟩
  · rw [h.queue]
    exact hInv.nodup.erase t
  · rw [h.queue]
    exact hInv.sorted.sublist erase_sublist
  · intro u hu
    have hNe : u ≠ t := by
      intro hEq
      rw [hEq] at hu
      exact hOut hu
    rw [h.queue] at hu
    rw [h.linked u hNe, h.phase u hNe]
    exact hInv.queued u (mem_of_mem_erase hu)
  · intro u hu
    by_cases hEq : u = t
    · subst hEq
      exact Or.inl h.outside
    · unfold Semaphore.Signaled
      rw [h.linked u hEq, h.phase u hEq]
      apply hInv.others u
      intro hIn
      apply hu
      rw [h.queue]
      exact (mem_erase_of_ne hEq).mpr hIn

/- The other thread's steps that leave count and queue. -/
theorem Twin.setPhase
    (hNe : u ≠ t)
    (p : SemaPhase) :
    Twin t (s.setPhase u p) (s'.setPhase u p) := by
  rcases h.outside with ⟨last, hLast⟩
  refine ⟨h.count, h.queue, ?_, h.linked, last, ?_⟩
  · intro v hv
    unfold Semaphore.setPhase
    dsimp only
    by_cases hEq : v = u
    · rw [hEq, update_self, update_self]
    · rw [update_of_ne hEq, update_of_ne hEq]
      exact h.phase v hv
  · unfold Semaphore.setPhase
    dsimp only
    rw [update_of_ne (Ne.symm hNe)]
    exact hLast

theorem Twin.own
    (p : SemaPhase) :
    Twin t (s.setPhase t p) s' := by
  refine ⟨h.count, h.queue, ?_, h.linked, h.outside⟩
  intro u hu
  unfold Semaphore.setPhase
  dsimp only
  rw [update_of_ne hu]
  exact h.phase u hu

/- Another thread leaves both queues. -/
theorem Twin.leave
    {s₁' : Semaphore τ}
    (hNe : u ≠ t)
    (hCount : s₁.count = s.count + 1)
    (hCount' : s₁'.count = s'.count + 1)
    (hQueue : s₁.blockedThreads = s.blockedThreads.erase u)
    (hQueue' : s₁'.blockedThreads = s'.blockedThreads.erase u)
    (hSelf : s₁'.phase u = s₁.phase u ∧
      s₁'.linked u = s₁.linked u)
    (hOthers : ∀ v, v ≠ u → s₁.phase v = s.phase v ∧
      s₁.linked v = s.linked v)
    (hOthers' : ∀ v, v ≠ u → s₁'.phase v = s'.phase v ∧
      s₁'.linked v = s'.linked v) :
    Twin t s₁ s₁' := by
  have hMem :
      t ∈ s₁.blockedThreads ↔ t ∈ s.blockedThreads := by
    rw [hQueue]
    exact mem_erase_of_ne (Ne.symm hNe)
  have hEach : ∀ v, v ≠ t → s₁'.phase v = s₁.phase v ∧
      s₁'.linked v = s₁.linked v := by
    intro v hv
    by_cases hEq : v = u
    · rw [hEq]
      exact hSelf
    · rw [(hOthers v hEq).1, (hOthers v hEq).2,
        (hOthers' v hEq).1, (hOthers' v hEq).2]
      exact ⟨h.phase v hv, h.linked v hv⟩
  refine ⟨?_, ?_, fun v hv => (hEach v hv).1,
    fun v hv => (hEach v hv).2, ?_⟩
  · rw [hCount, hCount', h.count]
    simp only [hMem]
    omega
  · rw [hQueue, hQueue', h.queue]
    exact erase_comm ..
  · rw [(hOthers' t (Ne.symm hNe)).1]
    exact h.outside

theorem Twin.taken
    {s₁' : Semaphore τ}
    (hNe : u ≠ t)
    (hTaken : Taken s u s₁)
    (hTaken' : Taken s' u s₁') :
    Twin t s₁ s₁' := by
  apply h.leave hNe hTaken.count hTaken'.count hTaken.queue
    hTaken'.queue
  · rw [hTaken.signaled.1, hTaken.signaled.2,
      hTaken'.signaled.1, hTaken'.signaled.2]
    exact ⟨rfl, rfl⟩
  · intro v hv
    exact ⟨hTaken.phase v hv, hTaken.linked v hv⟩
  · intro v hv
    exact ⟨hTaken'.phase v hv, hTaken'.linked v hv⟩

end

end Twin

section Issued

variable {c : SemaConfig τ} {s s₁ s' : Semaphore τ} {t u : τ}

theorem Twin.mem_iff
    (h : Twin t s s')
    (hNe : u ≠ t) :
    u ∈ s'.blockedThreads ↔ u ∈ s.blockedThreads := by
  rw [h.queue]
  exact mem_erase_of_ne hNe

section

variable (h : Twin t s s') (hInv : SemaInv c s)
include h hInv

theorem Twin.wait
    (hNe : u ≠ t)
    (hMin : s.count ≠ -2 ^ 31)
    (waitTime : Option TvalSpec) :
    Twin t (semaphoreWaitCommon c s u waitTime)
      (semaphoreWaitCommon c s' u waitTime) := by
  have hLow := hInv.low
  have hHigh := hInv.high
  have hDiff :
      s'.count = s.count ∧ t ∉ s.blockedThreads ∨
        s'.count = s.count + 1 ∧ s.count < 0 ∧
          t ∈ s.blockedThreads := by
    by_cases hMem : t ∈ s.blockedThreads
    · right
      have hNeg := hInv.negative hMem
      have hCount := h.count
      rw [if_pos hMem] at hCount
      exact ⟨hCount, by omega, hMem⟩
    · left
      have hCount := h.count
      rw [if_neg hMem, Int.add_zero] at hCount
      exact ⟨hCount, hMem⟩
  have hEq : toInt (s.count - 1) = s.count - 1 :=
    toInt_eq (by omega) (by omega)
  have hEq' : toInt (s'.count - 1) = s'.count - 1 :=
    toInt_eq (by omega) (by omega)
  have hZero : s'.count ≤ 0 ↔ s.count ≤ 0 := by omega
  have hBlocks : s'.count - 1 < 0 ↔ s.count - 1 < 0 := by
    omega
  unfold semaphoreWaitCommon
  cases waitTicks c.hz waitTime with
  | error r => exact h.setPhase hNe _
  | ok time =>
      rw [hEq, hEq']
      simp only [hZero, hBlocks]
      split_ifs with hNow hBlock
      · exact h.setPhase hNe _
      · have hSet := h.setPhase hNe
          (.blocked (time != .forever))
        have hMem : t ∈ syncPolicyEnqueue c.policy c.priority
            s.blockedThreads u ↔ t ∈ s.blockedThreads := by
          rw [mem_enqueue]
          exact or_iff_right (Ne.symm hNe)
        refine ⟨?_, ?_, hSet.phase, ?_, hSet.outside⟩
        · rw [h.count]
          simp only [hMem]
          omega
        · rw [h.queue]
          by_cases hIn : t ∈ s.blockedThreads
          · exact (enqueue_erase hInv.sorted hIn hNe).symm
          · rw [erase_of_not_mem hIn,
              erase_of_not_mem (mt hMem.mp hIn)]
        · intro v hv
          dsimp only
          by_cases hIs : v = u
          · rw [hIs, update_self, update_self]
          · rw [update_of_ne hIs, update_of_ne hIs]
            exact h.linked v hv
      · have hSet := h.setPhase hNe (.outside (some .success))
        refine ⟨?_, hSet.queue, hSet.phase, hSet.linked,
          hSet.outside⟩
        have hCount := h.count
        unfold Semaphore.setPhase
        dsimp only
        omega

/- A signal takes the thread, or is as without it. -/
theorem Twin.signalOne
    (hOrderly : SemaOrderly s (.signal .one))
    (hStep : semaphoreSignalCommon s .one = some s₁) :
    Settled t s₁ ∨
      ∃ s₁', semaphoreSignalCommon s' .one = some s₁' ∧
        Twin t s₁ s₁' := by
  rcases signalOne_spec hInv hOrderly with
    ⟨s₂, hRun, hInv₁, hCases⟩
  rw [hRun] at hStep
  cases hStep
  rcases hCases with ⟨u, q, hQueue, hTaken⟩ | ⟨hNonneg, rfl⟩
  · by_cases hEq : u = t
    · subst hEq
      left
      refine ⟨?_, Or.inl hTaken.signaled⟩
      rw [hTaken.queue]
      exact hInv.nodup.not_mem_erase
    · right
      -- the head is the same in both queues
      have hQueue' : s'.blockedThreads = u :: q.erase t := by
        rw [h.queue, hQueue,
          erase_cons_tail (by simpa using hEq)]
      have hInv' := h.inv hInv
      have hNeg' := hInv'.negative (t := u) (by
        rw [hQueue']
        exact mem_cons_self)
      have hOrderly' : SemaOrderly s' (.signal .one) := by
        refine ⟨by omega, ?_⟩
        rw [hQueue']
        intro v hv
        cases hv
        rw [h.phase u hEq]
        apply hOrderly.2 u
        rw [hQueue]
        rfl
      rcases signalOne_spec hInv' hOrderly' with
        ⟨s₂', hRun', _, ⟨v, q', hAgain, hTaken'⟩ |
          ⟨hNonneg, _⟩⟩
      · rw [hQueue'] at hAgain
        cases hAgain
        exact ⟨s₂', hRun', h.taken hEq hTaken hTaken'⟩
      · omega
  · right
    have hNil := hInv.nil_of_nonneg hNonneg
    have hOut : t ∉ s.blockedThreads := by
      rw [hNil]
      exact not_mem_nil
    have hCount : s'.count = s.count := by
      rw [h.count, if_neg hOut, Int.add_zero]
    unfold semaphoreSignalCommon
    rw [if_pos (by omega), hCount, toInt_eq]
    · refine ⟨_, rfl, ?_, h.queue, h.phase, h.linked,
        h.outside⟩
      rw [if_neg hOut, Int.add_zero]
    · omega
    · have hHigh := hInv.high
      have hMax := hOrderly.1
      omega

theorem Twin.signalAll
    (hOrderly : SemaOrderly s (.signal .all))
    (hStep : semaphoreSignalCommon s .all = some s₁) :
    Settled t s₁ ∨
      ∃ s₁', semaphoreSignalCommon s' .all = some s₁' ∧
        Twin t s₁ s₁' := by
  rcases signalAll_spec hInv hOrderly with
    ⟨s₂, hRun, _, hZero, hAll⟩
  rw [hRun] at hStep
  cases hStep
  have hOut : t ∉ s₁.blockedThreads := by
    rw [hAll.queue]
    exact not_mem_nil
  by_cases hMem : t ∈ s.blockedThreads
  · left
    exact ⟨hOut, Or.inl (hAll.signaled t hMem)⟩
  · right
    have hSame : s'.blockedThreads = s.blockedThreads := by
      rw [h.queue, erase_of_not_mem hMem]
    have hNe : ∀ u ∈ s.blockedThreads, u ≠ t := by
      intro u hu hEq
      rw [hEq] at hu
      exact hMem hu
    have hOrderly' : SemaOrderly s' (.signal .all) := by
      intro u hu
      rw [hSame] at hu
      rw [h.phase u (hNe u hu)]
      exact hOrderly u hu
    rcases signalAll_spec (h.inv hInv) hOrderly' with
      ⟨s₂', hRun', _, hZero', hAll'⟩
    have hEach : ∀ u, u ≠ t → s₂'.phase u = s₁.phase u ∧
        s₂'.linked u = s₁.linked u := by
      intro u hu
      by_cases hIn : u ∈ s.blockedThreads
      · have hOne := hAll.signaled u hIn
        have hTwo := hAll'.signaled u (by rwa [hSame])
        rw [hOne.1, hOne.2, hTwo.1, hTwo.2]
        exact ⟨rfl, rfl⟩
      · have hOne := hAll.others u hIn
        have hTwo := hAll'.others u (by rwa [hSame])
        rw [hOne.1, hOne.2, hTwo.1, hTwo.2]
        exact ⟨h.phase u hu, h.linked u hu⟩
    refine ⟨s₂', hRun', ?_, ?_, fun u hu => (hEach u hu).1,
      fun u hu => (hEach u hu).2, ?_⟩
    · rw [hZero, hZero', if_neg hOut]
      rfl
    · rw [hAll.queue, hAll'.queue]
      rfl
    · rw [(hAll'.others t (by rwa [hSame])).1]
      exact h.outside

theorem Twin.signalThread
    (hOrderly : SemaOrderly s (.signal (.thread u)))
    (hStep :
      semaphoreSignalCommon s (.thread u) = some s₁) :
    Settled t s₁ ∨
      ∃ s₁', semaphoreSignalCommon s' (.thread u) =
          some s₁' ∧
        Twin t s₁ s₁' := by
  rcases signalThread_spec hInv hOrderly with
    ⟨s₂, hRun, _, hCases⟩
  rw [hRun] at hStep
  cases hStep
  by_cases hEq : u = t
  · subst hEq
    rcases hCases with ⟨hMem, hTaken⟩ | ⟨hOut, rfl⟩
    · left
      refine ⟨?_, Or.inl hTaken.signaled⟩
      rw [hTaken.queue]
      exact hInv.nodup.not_mem_erase
    · right
      refine ⟨s', ?_, h⟩
      unfold semaphoreSignalCommon
      dsimp only
      rw [if_neg]
      rw [h.queue, erase_of_not_mem hOut]
      exact hOut
  · right
    have hOrderly' :
        SemaOrderly s' (.signal (.thread u)) := by
      intro hu
      rw [h.phase u hEq]
      exact hOrderly ((h.mem_iff hEq).mp hu)
    rcases signalThread_spec (h.inv hInv) hOrderly' with
      ⟨s₂', hRun', _, hCases'⟩
    refine ⟨s₂', hRun', ?_⟩
    rcases hCases with ⟨hMem, hTaken⟩ | ⟨hOut, rfl⟩
    · rcases hCases' with ⟨_, hTaken'⟩ | ⟨hOut', _⟩
      · exact h.taken hEq hTaken hTaken'
      · exact absurd ((h.mem_iff hEq).mpr hMem) hOut'
    · rcases hCases' with ⟨hMem', _⟩ | ⟨_, rfl⟩
      · exact absurd ((h.mem_iff hEq).mp hMem') hOut
      · exact h

end

end Issued

section Steps

variable {c : SemaConfig τ} {s s₁ s' : Semaphore τ} {t : τ}
variable {a : SemaAction τ}

/- The thread's own steps are not taken without its wait. -/
theorem Twin.own_step
    (h : Twin t s s')
    (hInv : SemaInv c s)
    (hOf : a.isOf t = true)
    (hWait : ∀ waitTime, a ≠ .wait t waitTime)
    (hStep : semaStep c s a = some s₁) :
    Twin t s₁ s' := by
  unfold semaStep at hStep
  cases a with
  | wait u waitTime =>
      rw [beq_iff_eq.mp hOf] at hWait
      exact absurd rfl (hWait waitTime)
  | timeout u | abort u =>
      rw [beq_iff_eq.mp hOf] at hStep
      dsimp only at hStep
      split at hStep
      · cases hStep
        exact h.own _
      · cases hStep
  | test u =>
      rw [beq_iff_eq.mp hOf] at hStep
      dsimp only at hStep
      split at hStep
      · cases hStep
        unfold semaphoreTest
        split_ifs
        · exact h.own _
        · exact h.own _
      · cases hStep
  | undo u =>
      rw [beq_iff_eq.mp hOf] at hStep
      dsimp only at hStep
      split at hStep
      · rename_i r hPhase
        have hMem : t ∈ s.blockedThreads := by
          apply hInv.mem_of_waiting
          rw [hPhase]
          rfl
        rcases undo_spec hInv hPhase with
          ⟨s₂, hRun, hInv₁, hCount, hQueue, _, hLinked,
            hOthers⟩
        rw [hRun] at hStep
        cases hStep
        have hOut : t ∉ s₁.blockedThreads := by
          rw [hQueue]
          exact hInv.nodup.not_mem_erase
        refine ⟨?_, ?_, ?_, ?_, h.outside⟩
        · rw [h.count, if_pos hMem, hCount, if_neg hOut,
            Int.add_zero]
        · rw [h.queue, erase_of_not_mem hOut, hQueue]
        · intro u hu
          rw [h.phase u hu, hOthers u hu]
        · intro u hu
          rw [h.linked u hu, hLinked]
      · cases hStep
  | signal target => cases hOf

/- A step of the others, which both states take. -/
theorem Twin.other_step
    (h : Twin t s s')
    (hInv : SemaInv c s)
    (hOrderly : SemaOrderly s a)
    (hOf : a.isOf t = false)
    (hStep : semaStep c s a = some s₁) :
    Settled t s₁ ∨
      ∃ s₁', semaStep c s' a = some s₁' ∧
        Twin t s₁ s₁' := by
  unfold semaStep at hStep ⊢
  cases a with
  | wait u waitTime =>
      have hNe : u ≠ t := beq_eq_false_iff_ne.mp hOf
      dsimp only at hStep ⊢
      rw [h.phase u hNe]
      split at hStep
      · cases hStep
        exact Or.inr ⟨_, rfl, h.wait hInv hNe hOrderly waitTime⟩
      · cases hStep
  | timeout u | abort u =>
      have hNe : u ≠ t := beq_eq_false_iff_ne.mp hOf
      dsimp only at hStep ⊢
      rw [h.phase u hNe]
      split at hStep
      · cases hStep
        exact Or.inr ⟨_, rfl, h.setPhase hNe _⟩
      · cases hStep
  | test u =>
      have hNe : u ≠ t := beq_eq_false_iff_ne.mp hOf
      dsimp only at hStep ⊢
      rw [h.phase u hNe]
      split at hStep
      · cases hStep
        refine Or.inr ⟨_, rfl, ?_⟩
        unfold semaphoreTest
        rw [h.linked u hNe]
        split_ifs
        · exact h.setPhase hNe _
        · exact h.setPhase hNe _
      · cases hStep
  | undo u =>
      have hNe : u ≠ t := beq_eq_false_iff_ne.mp hOf
      dsimp only at hStep ⊢
      have hSame := h.phase u hNe
      rw [hSame]
      split at hStep
      · rename_i r hPhase
        rw [hPhase] at hSame
        rcases undo_spec hInv hPhase with
          ⟨s₂, hRun, _, hCount, hQueue, hSelf, hLinked,
            hOthers⟩
        rcases undo_spec (h.inv hInv) hSame with
          ⟨s₂', hRun', _, hCount', hQueue', hSelf', hLinked',
            hOthers'⟩
        rw [hRun] at hStep
        cases hStep
        refine Or.inr ⟨s₂', hRun', ?_⟩
        apply h.leave hNe hCount hCount' hQueue hQueue'
        · rw [hSelf, hSelf', hLinked, hLinked']
          exact ⟨rfl, h.linked u hNe⟩
        · intro v hv
          rw [hLinked]
          exact ⟨hOthers v hv, rfl⟩
        · intro v hv
          rw [hLinked']
          exact ⟨hOthers' v hv, rfl⟩
      · cases hStep
  | signal target =>
      cases target with
      | one => exact h.signalOne hInv hOrderly hStep
      | all => exact h.signalAll hInv hOrderly hStep
      | thread u => exact h.signalThread hInv hOrderly hStep

end Steps

theorem Twin.run
    {s s₁ s' : Semaphore τ}
    {as : List (SemaAction τ)}
    (h : Twin t s s')
    (hInv : SemaInv c s)
    (hWait : ∀ waitTime, .wait t waitTime ∉ as)
    (hMeets : Runs.Meets (semaStep c) SemaOrderly s as)
    (hExec : Runs.exec (semaStep c) s as = some s₁) :
    Settled t s₁ ∨
      ∃ s₁', Runs.exec (semaStep c) s'
          (as.filter fun a => !a.isOf t) = some s₁' ∧
        Twin t s₁ s₁' := by
  induction as generalizing s s' with
  | nil =>
      cases hExec
      exact Or.inr ⟨s', rfl, h⟩
  | cons a as ih =>
      rcases Runs.exec_cons.mp hExec with ⟨s₂, hStep, hRest⟩
      rcases hMeets with ⟨hOrderly, hMeets⟩
      have hInv₂ := semaStep_inv c s a s₂ hInv hOrderly hStep
      have hWaitHead : ∀ waitTime, a ≠ .wait t waitTime := by
        intro waitTime hEq
        apply hWait waitTime
        rw [← hEq]
        exact mem_cons_self
      have hWaitRest : ∀ waitTime, .wait t waitTime ∉ as :=
        fun waitTime hIn =>
          hWait waitTime (mem_cons_of_mem _ hIn)
      by_cases hOf : a.isOf t = true
      · rw [filter_cons_of_neg (by rw [hOf]; decide)]
        exact ih (h.own_step hInv hOf hWaitHead hStep) hInv₂
          hWaitRest (hMeets s₂ hStep) hRest
      · have hOther := (Bool.not_eq_true _).mp hOf
        rw [filter_cons_of_pos (by rw [hOther]; decide)]
        rcases h.other_step hInv hOrderly hOther hStep with
          hSettled | ⟨s₂', hStep', hTwin⟩
        · exact Or.inl (hSettled.run hWaitRest hRest)
        · rcases ih hTwin hInv₂ hWaitRest (hMeets s₂ hStep)
            hRest with hSettled | ⟨s₁', hExec', hEnd⟩
          · exact Or.inl hSettled
          · exact Or.inr ⟨s₁',
              Runs.exec_cons.mpr ⟨s₂', hStep', hExec'⟩, hEnd⟩

/- The wait itself: it succeeds at once, or it is apart. -/
theorem Twin.issue
    {s s₁ : Semaphore τ}
    {waitTime : Option TvalSpec}
    (hInv : SemaInv c s)
    (hMin : s.count ≠ -2 ^ 31)
    (hStep : semaStep c s (.wait t waitTime) = some s₁) :
    Settled t s₁ ∨ Twin t s₁ s := by
  unfold semaStep at hStep
  dsimp only at hStep
  split at hStep
  · rename_i last hPhase
    cases hStep
    have hLow := hInv.low
    have hHigh := hInv.high
    have hOut : t ∉ s.blockedThreads := by
      intro hMem
      have hWaiting := (hInv.queued t hMem).2
      rw [hPhase] at hWaiting
      cases hWaiting
    have hCount : toInt (s.count - 1) = s.count - 1 :=
      toInt_eq (by omega) (by omega)
    have hSame : Twin t s s :=
      ⟨by rw [if_neg hOut, Int.add_zero],
        (erase_of_not_mem hOut).symm, fun _ _ => rfl,
        fun _ _ => rfl, last, hPhase⟩
    unfold semaphoreWaitCommon
    cases waitTicks c.hz waitTime with
    | error r => exact Or.inr (hSame.own _)
    | ok time =>
        dsimp only
        split_ifs with hNow hBlocks
        · exact Or.inr (hSame.own _)
        · right
          have hMem : t ∈ syncPolicyEnqueue c.policy
              c.priority s.blockedThreads t :=
            mem_enqueue.mpr (Or.inl rfl)
          refine ⟨?_, (erase_enqueue hOut).symm,
            (hSame.own _).phase, ?_, last, hPhase⟩
          · dsimp only
            rw [if_pos hMem, hCount]
            omega
          · intro u hu
            exact (update_of_ne hu ..).symm
        · left
          exact ⟨hOut, Or.inr ⟨.success, update_self .., rfl⟩⟩
  · cases hStep

------
-- Conservation
------

/-
  A thread that has returned successfully, or does so with
  its next step.
-/
def ReturnsSuccess
    (c : SemaConfig τ)
    (t : τ)
    (s : Semaphore τ) : Prop :=
  ∃ r : SemaReturn, r.isSuccess = true ∧
    (s.phase t = .outside (some r) ∨
      ∃ s', semaStep c s (.test t) = some s' ∧
        s'.phase t = .outside (some r))

theorem Settled.returns
    {s : Semaphore τ}
    (h : Settled t s) :
    ReturnsSuccess c t s := by
  rcases h.success with ⟨hPhase, hLinked⟩ | ⟨r, hPhase, hr⟩
  · refine ⟨.waitResult .success, rfl, Or.inr ?_⟩
    unfold semaStep semaphoreTest
    dsimp only
    rw [hPhase, hLinked]
    exact ⟨_, rfl, update_self ..⟩
  · exact ⟨r, hr, Or.inl hPhase⟩

/- A wait that ended without success was never there. -/
theorem unissued
    {s₀ s : Semaphore τ}
    {pre mid : List (SemaAction τ)}
    {waitTime : Option TvalSpec}
    {r : SemaReturn}
    (hInv : SemaInv c s₀)
    (hMeets :
      Runs.Meets (semaStep c) SemaOrderly s₀
        (pre ++ .wait t waitTime :: mid))
    (hExec :
      Runs.exec (semaStep c) s₀
        (pre ++ .wait t waitTime :: mid) = some s)
    (hWait : ∀ waitTime, .wait t waitTime ∉ mid)
    (hPhase : s.phase t = .outside (some r))
    (hFailed : r.isSuccess = false) :
    ∃ s', Runs.exec (semaStep c) s₀
        (pre ++ mid.filter fun a => !a.isOf t) = some s' ∧
      s'.count = s.count ∧
      s'.blockedThreads = s.blockedThreads := by
  have hNot : ¬ Settled t s := by
    rintro ⟨_, ⟨hWoken, _⟩ | ⟨r', hPhase', hSuccess⟩⟩
    · rw [hPhase] at hWoken
      cases hWoken
    · rw [hPhase] at hPhase'
      cases hPhase'
      rw [hFailed] at hSuccess
      cases hSuccess
  rcases Runs.exec_append.mp hExec with ⟨s₁, hPre, hRest⟩
  rcases Runs.meets_append hMeets hPre with
    ⟨hMeetsPre, hMin, hMeetsMid⟩
  rcases Runs.exec_cons.mp hRest with ⟨s₂, hIssue, hMid⟩
  have hInv₁ := Runs.exec_invariant (semaStep_inv c) hInv
    hMeetsPre hPre
  have hInv₂ := semaStep_inv c s₁ _ s₂ hInv₁ hMin hIssue
  have hInvEnd := Runs.exec_invariant (semaStep_inv c) hInv₂
    (hMeetsMid s₂ hIssue) hMid
  rcases Twin.issue hInv₁ hMin hIssue with hSettled | hTwin
  · exact absurd (hSettled.run hWait hMid) hNot
  · rcases hTwin.run hInv₂ hWait (hMeetsMid s₂ hIssue) hMid
      with hSettled | ⟨s', hExec', hEnd⟩
    · exact absurd hSettled hNot
    · have hOut : t ∉ s.blockedThreads := by
        intro hMem
        have hWaiting := (hInvEnd.queued t hMem).2
        rw [hPhase] at hWaiting
        cases hWaiting
      refine ⟨s', Runs.exec_append.mpr ⟨s₁, hPre, hExec'⟩,
        ?_, ?_⟩
      · rw [hEnd.count, if_neg hOut, Int.add_zero]
      · rw [hEnd.queue, erase_of_not_mem hOut]

/-
  What holds in every state that is reached by steps whose
  signals take off threads that still wait: the count tells
  how many threads are in the queue; a signal wakes one of
  them, which then returns successfully, or adds to the
  count; and a wait that has failed left no trace.
-/
theorem semaphore_conservation
    (c : SemaConfig τ)
    {value : Int}
    {as : List (SemaAction τ)}
    {s : Semaphore τ}
    (hLow : 0 ≤ value)
    (hHigh : value < 2 ^ 31)
    (hMeets :
      Runs.Meets (semaStep c) SemaOrderly
        (semaphoreCreate τ value) as)
    (hExec :
      Runs.exec (semaStep c) (semaphoreCreate τ value) as =
        some s) :
    max 0 (-s.count) = s.blockedThreads.length ∧
    (SemaOrderly s (.signal .one) →
      ∃ s', semaStep c s (.signal .one) = some s' ∧
        ((∃ t ∈ s.blockedThreads, Taken s t s' ∧
          ∀ bs s₂,
            (∀ waitTime, .wait t waitTime ∉ bs) →
            Runs.exec (semaStep c) s' bs = some s₂ →
            ReturnsSuccess c t s₂) ∨
          0 ≤ s.count ∧
            s' = { s with count := s.count + 1 })) ∧
    (∀ pre t waitTime mid r,
      as = pre ++ .wait t waitTime :: mid →
      (∀ waitTime, .wait t waitTime ∉ mid) →
      s.phase t = .outside (some r) →
      r.isSuccess = false →
      ∃ s', Runs.exec (semaStep c) (semaphoreCreate τ value)
          (pre ++ mid.filter fun a => !a.isOf t) = some s' ∧
        s'.count = s.count ∧
        s'.blockedThreads = s.blockedThreads) := by
  have hStart := semaphoreCreate_inv c hLow hHigh
  have hInv := Runs.exec_invariant (semaStep_inv c) hStart
    hMeets hExec
  refine ⟨hInv.conserved, ?_, ?_⟩
  · intro hOrderly
    rcases signalOne_spec hInv hOrderly with
      ⟨s', hRun, _, ⟨t, q, hQueue, hTaken⟩ | hRaised⟩
    · refine ⟨s', hRun, Or.inl ⟨t, ?_, hTaken, ?_⟩⟩
      · rw [hQueue]
        exact mem_cons_self
      · intro bs s₂ hWait hExec₂
        have hSettled : Settled t s' := by
          refine ⟨?_, Or.inl hTaken.signaled⟩
          rw [hTaken.queue]
          exact hInv.nodup.not_mem_erase
        exact (hSettled.run hWait hExec₂).returns
    · exact ⟨s', hRun, Or.inr hRaised⟩
  · intro pre t waitTime mid r hEq hWait hPhase hFailed
    subst hEq
    exact unissued hStart hMeets hExec hWait hPhase hFailed

/- Threads in the order in which they wait. -/
def fifoConfig : SemaConfig Nat :=
  { policy := .fifo, priority := fun _ => 0, hz := 100 }

/- The first of two threads gives up. -/
theorem semaphore_conservation_abort :
    ∃ s, Runs.exec (semaStep fifoConfig)
        (semaphoreCreate Nat 0)
        [.wait 1 none, .wait 2 none, .abort 1, .test 1,
          .undo 1] = some s ∧
      s.blockedThreads = [2] ∧
      max 0 (-s.count) = s.blockedThreads.length ∧
      ∃ s', Runs.exec (semaStep fifoConfig)
          (semaphoreCreate Nat 0) [.wait 2 none] = some s' ∧
        s'.count = s.count ∧
        s'.blockedThreads = s.blockedThreads := by
  have hMeets : Runs.Meets (semaStep fifoConfig) SemaOrderly
      (semaphoreCreate Nat 0)
      [.wait 1 none, .wait 2 none, .abort 1, .test 1,
        .undo 1] := by
    refine ⟨show (0 : Int) ≠ -2 ^ 31 by decide,
      fun s hs => ?_⟩
    cases hs
    refine ⟨show (-1 : Int) ≠ -2 ^ 31 by decide,
      fun s hs => ?_⟩
    cases hs
    refine ⟨trivial, fun s hs => ?_⟩
    cases hs
    refine ⟨trivial, fun s hs => ?_⟩
    cases hs
    exact ⟨trivial, fun s hs => trivial⟩
  have hAll := semaphore_conservation fifoConfig
    (Int.le_refl 0) (by decide) hMeets rfl
  exact ⟨_, rfl, rfl, hAll.1, hAll.2.2 [] 1 none
    [.wait 2 none, .abort 1, .test 1, .undo 1] .aborted rfl
    (fun waitTime => by simp) rfl rfl⟩

/-
  A signal that takes off a thread an abort has woken, before
  that thread takes itself off: nobody returns successfully.
-/
theorem semaphore_signal_lost :
    ∃ s s₁ s₂, Runs.exec (semaStep fifoConfig)
        (semaphoreCreate Nat 0)
        [.wait 1 none, .abort 1] = some s ∧
      s.count = -1 ∧ s.blockedThreads = [1] ∧
      semaStep fifoConfig s (.signal .one) = some s₁ ∧
      s₁.count = 0 ∧ s₁.blockedThreads = [] ∧
      semaStep fifoConfig s₁ (.test 1) = some s₂ ∧
      s₂.phase 1 =
        .outside (some (.waitResult .interrupted)) :=
  ⟨_, _, _, rfl, rfl, rfl, rfl, rfl, rfl, rfl, rfl⟩

end Kern

end OsfMach
