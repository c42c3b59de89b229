import OsfMach.Kern.SemaphoreRuns

/-
  How long a timed wait is.

  The seconds and the rate of the clock are multiplied in 32
  bits, and the nanoseconds are divided away.

  Main declarations:
    * `semaphoreTimedwait`
    * `TimedWait`, `Served`
    * `waitTicks_eq`
    * `semaphoreTimedwait_iff`
-/

------
-- Ticks
------

namespace OsfMach

namespace Kern

open Function

variable {w : WaitTime}

/- A time that `BAD_TVALSPEC` does not refuse. -/
structure TvalSpec.Valid (time : TvalSpec) : Prop where
  sec : time.tvSec < 2 ^ 32
  pos : 0 ≤ time.tvNsec
  nsec : time.tvNsec < 1000000000

/- The time in ticks, of which the last may be cut short. -/
def requestedTicks (hz : Nat) (time : TvalSpec) : Int :=
  (time.tvSec * 1000000000 + time.tvNsec) * hz / 1000000000

variable {hz : Nat} {time : TvalSpec}

theorem toInt_emod (x : Int) :
    toInt x % 2 ^ 32 = x % 2 ^ 32 := by
  exact Int.bmod_emod

theorem toInt_range (x : Int) :
    -2 ^ 31 ≤ toInt x ∧ toInt x < 2 ^ 31 := by
  unfold toInt
  have hLow := @Int.le_bmod x (2 ^ 32) (by decide)
  have hHigh := @Int.bmod_lt x (2 ^ 32) (by decide)
  omega

theorem toInt_toInt (x : Int) :
    toInt (toInt x) = toInt x :=
  toInt_eq (toInt_range x).1 (toInt_range x).2

/- The nanoseconds add nothing to the product. -/
theorem waitTicks_eq
    (hValid : time.Valid) :
    waitTicks hz (some time) =
      if (time.tvSec * hz : Int) % 2 ^ 32 < time.tvSec then
        .ok .forever
      else if toInt (time.tvSec * hz) = 0 then
        .error .operationTimedOut
      else .ok (.ticks (toInt (time.tvSec * hz))) := by
  have hGood :
      ¬ (time.tvNsec < 0 ∨ 1000000000 ≤ time.tvNsec) := by
    have hPos := hValid.pos
    have hLt := hValid.nsec
    omega
  have hNone : time.tvNsec / 1000000000 = 0 :=
    Int.ediv_eq_zero_of_lt hValid.pos hValid.nsec
  unfold waitTicks
  dsimp only
  rw [if_neg hGood, toInt_emod, hNone, Int.zero_ediv,
    Int.add_zero, toInt_toInt, if_neg (Int.lt_irrefl _)]

/- A product of the type `int` is not taken for a wrapped one. -/
theorem waitTicks_small
    (hValid : time.Valid)
    (hHz : 0 < hz)
    (hSmall : time.tvSec * hz < 2 ^ 31) :
    waitTicks hz (some time) =
      if time.tvSec = 0 then .error .operationTimedOut
      else .ok (.ticks (time.tvSec * hz)) := by
  have hLe : time.tvSec ≤ time.tvSec * hz :=
    Nat.le_mul_of_pos_right _ hHz
  have hInt : toInt (time.tvSec * hz) = time.tvSec * hz :=
    toInt_eq (by omega) (by omega)
  have hNot :
      ¬ (time.tvSec * hz : Int) % 2 ^ 32 < time.tvSec := by
    omega
  rw [waitTicks_eq hValid, if_neg hNot, hInt]
  by_cases hZero : time.tvSec = 0
  · rw [if_pos hZero, if_pos (by rw [hZero]; simp)]
  · have hPos : (time.tvSec * hz : Int) ≠ 0 := by
      omega
    rw [if_neg hZero, if_neg hPos]

/- A larger one is, if what is left of it is small enough. -/
theorem waitTicks_large
    (hValid : time.Valid)
    (hLarge : 2 ^ 31 ≤ time.tvSec * hz) :
    waitTicks hz (some time) =
      if time.tvSec * hz % 2 ^ 32 < time.tvSec then
        .ok .forever
      else .ok (.ticks (toInt (time.tvSec * hz))) := by
  rw [waitTicks_eq hValid]
  have hPos : 0 < time.tvSec := by
    rcases Nat.eq_zero_or_pos time.tvSec with hZero | hPos
    · rw [hZero] at hLarge
      omega
    · exact hPos
  by_cases hWrap : time.tvSec * hz % 2 ^ 32 < time.tvSec
  · rw [if_pos hWrap, if_pos (by exact_mod_cast hWrap)]
  · have hSome : toInt (time.tvSec * hz) ≠ 0 := by
      intro hZero
      have hMod := toInt_emod (time.tvSec * hz)
      omega
    rw [if_neg hWrap, if_neg (by exact_mod_cast hWrap),
      if_neg hSome]

------
-- Timed Waits
------

variable {τ : Type} [DecidableEq τ]
variable {c : SemaConfig τ} {s : Semaphore τ} {t : τ}

def semaphoreTimedwait
    (c : SemaConfig τ)
    (s : Semaphore τ)
    (t : τ)
    (waitTime : TvalSpec) : Semaphore τ :=
  semaphoreWaitCommon c s t (some waitTime)

/-
  A count that is there is taken at once. Without one, the
  thread waits for the time or more, or for ever where the
  product is no `int`; not to wait is a time of no ticks.
-/
def TimedWait
    (c : SemaConfig τ)
    (s s' : Semaphore τ)
    (t : τ)
    (time : TvalSpec) : Prop :=
  (0 < s.count →
    s'.phase t = .outside (some .success) ∧
      s'.count = s.count - 1) ∧
  (s.count ≤ 0 →
    (∃ n, waitTicks c.hz (some time) = .ok (.ticks n) ∧
        s'.phase t = .blocked true ∧
        requestedTicks c.hz time ≤ n) ∨
      (s'.phase t = .blocked false ∧
        2 ^ 31 ≤ time.tvSec * c.hz) ∨
      (s'.phase t = .outside (some .operationTimedOut) ∧
        requestedTicks c.hz time ≤ 0))

/-
  When a wait is served: a count is not left alone for want
  of a whole second, the nanoseconds are less than a tick,
  and a product that wrapped shows it.
-/
def Served
    (hz : Nat)
    (count : Int)
    (time : TvalSpec) : Prop :=
  if 0 < count then 0 < time.tvSec
  else
    (time.tvSec = 0 ∨ count ≠ -2 ^ 31) ∧
      if time.tvSec * hz < 2 ^ 31 then
        time.tvNsec * hz < 1000000000
      else time.tvSec * hz % 2 ^ 32 < time.tvSec

theorem requestedTicks_eq :
    requestedTicks hz time =
      time.tvSec * hz + time.tvNsec * hz / 1000000000 := by
  unfold requestedTicks
  rw [Int.add_mul, Int.mul_right_comm,
    Int.add_comm, Int.add_mul_ediv_right _ _ (by decide),
    Int.add_comm]

/- What the source does with the ticks that it computed. -/
theorem semaphoreTimedwait_error
    {r : SemaReturn}
    (hTicks : waitTicks c.hz (some time) = .error r) :
    semaphoreTimedwait c s t time =
      s.setPhase t (.outside (some r)) := by
  unfold semaphoreTimedwait semaphoreWaitCommon
  rw [hTicks]

theorem semaphoreTimedwait_phase
    (hTicks : waitTicks c.hz (some time) = .ok w)
    (hNone : w ≠ .ticks 0) :
    (semaphoreTimedwait c s t time).count =
        toInt (s.count - 1) ∧
      (semaphoreTimedwait c s t time).phase t =
        if toInt (s.count - 1) < 0 then
          .blocked (w != .forever)
        else .outside (some .success) := by
  unfold semaphoreTimedwait semaphoreWaitCommon
  rw [hTicks]
  dsimp only
  rw [if_neg (fun h => hNone h.1)]
  split
  · exact ⟨rfl, update_self _ _ _⟩
  · exact ⟨rfl, update_self _ _ _⟩

/- The ticks are never none where they are not refused. -/
theorem waitTicks_ne
    (hValid : time.Valid)
    (hTicks : waitTicks hz (some time) = .ok w) :
    w ≠ .ticks 0 := by
  rw [waitTicks_eq hValid] at hTicks
  split_ifs at hTicks with hWrap hZero
  · cases hTicks
    simp
  · cases hTicks
    simpa using hZero

theorem requestedTicks_le_iff
    (hz : Nat)
    (time : TvalSpec) :
    requestedTicks hz time ≤ time.tvSec * hz ↔
      time.tvNsec * hz < 1000000000 := by
  rw [requestedTicks_eq]
  omega

/- A call that is refused, as it would wait for no ticks. -/
theorem timedWait_error
    (hTicks :
      waitTicks c.hz (some time) = .error .operationTimedOut) :
    TimedWait c s (semaphoreTimedwait c s t time) t time ↔
      ¬ 0 < s.count ∧ requestedTicks c.hz time ≤ 0 := by
  have hPhase :
      (semaphoreTimedwait c s t time).phase t =
        .outside (some .operationTimedOut) := by
    rw [semaphoreTimedwait_error hTicks]
    exact update_self _ _ _
  unfold TimedWait
  rw [hPhase, hTicks]
  by_cases hCount : 0 < s.count
  · simp [hCount]
  · simp [hCount, Int.not_lt.mp hCount]

/- A call that decrements the count. The least one wraps. -/
theorem timedWait_ok
    (hTicks : waitTicks c.hz (some time) = .ok w)
    (hNone : w ≠ .ticks 0)
    (hLow : -2 ^ 31 ≤ s.count)
    (hHigh : s.count < 2 ^ 31) :
    TimedWait c s (semaphoreTimedwait c s t time) t time ↔
      0 < s.count ∨
        s.count ≠ -2 ^ 31 ∧
          match w with
          | .forever => 2 ^ 31 ≤ time.tvSec * c.hz
          | .ticks n => requestedTicks c.hz time ≤ n := by
  rcases semaphoreTimedwait_phase (s := s) (t := t) hTicks
    hNone with ⟨hLess, hPhase⟩
  unfold TimedWait
  rw [hLess, hPhase, hTicks]
  by_cases hLeast : s.count = -2147483648
  · have hWrap : toInt (-2147483649) = 2147483647 := by decide
    simp [hLeast, hWrap]
  rw [toInt_eq (by omega) (by omega)]
  by_cases hCount : 0 < s.count
  · have hNot : ¬ s.count - 1 < 0 := by omega
    simp [hCount, hNot, Int.not_le.mpr hCount]
  · have hNeg : s.count - 1 < 0 := by omega
    have hLe := Int.not_lt.mp hCount
    cases w with
    | forever | ticks n => simp [hCount, hLe, hNeg, hLeast]

/- Timed waits honour the time and the count when served. -/
theorem semaphoreTimedwait_iff
    (c : SemaConfig τ)
    (s : Semaphore τ)
    (t : τ)
    (time : TvalSpec)
    (hValid : time.Valid)
    (hHz : 0 < c.hz)
    (hLow : -2 ^ 31 ≤ s.count)
    (hHigh : s.count < 2 ^ 31) :
    TimedWait c s (semaphoreTimedwait c s t time) t time ↔
      Served c.hz s.count time := by
  have hIff := requestedTicks_le_iff c.hz time
  unfold Served
  by_cases hSmall : time.tvSec * c.hz < 2 ^ 31
  · have hTicks := waitTicks_small hValid hHz hSmall
    by_cases hZero : time.tvSec = 0
    · rw [if_pos hZero] at hTicks
      rw [timedWait_error hTicks]
      simp [hZero, ← hIff]
    · rw [if_neg hZero] at hTicks
      rw [timedWait_ok hTicks (waitTicks_ne hValid hTicks) hLow
        hHigh]
      dsimp only
      rw [hIff, if_pos hSmall]
      split_ifs with hCount
      · simp [hCount, Nat.pos_of_ne_zero hZero]
      · simp [hCount, hZero]
  · have hLarge := Nat.le_of_not_lt hSmall
    have hTicks := waitTicks_large hValid hLarge
    have hZero : time.tvSec ≠ 0 := by
      intro hZero
      rw [hZero] at hSmall
      simp at hSmall
    have hRange := (toInt_range (time.tvSec * c.hz)).2
    have hMore : ¬ requestedTicks c.hz time ≤
        toInt (time.tvSec * c.hz) := by
      have hPos : 0 ≤ time.tvNsec * c.hz :=
        Int.mul_nonneg hValid.pos (Int.natCast_nonneg _)
      rw [requestedTicks_eq]
      omega
    rw [if_neg hSmall]
    split_ifs at hTicks with hWrap
    all_goals
      rw [timedWait_ok hTicks (waitTicks_ne hValid hTicks) hLow
        hHigh]
      by_cases hCount : 0 < s.count
    · simp [hCount, Nat.pos_of_ne_zero hZero]
    · rw [eq_true hLarge, eq_true hWrap]
      simp [hCount, hZero]
    · simp [hCount, Nat.pos_of_ne_zero hZero]
    · dsimp only
      rw [eq_false hMore, eq_false hWrap]
      simp [hCount]

/- A semaphore that is there, and half a second to wait. -/
def halfSecond : TvalSpec := ⟨0, 500000000⟩

def oneCount : Semaphore Nat := semaphoreCreate Nat 1

def hundredHz : SemaConfig Nat := ⟨.fifo, fun _ => 0, 100⟩

theorem semaphoreTimedwait_iff_two :
    halfSecond.Valid ∧
      (TimedWait hundredHz oneCount
          (semaphoreTimedwait hundredHz oneCount 7 ⟨2, 0⟩) 7
          ⟨2, 0⟩ ↔ Served 100 1 ⟨2, 0⟩) :=
  ⟨⟨by decide, by decide, by decide⟩,
    semaphoreTimedwait_iff hundredHz oneCount 7 ⟨2, 0⟩
      ⟨by decide, by decide, by decide⟩ (by decide)
      (by decide) (by decide)⟩

/- It is not taken, and the call times out. -/
theorem semaphoreTimedwait_not_served :
    halfSecond.Valid ∧ 0 < oneCount.count ∧
      (semaphoreTimedwait hundredHz oneCount 7 halfSecond).phase
          7 = .outside (some .operationTimedOut) ∧
      ¬ TimedWait hundredHz oneCount
        (semaphoreTimedwait hundredHz oneCount 7 halfSecond) 7
        halfSecond := by
  have hPhase :
      (semaphoreTimedwait hundredHz oneCount 7 halfSecond).phase
          7 = .outside (some .operationTimedOut) := by
    decide
  refine ⟨⟨by decide, by decide, by decide⟩, by decide, hPhase,
    fun hWait => ?_⟩
  have hTaken := (hWait.1 (by decide)).1
  cases hTaken

end Kern

end OsfMach
