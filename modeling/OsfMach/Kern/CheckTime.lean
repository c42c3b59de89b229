import OsfMach.Kern.Clock
import Mathlib.Algebra.Group.Int.Defs

/-
  The check of a time against a clock's, in nanoseconds.

  A relative time is replaced by its sum with the time of the
  clock, the seconds of which have 32 bits.

  Main declarations:
    * `Tvalspec.Normal`, `TimesRight`
    * `checkTime_right_iff`
-/

------
-- Times in Nanoseconds
------

namespace OsfMach

namespace Kern

def Tvalspec.nsecs (t : Tvalspec) : Int :=
  t.tvSec * nsecPerSec + t.tvNsec

structure Tvalspec.Normal (t : Tvalspec) : Prop where
  sec : t.tvSec < 2 ^ 32
  nonneg : 0 ≤ t.tvNsec
  lt : t.tvNsec < nsecPerSec

section Times

variable {t u : Tvalspec} (ht : t.Normal) (hu : u.Normal)
include ht hu

theorem cmpTvalspec_sign :
    (cmpTvalspec t u).sign = (t.nsecs - u.nsecs).sign := by
  rcases ht with ⟨_, ht, ht'⟩
  rcases hu with ⟨_, hu, hu'⟩
  unfold cmpTvalspec Tvalspec.nsecs
  unfold nsecPerSec at *
  split_ifs with hLt hGt
  · rw [Int.sign_one, Int.sign_eq_one_of_pos (by omega)]
  · rw [Int.sign_neg_one, Int.sign_eq_neg_one_of_neg (by omega)]
  · congr 1
    omega

/- The sum is right as long as its seconds do not wrap. -/
theorem addTvalspec_nsecs :
    (addTvalspec t u).Normal ∧
      ((addTvalspec t u).nsecs = u.nsecs + t.nsecs ↔
        u.nsecs + t.nsecs < 2 ^ 32 * nsecPerSec) := by
  rcases ht with ⟨ht, ht', ht''⟩
  rcases hu with ⟨hu, hu', hu''⟩
  unfold addTvalspec Tvalspec.nsecs
  split_ifs with hCarry
  all_goals
    refine ⟨⟨?_, ?_, ?_⟩, ?_⟩
    all_goals
      unfold nsecPerSec at *
      dsimp only
      omega

end Times

------
-- Checks
------

/-
  What the check is for. A relative time is replaced by an
  absolute one, and who asks for one that is not zero sleeps;
  an absolute time is compared with that of the clock.
-/
structure TimesRight
    (τ : Type)
    [DecidableEq τ]
    (hasSetalrm : Nat → Bool)
    (alarmType : BitVec 32)
    (time now : Tvalspec) : Prop where
  relative : alarmType &&& 0xff#32 = 1#32 →
    let r := checkTime alarmType time now
    r.2.Normal ∧ r.2.nsecs = now.nsecs + time.nsecs ∧
      (0 < r.1 ↔ 0 < time.nsecs)
  absolute : alarmType &&& 0xff#32 = 0#32 →
    (checkTime alarmType time now).1.sign =
      (time.nsecs - now.nsecs).sign
  -- sums and differences of nanoseconds are an `int`
  fits : time.tvNsec + now.tvNsec < 2 ^ 31 ∧
    ((checkTime alarmType time now).2.tvNsec -
      now.tvNsec).natAbs < 2 ^ 31
  waits : alarmType &&& 0xff#32 = 1#32 → 0 < time.nsecs →
    ∀ (s : Clocks τ) t clock, clock ≠ 0 →
      hasSetalrm clock = true →
      s.clockSleep hasSetalrm t clock alarmType time now =
        s.getAlarm t clock
          (.sleep (checkTime alarmType time now).2)

section Checks

variable {τ : Type} [DecidableEq τ]
variable {hasSetalrm : Nat → Bool}
variable {alarmType : BitVec 32} {time now : Tvalspec}

/- `checkTime` for the two types of times. -/
theorem checkTime_good
    (ht : time.Normal)
    {b : BitVec 32}
    (hType : alarmType &&& 0xff#32 = b)
    (hb : b &&& 0xfe#32 = 0#32) :
    checkTime alarmType time now =
      let r :=
        if b = 1#32 then addTvalspec time now else time
      (cmpTvalspec r now, r) := by
  have hGood : badAlrmtype alarmType = false := by
    unfold badAlrmtype
    rw [show (0xfe#32) = 0xff#32 &&& 0xfe#32 from rfl,
      ← BitVec.and_assoc, hType, hb]
    rfl
  have hTime : badTvalspec time = false := by
    simp [badTvalspec, ht.nonneg, ht.lt]
  simp [checkTime, hGood, hTime, hType]

theorem checkTime_normal
    (alarmType : BitVec 32)
    (ht : time.Normal)
    (hn : now.Normal) :
    (checkTime alarmType time now).2.Normal := by
  unfold checkTime
  dsimp only
  split_ifs
  · exact ht
  · exact ht
  · exact (addTvalspec_nsecs ht hn).1
  · exact ht

/-
  Every check is right but those of relative times that come
  after the last second of a clock.
-/
theorem checkTime_right_iff
    (hTime : time.Normal)
    (hNow : now.Normal) :
    TimesRight τ hasSetalrm alarmType time now ↔
      (alarmType &&& 0xff#32 = 1#32 →
        now.nsecs + time.nsecs < 2 ^ 32 * nsecPerSec) := by
  have hAdd := addTvalspec_nsecs hTime hNow
  have hNormal := checkTime_normal alarmType hTime hNow
  refine ⟨fun h hType => ?_, fun hFits => ?_⟩
  · have hSum := (h.relative hType).2.1
    rw [checkTime_good hTime hType (by decide)] at hSum
    exact hAdd.2.mp hSum
  · have hRelative : alarmType &&& 0xff#32 = 1#32 →
        let r := checkTime alarmType time now
        r.2.Normal ∧ r.2.nsecs = now.nsecs + time.nsecs ∧
          (0 < r.1 ↔ 0 < time.nsecs) := by
      intro hType
      rw [checkTime_good hTime hType (by decide)]
      have hSum := hAdd.2.mpr (hFits hType)
      have hSign := cmpTvalspec_sign hAdd.1 hNow
      rw [hSum, show now.nsecs + time.nsecs - now.nsecs =
        time.nsecs by omega] at hSign
      refine ⟨hAdd.1, hSum, ?_⟩
      rw [← Int.sign_eq_one_iff_pos, ← Int.sign_eq_one_iff_pos]
      exact iff_of_eq (congrArg (· = 1) hSign)
    refine ⟨hRelative, fun hType => ?_, ?_, ?_⟩
    · rw [checkTime_good hTime hType (by decide)]
      exact cmpTvalspec_sign hTime hNow
    · rcases hNormal with ⟨_, hr, hr'⟩
      rcases hTime with ⟨_, ht, ht'⟩
      rcases hNow with ⟨_, hn, hn'⟩
      unfold nsecPerSec at *
      exact ⟨by omega, by omega⟩
    · intro hType hPos s t clock hClock hAlarm
      have hLater := (hRelative hType).2.2.mpr hPos
      simp [Clocks.clockSleep, hClock, hAlarm, hLater,
        Int.not_lt.mpr (Int.le_of_lt hLater)]

theorem checkTime_right_iff_minute :
    TimesRight Nat (fun _ => true) 1#32 ⟨60, 0⟩ ⟨5, 0⟩ :=
  (checkTime_right_iff ⟨by decide, by decide, by decide⟩
    ⟨by decide, by decide, by decide⟩).mpr
    fun _ => by decide

end Checks

end Kern

end OsfMach
