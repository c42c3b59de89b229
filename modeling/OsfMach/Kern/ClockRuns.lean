import OsfMach.Kern.ClockLoops

/-
  Runs of the sections of `kern/clock.c`.

  Main declarations:
    * `Orderly`
    * `AlarmsKept`, `LeavesByOwn`
    * `clockStep_in`
    * `alarms_kept_iff`
-/

------
-- Calls that Wait for an Alarm
------

namespace OsfMach

namespace Kern

open Function
open Lib.Cells
open Lib.Runs

variable {τ : Type} [DecidableEq τ] {s s' : Clocks τ} {t : τ}
variable {c a : Nat} {posting : Posting}
variable {hasSetalrm : Nat → Bool} {act : ClockAction τ}

/- The port of an alarm was checked before it is posted. -/
def PostingOk (posting : Posting) : Prop :=
  ∀ alarmType time port portType,
    posting = .alarm alarmType time port portType →
      ipValid port = true

def PortsChecked (s : Clocks τ) : Prop :=
  ∀ t c posting, s.phase t = .allocating c posting →
    PostingOk posting

/- No call starts to wait for the zone. -/
def NoneWaits (s s' : Clocks τ) : Prop :=
  ∀ t c posting, s'.phase t = .allocating c posting →
    s.phase t = .allocating c posting

omit [DecidableEq τ] in
theorem PortsChecked.none
    (h : PortsChecked s)
    (hNone : NoneWaits s s') :
    PortsChecked s' :=
  fun t c posting hPhase =>
    h t c posting (hNone t c posting hPhase)

omit [DecidableEq τ] in
theorem NoneWaits.of_eq
    (h : s'.phase = s.phase) :
    NoneWaits s s' := by
  intro t c posting hPhase
  rw [h] at hPhase
  exact hPhase

omit [DecidableEq τ] in
theorem NoneWaits.trans
    {u : Clocks τ}
    (h : NoneWaits s s')
    (h' : NoneWaits s' u) :
    NoneWaits s u :=
  fun t c posting hPhase =>
    h t c posting (h' t c posting hPhase)

theorem NoneWaits.setPhase
    {p : CallPhase}
    (hNew : ∀ c posting, p ≠ .allocating c posting)
    (hPhase : s'.phase = s.phase) :
    NoneWaits s (s'.setPhase t p) := by
  intro u c posting hu
  rw [Clocks.setPhase_phase] at hu
  split at hu
  · exact absurd hu (hNew c posting)
  · rw [hPhase] at hu
    exact hu

omit [DecidableEq τ] in
theorem postAlarm_phase
    (h : s.postAlarm c a = some s') :
    s'.phase = s.phase := by
  simp only [Clocks.postAlarm, Option.bind_eq_bind,
    Option.bind_eq_some_iff, Option.some.injEq] at h
  rcases h with ⟨_, _, hEq⟩
  rw [← hEq]

theorem post_none
    (h : s.post t c posting a = some s') :
    NoneWaits s s' := by
  cases posting with
  | alarm alarmType time port portType | sleep time =>
      simp only [Clocks.post, Option.bind_eq_bind,
        Option.bind_eq_some_iff, Option.some.injEq] at h
      rcases h with ⟨u, hPost, hEq⟩
      have hPhase := postAlarm_phase hPost
      rw [← hEq]
      exact NoneWaits.setPhase (by simp) hPhase

/- A call that finds no free alarm waits with its posting. -/
theorem getAlarm_ports
    (h : PortsChecked s)
    (hPosting : PostingOk posting)
    (hRun : s.getAlarm t c posting = some s') :
    PortsChecked s' := by
  unfold Clocks.getAlarm at hRun
  split at hRun
  · cases hRun
    intro u d p hu
    rw [Clocks.setPhase_phase] at hu
    split at hu
    · cases hu
      exact hPosting
    · exact h u d p hu
  · have hNone := post_none hRun
    exact h.none (fun u d p hu => hNone u d p hu)

omit [DecidableEq τ] in
theorem wake_none :
    NoneWaits s (s.wake a) := by
  intro u d p hu
  unfold Clocks.wake at hu
  dsimp only at hu
  split at hu
  · simp at hu
  · exact hu

omit [DecidableEq τ] in
theorem takeFirst_none
    {expired : Option Tvalspec} :
    NoneWaits s (s.takeFirst c a expired) := by
  have hPush : ∀ u : Clocks τ,
      (u.pushDone a).phase = u.phase := by
    intro u
    unfold Clocks.pushDone
    dsimp only
    split <;> rfl
  unfold Clocks.takeFirst
  dsimp only
  split
  · cases expired with
    | none => exact wake_none
    | some now => exact wake_none
  · cases expired with
    | none | some now => exact NoneWaits.of_eq (hPush _)

omit [DecidableEq τ] in
theorem flushAlarms_none
    {fuel : Nat}
    (h : s.flushAlarms c fuel = some s') :
    NoneWaits s s' := by
  induction fuel generalizing s with
  | zero => simp [Clocks.flushAlarms] at h
  | succ fuel ih =>
      rw [Clocks.flushAlarms] at h
      split at h
      · cases h
        exact NoneWaits.of_eq rfl
      · exact takeFirst_none.trans (ih h)

omit [DecidableEq τ] in
theorem clockAlarmIntr_none
    {now : Tvalspec}
    {gettime : Nat → Tvalspec}
    {fuel : Nat}
    (h : s.clockAlarmIntr c now gettime fuel = some s') :
    NoneWaits s s' := by
  induction fuel generalizing s with
  | zero => simp [Clocks.clockAlarmIntr] at h
  | succ fuel ih =>
      rw [Clocks.clockAlarmIntr] at h
      split at h
      · cases h
        exact NoneWaits.of_eq rfl
      · split at h
        · cases h
          exact NoneWaits.of_eq rfl
        · exact takeFirst_none.trans (ih h)

/- Every section leaves the waiting calls with valid ports. -/
theorem clockStep_ports
    (h : PortsChecked s)
    (hStep : clockStep hasSetalrm s act = some s') :
    PortsChecked s' := by
  have hSet : ∀ {u : Clocks τ} {t : τ} {p : CallPhase},
      u.phase = s.phase →
      (∀ c posting, p ≠ .allocating c posting) →
      PortsChecked (u.setPhase t p) :=
    fun hPhase hNew => h.none (NoneWaits.setPhase hNew hPhase)
  cases act with
  | clockAlarm t c alarmType time port portType now =>
      simp only [clockStep, Clocks.clockAlarm] at hStep
      split_ifs at hStep with hFree hClock hOps hPort hCheck
        hCode
      pick_goal 6
      · refine getAlarm_ports h ?_ hStep
        intro _ _ _ _ hEq
        cases hEq
        simpa using hPort
      all_goals
        cases hStep
        exact hSet rfl (by simp)
  | clockSleep t c sleepType time now =>
      simp only [clockStep, Clocks.clockSleep] at hStep
      split_ifs at hStep with hFree hClock hOps hBad hLater
      pick_goal 4
      · exact getAlarm_ports h (by simp [PostingOk]) hStep
      all_goals
        cases hStep
        exact hSet rfl (by simp)
  | zalloc t ok =>
      simp only [clockStep] at hStep
      split at hStep
      · unfold Clocks.zallocAlarm at hStep
        split at hStep
        · have hNone := post_none hStep
          exact h.none (fun u d p hu => hNone u d p hu)
        · cases hStep
          exact hSet rfl (by simp)
      · simp at hStep
  | abort t | sleepReturn t =>
      simp only [clockStep] at hStep
      split at hStep
      · cases hStep
        exact hSet rfl (by simp)
      · simp at hStep
  | clockAlarmIntr c now gettime =>
      exact h.none (clockAlarmIntr_none hStep)
  | flushAlarms c => exact h.none (flushAlarms_none hStep)
  | alarmThread now =>
      have hTake : ∀ u : Clocks τ,
          u.takeDone.phase = u.phase := by
        intro u
        unfold Clocks.takeDone
        dsimp only
        split <;> rfl
      apply h.none
      apply NoneWaits.of_eq
      simp only [clockStep, Clocks.alarmThread] at hStep
      split at hStep
      · cases hStep
        exact hTake s
      · cases hStep
        split <;> rfl
      · cases hStep
        exact hTake _
      · simp at hStep

------
-- Sections
------

/- What an alarm may leave its clock's list through. -/
def OwnCause
    (s : Clocks τ)
    (c a : Nat) : ClockAction τ → Prop
| .clockAlarmIntr d clockTime _ =>
    d = c ∧ cmpTvalspec (s.alarms a).alTime clockTime ≤ 0
| .flushAlarms d => d = c
| .sleepReturn t => s.phase t = .sleeping a true
| _ => False

/- A section that can be entered. -/
def CanEnter (s : Clocks τ) : ClockAction τ → Prop
| .clockAlarm t _ _ _ _ _ _ => (s.phase t).isFree = true
| .clockSleep t _ _ _ _ => (s.phase t).isFree = true
| .zalloc t _ => ∃ c posting, s.phase t = .allocating c posting
| .abort t => ∃ a w, s.phase t = .sleeping a w
| .sleepReturn t => ∃ a, s.phase t = .sleeping a true
| .alarmThread _ => s.server ≠ .asleep
| _ => True

/-
  Nothing was posted on a clock between a flush of it and the
  return of a sleeper that the flush woke.
-/
def Orderly (s : Clocks τ) : ClockAction τ → Prop
| .sleepReturn t =>
    ∀ a, s.phase t = .sleeping a true → StaleOk s a
| _ => True

variable {active : Nat → List Nat} {done free : List Nat}
variable {place : Nat → AlarmPlace τ}

omit [DecidableEq τ] in
theorem isFree_not_sleeping
    (h : (s.phase t).isFree = true) :
    ∀ b w, s.phase t ≠ .sleeping b w := by
  intro b w hPhase
  rw [hPhase] at h
  simp [CallPhase.isFree] at h

omit [DecidableEq τ] in
/- Where no alarm may leave, none has to. -/
theorem Keeps.none
    {out : Option (Clocks τ)}
    (h : Keeps active OwnNone out)
    (hNone : ∀ c a, ¬ OwnCause s c a act) :
    ∃ s' active' done' free' place', out = some s' ∧
      AlarmsIn s' active' done' free' place' ∧
      ∀ c a, a ∈ active c →
        (a ∉ active' c ↔ OwnCause s c a act) := by
  rcases h with
    ⟨s', active', done', free', place', hRun, hIn, hOwn⟩
  refine ⟨s', active', done', free', place', hRun, hIn, ?_⟩
  intro c a ha
  exact ⟨fun hOut => (hOwn c a ha hOut).elim,
    fun hCause => absurd hCause (hNone c a)⟩

/- What is left of one list, the others being untouched. -/
theorem leaves_update
    {P : Nat → Prop}
    {front back : List Nat}
    (hNodup : (active c).Nodup)
    (hList : active c = front ++ back)
    (hFront : ∀ b ∈ front, P b)
    (hBack : ∀ b ∈ back, ¬ P b) :
    ∀ d b, b ∈ active d →
      (b ∉ update active c back d ↔ c = d ∧ P b) := by
  intro d b hb
  by_cases hd : d = c
  · subst hd
    rw [update_self]
    rw [hList] at hb hNodup
    rcases List.mem_append.mp hb with hIn | hIn
    · have hNot := (List.nodup_append.mp hNodup).2.2 b hIn b
      constructor
      · exact fun _ => ⟨rfl, hFront b hIn⟩
      · exact fun _ hMem => hNot hMem rfl
    · constructor
      · exact fun hOut => absurd hIn hOut
      · exact fun hP => absurd hP.2 (hBack b hIn)
  · rw [update_of_ne hd]
    constructor
    · exact fun hOut => absurd hb hOut
    · exact fun hP => absurd hP.1.symm hd

/- Every section that is entered ends, and keeps the alarms. -/
theorem clockStep_in
    (hasSetalrm : Nat → Bool)
    (h : AlarmsIn s active done free place)
    (hPorts : PortsChecked s)
    (hOrderly : Orderly s act)
    (hCan : CanEnter s act) :
    ∃ s' active' done' free' place',
      clockStep hasSetalrm s act = some s' ∧
        AlarmsIn s' active' done' free' place' ∧
        ∀ c a, a ∈ active c →
          (a ∉ active' c ↔ OwnCause s c a act) := by
  cases act with
  | clockAlarm t c alarmType time port portType now =>
      have hFree : (s.phase t).isFree = true := hCan
      simp only [clockStep, hFree, if_true]
      exact (clockAlarm_keeps h
        (isFree_not_sleeping hFree)).none (fun _ _ => id)
  | clockSleep t c sleepType time now =>
      have hFree : (s.phase t).isFree = true := hCan
      simp only [clockStep, hFree, if_true]
      exact (clockSleep_keeps h
        (isFree_not_sleeping hFree)).none (fun _ _ => id)
  | zalloc t ok =>
      rcases hCan with ⟨c, posting, hPhase⟩
      simp only [clockStep, hPhase]
      exact (zallocAlarm_keeps h (by simp [hPhase])
        (hPorts t c posting hPhase)).none (fun _ _ => id)
  | abort t =>
      rcases hCan with ⟨a, w, hPhase⟩
      simp only [clockStep, hPhase]
      have hIn : AlarmsIn (s.setPhase t (.sleeping a true))
          active done free place :=
        ⟨h.inv.abort hPhase, h.answered.congr
          (fun _ => Iff.rfl) (fun _ _ => ⟨rfl, rfl⟩) rfl rfl,
          h.unlocked⟩
      exact hIn.keeps.none (fun _ _ => id)
  | sleepReturn t =>
      rcases hCan with ⟨a, hPhase⟩
      rcases clockSleepReturn_in h hPhase
          (hOrderly a hPhase) with
        ⟨active', place', hIn, hLeaves⟩
      refine ⟨_, active', done, a :: free, place',
        by simp only [clockStep, hPhase], hIn, ?_⟩
      intro c b hb
      rw [hLeaves c b hb]
      simp only [OwnCause, hPhase, CallPhase.sleeping.injEq,
        and_true]
      exact eq_comm
  | clockAlarmIntr c now gettime =>
      rcases clockAlarmIntr_in now gettime h rfl
          (h.inv.length_lt c) with
        ⟨s', front, back, done', place', hRun, hList, hIn,
          hDue, hLater⟩
      refine ⟨s', _, done', free, place', hRun, hIn, ?_⟩
      exact leaves_update (h.inv.lists.nodupActive c) hList
        hDue (fun b hb => Int.not_le.mpr (hLater b hb))
  | flushAlarms c =>
      rcases flushAlarms_in h rfl (h.inv.length_lt c) with
        ⟨s', done', place', hRun, hIn⟩
      refine ⟨s', _, done', free, place', hRun, hIn, ?_⟩
      intro d b hb
      have hLeaves := leaves_update
        (P := fun _ => True) (h.inv.lists.nodupActive c)
        (List.append_nil (active c)).symm (by simp)
        (by simp) d b hb
      rw [hLeaves]
      simp [OwnCause]
  | alarmThread now =>
      rcases alarmThread_in now h hCan with
        ⟨s', done', free', place', hRun, hIn⟩
      refine ⟨s', active, done', free', place', hRun, hIn, ?_⟩
      intro c b hb
      exact ⟨fun hOut => absurd hb hOut,
        fun hCause => hCause.elim⟩

------
-- Runs
------

/- The alarms are in their places and in order. -/
def AlarmsKept (s : Clocks τ) : Prop :=
  ∃ active done free place,
    AlarmsIn s active done free place

/- An alarm is on the list of a clock. -/
def OnClock
    (s : Clocks τ)
    (c a : Nat) : Prop :=
  ∃ cells, Linked s.links (.head (.clAlarm c)) cells ∧
    a ∈ cells

/- The alarms that leave a clock's list leave by themselves. -/
def LeavesByOwn
    (s : Clocks τ)
    (act : ClockAction τ)
    (s' : Clocks τ) : Prop :=
  ∀ c a, OnClock s c a →
    (¬ OnClock s' c a ↔ OwnCause s c a act)

/- What a section is to keep. -/
def SectionKeeps
    (hasSetalrm : Nat → Bool)
    (s : Clocks τ)
    (act : ClockAction τ) : Prop :=
  AlarmsKept s ∧
    (CanEnter s act → ∃ s',
      clockStep hasSetalrm s act = some s' ∧
        AlarmsKept s' ∧ LeavesByOwn s act s')

omit [DecidableEq τ] in
theorem AlarmsIn.onClock
    (h : AlarmsIn s active done free place) :
    OnClock s c a ↔ a ∈ active c := by
  constructor
  · rintro ⟨cells, hLinked, ha⟩
    rw [(h.inv.lists.linkedActive c).unique hLinked]
    exact ha
  · exact fun ha => ⟨_, h.inv.lists.linkedActive c, ha⟩

/- A section is only entered where its guard holds. -/
theorem canEnter_of_step
    (hStep : clockStep hasSetalrm s act = some s') :
    CanEnter s act := by
  cases act with
  | clockAlarm t c alarmType time port portType now
  | clockSleep t c sleepType time now =>
      simp only [clockStep] at hStep
      split at hStep
      · assumption
      · simp at hStep
  | zalloc t ok =>
      simp only [clockStep] at hStep
      split at hStep
      · rename_i c posting hPhase
        exact ⟨c, posting, hPhase⟩
      · simp at hStep
  | abort t =>
      simp only [clockStep] at hStep
      split at hStep
      · rename_i a w hPhase
        exact ⟨a, w, hPhase⟩
      · simp at hStep
  | sleepReturn t =>
      simp only [clockStep] at hStep
      split at hStep
      · rename_i a hPhase
        exact ⟨a, hPhase⟩
      · simp at hStep
  | clockAlarmIntr c now gettime | flushAlarms c => trivial
  | alarmThread now =>
      intro hAsleep
      simp [clockStep, Clocks.alarmThread, hAsleep] at hStep

/- An orderly section keeps what it is to keep. -/
theorem AlarmsIn.keeps_section
    (hasSetalrm : Nat → Bool)
    (h : AlarmsIn s active done free place)
    (hPorts : PortsChecked s)
    (hOrderly : Orderly s act) :
    SectionKeeps hasSetalrm s act := by
  refine ⟨⟨active, done, free, place, h⟩, fun hCan => ?_⟩
  rcases clockStep_in hasSetalrm h hPorts hOrderly hCan with
    ⟨s', active', done', free', place', hRun, hIn, hLeaves⟩
  refine ⟨s', hRun, ⟨active', done', free', place', hIn⟩, ?_⟩
  intro c a ha
  rw [hIn.onClock]
  exact hLeaves c a (h.onClock.mp ha)

/-
  A sleeper that was flushed and finds alarms on the clock
  takes all of them off.
-/
theorem orderly_of_section
    (h : SectionKeeps hasSetalrm s act) :
    Orderly s act := by
  rcases h with ⟨⟨active, done, free, place, hIn⟩, hSection⟩
  cases act with
  | sleepReturn t =>
      intro a hPhase hNotDone
      rcases hSection ⟨a, hPhase⟩ with
        ⟨s', hRun, _, hLeaves⟩
      rcases hIn.inv.sleeping t a true hPhase with
        ⟨⟨c, hc⟩, _⟩ | hHeld | hLocker
      · -- an alarm on a list is led to by what is before it
        left
        have hMem := (hIn.inv.lists.inActive c a).mpr hc
        rcases List.append_of_mem hMem with
          ⟨front, back, hList⟩
        have hPrev := (hIn.inv.lists.cut_active hList).1
        have hLinked := hIn.inv.lists.linkedActive c
        rw [hList] at hLinked
        rw [hPrev]
        exact hLinked.back_part.1
      · right
        rcases hIn.inv.heldBack t a hHeld with
          hDone | ⟨_, hNext, c, hPrev⟩
        · exact absurd hDone hNotDone
        · by_contra hSome
          rw [hPrev] at hSome
          have hLinked := hIn.inv.lists.linkedActive c
          have hMem := hLinked.next_mem hSome
          generalize hb :
            s.links.next (.head (.clAlarm c)) = b at hMem
          have hOut : ¬ OnClock s' c b := by
            rintro ⟨cells, hCells, hbIn⟩
            have hEmpty :
                s'.links.next (.head (.clAlarm c)) = 0 := by
              simp only [clockStep, hPhase,
                Option.some.injEq] at hRun
              rw [← hRun]
              simp [Clocks.clockSleepReturn, hNotDone,
                Clocks.freeAlarm, Clocks.setPhase, hPrev, hNext]
            rw [hCells.next_eq_zero_iff.mp hEmpty] at hbIn
            simp at hbIn
          have hCause := (hLeaves c b
            (hIn.onClock.mpr hMem)).mp hOut
          have hEq : b = a := by
            have hSame : s.phase t = .sleeping b true :=
              hCause
            rw [hPhase] at hSame
            cases hSame
            rfl
          rw [hEq, hIn.inv.lists.inActive, hHeld] at hMem
          simp at hMem
      · exact absurd hLocker (hIn.unlocked a)
  | clockAlarm t c alarmType time port portType now
  | clockSleep t c sleepType time now | zalloc t ok | abort t
  | clockAlarmIntr c now gettime | flushAlarms c
  | alarmThread now => trivial

omit [DecidableEq τ] in
/- Before any call no alarm was allocated. -/
theorem clocksInit_in
    (memory : Nat → Alarm)
    (back : Nat → Ref AlarmHead)
    (cells : Nat → Nat) :
    AlarmsIn (clocksInit (τ := τ) memory back cells)
      (fun _ => []) [] [] (fun _ => .outside) := by
  refine ⟨⟨⟨fun _ => rfl, rfl, rfl, by simp, by simp, by simp,
    by simp, by simp, by simp⟩, ?_, by simp, by simp, ?_, ?_,
    ?_, by simp, by simp, ?_, Nat.one_pos⟩, ?_, by simp⟩
  · intro a
    simp only [clocksInit, true_iff]
    omega
  · simp [clocksInit]
  · simp [clocksInit]
  · simp [clocksInit]
  · simp [clocksInit]
  · refine ⟨?_, ?_, ?_, ?_, ?_⟩ <;>
      simp [Pending, repliedTo, clocksInit]

/- Each section of an orderly run keeps the alarms. -/
theorem meets_sectionKeeps
    {hasSetalrm : Nat → Bool}
    {s : Clocks τ}
    {acts : List (ClockAction τ)}
    (hKept : AlarmsKept s)
    (hPorts : PortsChecked s)
    (hMeets : Meets (clockStep hasSetalrm) Orderly s acts) :
    Meets (clockStep hasSetalrm) (SectionKeeps hasSetalrm) s
      acts := by
  induction acts generalizing s with
  | nil => trivial
  | cons act acts ih =>
      rcases hMeets with ⟨hOrderly, hRest⟩
      rcases hKept with ⟨_, _, _, _, hIn⟩
      have hSection := hIn.keeps_section hasSetalrm hPorts
        hOrderly
      refine ⟨hSection, fun u hStep => ?_⟩
      rcases hSection.2 (canEnter_of_step hStep) with
        ⟨s', hRun, hKept', _⟩
      rw [hStep] at hRun
      cases hRun
      exact ih hKept' (clockStep_ports hPorts hStep)
        (hRest u hStep)

/-
  The alarms are kept, and leave the lists of the clocks only
  by themselves, in exactly the runs that are orderly.
-/
theorem alarms_kept_iff
    (hasSetalrm : Nat → Bool)
    (memory : Nat → Alarm)
    (back : Nat → Ref AlarmHead)
    (cells : Nat → Nat)
    (acts : List (ClockAction τ)) :
    Meets (clockStep hasSetalrm) (SectionKeeps hasSetalrm)
        (clocksInit memory back cells) acts ↔
      Meets (clockStep hasSetalrm) Orderly
        (clocksInit memory back cells) acts := by
  constructor
  · exact fun h =>
      h.imp (fun _ _ hSection => orderly_of_section hSection)
  · exact meets_sectionKeeps
      ⟨_, _, _, _, clocksInit_in memory back cells⟩
      (by simp [PortsChecked, clocksInit])

/-
  The first thread sleeps, and its clock is flushed. Before
  it takes the lock the second thread posts an alarm.
-/
def lostAlarmRun : List (ClockAction Nat) :=
  [.clockSleep 1 1 0#32 ⟨10, 0⟩ ⟨5, 0⟩,
   .zalloc 1 true,
   .flushAlarms 1,
   .clockAlarm 2 1 0#32 ⟨20, 0⟩ 7 0 ⟨5, 0⟩,
   .zalloc 2 true,
   .sleepReturn 1]

def lostAlarmStart : Clocks Nat :=
  clocksInit (fun _ => ⟨.free, ⟨0, 0⟩, 0#32, 0, 0, 0, 0⟩)
    (fun _ => .head .alrmdone) (fun _ => 0)

/- The second thread's alarm is on no list and unanswered. -/
theorem alarm_lost :
    ¬ Meets (clockStep fun _ => true)
        (SectionKeeps fun _ => true) lostAlarmStart
        lostAlarmRun ∧
      (exec (clockStep fun _ => true) lostAlarmStart
        lostAlarmRun).map (fun s =>
          (s.requests, s.replies, (s.alarms 2).alStatus,
            s.links.next (.head (.clAlarm 1)),
            s.links.next (.head .alrmdone), s.alrmfree,
            s.links.next (.cell 1))) =
        some (1, [], .clock, 0, 0, 1, 0) := by
  refine ⟨fun h => ?_, rfl⟩
  have hOrderly := h.imp
    (fun _ _ hSection => orderly_of_section hSection)
  have hStale := (((((hOrderly.2 _ rfl).2 _ rfl).2 _ rfl).2 _
    rfl).2 _ rfl).1 1 rfl
  revert hStale
  simp only [StaleOk]
  decide

end Kern

end OsfMach
