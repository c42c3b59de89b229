import OsfMach.Kern.ClockSteps

/-
  The loops of `kern/clock.c`, the end of a sleep, and the
  alarm thread.

  Main declarations:
    * `StaleOk`
    * `clockAlarmIntr_in`, `flushAlarms_in`
    * `clockSleepReturn_in`
    * `alarmThread_in`
-/

------
-- Interrupts and Flushes
------

namespace OsfMach

namespace Kern

open Function
open Lib.Cells

variable {τ : Type} {s : Clocks τ} {active : Nat → List Nat}
variable {done free : List Nat} {place : Nat → AlarmPlace τ}
variable {c a : Nat}
variable {cells : List Nat} {fuel : Nat} {t : τ} {w : Bool}
variable {back : List Nat}

/- The other alarms keep what was entered into them. -/
theorem takeFirst_alarms
    {expired : Option Tvalspec}
    {b : Nat}
    (hNe : b ≠ a) :
    (s.takeFirst c a expired).alarms b = s.alarms b := by
  have hPush : ∀ s : Clocks τ,
      (s.pushDone a).alarms = s.alarms := by
    intro s
    unfold Clocks.pushDone
    dsimp only
    split <;> rfl
  unfold Clocks.takeFirst
  dsimp only
  split
  · cases expired with
    | none => rfl
    | some now => exact update_of_ne hNe _ _
  · cases expired with
    | none => exact congrFun (hPush _) b
    | some now =>
        exact (update_of_ne hNe _ _).trans
          (congrFun (hPush _) b)

section AlarmsIn

variable (h : AlarmsIn s active done free place)

include h

theorem AlarmsIn.active_notMem
    (hList : active c = a :: back) :
    a ∉ back := by
  have hNodup := h.inv.lists.nodupActive c
  rw [hList] at hNodup
  exact (List.nodup_cons.mp hNodup).1

/- The list of a clock that has alarms begins at its head. -/
theorem AlarmsIn.active_next
    (hList : active c = a :: back) :
    s.links.next (.head (.clAlarm c)) = a ∧ a ≠ 0 := by
  have hLinked := h.inv.lists.linkedActive c
  rw [hList] at hLinked
  exact ⟨hLinked.1, hLinked.2.1⟩

theorem AlarmsIn.active_end
    (hList : active c = []) :
    s.links.next (.head (.clAlarm c)) = 0 := by
  have hLinked := h.inv.lists.linkedActive c
  rw [hList] at hLinked
  exact hLinked

/- A flush takes every alarm off the list. -/
theorem flushAlarms_in
    (hList : active c = cells)
    (hFuel : cells.length < fuel) :
    ∃ s' done' place',
      s.flushAlarms c fuel = some s' ∧
        AlarmsIn s' (update active c []) done' free
          place' := by
  induction cells generalizing s active done place fuel with
  | nil =>
      cases fuel with
      | zero => simp at hFuel
      | succ fuel =>
          have hEnd := h.active_end hList
          refine ⟨s, done, place, ?_, ?_⟩
          · simp [Clocks.flushAlarms, hEnd]
          · rw [← hList, update_eq_self]
            exact h
  | cons a cells ih =>
      cases fuel with
      | zero => simp at hFuel
      | succ fuel =>
          rcases h.active_next hList with ⟨hNext, hPos⟩
          rcases takeFirst_in none h hList with
            ⟨done', place', hIn⟩
          rcases ih hIn (update_self _ _ _)
              (by simpa using hFuel) with
            ⟨s', done'', place'', hRun, hIn'⟩
          rw [update_idem] at hIn'
          refine ⟨s', done'', place'', ?_, hIn'⟩
          simp only [Clocks.flushAlarms, hNext, hPos, if_false]
          exact hRun

end AlarmsIn

/- An interrupt takes the alarms that are due off the list. -/
theorem clockAlarmIntr_in
    (clockTime : Tvalspec)
    (gettime : Nat → Tvalspec)
    (h : AlarmsIn s active done free place)
    (hList : active c = cells)
    (hFuel : cells.length < fuel) :
    ∃ s' front back done' place',
      s.clockAlarmIntr c clockTime gettime fuel = some s' ∧
        cells = front ++ back ∧
        AlarmsIn s' (update active c back) done' free
          place' ∧
        (∀ b ∈ front,
          cmpTvalspec (s.alarms b).alTime clockTime ≤ 0) ∧
        ∀ b ∈ back,
          0 < cmpTvalspec (s.alarms b).alTime clockTime := by
  induction cells generalizing s active done place fuel with
  | nil =>
      cases fuel with
      | zero => simp at hFuel
      | succ fuel =>
          have hEnd := h.active_end hList
          refine ⟨s, [], [], done, place, ?_, rfl, ?_,
            by simp, by simp⟩
          · simp [Clocks.clockAlarmIntr, hEnd]
          · rw [← hList, update_eq_self]
            exact h
  | cons a cells ih =>
      cases fuel with
      | zero => simp at hFuel
      | succ fuel =>
          rcases h.active_next hList with ⟨hNext, hPos⟩
          by_cases hLater :
              0 < cmpTvalspec (s.alarms a).alTime clockTime
          · -- the first alarm is not due, so none is
            have hOrder := h.inv.sorted c
            rw [hList, List.pairwise_cons] at hOrder
            have hRun :
                s.clockAlarmIntr c clockTime gettime
                  (fuel + 1) = some { s with
                    setalrm := update s.setalrm c
                      (some (s.alarms a).alTime) } := by
              simp only [Clocks.clockAlarmIntr, hNext, hPos,
                hLater, if_true, if_false]
            refine ⟨_, [], a :: cells, done, place, hRun,
              rfl, ?_, by simp, ?_⟩
            · rw [← hList, update_eq_self]
              exact ⟨h.inv.other, h.answered.congr
                (fun _ => Iff.rfl) (fun _ _ => ⟨rfl, rfl⟩)
                rfl rfl, h.unlocked⟩
            · intro b hb
              rcases List.mem_cons.mp hb with hEq | hMem
              · rw [hEq]
                exact hLater
              · by_contra hDue
                have hFirst := cmpTvalspec_trans
                  (hOrder.1 b hMem) (Int.not_lt.mp hDue)
                omega
          · rcases takeFirst_in (some (gettime a)) h hList
              with ⟨done', place', hIn⟩
            rcases ih hIn (update_self _ _ _)
                (by simpa using hFuel) with
              ⟨s', front, back, done'', place'', hRun,
                hCells, hIn', hDue, hRest⟩
            have hNotMem := h.active_notMem hList
            rw [hCells] at hNotMem
            have hSame : ∀ b ∈ front ++ back,
                (s.takeFirst c a
                  (some (gettime a))).alarms b =
                    s.alarms b :=
              fun b hb => takeFirst_alarms
                (fun hEq => hNotMem (hEq ▸ hb))
            rw [update_idem] at hIn'
            refine ⟨s', a :: front, back, done'', place'', ?_,
              by rw [hCells, List.cons_append], hIn', ?_, ?_⟩
            · simp only [Clocks.clockAlarmIntr, hNext, hPos,
                hLater, if_false]
              exact hRun
            · intro b hb
              rcases List.mem_cons.mp hb with hEq | hMem
              · rw [hEq]
                omega
              · rw [← hSame b (List.mem_append_left _ hMem)]
                exact hDue b hMem
            · intro b hb
              rw [← hSame b (List.mem_append_right _ hb)]
              exact hRest b hb

------
-- Ends of Sleeps
------

/- An alarm being moved is put on the free list. -/
theorem freeAlarm_inv
    (h : AlarmInv s active done free place)
    (ha : place a = .locker)
    (hPos : a ≠ 0)
    (hNone : ∀ t w, s.phase t ≠ .sleeping a w) :
    AlarmInv (s.freeAlarm a) active done (a :: free)
      (update place a .free) := by
  have hFill := h.fill ha
    { s.alarms a with alStatus := .free }
  exact hFill.relist (hFill.lists.put_free ha hPos)
    (AlarmLists.setNext_held ha)
    (by simp [ha, AlarmPlace.Listed])
    (by simp [AlarmPlace.Listed]) (Or.inl hNone) hFill.sorted
    (by simp) h.asleep

/- An alarm that belongs to no request changes its place. -/
theorem Answered.released
    {s' : Clocks τ}
    (h : Answered s place)
    (hOld : ¬ Pending s place a)
    (hAlarms : ∀ b, b ≠ a → s'.alarms b = s.alarms b)
    (hServer : ∀ b, s'.server = .serving b ↔
      s.server = .serving b)
    (hRequests : s'.requests = s.requests)
    (hReplies : s'.replies = s.replies) :
    Answered s' (update place a .free) := by
  apply h.congr _ _ hRequests hReplies
  · intro b
    by_cases hb : b = a
    · subst hb
      refine ⟨?_, fun hPending => absurd hPending hOld⟩
      rintro (⟨⟨d, hd⟩, _⟩ | hDone | hServing)
      · simp at hd
      · simp at hDone
      · have hBefore := (hServer b).mp hServing
        exact absurd (Or.inr (Or.inr hBefore)) hOld
    · exact pending_other hb (hAlarms b hb) (hServer b)
  · intro b hb
    have hNe : b ≠ a := fun hEq => hOld (hEq ▸ hb)
    rw [hAlarms b hNe]
    exact ⟨rfl, rfl⟩

/- An alarm that some thread sleeps on was allocated. -/
theorem AlarmsIn.sleeping_ne_zero
    (h : AlarmsIn s active done free place)
    (hPhase : s.phase t = .sleeping a w) :
    a ≠ 0 := by
  intro hEq
  have hOut := (h.inv.outside a).mpr (Or.inl hEq)
  rcases h.inv.sleeping t a w hPhase with
    ⟨⟨c, hc⟩, _⟩ | hb | hb <;>
    rw [hOut] at * <;> simp at *

/- The alarm of a sleep is no request's. -/
theorem AlarmsIn.sleep_not_pending
    (h : AlarmsIn s active done free place)
    (hPhase : s.phase t = .sleeping a w) :
    ¬ Pending s place a := by
  rcases h.inv.sleeping t a w hPhase with
    ⟨⟨c, hc⟩, hSleep⟩ | hHeld | hLocker
  · rintro (⟨_, hClock⟩ | hDone | hServer)
    · rw [hSleep] at hClock
      simp at hClock
    · rw [hc] at hDone
      simp at hDone
    · rw [(h.inv.server a).mpr (Or.inl hServer)] at hc
      simp at hc
  · rintro (⟨⟨c, hc⟩, _⟩ | hDone | hServer)
    · rw [hHeld] at hc
      simp at hc
    · rw [hHeld] at hDone
      simp at hDone
    · rw [(h.inv.server a).mpr (Or.inl hServer)] at hHeld
      simp at hHeld
  · exact absurd hLocker (h.unlocked a)

/-
  The alarm of a sleep that was flushed still points back to
  the head of its clock's list, which has to be empty then.
-/
def StaleOk (s : Clocks τ) (a : Nat) : Prop :=
  (s.alarms a).alStatus ≠ .done →
    s.links.next (s.links.prev a) = a ∨
      s.links.next (s.links.prev a) = 0

/- No alarm follows one that was flushed, nor leads to it. -/
theorem cut_stale
    {m : Links AlarmHead}
    {r : Ref AlarmHead}
    (hZero : m.next r = 0) :
    m.cut r 0 = m := by
  unfold Links.cut Links.setNext
  rw [if_pos rfl, ← hZero, update_eq_self]

section Sleeps

variable [DecidableEq τ] {t : τ}

/- What a woken thread does with the alarm it has. -/
theorem clockSleepReturn_free
    {p : CallPhase}
    (h : AlarmInv s active done free place)
    (hPhase : s.phase t = .sleeping a true)
    (ha : place a = .held t ∨ place a = .locker)
    (hPos : a ≠ 0)
    (hNew : ∀ b w, p ≠ .sleeping b w) :
    AlarmInv ((s.freeAlarm a).setPhase t p) active done
      (a :: free) (update place a .free) := by
  have hUnhold := h.unhold (p := p) hPhase ha hNew
  have hNone : ∀ u w,
      (s.setPhase t p).phase u ≠ .sleeping a w := by
    intro u w hu
    rw [Clocks.setPhase_phase] at hu
    split at hu
    · exact hNew a w hu
    · rename_i hut
      exact hut (h.once u t a w true hu hPhase)
  have hFree := freeAlarm_inv hUnhold
    (update_self _ _ _) hPos hNone
  rw [update_idem] at hFree
  exact hFree

/- A sleeper that was woken frees its alarm. -/
theorem clockSleepReturn_in
    (h : AlarmsIn s active done free place)
    (hPhase : s.phase t = .sleeping a true)
    (hStale : StaleOk s a) :
    ∃ active' place',
      AlarmsIn (s.clockSleepReturn t a) active' done
          (a :: free) place' ∧
        ∀ d b, b ∈ active d → (b ∉ active' d ↔ b = a) := by
  have hPos := h.sleeping_ne_zero hPhase
  have hNot := h.sleep_not_pending hPhase
  have hAnswered : ∀ links p,
      Answered (({ s with links := links }.freeAlarm
        a).setPhase t p) (update place a .free) := by
    intro links p
    exact h.answered.released hNot
      (fun b hb => update_of_ne hb _ _)
      (fun _ => Iff.rfl) rfl rfl
  have hUnlocked := unlocked_update (a := a) (q := .free)
    (fun b (_ : b ≠ a) => h.unlocked b) (by simp)
  rcases h.inv.sleeping t a true hPhase with
    ⟨⟨c, hc⟩, hSleep⟩ | hHeld | hLocker
  · -- the sleep was aborted and the alarm is on its list
    have hMem : a ∈ active c := (h.inv.lists.inActive c a).mpr hc
    rcases List.append_of_mem hMem with ⟨front, back, hList⟩
    have hCut := cut_inv h.inv hList
    have hFree := clockSleepReturn_free
      (p := .returned .aborted (some (s.alarms a).alTime))
      hCut hPhase (Or.inr (update_self _ _ _)) hPos
      (by simp)
    rw [update_idem] at hFree
    have hRun : s.clockSleepReturn t a =
        ({ s with
          links := s.links.cut (s.links.prev a)
            (s.links.next (.cell a)) }.freeAlarm a).setPhase t
              (.returned .aborted
                (some (s.alarms a).alTime)) := by
      simp [Clocks.clockSleepReturn, hSleep]
    rw [hRun]
    refine ⟨_, _, ⟨hFree, hAnswered _ _, hUnlocked⟩, ?_⟩
    intro d b hb
    have hNodup := h.inv.lists.nodupActive c
    rw [hList] at hNodup
    have hNotMem := (List.nodup_cons.mp
      (List.nodup_middle.mp hNodup)).1
    by_cases hd : d = c
    · subst hd
      rw [update_self]
      rw [hList, List.mem_append, List.mem_cons] at hb
      constructor
      · intro hOut
        rw [List.mem_append, not_or] at hOut
        rcases hb with hIn | hEq | hIn
        · exact absurd hIn hOut.1
        · exact hEq
        · exact absurd hIn hOut.2
      · intro hEq
        rw [hEq]
        exact hNotMem
    · rw [update_of_ne hd]
      refine ⟨fun hOut => absurd hb hOut, fun hEq => ?_⟩
      subst hEq
      have hPlace := (h.inv.lists.inActive d b).mp hb
      rw [hc] at hPlace
      cases hPlace
      exact absurd rfl hd
  · -- the alarm is off its list
    have hFree := clockSleepReturn_free
      (p := .returned
        (if (s.alarms a).alStatus ≠ .done then .aborted
          else .success) (some (s.alarms a).alTime))
      h.inv hPhase (Or.inl hHeld) hPos (by simp)
    have hLinks :
        (if (s.alarms a).alStatus ≠ .done then
          s.links.cut (s.links.prev a)
            (s.links.next (.cell a))
          else s.links) = s.links := by
      rcases h.inv.heldBack t a hHeld with
        hDone | ⟨hSleep, hNext, c, hPrev⟩
      · simp [hDone]
      · have hLinked := h.inv.lists.linkedActive c
        have hZero :
            s.links.next (.head (.clAlarm c)) = 0 := by
          have hOk := hStale (by simp [hSleep])
          rw [hPrev] at hOk
          rcases hOk with hSelf | hZero
          · have hMem := hLinked.next_mem
              (by rw [hSelf]; exact hPos)
            rw [hSelf, h.inv.lists.inActive, hHeld] at hMem
            simp at hMem
          · exact hZero
        rw [if_pos (by simp [hSleep]), hNext, hPrev,
          cut_stale hZero]
    have hRun : s.clockSleepReturn t a =
        (s.freeAlarm a).setPhase t (.returned
          (if (s.alarms a).alStatus ≠ .done then .aborted
            else .success) (some (s.alarms a).alTime)) := by
      unfold Clocks.clockSleepReturn
      dsimp only
      rw [hLinks]
    rw [hRun]
    refine ⟨active, _,
      ⟨hFree, hAnswered s.links _, hUnlocked⟩, ?_⟩
    intro d b hb
    refine ⟨fun hOut => absurd hb hOut, fun hEq => ?_⟩
    rw [hEq, h.inv.lists.inActive, hHeld] at hb
    simp at hb
  · exact absurd hLocker (h.unlocked a)

end Sleeps

------
-- The Alarm Thread
------

section

variable (h : AlarmsIn s active done free place)
include h

/- The alarm thread serves the first alarm that is done. -/
theorem takeDone_in
    (hReady : s.server = .ready) :
    ∃ done' place',
      AlarmsIn s.takeDone active done' free place' := by
  have hNo : ∀ b, place b ≠ .server := by
    intro b hb
    have hServer := (h.inv.server b).mp hb
    rw [hReady] at hServer
    simp at hServer
  cases done with
  | nil =>
      have hEnd : s.links.next (.head .alrmdone) = 0 :=
        h.inv.lists.linkedDone
      have hRun :
          s.takeDone = { s with server := .asleep } := by
        simp [Clocks.takeDone, hEnd]
      rw [hRun]
      refine ⟨[], place, ⟨h.inv.lists, h.inv.outside,
        h.inv.heldPhase, h.inv.heldBack, ?_, h.inv.sleeping,
        h.inv.once, h.inv.sorted, h.inv.activeStatus,
        fun _ => rfl, h.inv.pos⟩, ?_, h.unlocked⟩
      · intro b
        rw [h.inv.server, hReady]
        simp
      · refine h.answered.congr ?_ (fun _ _ => ⟨rfl, rfl⟩)
          rfl rfl
        intro b
        unfold Pending
        rw [hReady]
        simp
  | cons a done =>
      rcases h.inv.lists.cut_done with ⟨hNext, hPos, hLists⟩
      have ha : place a = .done :=
        (h.inv.lists.inDone a).mp List.mem_cons_self
      have hNone : ∀ t w, s.phase t ≠ .sleeping a w := by
        intro t w hPhase
        rcases h.inv.sleeping t a w hPhase with
          ⟨⟨c, hc⟩, _⟩ | hb | hb <;> rw [ha] at * <;>
          simp at *
      have hCut := h.inv.relist hLists
        h.inv.lists.cut_done_held
        (by simp [ha, AlarmPlace.Listed])
        (by simp [AlarmPlace.Listed]) (Or.inl hNone)
        h.inv.sorted (by simp)
        (fun hAsleep => by simp [hReady] at hAsleep)
      have hNoNow : ∀ b,
          update place a .locker b ≠ .server := by
        intro b
        rw [update_apply]
        split
        · simp
        · exact hNo b
      have hServe := hCut.serve (update_self _ _ _)
        hNoNow hNone
      rw [update_idem] at hServe
      have hRun : s.takeDone = { s with
          links := s.links.cut (.head .alrmdone)
            (s.links.next (.cell a))
          server := .serving a } := by
        simp [Clocks.takeDone, hNext, hPos]
      rw [hRun]
      refine ⟨done, _, hServe, ?_, unlocked_update
        (fun b (_ : b ≠ a) => h.unlocked b) (by simp)⟩
      refine h.answered.congr ?_ (fun _ _ => ⟨rfl, rfl⟩)
        rfl rfl
      intro b
      by_cases hb : b = a
      · subst hb
        exact ⟨fun _ => Or.inr (Or.inl ha),
          fun _ => Or.inr (Or.inr rfl)⟩
      · refine pending_other hb rfl ?_
        rw [hReady]
        simp [Ne.symm hb]

/- The alarm that is served is answered. -/
theorem alarmThread_serving
    {wakeupTime : Tvalspec}
    (hServing : s.server = .serving a) :
    ∃ s', s.alarmThread wakeupTime = some s' ∧
      AlarmsIn s' active done free place := by
  have hPending : Pending s place a :=
    Or.inr (Or.inr hServing)
  have hPlace := (h.inv.server a).mpr (Or.inl hServing)
  rcases h.answered.pending a hPending with ⟨_, hPort, _⟩
  have hInv : ∀ replies, AlarmInv
      { s with server := .replied a, replies := replies }
      active done free place := by
    intro replies
    refine ⟨h.inv.lists, h.inv.outside, h.inv.heldPhase,
      h.inv.heldBack, ?_, h.inv.sleeping, h.inv.once,
      h.inv.sorted, h.inv.activeStatus, by simp, h.inv.pos⟩
    intro b
    rw [h.inv.server, hServing]
    simp
  have hRun : ∃ r : AlarmReply,
      r.request = (s.alarms a).request ∧
        s.alarmThread wakeupTime = some { s with
          server := .replied a
          replies := s.replies ++ [r] } := by
    simp only [Clocks.alarmThread, hServing, hPort, if_true,
      Clocks.clockAlarmReply]
    exact ⟨_, rfl, rfl⟩
  rcases hRun with ⟨r, hRequest, hRun⟩
  refine ⟨_, hRun, hInv _, ?_, h.unlocked⟩
  have hGone : ¬ Pending { s with
      server := .replied a
      replies := s.replies ++ [r] } place a := by
    rintro (⟨⟨c, hc⟩, _⟩ | hDone | hServer)
    · rw [hPlace] at hc
      simp at hc
    · rw [hPlace] at hDone
      simp at hDone
    · simp at hServer
  refine h.answered.reply (a := a) ?_ hGone rfl rfl ?_
  · intro b
    by_cases hb : b = a
    · subst hb
      exact ⟨fun _ => Or.inl rfl, fun _ => hPending⟩
    · unfold Pending
      rw [hServing]
      simp [hb, Ne.symm hb]
  · simp [repliedTo, hRequest]

/- The alarm that was answered is freed. -/
theorem alarmThread_replied
    (hReplied : s.server = .replied a) :
    ∃ done' place',
      AlarmsIn (s.freeAlarm a).takeDone active done' (a :: free)
        place' := by
  have ha : place a = .server :=
    (h.inv.server a).mpr (Or.inr hReplied)
  have hPos : a ≠ 0 := by
    intro hEq
    rw [(h.inv.outside a).mpr (Or.inl hEq)] at ha
    simp at ha
  have hNone : ∀ t w, s.phase t ≠ .sleeping a w := by
    intro t w hPhase
    rcases h.inv.sleeping t a w hPhase with
      ⟨⟨c, hc⟩, _⟩ | hb | hb <;> rw [ha] at * <;> simp at *
  have hNot : ¬ Pending s place a := by
    rintro (⟨⟨c, hc⟩, _⟩ | hDone | hServer)
    · rw [ha] at hc
      simp at hc
    · rw [ha] at hDone
      simp at hDone
    · rw [hReplied] at hServer
      simp at hServer
  have hFree := freeAlarm_inv (h.inv.unserve hReplied)
    (update_self _ _ _) hPos hNone
  rw [update_idem] at hFree
  have hIn : AlarmsIn
      ({ s with server := .ready }.freeAlarm a) active done
      (a :: free) (update place a .free) := by
    refine ⟨hFree, h.answered.released hNot
      (fun b hb => update_of_ne hb _ _) ?_ rfl rfl,
      unlocked_update (fun b (_ : b ≠ a) => h.unlocked b)
        (by simp)⟩
    intro b
    rw [hReplied]
    simp [Clocks.freeAlarm]
  have hSame :
      ({ s with server := .ready }.freeAlarm a).takeDone =
        (s.freeAlarm a).takeDone := rfl
  rw [← hSame]
  exact takeDone_in hIn rfl

end

/- The alarm thread goes on, unless it is asleep. -/
theorem alarmThread_in
    (wakeupTime : Tvalspec)
    (h : AlarmsIn s active done free place)
    (hAwake : s.server ≠ .asleep) :
    ∃ s' done' free' place',
      s.alarmThread wakeupTime = some s' ∧
        AlarmsIn s' active done' free' place' := by
  cases hServer : s.server with
  | ready =>
      rcases takeDone_in h hServer with ⟨done', place', hIn⟩
      exact ⟨_, done', free, place',
        by simp [Clocks.alarmThread, hServer], hIn⟩
  | serving a =>
      rcases alarmThread_serving h hServer with
        ⟨s', hRun, hIn⟩
      exact ⟨s', done, free, place, hRun, hIn⟩
  | replied a =>
      rcases alarmThread_replied h hServer with
        ⟨done', place', hIn⟩
      exact ⟨_, done', a :: free, place',
        by simp [Clocks.alarmThread, hServer], hIn⟩
  | asleep => exact absurd hServer hAwake

end Kern

end OsfMach
