import OsfMach.Kern.ClockInv
import Mathlib.Data.List.Perm.Subperm

/-
  What the sections of `kern/clock.c` do to the alarms.

  Main declarations:
    * `Pending`, `Answered`
    * `AlarmsIn`
    * `postAlarm_inv`
    * `takeFirst_in`
-/

------
-- Requests
------

namespace OsfMach

namespace Kern

open Function
open List
open Lib.Cells

variable {τ : Type}
variable {s' : Clocks τ} {back : List Nat} {p : CallPhase}
variable {q : AlarmPlace τ} {front : List Nat}
variable {expired : Option Tvalspec} {hasSetalrm : Nat → Bool}

/- An alarm of a `clock_alarm` that was not answered yet. -/
def Pending
    (s : Clocks τ)
    (place : Nat → AlarmPlace τ)
    (a : Nat) : Prop :=
  ((∃ c, place a = .active c) ∧
      (s.alarms a).alStatus = .clock) ∨
    place a = .done ∨ s.server = .serving a

def repliedTo (s : Clocks τ) : List Nat :=
  s.replies.map AlarmReply.request

/-
  Every request is pending in one alarm or was answered once.
-/
structure Answered
    (s : Clocks τ)
    (place : Nat → AlarmPlace τ) : Prop where
  pending :
    ∀ a, Pending s place a →
      (s.alarms a).request < s.requests ∧
        ipValid (s.alarms a).alPort = true ∧
        (s.alarms a).request ∉ repliedTo s
  once :
    ∀ a b, Pending s place a → Pending s place b →
      (s.alarms a).request = (s.alarms b).request → a = b
  replied : ∀ n ∈ repliedTo s, n < s.requests
  nodup : (repliedTo s).Nodup
  covered :
    ∀ n < s.requests, n ∈ repliedTo s ∨
      ∃ a, Pending s place a ∧ (s.alarms a).request = n

/- Only the pending alarms and the answers matter. -/
theorem Answered.congr
    {s s' : Clocks τ}
    {place place' : Nat → AlarmPlace τ}
    (h : Answered s place)
    (hPending :
      ∀ a, Pending s' place' a ↔ Pending s place a)
    (hAlarms : ∀ a, Pending s place a →
      (s'.alarms a).request = (s.alarms a).request ∧
        (s'.alarms a).alPort = (s.alarms a).alPort)
    (hRequests : s'.requests = s.requests)
    (hReplies : s'.replies = s.replies) :
    Answered s' place' := by
  have hSame : repliedTo s' = repliedTo s := by
    rw [repliedTo, hReplies]
    rfl
  refine ⟨?_, ?_, ?_, ?_, ?_⟩
  · intro a ha
    have hOld := (hPending a).mp ha
    rw [(hAlarms a hOld).1, (hAlarms a hOld).2, hRequests,
      hSame]
    exact h.pending a hOld
  · intro a b ha hb hEq
    have hOldA := (hPending a).mp ha
    have hOldB := (hPending b).mp hb
    rw [(hAlarms a hOldA).1, (hAlarms b hOldB).1] at hEq
    exact h.once a b hOldA hOldB hEq
  · rw [hSame, hRequests]
    exact h.replied
  · rw [hSame]
    exact h.nodup
  · intro n hn
    rw [hRequests] at hn
    rw [hSame]
    rcases h.covered n hn with hReplied | ⟨a, ha, hEq⟩
    · exact Or.inl hReplied
    · refine Or.inr ⟨a, (hPending a).mpr ha, ?_⟩
      rw [(hAlarms a ha).1]
      exact hEq

/- A request is entered into an alarm. -/
theorem Answered.ask
    {place place' : Nat → AlarmPlace τ}
    (h : Answered s place)
    (hSplit : ∀ b, Pending s' place' b ↔
      b = a ∨ Pending s place b)
    (hOld : ¬ Pending s place a)
    (hRequest : (s'.alarms a).request = s.requests)
    (hPort : ipValid (s'.alarms a).alPort = true)
    (hAlarms : ∀ b, b ≠ a → s'.alarms b = s.alarms b)
    (hRequests : s'.requests = s.requests + 1)
    (hReplies : s'.replies = s.replies) :
    Answered s' place' := by
  have hSame : repliedTo s' = repliedTo s := by
    rw [repliedTo, hReplies]
    rfl
  have hNe : ∀ b, Pending s place b → b ≠ a :=
    fun b hb hEq => hOld (hEq ▸ hb)
  refine ⟨?_, ?_, ?_, ?_, ?_⟩
  · intro b hb
    rw [hRequests, hSame]
    rcases (hSplit b).mp hb with hEq | hOther
    · subst hEq
      rw [hRequest]
      refine ⟨Nat.lt_succ_self _, hPort, fun hMem => ?_⟩
      exact absurd (h.replied _ hMem) (Nat.lt_irrefl _)
    · rw [hAlarms b (hNe b hOther)]
      rcases h.pending b hOther with ⟨hLt, hValid, hOpen⟩
      exact ⟨Nat.lt_succ_of_lt hLt, hValid, hOpen⟩
  · intro b d hb hd hEq
    rcases (hSplit b).mp hb with hb | hb
    · rcases (hSplit d).mp hd with hd | hd
      · rw [hb, hd]
      · rw [hb, hRequest, hAlarms d (hNe d hd)] at hEq
        have hLt := (h.pending d hd).1
        omega
    · rcases (hSplit d).mp hd with hd | hd
      · rw [hd, hRequest, hAlarms b (hNe b hb)] at hEq
        have hLt := (h.pending b hb).1
        omega
      · rw [hAlarms b (hNe b hb), hAlarms d (hNe d hd)] at hEq
        exact h.once b d hb hd hEq
  · rw [hSame, hRequests]
    exact fun n hn => Nat.lt_succ_of_lt (h.replied n hn)
  · rw [hSame]
    exact h.nodup
  · intro n hn
    rw [hRequests] at hn
    rw [hSame]
    rcases Nat.lt_succ_iff_lt_or_eq.mp hn with hLt | hEq
    · rcases h.covered n hLt with hReplied | ⟨b, hb, hEq⟩
      · exact Or.inl hReplied
      · refine Or.inr ⟨b, (hSplit b).mpr (Or.inr hb), ?_⟩
        rw [hAlarms b (hNe b hb)]
        exact hEq
    · refine Or.inr ⟨a, (hSplit a).mpr (Or.inl rfl), ?_⟩
      rw [hRequest, hEq]

/- A request is answered at once. -/
theorem Answered.direct
    (h : Answered s place)
    (hPending : ∀ b, Pending s' place b ↔ Pending s place b)
    (hAlarms : s'.alarms = s.alarms)
    (hRequests : s'.requests = s.requests + 1)
    (hReplies : repliedTo s' = repliedTo s ++ [s.requests]) :
    Answered s' place := by
  refine ⟨?_, ?_, ?_, ?_, ?_⟩
  · intro b hb
    rcases h.pending b ((hPending b).mp hb) with
      ⟨hLt, hValid, hOpen⟩
    rw [hAlarms, hRequests, hReplies, mem_append, mem_singleton]
    refine ⟨Nat.lt_succ_of_lt hLt, hValid, ?_⟩
    rintro (hMem | hEq)
    · exact hOpen hMem
    · omega
  · intro b d hb hd hEq
    rw [hAlarms] at hEq
    exact h.once b d ((hPending b).mp hb)
      ((hPending d).mp hd) hEq
  · intro n hn
    rw [hReplies, mem_append, mem_singleton] at hn
    rw [hRequests]
    rcases hn with hMem | hEq
    · exact Nat.lt_succ_of_lt (h.replied n hMem)
    · omega
  · rw [hReplies]
    refine nodup_append.mpr ⟨h.nodup, nodup_singleton _, ?_⟩
    intro n hn d hd hEq
    have hLt := h.replied n hn
    rw [mem_singleton] at hd
    omega
  · intro n hn
    rw [hRequests] at hn
    rw [hReplies, mem_append, mem_singleton]
    rcases Nat.lt_succ_iff_lt_or_eq.mp hn with hLt | hEq
    · rcases h.covered n hLt with hReplied | ⟨b, hb, hEq⟩
      · exact Or.inl (Or.inl hReplied)
      · refine Or.inr ⟨b, (hPending b).mpr hb, ?_⟩
        rw [hAlarms]
        exact hEq
    · exact Or.inl (Or.inr hEq)

/- A pending request is answered. -/
theorem Answered.reply
    (h : Answered s place)
    (hSplit : ∀ b, Pending s place b ↔
      b = a ∨ Pending s' place b)
    (hGone : ¬ Pending s' place a)
    (hAlarms : s'.alarms = s.alarms)
    (hRequests : s'.requests = s.requests)
    (hReplies : repliedTo s' =
      repliedTo s ++ [(s.alarms a).request]) :
    Answered s' place := by
  have ha : Pending s place a := (hSplit a).mpr (Or.inl rfl)
  rcases h.pending a ha with ⟨hLtA, _, hOpenA⟩
  refine ⟨?_, ?_, ?_, ?_, ?_⟩
  · intro b hb
    have hOld := (hSplit b).mpr (Or.inr hb)
    rcases h.pending b hOld with ⟨hLt, hValid, hOpen⟩
    rw [hAlarms, hRequests, hReplies, mem_append, mem_singleton]
    refine ⟨hLt, hValid, ?_⟩
    rintro (hMem | hEq)
    · exact hOpen hMem
    · exact hGone (h.once b a hOld ha hEq ▸ hb)
  · intro b d hb hd hEq
    rw [hAlarms] at hEq
    exact h.once b d ((hSplit b).mpr (Or.inr hb))
      ((hSplit d).mpr (Or.inr hd)) hEq
  · intro n hn
    rw [hReplies, mem_append, mem_singleton] at hn
    rw [hRequests]
    rcases hn with hMem | hEq
    · exact h.replied n hMem
    · omega
  · rw [hReplies]
    refine nodup_append.mpr ⟨h.nodup, nodup_singleton _, ?_⟩
    intro n hn d hd hEq
    rw [mem_singleton] at hd
    exact hOpenA (hd ▸ hEq ▸ hn)
  · intro n hn
    rw [hRequests] at hn
    rw [hReplies, mem_append, mem_singleton]
    rcases h.covered n hn with hReplied | ⟨b, hb, hEq⟩
    · exact Or.inl (Or.inl hReplied)
    · rcases (hSplit b).mp hb with hba | hb'
      · subst hba
        exact Or.inl (Or.inr hEq.symm)
      · refine Or.inr ⟨b, hb', ?_⟩
        rw [hAlarms]
        exact hEq

/- The alarms between two sections. -/
structure AlarmsIn
    (s : Clocks τ)
    (active : Nat → List Nat)
    (done free : List Nat)
    (place : Nat → AlarmPlace τ) : Prop where
  inv : AlarmInv s active done free place
  answered : Answered s place
  unlocked : ∀ a, place a ≠ .locker

------
-- Times
------

theorem cmpTvalspec_total
    {t u : Tvalspec}
    (h : 0 < cmpTvalspec t u) :
    cmpTvalspec u t ≤ 0 := by
  unfold cmpTvalspec at h ⊢
  split_ifs at h ⊢ <;> omega

theorem cmpTvalspec_trans
    {t u v : Tvalspec}
    (h₁ : cmpTvalspec t u ≤ 0)
    (h₂ : cmpTvalspec u v ≤ 0) :
    cmpTvalspec t v ≤ 0 := by
  unfold cmpTvalspec at h₁ h₂ ⊢
  split_ifs at h₁ h₂ ⊢ <;> omega

------
-- Posting
------

variable {s : Clocks τ} {active : Nat → List Nat}
variable {done free : List Nat} {place : Nat → AlarmPlace τ}
variable {c a : Nat}

/- The walk stops before the first alarm that is later. -/
theorem postWalk_spec
    (time : Tvalspec)
    {cells : List Nat}
    {r : Ref AlarmHead}
    {fuel : Nat}
    (h : Linked s.links r cells)
    (hFuel : cells.length < fuel) :
    ∃ front back, cells = front ++ back ∧
      s.postWalk time fuel r = some (lastRef r front) ∧
      (∀ b ∈ front,
        cmpTvalspec (s.alarms b).alTime time ≤ 0) ∧
      ∀ b rest, back = b :: rest →
        0 < cmpTvalspec (s.alarms b).alTime time := by
  induction cells generalizing r fuel with
  | nil =>
      cases fuel with
      | zero => simp at hFuel
      | succ fuel =>
          have hEnd : s.links.next r = 0 := h
          refine ⟨[], [], rfl, ?_, by simp, by simp⟩
          simp [Clocks.postWalk, hEnd, lastRef]
  | cons b cells ih =>
      cases fuel with
      | zero => simp at hFuel
      | succ fuel =>
          rcases h with ⟨hNext, hb, _, hRest⟩
          by_cases hLater :
              0 < cmpTvalspec (s.alarms b).alTime time
          · refine ⟨[], b :: cells, rfl, ?_, by simp, ?_⟩
            · simp [Clocks.postWalk, hNext, hb, hLater, lastRef]
            · intro b' rest hEq
              cases hEq
              exact hLater
          · rcases ih hRest (by simpa using hFuel) with
              ⟨front, back, hCells, hWalk, hFront, hBack⟩
            refine ⟨b :: front, back, by simp [hCells], ?_,
              ?_, hBack⟩
            · simp [Clocks.postWalk, hNext, hb, hLater,
                hWalk, lastRef]
            · intro b' hb'
              rcases mem_cons.mp hb' with hEq | hMem
              · rw [hEq]
                omega
              · exact hFront b' hMem

/- An alarm that is not to be served after another one. -/
abbrev InTime (s : Clocks τ) (x y : Nat) : Prop :=
  cmpTvalspec (s.alarms x).alTime (s.alarms y).alTime ≤ 0

/- Where the walk stops an alarm is in its order. -/
theorem inTime_insert
    {front back : List Nat}
    (hOrder : (front ++ back).Pairwise (InTime s))
    (hFront : ∀ b ∈ front, InTime s b a)
    (hBack : ∀ b rest, back = b :: rest →
      0 < cmpTvalspec (s.alarms b).alTime
        (s.alarms a).alTime) :
    (front ++ a :: back).Pairwise (InTime s) := by
  rw [pairwise_append] at hOrder
  refine pairwise_append.mpr ⟨hOrder.1,
    pairwise_cons.mpr ⟨?_, hOrder.2.1⟩, ?_⟩
  · -- what is behind the alarm is later than it
    intro y hy
    cases back with
    | nil => simp at hy
    | cons b back =>
        have hLater := cmpTvalspec_total (hBack b back rfl)
        rcases mem_cons.mp hy with hEq | hMem
        · rw [hEq]
          exact hLater
        · exact cmpTvalspec_trans hLater
            ((pairwise_cons.mp hOrder.2.1).1 y hMem)
  · intro x hx y hy
    rcases mem_cons.mp hy with hEq | hMem
    · rw [hEq]
      exact hFront x hx
    · exact hOrder.2.2 x hx y hMem

theorem postAlarm_eq
    {r : Ref AlarmHead}
    (hWalk : s.postWalk (s.alarms a).alTime s.nextAlarm
      (.head (.clAlarm c)) = some r) :
    ∃ x, s.postAlarm c a = some { s with
      links := s.links.insertAfter r a, setalrm := x } := by
  simp only [Clocks.postAlarm, hWalk, Option.bind_eq_bind,
    Option.bind_some]
  exact ⟨_, rfl⟩

section AlarmInv

variable (h : AlarmInv s active done free place)

include h

/- A clock's list is shorter than the count of alarms. -/
theorem AlarmInv.length_lt
    (c : Nat) :
    (active c).length < s.nextAlarm := by
  have hSub : (0 :: active c) ⊆ List.range s.nextAlarm := by
    intro b hb
    rw [mem_range]
    rcases mem_cons.mp hb with hEq | hMem
    · rw [hEq]
      exact h.pos
    · by_contra hNot
      have hOut := (h.outside b).mpr (Or.inr (by omega))
      rw [(h.lists.inActive c b).mp hMem] at hOut
      simp at hOut
  have hNodup : (0 :: active c).Nodup :=
    nodup_cons.mpr
      ⟨(h.lists.linkedActive c).zero_notMem,
        h.lists.nodupActive c⟩
  have hLen := (subperm_of_subset hNodup hSub).length_le
  rw [length_cons, length_range] at hLen
  omega

theorem AlarmInv.other
    {x : Nat → Option Tvalspec}
    {y : Nat}
    {z : List AlarmReply} :
    AlarmInv { s with setalrm := x, requests := y, replies := z }
      active done free place :=
  ⟨h.lists, h.outside, h.heldPhase, h.heldBack, h.server,
    h.sleeping, h.once, h.sorted, h.activeStatus, h.asleep,
    h.pos⟩

/- `PostAlarm` puts an alarm in its order. -/
theorem postAlarm_inv
    (ha : place a = .locker)
    (hPos : a ≠ 0)
    (hStatus : (s.alarms a).alStatus = .clock ∧
        (∀ t w, s.phase t ≠ .sleeping a w) ∨
      (s.alarms a).alStatus = .sleep ∧
        ∃ t w, s.phase t = .sleeping a w) :
    ∃ front back m setalrm,
      active c = front ++ back ∧
        s.postAlarm c a =
          some { s with links := m, setalrm := setalrm } ∧
        AlarmInv { s with links := m, setalrm := setalrm }
          (update active c (front ++ a :: back))
          done free
          (update place a (.active c)) := by
  rcases postWalk_spec (s.alarms a).alTime
      (h.lists.linkedActive c) (h.length_lt c) with
    ⟨front, back, hList, hWalk, hFront, hBack⟩
  have hLists := h.lists.insert ha hPos hList
  have hHeld := h.lists.insert_held ha hPos hList
  have hSorted : ∀ d, (update active c (front ++ a :: back)
      d).Pairwise (InTime s) := by
    intro d
    rw [update_apply]
    split
    · exact inTime_insert (hList ▸ h.sorted c) hFront hBack
    · exact h.sorted d
  have hSleep : (∀ t w, s.phase t ≠ .sleeping a w) ∨
      (AlarmPlace.active c : AlarmPlace τ) = .locker ∨
      ((∃ d, (AlarmPlace.active c : AlarmPlace τ) =
          .active d) ∧
        (s.alarms a).alStatus = .sleep) := by
    rcases hStatus with ⟨_, hNone⟩ | ⟨hSleep, _⟩
    · exact Or.inl hNone
    · exact Or.inr (Or.inr ⟨⟨c, rfl⟩, hSleep⟩)
  have hNew := h.relist hLists hHeld
    (by simp [ha, AlarmPlace.Listed])
    (by simp [AlarmPlace.Listed]) hSleep hSorted
    (fun _ _ => hStatus.imp And.left id) h.asleep
  rcases postAlarm_eq hWalk with ⟨x, hPost⟩
  exact ⟨front, back, _, _, hList, hPost, hNew.other⟩

/- An alarm that is being moved is not pending. -/
theorem AlarmInv.not_pending
    (ha : place a = .locker) :
    ¬ Pending s place a := by
  rintro (⟨⟨c, hc⟩, _⟩ | hDone | hServer)
  · rw [ha] at hc
    simp at hc
  · rw [ha] at hDone
    simp at hDone
  · have hPlace := (h.server a).mpr (Or.inl hServer)
    rw [ha] at hPlace
    simp at hPlace

end AlarmInv

/- Whether another alarm is pending does not change. -/
theorem pending_other
    {b : Nat}
    (hNe : b ≠ a)
    (hAlarm : s'.alarms b = s.alarms b)
    (hServer : s'.server = .serving b ↔
      s.server = .serving b) :
    Pending s' (update place a q) b ↔
      Pending s place b := by
  unfold Pending
  rw [update_of_ne hNe, hAlarm, hServer]

section Post

variable [DecidableEq τ] {t : τ}

omit [DecidableEq τ] in
theorem unlocked_update
    (hOnly : ∀ b, b ≠ a → place b ≠ .locker)
    (hq : q ≠ .locker) :
    ∀ b, update place a q b ≠ .locker := by
  intro b
  rw [update_apply]
  split
  · exact hq
  · rename_i hb
    exact hOnly b hb

theorem postWalk_setPhase
    {time : Tvalspec}
    (fuel : Nat)
    (r : Ref AlarmHead) :
    (s.setPhase t p).postWalk time fuel r =
      s.postWalk time fuel r := by
  induction fuel generalizing r with
  | zero => rfl
  | succ fuel ih =>
      simp only [Clocks.postWalk, ih]
      rfl

theorem postAlarm_setPhase :
    (s.setPhase t p).postAlarm c a =
      (s.postAlarm c a).map (fun s => s.setPhase t p) := by
  simp only [Clocks.postAlarm, postWalk_setPhase]
  have hTime : ((s.setPhase t p).alarms a).alTime =
      (s.alarms a).alTime := rfl
  have hNext : (s.setPhase t p).nextAlarm = s.nextAlarm := rfl
  rw [hTime, hNext]
  cases s.postWalk (s.alarms a).alTime s.nextAlarm
    (.head (.clAlarm c)) <;> rfl

/- An alarm that was got is entered and posted. -/
theorem post_in
    {posting : Posting}
    (h : AlarmInv s active done free place)
    (hAns : Answered s place)
    (ha : place a = .locker)
    (hOnly : ∀ b, b ≠ a → place b ≠ .locker)
    (hPos : a ≠ 0)
    (hNone : ∀ u w, s.phase u ≠ .sleeping a w)
    (hPhase : ∀ b w, s.phase t ≠ .sleeping b w)
    (hPort : ∀ alarmType time port portType,
      posting = .alarm alarmType time port portType →
        ipValid port = true) :
    ∃ s' front back,
      s.post t c posting a = some s' ∧
        active c = front ++ back ∧
        AlarmsIn s'
          (update active c (front ++ a :: back))
          done free (update place a (.active c)) := by
  have hOld := h.not_pending ha
  have hUnlocked := unlocked_update (q := .active c) hOnly
    (by simp)
  cases posting with
  | alarm alarmType time port portType =>
      generalize hAlarm :
        ({ alStatus := .clock
           alTime := time
           alType := alarmType
           alPort := port
           alPortType := portType
           alClock := c
           request := s.requests } : Alarm) = alarm
      have hFill := h.fill ha alarm
      have hSelf : (s.setAlarm a alarm).alarms a = alarm :=
        update_self _ _ _
      rcases postAlarm_inv (c := c) hFill ha hPos (Or.inl
          ⟨by rw [hSelf, ← hAlarm], hNone⟩) with
        ⟨front, back, m, x, hList, hPost, hNew⟩
      have hRun : s.post t c
          (.alarm alarmType time port portType) a =
            some (({ s.setAlarm a alarm with
              links := m
              setalrm := x
              requests := s.requests + 1 } :
                Clocks τ).setPhase t
                  (.returned .success none)) := by
        simp only [Clocks.post, hAlarm, hPost,
          Option.bind_eq_bind, Option.bind_some]
        rfl
      have hInv := (hNew.other (x := x)
        (y := s.requests + 1) (z := s.replies)).setPhase
          (t := t) (p := .returned .success none)
          hPhase (by simp)
      have hOther : ∀ b, b ≠ a →
          (s.setAlarm a alarm).alarms b = s.alarms b :=
        fun b hb => update_of_ne hb _ _
      refine ⟨_, front, back, hRun, hList, hInv, ?_, hUnlocked⟩
      refine hAns.ask (a := a) ?_ hOld ?_ ?_ ?_ rfl rfl
      · intro b
        by_cases hb : b = a
        · subst hb
          refine ⟨fun _ => Or.inl rfl, fun _ => Or.inl ?_⟩
          refine ⟨⟨c, update_self _ _ _⟩, ?_⟩
          exact (congrArg Alarm.alStatus hSelf).trans
            (by rw [← hAlarm])
        · exact Iff.trans (b := Pending s place b)
            (pending_other hb (hOther b hb) Iff.rfl)
            (by simp [hb])
      · exact (congrArg Alarm.request hSelf).trans
          (by rw [← hAlarm])
      · exact (congrArg (ipValid ∘ Alarm.alPort)
          hSelf).trans (by
            rw [← hAlarm]
            exact hPort _ _ _ _ rfl)
      · exact hOther
  | sleep time =>
      generalize hAlarm :
        ({ s.alarms a with
          alTime := time
          alStatus := .sleep } : Alarm) = alarm
      have hFill := h.fill ha alarm
      have hSelf : (s.setAlarm a alarm).alarms a = alarm :=
        update_self _ _ _
      have hStatus : alarm.alStatus = .sleep := by
        rw [← hAlarm]
      have hSleeps := hFill.setSleeping (t := t) hPhase ha
        hNone
      rcases postAlarm_inv (c := c) hSleeps ha hPos (Or.inr
          ⟨(congrArg Alarm.alStatus hSelf).trans hStatus,
            t, false, by simp⟩) with
        ⟨front, back, m, x, hList, hPost, hNew⟩
      have hRun : s.post t c (.sleep time) a =
          some { (s.setAlarm a alarm).setPhase t
              (.sleeping a false) with
            links := m
            setalrm := x } := by
        rw [postAlarm_setPhase] at hPost
        rw [← hPost]
        simp only [Clocks.post, hAlarm, Option.bind_eq_bind]
        cases (s.setAlarm a alarm).postAlarm c a <;> rfl
      refine ⟨_, front, back, hRun, hList, hNew, ?_, hUnlocked⟩
      apply hAns.congr
      · intro b
        by_cases hb : b = a
        · subst hb
          refine ⟨?_, fun hb => absurd hb hOld⟩
          rintro (⟨_, hClock⟩ | hDone | hServer)
          · have hSleep :=
              (congrArg Alarm.alStatus hSelf).trans hStatus
            exact absurd (hClock.symm.trans hSleep) (by simp)
          · simp at hDone
          · exact absurd (Or.inr (Or.inr hServer)) hOld
        · exact pending_other hb
            (update_of_ne hb _ _) Iff.rfl
      · intro b hb
        have hNe : b ≠ a := fun hEq => hOld (hEq ▸ hb)
        have hSame : (s.setAlarm a alarm).alarms b =
            s.alarms b := update_of_ne hNe _ _
        exact ⟨congrArg Alarm.request hSame,
          congrArg Alarm.alPort hSame⟩
      · rfl
      · rfl

end Post

------
-- Getting an Alarm
------

/-
  A section ran, the alarms are in their places again, and
  none left a clock's list but the ones that are given.
-/
def Keeps
    (active : Nat → List Nat)
    (own : Nat → Nat → Prop)
    (out : Option (Clocks τ)) : Prop :=
  ∃ s' active' done' free' place',
    out = some s' ∧ AlarmsIn s' active' done' free' place' ∧
      ∀ c a, a ∈ active c → a ∉ active' c → own c a

/- Posting takes no alarm off a list. -/
def OwnNone (_ _ : Nat) : Prop := False

/- An alarm that is not in use is not pending. -/
theorem AlarmInv.unused
    (h : AlarmInv s active done free place)
    (ha : place a = .free ∨ place a = .outside) :
    ¬ Pending s place a ∧
      ∀ t w, s.phase t ≠ .sleeping a w := by
  constructor
  · rintro (⟨⟨c, hc⟩, _⟩ | hDone | hServer)
    · rcases ha with ha | ha <;> rw [ha] at hc <;>
        simp at hc
    · rcases ha with ha | ha <;> rw [ha] at hDone <;>
        simp at hDone
    · have hPlace := (h.server a).mpr (Or.inl hServer)
      rcases ha with ha | ha <;> rw [ha] at hPlace <;>
        simp at hPlace
  · intro t w hPhase
    rcases h.sleeping t a w hPhase with
      ⟨⟨c, hc⟩, _⟩ | hb | hb <;>
      rcases ha with ha | ha <;> simp_all

/- Taking an alarm that is not in use leaves no request. -/
theorem AlarmInv.lock_answered
    (h : AlarmInv s active done free place)
    (hAns : Answered s place)
    (ha : place a = .free ∨ place a = .outside)
    (hAlarms : s'.alarms = s.alarms)
    (hServer : s'.server = s.server)
    (hRequests : s'.requests = s.requests)
    (hReplies : s'.replies = s.replies) :
    Answered s' (update place a .locker) := by
  have hOld := (h.unused ha).1
  apply hAns.congr _ _ hRequests hReplies
  · intro b
    by_cases hb : b = a
    · subst hb
      refine ⟨?_, fun hPending => absurd hPending hOld⟩
      rintro (⟨⟨c, hc⟩, _⟩ | hDone | hServing)
      · simp at hc
      · simp at hDone
      · rw [hServer] at hServing
        exact absurd (Or.inr (Or.inr hServing)) hOld
    · apply pending_other hb (by rw [hAlarms])
      rw [hServer]
  · intro b _
    rw [hAlarms]
    exact ⟨rfl, rfl⟩

theorem AlarmsIn.only
    (h : AlarmsIn s active done free place) :
    ∀ b, b ≠ a → update place a .locker b ≠ .locker := by
  intro b hb
  rw [update_of_ne hb]
  exact h.unlocked b

section Get

variable [DecidableEq τ] {t : τ} {posting : Posting}

/- What is put on a list by posting. -/
theorem insert_keeps
    (hList : active c = front ++ back) :
    ∀ d b, b ∈ active d →
      b ∉ update active c (front ++ a :: back) d →
      OwnNone d b := by
  intro d b hb hNot
  by_cases hd : d = c
  · subst hd
    rw [update_self] at hNot
    rw [hList] at hb
    apply hNot
    simp only [mem_append, mem_cons] at hb ⊢
    exact hb.imp id Or.inr
  · rw [update_of_ne hd] at hNot
    exact absurd hb hNot

omit [DecidableEq τ] in
/- A section that leaves the lists alone. -/
theorem AlarmsIn.keeps
    (h : AlarmsIn s' active done free place) :
    Keeps active OwnNone (some s') :=
  ⟨s', active, done, free, place, rfl, h,
    fun _ _ hb hNot => absurd hb hNot⟩

section AlarmsIn

variable (h : AlarmsIn s active done free place)

include h

section

variable (hPhase : ∀ b w, s.phase t ≠ .sleeping b w)
include hPhase

/- A thread goes on without a change to the alarms. -/
theorem AlarmsIn.setPhase
    (hNew : ∀ b w, p ≠ .sleeping b w) :
    AlarmsIn (s.setPhase t p) active done free place :=
  ⟨h.inv.setPhase hPhase hNew,
    h.answered.congr (fun _ => Iff.rfl)
      (fun _ _ => ⟨rfl, rfl⟩) rfl rfl,
    h.unlocked⟩

/- A request is answered without an alarm. -/
theorem AlarmsIn.direct
    {r : AlarmReply}
    {code : ClockReturn}
    (hRequest : r.request = s.requests) :
    AlarmsIn
      ({ s.clockAlarmReply r with
        requests := s.requests + 1 }.setPhase t
          (.returned code none))
      active done free place := by
  have hInv := h.inv.other (x := s.setalrm)
    (y := s.requests + 1) (z := s.replies ++ [r])
  refine ⟨hInv.setPhase hPhase (by simp), ?_, h.unlocked⟩
  refine h.answered.direct (fun _ => ?_) ?_ ?_ ?_
  · rfl
  · rfl
  · rfl
  · simp [repliedTo, Clocks.setPhase, Clocks.clockAlarmReply,
      hRequest]

theorem getAlarm_keeps
    (hPort : ∀ alarmType time port portType,
      posting = .alarm alarmType time port portType →
        ipValid port = true) :
    Keeps active OwnNone (s.getAlarm t c posting) := by
  unfold Clocks.getAlarm
  by_cases hZero : s.alrmfree = 0
  · rw [if_pos hZero]
    exact (h.setPhase hPhase (by simp)).keeps
  · rw [if_neg hZero]
    cases free with
    | nil => exact absurd h.inv.lists.linkedFree hZero
    | cons a free =>
        rcases h.inv.lists.take_free with
          ⟨hEq, hPos, hLists⟩
        have ha : place a = .free :=
          (h.inv.lists.inFree a).mp mem_cons_self
        have hInv := h.inv.relist hLists
          (fun _ _ _ => ⟨rfl, rfl⟩)
          (by simp [ha, AlarmPlace.Listed])
          (by simp [AlarmPlace.Listed])
          (Or.inr (Or.inl rfl)) h.inv.sorted (by simp)
          h.inv.asleep
        have hUnused := h.inv.unused (Or.inl ha)
        have hAns : Answered { s with
            links := s.links
            alrmfree := s.links.next (.cell a) }
            (update place a .locker) :=
          h.inv.lock_answered h.answered (Or.inl ha) rfl rfl
            rfl rfl
        rcases post_in (c := c) (t := t) hInv hAns
            (update_self _ _ _) h.only hPos
            hUnused.2 hPhase hPort with
          ⟨s', front, back, hRun, hList, hIn⟩
        rw [hEq]
        exact ⟨s', _, _, _, _, hRun, hIn, insert_keeps hList⟩

theorem zallocAlarm_keeps
    {ok : Bool}
    (hPort : ∀ alarmType time port portType,
      posting = .alarm alarmType time port portType →
        ipValid port = true) :
    Keeps active OwnNone (s.zallocAlarm t c posting ok) := by
  cases ok with
  | false =>
      exact (h.setPhase hPhase (by simp)).keeps
  | true =>
      rcases h.inv.fresh with ⟨ha, hInv⟩
      have hUnused := h.inv.unused (Or.inr ha)
      have hAns : Answered
          { s with nextAlarm := s.nextAlarm + 1 }
          (update place s.nextAlarm .locker) :=
        h.inv.lock_answered h.answered (Or.inr ha) rfl rfl
          rfl rfl
      have hPos : s.nextAlarm ≠ 0 :=
        Nat.pos_iff_ne_zero.mp h.inv.pos
      rcases post_in (c := c) (t := t) hInv hAns
          (update_self _ _ _) h.only hPos
          hUnused.2 hPhase hPort with
        ⟨s', front, back, hRun, hList, hIn⟩
      exact ⟨s', _, _, _, _, hRun, hIn, insert_keeps hList⟩

end

theorem clockAlarm_keeps
    {alarmType : BitVec 32}
    {alarmTime clockTime : Tvalspec}
    {port portType : Nat}
    (hPhase : ∀ b w, s.phase t ≠ .sleeping b w) :
    Keeps active OwnNone
      (s.clockAlarm hasSetalrm t c alarmType alarmTime port
        portType clockTime) := by
  unfold Clocks.clockAlarm
  split_ifs with hClock hOps hPort
  · exact (h.setPhase hPhase (by simp)).keeps
  · exact (h.setPhase hPhase (by simp)).keeps
  · exact (h.setPhase hPhase (by simp)).keeps
  · dsimp only
    split
    · exact (h.direct hPhase rfl).keeps
    · apply getAlarm_keeps h hPhase
      intro _ _ _ _ hEq
      cases hEq
      simpa using hPort

theorem clockSleep_keeps
    {sleepType : BitVec 32}
    {sleepTime clockTime : Tvalspec}
    (hPhase : ∀ b w, s.phase t ≠ .sleeping b w) :
    Keeps active OwnNone
      (s.clockSleep hasSetalrm t c sleepType sleepTime
        clockTime) := by
  unfold Clocks.clockSleep
  split_ifs with hClock hOps
  · exact (h.setPhase hPhase (by simp)).keeps
  · exact (h.setPhase hPhase (by simp)).keeps
  · dsimp only
    split_ifs with hBad hLater
    · exact (h.setPhase hPhase (by simp)).keeps
    · exact getAlarm_keeps h hPhase (by simp)
    · exact (h.setPhase hPhase (by simp)).keeps

end AlarmsIn

end Get

------
-- Taking Alarms off a Clock's List
------

theorem AlarmInv.wakeServer
    (h : AlarmInv s active done free place) :
    AlarmInv s.wakeServer active done free place ∧
      s.wakeServer.server ≠ .asleep ∧
      ∀ b, s.wakeServer.server = .serving b ↔
        s.server = .serving b := by
  unfold Clocks.wakeServer
  by_cases hAsleep : s.server = .asleep
  · simp only [hAsleep, if_true]
    refine ⟨⟨h.lists, h.outside, h.heldPhase, h.heldBack, ?_,
      h.sleeping, h.once, h.sorted, h.activeStatus, by simp,
      h.pos⟩, by simp, by simp⟩
    intro b
    rw [h.server, hAsleep]
    simp
  · simp only [hAsleep, if_false]
    exact ⟨h, hAsleep, by simp⟩

/- The stores of a push are those of an insertion. -/
theorem pushDone_eq
    (hNe : s.links.next (.head .alrmdone) ≠ a) :
    s.pushDone a =
      { (if s.links.next (.head .alrmdone) = 0 then
          s.wakeServer else s) with
        links :=
          s.links.insertAfter (.head .alrmdone) a } := by
  have hNext : update
      (update s.links.next (.cell a)
        (s.links.next (.head .alrmdone)))
      (.head .alrmdone) a =
        update
          (update s.links.next (.head .alrmdone) a)
          (.cell a) (s.links.next (.head .alrmdone)) :=
    update_comm (by simp) _ _ _
  unfold Clocks.pushDone Links.insertAfter
  dsimp only [Links.setNext, Links.setPrev, Clocks.wakeServer]
  split
  · rw [hNext]
  · rw [hNext, update_comm hNe]

/- An alarm being moved goes to the done list. -/
theorem pushDone_inv
    (h : AlarmInv s active done free place)
    (ha : place a = .locker)
    (hPos : a ≠ 0)
    (hNone : ∀ t w, s.phase t ≠ .sleeping a w) :
    AlarmInv (s.pushDone a) active (a :: done) free
        (update place a .done) ∧
      (s.pushDone a).alarms = s.alarms ∧
      (s.pushDone a).requests = s.requests ∧
      (s.pushDone a).replies = s.replies ∧
      ∀ b, (s.pushDone a).server = .serving b ↔
        s.server = .serving b := by
  have hNe : s.links.next (.head .alrmdone) ≠ a := by
    intro hEq
    have hMem := h.lists.linkedDone.next_mem
      (by rw [hEq]; exact hPos)
    rw [hEq, h.lists.inDone, ha] at hMem
    simp at hMem
  have hLists := h.lists.push_done ha hPos
  have hHeld := h.lists.push_done_held ha hPos
  have hOld : (place a).Listed := by
    simp [ha, AlarmPlace.Listed]
  rw [pushDone_eq hNe]
  by_cases hZero : s.links.next (.head .alrmdone) = 0
  · rw [if_pos hZero]
    rcases h.wakeServer with ⟨hWake, hAwake, hServer⟩
    refine ⟨?_, rfl, rfl, rfl, hServer⟩
    exact hWake.relist hLists hHeld hOld
      (by simp [AlarmPlace.Listed]) (Or.inl hNone) h.sorted
      (by simp) (fun hAsleep => absurd hAsleep hAwake)
  · rw [if_neg hZero]
    refine ⟨?_, rfl, rfl, rfl, fun _ => Iff.rfl⟩
    have hSome := mt h.lists.linkedDone.next_eq_zero_iff.mpr
      hZero
    exact h.relist hLists hHeld hOld
      (by simp [AlarmPlace.Listed]) (Or.inl hNone) h.sorted
      (by simp)
      (fun hAsleep => absurd (h.asleep hAsleep) hSome)

/- The status may be set before the push as well. -/
theorem pushDone_setAlarm :
    (s.pushDone a).setAlarm a
        { (s.pushDone a).alarms a with alStatus := .done } =
      (s.setAlarm a
        { s.alarms a with alStatus := .done }).pushDone a := by
  unfold Clocks.pushDone Clocks.setAlarm
  dsimp only
  split <;> rfl

/- An alarm is cut out of its clock's list. -/
theorem cut_inv
    (h : AlarmInv s active done free place)
    (hList : active c = front ++ a :: back) :
    AlarmInv
      { s with
        links := s.links.cut (s.links.prev a)
          (s.links.next (.cell a)) }
      (update active c (front ++ back)) done free
      (update place a .locker) := by
  have ha : place a = .active c := by
    rw [← h.lists.inActive, hList]
    simp
  refine h.relist (h.lists.cut_active hList).2
    (h.lists.cut_active_held hList)
    (by simp [ha, AlarmPlace.Listed])
    (by simp [AlarmPlace.Listed]) (Or.inr (Or.inl rfl)) ?_
    (by simp) h.asleep
  intro d
  rw [update_apply]
  split
  · have hOrder := h.sorted c
    rw [hList] at hOrder
    exact hOrder.sublist (List.Sublist.append_left
      (sublist_cons_self a back) front)
  · exact h.sorted d

/- The first alarm of a list is cut out at the head. -/
theorem cut_first
    (h : AlarmInv s active done free place)
    (hList : active c = a :: back) :
    s.links.prev a = .head (.clAlarm c) ∧ a ≠ 0 ∧
      AlarmInv
        { s with
          links := s.links.cut (.head (.clAlarm c))
            (s.links.next (.cell a)) }
        (update active c back) done free
        (update place a .locker) := by
  have hSplit : active c = [] ++ a :: back := hList
  have hPrev := (h.lists.cut_active hSplit).1
  have hCut := cut_inv h hSplit
  rw [hPrev, lastRef] at hCut
  have hLinked := h.lists.linkedActive c
  rw [hList] at hLinked
  exact ⟨hPrev, hLinked.2.1, hCut⟩

/-
  The first alarm of a list is a sleeper's: the sleeper is
  woken and holds it.
-/
theorem takeFirst_sleep
    (h : AlarmsIn s active done free place)
    (hList : active c = a :: back)
    (hStatus : (s.alarms a).alStatus = .sleep) :
    ∃ place',
      AlarmsIn (s.takeFirst c a expired)
        (update active c back) done free place' := by
  have ha : place a = .active c := by
    rw [← h.inv.lists.inActive, hList]
    exact mem_cons_self
  have hSleeper : ∃ t w, s.phase t = .sleeping a w := by
    rcases h.inv.activeStatus a c ha with hClock | hSleep
    · rw [hStatus] at hClock
      simp at hClock
    · exact hSleep.2
  rcases hSleeper with ⟨t, w, hPhase⟩
  rcases cut_first h.inv hList with ⟨hPrev, hPos, hCut⟩
  have hLocker : update place a .locker a =
      .locker := update_self _ _ _
  -- the link to the next alarm is cleared
  have hClear := hCut.relist
    (hCut.lists.setNext (p := 0) hLocker |>.move (a := a)
      (q := .locker) (by simp) (by simp))
    (AlarmLists.setNext_held hLocker)
    (by simp [AlarmPlace.Listed]) (by simp [AlarmPlace.Listed])
    (Or.inr (Or.inl rfl)) hCut.sorted (by simp) hCut.asleep
  rw [update_idem] at hClear
  have hBack : (((s.links.cut (.head (.clAlarm c))
      (s.links.next (.cell a))).setNext
        (.cell a) 0).prev a) = .head (.clAlarm c) := by
    rw [Links.setNext_prev, Links.cut_prev]
    split
    · rfl
    · exact hPrev
  -- the alarm belongs to no request, before or after
  have hNot : ¬ Pending s place a := by
    rintro (⟨_, hClock⟩ | hDone | hServer)
    · rw [hStatus] at hClock
      simp at hClock
    · rw [ha] at hDone
      simp at hDone
    · rw [(h.inv.server a).mpr (Or.inl hServer)] at ha
      simp at ha
  have hAnswered : ∀ s' : Clocks τ,
      (∀ b, b ≠ a → s'.alarms b = s.alarms b) →
      s'.server = s.server → s'.requests = s.requests →
      s'.replies = s.replies →
      Answered s' (update place a (.held t)) := by
    intro s' hAlarms hServer hRequests hReplies
    apply h.answered.congr _ _ hRequests hReplies
    · intro b
      by_cases hb : b = a
      · subst hb
        refine ⟨?_, fun hOld => absurd hOld hNot⟩
        rintro (⟨⟨d, hd⟩, _⟩ | hDone | hServing)
        · simp at hd
        · simp at hDone
        · rw [hServer] at hServing
          exact absurd (Or.inr (Or.inr hServing)) hNot
      · apply pending_other hb (hAlarms b hb)
        rw [hServer]
    · intro b hb
      have hNe : b ≠ a := fun hEq => hNot (hEq ▸ hb)
      rw [hAlarms b hNe]
      exact ⟨rfl, rfl⟩
  have hUnlocked := unlocked_update (q := .held t)
    (fun b (_ : b ≠ a) => h.unlocked b) (by simp)
  refine ⟨update place a (.held t), ?_⟩
  unfold Clocks.takeFirst
  rw [if_pos hStatus]
  cases expired with
  | none =>
      have hHold := hClear.hold hPhase hLocker (Or.inr
        ⟨hStatus, by simp, c, hBack⟩)
      rw [update_idem] at hHold
      exact ⟨hHold, hAnswered _ (fun _ _ => rfl) rfl rfl rfl,
        hUnlocked⟩
  | some now =>
      have hFill := hClear.fill hLocker
        { s.alarms a with alStatus := .done, alTime := now }
      have hHold := hFill.hold hPhase hLocker (Or.inl
        (congrArg Alarm.alStatus
          (update_self a _ s.alarms)))
      rw [update_idem] at hHold
      exact ⟨hHold, hAnswered _
        (fun b hb => update_of_ne hb _ _)
        rfl rfl rfl, hUnlocked⟩

/-
  The first alarm of a list is a request's: it goes to the
  done list.
-/
theorem takeFirst_clock
    (h : AlarmsIn s active done free place)
    (hList : active c = a :: back)
    (hStatus : (s.alarms a).alStatus ≠ .sleep) :
    ∃ place',
      AlarmsIn (s.takeFirst c a expired)
        (update active c back) (a :: done) free
        place' := by
  have ha : place a = .active c := by
    rw [← h.inv.lists.inActive, hList]
    exact mem_cons_self
  have hClock : (s.alarms a).alStatus = .clock := by
    rcases h.inv.activeStatus a c ha with hClock | hSleep
    · exact hClock
    · exact absurd hSleep.1 hStatus
  have hNone : ∀ t w, s.phase t ≠ .sleeping a w := by
    intro t w hPhase
    rcases h.inv.sleeping t a w hPhase with hIn | hHeld | hIn
    · exact hStatus hIn.2
    · rw [ha] at hHeld
      simp at hHeld
    · rw [ha] at hIn
      simp at hIn
  rcases cut_first h.inv hList with ⟨_, hPos, hCut⟩
  have hLocker : update place a .locker a =
      .locker := update_self _ _ _
  have hPending : Pending s place a :=
    Or.inl ⟨⟨c, ha⟩, hClock⟩
  have hAnswered : ∀ s' : Clocks τ,
      (∀ b, b ≠ a → s'.alarms b = s.alarms b) →
      (s'.alarms a).request = (s.alarms a).request →
      (s'.alarms a).alPort = (s.alarms a).alPort →
      (∀ b, s'.server = .serving b ↔
        s.server = .serving b) →
      s'.requests = s.requests → s'.replies = s.replies →
      Answered s' (update place a .done) := by
    intro s' hAlarms hRequest hPort hServer hRequests hReplies
    apply h.answered.congr _ _ hRequests hReplies
    · intro b
      by_cases hb : b = a
      · subst hb
        exact ⟨fun _ => hPending, fun _ =>
          Or.inr (Or.inl (update_self _ _ _))⟩
      · exact pending_other hb (hAlarms b hb) (hServer b)
    · intro b _
      by_cases hb : b = a
      · subst hb
        exact ⟨hRequest, hPort⟩
      · rw [hAlarms b hb]
        exact ⟨rfl, rfl⟩
  have hUnlocked := unlocked_update (q := .done)
    (fun b (_ : b ≠ a) => h.unlocked b) (by simp)
  refine ⟨update place a .done, ?_⟩
  unfold Clocks.takeFirst
  dsimp only
  rw [if_neg hStatus]
  cases expired with
  | none =>
      rcases pushDone_inv hCut hLocker hPos hNone with
        ⟨hInv, hAlarms, hRequests, hReplies, hServer⟩
      rw [update_idem] at hInv
      refine ⟨hInv, ?_, hUnlocked⟩
      apply hAnswered _ _ _ _ hServer hRequests hReplies
      · intro b _
        rw [hAlarms]
      · rw [hAlarms]
      · rw [hAlarms]
  | some now =>
      have hFill := hCut.fill hLocker
        { s.alarms a with alStatus := .done }
      rcases pushDone_inv hFill hLocker hPos hNone with
        ⟨hInv, hAlarms, hRequests, hReplies, hServer⟩
      rw [update_idem] at hInv
      have hSelf : update s.alarms a
          { s.alarms a with alStatus := .done } a =
            { s.alarms a with alStatus := .done } :=
        update_self _ _ _
      rw [pushDone_setAlarm]
      refine ⟨hInv, ?_, hUnlocked⟩
      apply hAnswered _ _ _ _ hServer hRequests hReplies
      · intro b hb
        rw [hAlarms]
        exact update_of_ne hb _ _
      · rw [hAlarms]
        exact (congrArg Alarm.request hSelf).trans rfl
      · rw [hAlarms]
        exact (congrArg Alarm.alPort hSelf).trans rfl

/- The first alarm of a list leaves it; the others stay. -/
theorem takeFirst_in
    (expired : Option Tvalspec)
    (h : AlarmsIn s active done free place)
    (hList : active c = a :: back) :
    ∃ done' place',
      AlarmsIn (s.takeFirst c a expired)
        (update active c back) done' free place' := by
  by_cases hStatus : (s.alarms a).alStatus = .sleep
  · rcases takeFirst_sleep h hList hStatus with ⟨place', hIn⟩
    exact ⟨done, place', hIn⟩
  · rcases takeFirst_clock h hList hStatus with ⟨place', hIn⟩
    exact ⟨a :: done, place', hIn⟩

end Kern

end OsfMach
