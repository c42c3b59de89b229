import OsfMach.Kern.Clock

/-
  Where the alarms of the clocks are.

  Every alarm that was allocated has one place. The lists of
  the clocks are linked both ways and in the order of their
  times, and a thread that sleeps has an alarm of its own.

  Main declarations:
    * `AlarmPlace`, `AlarmLists`
    * `AlarmInv`
    * `AlarmLists.insert`, `AlarmLists.cut_active`
-/

------
-- Places
------

namespace OsfMach

namespace Kern

open Function
open List
open Lib.Cells

variable {τ : Type}

/-
  The place of an alarm. An alarm is with the holder of the
  lock while it is moved.
-/
inductive AlarmPlace (τ : Type) where
| outside
| active (clock : Nat)
| done
| free
| held (t : τ)
| server
| locker
deriving DecidableEq

section Places

variable {place : Nat → AlarmPlace τ} {p q : AlarmPlace τ}
variable {a b : Nat}

/- The place of a moved alarm is the only one to change. -/
theorem update_place_iff
    (hOld : place a ≠ p)
    (hNew : q ≠ p) :
    update place a q b = p ↔ place b = p := by
  rw [update_apply]
  split
  · rename_i hb
    simp [hb, hOld, hNew]
  · rfl

/- No other alarm enters the new place. -/
theorem of_update_place
    (hb : update place a q b = p)
    (hNew : q ≠ p) :
    b ≠ a ∧ place b = p := by
  rw [update_apply] at hb
  split at hb
  · exact absurd hb hNew
  · rename_i hNe
    exact ⟨hNe, hb⟩

theorem ne_of_place
    (hb : place b = p)
    (ha : place a = q)
    (hNe : p ≠ q) :
    b ≠ a := by
  rintro rfl
  exact hNe (hb.symm.trans ha)

end Places

/- The free list is linked one way. -/
def AlarmFree (m : Links AlarmHead) : Nat → List Nat → Prop
| p, [] => p = 0
| p, a :: cells =>
    p = a ∧ a ≠ 0 ∧ AlarmFree m (m.next (.cell a)) cells

theorem AlarmFree.congr
    {m m' : Links AlarmHead}
    {p : Nat}
    {cells : List Nat}
    (h : AlarmFree m p cells)
    (hNext : ∀ b ∈ cells,
      m'.next (.cell b) = m.next (.cell b)) :
    AlarmFree m' p cells := by
  induction cells generalizing p with
  | nil => exact h
  | cons b cells ih =>
      rcases h with ⟨hEq, hb, hRest⟩
      refine ⟨hEq, hb, ?_⟩
      rw [hNext b mem_cons_self]
      exact ih hRest
        (fun c hc => hNext c (mem_cons_of_mem _ hc))

/- The lists, and which alarms are on them. -/
structure AlarmLists
    (m : Links AlarmHead)
    (alrmfree : Nat)
    (active : Nat → List Nat)
    (done free : List Nat)
    (place : Nat → AlarmPlace τ) : Prop where
  linkedActive :
    ∀ c, Linked m (.head (.clAlarm c)) (active c)
  linkedDone : Linked m (.head .alrmdone) done
  linkedFree : AlarmFree m alrmfree free
  nodupActive : ∀ c, (active c).Nodup
  nodupDone : done.Nodup
  nodupFree : free.Nodup
  inActive : ∀ c a, a ∈ active c ↔ place a = .active c
  inDone : ∀ a, a ∈ done ↔ place a = .done
  inFree : ∀ a, a ∈ free ↔ place a = .free

namespace AlarmLists

variable {m m' : Links AlarmHead} {alrmfree : Nat}
variable {active : Nat → List Nat}
variable {done free front back : List Nat}
variable {place : Nat → AlarmPlace τ} {c a : Nat}
variable {p q : AlarmPlace τ} {b x : Nat}

theorem mem_update_iff
    {cells : List Nat}
    (h : b ∈ cells ↔ place b = p)
    (hOld : place a ≠ p)
    (hNew : q ≠ p) :
    b ∈ cells ↔ update place a q b = p :=
  h.trans (update_place_iff hOld hNew).symm

/- An alarm that is on no list may be moved to no list. -/
theorem move
    (h : AlarmLists m alrmfree active done free place)
    (hOld : (∀ c, place a ≠ .active c) ∧ place a ≠ .done ∧
      place a ≠ .free)
    (hNew : (∀ c, q ≠ .active c) ∧ q ≠ .done ∧ q ≠ .free) :
    AlarmLists m alrmfree active done free
      (update place a q) := by
  refine ⟨h.linkedActive, h.linkedDone, h.linkedFree, h.nodupActive,
    h.nodupDone, h.nodupFree, ?_, ?_, ?_⟩
  · intro c b
    exact mem_update_iff (h.inActive c b) (hOld.1 c)
      (hNew.1 c)
  · intro b
    exact mem_update_iff (h.inDone b) hOld.2.1 hNew.2.1
  · intro b
    exact mem_update_iff (h.inFree b) hOld.2.2 hNew.2.2

/- Stores into an alarm that is on no list. -/
theorem setNext
    {p : Nat}
    (h : AlarmLists m alrmfree active done free place)
    (ha : place a = .locker) :
    AlarmLists (m.setNext (.cell a) p) alrmfree active done
      free place := by
  refine ⟨?_, ?_, ?_, h.nodupActive, h.nodupDone,
    h.nodupFree, h.inActive, h.inDone, h.inFree⟩
  · intro c
    apply (h.linkedActive c).setNext_frame (by simp)
    intro b hb hEq
    exact ne_of_place ((h.inActive c b).mp hb) ha (by simp)
      (Ref.cell.inj hEq).symm
  · apply h.linkedDone.setNext_frame (by simp)
    intro b hb hEq
    exact ne_of_place ((h.inDone b).mp hb) ha (by simp)
      (Ref.cell.inj hEq).symm
  · apply h.linkedFree.congr
    intro b hb
    have hNe := ne_of_place ((h.inFree b).mp hb) ha (by simp)
    simp [hNe]

/- The first free alarm is taken. -/
theorem take_free
    (h : AlarmLists m alrmfree active done (a :: free)
      place) :
    alrmfree = a ∧ a ≠ 0 ∧
      AlarmLists m (m.next (.cell a)) active done free
        (update place a .locker) := by
  rcases h.linkedFree with ⟨hEq, ha, hRest⟩
  have hNodup := nodup_cons.mp h.nodupFree
  have hPlace : place a = .free :=
    (h.inFree a).mp mem_cons_self
  refine ⟨hEq, ha, h.linkedActive, h.linkedDone, hRest, h.nodupActive,
    h.nodupDone, hNodup.2, ?_, ?_, ?_⟩
  · intro c b
    exact mem_update_iff (h.inActive c b) (by simp [hPlace])
      (by simp)
  · intro b
    exact mem_update_iff (h.inDone b) (by simp [hPlace])
      (by simp)
  · intro b
    by_cases hb : b = a
    · subst hb
      simp [hNodup.1]
    · have hMem := h.inFree b
      rw [mem_cons] at hMem
      simp only [hb, false_or] at hMem
      simp [hb, hMem]

/- An alarm goes back to the free list. -/
theorem put_free
    (h : AlarmLists m alrmfree active done free place)
    (ha : place a = .locker)
    (hPos : a ≠ 0) :
    AlarmLists (m.setNext (.cell a) alrmfree) a active done
      (a :: free) (update place a .free) := by
  have hNext := h.setNext (p := alrmfree) ha
  refine ⟨hNext.linkedActive, hNext.linkedDone, ⟨rfl, hPos, ?_⟩,
    h.nodupActive, h.nodupDone, ?_, ?_, ?_, ?_⟩
  · simpa using hNext.linkedFree
  · refine nodup_cons.mpr ⟨?_, h.nodupFree⟩
    intro hMem
    have hPlace := (h.inFree a).mp hMem
    rw [ha] at hPlace
    simp at hPlace
  · intro c b
    exact mem_update_iff (h.inActive c b) (by simp [ha])
      (by simp)
  · intro b
    exact mem_update_iff (h.inDone b) (by simp [ha])
      (by simp)
  · intro b
    rw [update_apply, mem_cons, h.inFree b]
    by_cases hb : b = a
    · simp [hb]
    · simp [hb]

/- What leads to a cell of a clock's list is on the list. -/
theorem lastRef_active
    (h : AlarmLists m alrmfree active done free place)
    (hList : active c = front ++ back) :
    ∀ b, place b ≠ .active c →
      lastRef (.head (AlarmHead.clAlarm c)) front ≠
        .cell b := by
  intro b hb
  apply Ne.symm
  apply lastRef_ne (by simp)
  intro d hd hEq
  have hMem : d ∈ active c := by
    rw [hList]
    exact mem_append_left _ hd
  have hPlace := (h.inActive c d).mp hMem
  simp only [Ref.cell.injEq] at hEq
  exact hb (hEq ▸ hPlace)

/- No other head is within a clock's list. -/
theorem head_ne_lastRef
    {k : AlarmHead}
    (hNe : k ≠ .clAlarm c) :
    (.head k : Ref AlarmHead) ≠
      lastRef (.head (.clAlarm c)) front :=
  lastRef_ne (by simp [hNe]) (by simp)

/- What a link of a clock's list leads to is on the list. -/
theorem next_lastRef
    (h : AlarmLists m alrmfree active done free place)
    (hList : active c = front ++ back) :
    m.next (lastRef (.head (.clAlarm c)) front) = 0 ∨
      place (m.next (lastRef (.head (.clAlarm c)) front)) =
        .active c := by
  have hLinked := h.linkedActive c
  rw [hList] at hLinked
  have hBack := hLinked.back_part
  by_cases hZero :
      m.next (lastRef (.head (.clAlarm c)) front) = 0
  · exact Or.inl hZero
  · refine Or.inr ((h.inActive c _).mp ?_)
    rw [hList]
    exact mem_append_right _ (hBack.next_mem hZero)

/- A link to a list does not lead to an alarm that is off. -/
theorem next_ne
    (hNext : x = 0 ∨ place x = p)
    (ha : place a = .locker)
    (hPos : a ≠ 0)
    (hp : p ≠ .locker) :
    x ≠ a := by
  rcases hNext with hEq | hEq
  · rw [hEq]
    exact hPos.symm
  · exact ne_of_place hEq ha hp

/- What the head of the done list leads to is on the list. -/
theorem next_done
    (h : AlarmLists m alrmfree active done free place) :
    m.next (.head .alrmdone) = 0 ∨
      place (m.next (.head .alrmdone)) = .done := by
  by_cases hZero : m.next (.head .alrmdone) = 0
  · exact Or.inl hZero
  · exact Or.inr ((h.inDone _).mp
      (h.linkedDone.next_mem hZero))

/- What follows an alarm of a clock's list is on the list. -/
theorem next_active
    (h : AlarmLists m alrmfree active done free place)
    (hList : active c = front ++ a :: back) :
    m.next (.cell a) = 0 ∨
      place (m.next (.cell a)) = .active c := by
  by_cases hZero : m.next (.cell a) = 0
  · exact Or.inl hZero
  · refine Or.inr ((h.inActive c _).mp ?_)
    have hLinked := h.linkedActive c
    rw [hList] at hLinked ⊢
    have hMem := (hLinked.back_part).2.2.2.next_mem hZero
    simp [hMem]

/- What follows the first alarm of the done list is on it. -/
theorem next_first_done
    (h : AlarmLists m alrmfree active (a :: done) free
      place) :
    m.next (.cell a) = 0 ∨
      place (m.next (.cell a)) = .done := by
  by_cases hZero : m.next (.cell a) = 0
  · exact Or.inl hZero
  · exact Or.inr ((h.inDone _).mp (mem_cons_of_mem _
      (h.linkedDone.2.2.2.next_mem hZero)))

/- No held alarm is behind a link to a list. -/
theorem held_ne_next
    {t : τ}
    (hNext : x = 0 ∨ place x = p)
    (hb : place b = .held t)
    (hp : p ≠ .held t) :
    ¬ (b = x ∧ x ≠ 0) := by
  rintro ⟨rfl, hNe⟩
  rcases hNext with hZero | hPlace
  · exact hNe hZero
  · exact hp (hPlace.symm.trans hb)

section

variable (h : AlarmLists m alrmfree active done free place)
include h

/-
  Another list for a clock, which differs in one alarm, when
  the links of all else stay.
-/
theorem relink
    {cells : List Nat}
    (hOld : ∀ p, p ≠ .active c → p ≠ .locker →
      place a ≠ p ∧ q ≠ p)
    (hLinked : Linked m' (.head (.clAlarm c)) cells)
    (hNodup : cells.Nodup)
    (hMem : ∀ b, b ∈ cells ↔ update place a q b = .active c)
    (hOther : ∀ k cells, Linked m (.head k) cells →
      k ≠ .clAlarm c → (∀ b ∈ cells, place b ≠ .active c) →
      a ∉ cells → Linked m' (.head k) cells)
    (hFree : ∀ b, place b = .free →
      m'.next (.cell b) = m.next (.cell b)) :
    AlarmLists m' alrmfree (update active c cells) done free
      (update place a q) := by
  have hKeep : ∀ k cells p, Linked m (.head k) cells →
      k ≠ .clAlarm c → p ≠ .active c → p ≠ .locker →
      (∀ b, b ∈ cells ↔ place b = p) →
      Linked m' (.head k) cells := by
    intro k cells p hl hk hp hp' hIn
    apply hOther k cells hl hk
    · intro b hb
      rw [(hIn b).mp hb]
      exact hp
    · rw [hIn]
      exact (hOld p hp hp').1
  refine ⟨?_, hKeep _ _ .done h.linkedDone (by simp) (by simp)
    (by simp) h.inDone, ?_, ?_, h.nodupDone, h.nodupFree,
    ?_, ?_, ?_⟩
  · intro d
    by_cases hd : d = c
    · subst hd
      rw [update_self]
      exact hLinked
    · rw [update_of_ne hd]
      exact hKeep _ _ (.active d) (h.linkedActive d)
        (by simp [hd]) (by simp [hd]) (by simp) (h.inActive d)
  · exact h.linkedFree.congr
      fun b hb => hFree b ((h.inFree b).mp hb)
  · intro d
    by_cases hd : d = c
    · subst hd
      rw [update_self]
      exact hNodup
    · rw [update_of_ne hd]
      exact h.nodupActive d
  · intro d b
    by_cases hd : d = c
    · subst hd
      rw [update_self]
      exact hMem b
    · rw [update_of_ne hd]
      have hSame := hOld (.active d) (by simp [hd]) (by simp)
      exact mem_update_iff (h.inActive d b) hSame.1 hSame.2
  · intro b
    have hSame := hOld .done (by simp) (by simp)
    exact mem_update_iff (h.inDone b) hSame.1 hSame.2
  · intro b
    have hSame := hOld .free (by simp) (by simp)
    exact mem_update_iff (h.inFree b) hSame.1 hSame.2

/- An alarm is put behind a part of a clock's list. -/
theorem insert
    (ha : place a = .locker)
    (hPos : a ≠ 0)
    (hList : active c = front ++ back) :
    AlarmLists
      (m.insertAfter (lastRef (.head (.clAlarm c)) front) a)
      alrmfree
      (update active c (front ++ a :: back))
      done free (update place a (.active c)) := by
  have hCell := h.lastRef_active hList
  have hqa := hCell a (by simp [ha])
  have hNext := h.next_lastRef hList
  have hna := next_ne hNext ha hPos (by simp)
  have hLinked := h.linkedActive c
  have hNodup := h.nodupActive c
  have hNotA : a ∉ active c := by
    rw [h.inActive, ha]
    simp
  rw [hList] at hLinked hNodup hNotA
  apply h.relink
  · exact fun p hp hp' => ⟨ha.symm ▸ hp'.symm, hp.symm⟩
  · exact hLinked.insert hPos hNotA hNodup (by simp)
  · exact nodup_middle.mpr (nodup_cons.mpr ⟨hNotA, hNodup⟩)
  · intro b
    have hMem := h.inActive c b
    rw [hList] at hMem
    rw [update_apply]
    by_cases hb : b = a
    · simp [hb]
    · simp only [mem_append, mem_cons, hb,
        false_or, if_false] at hMem ⊢
      exact hMem
  · -- lists of other alarms keep their links
    intro k cells hLinked hk hPlaces hMem
    apply hLinked.insertAfter_frame (head_ne_lastRef hk)
      (fun b hb => hCell b (hPlaces b hb)) _ hMem (by simp)
      hqa hna
    intro hIn
    rcases hNext with hEq | hEq
    · exact hLinked.zero_notMem (hEq ▸ hIn)
    · exact hPlaces _ hIn hEq
  · intro b hPlace
    have hba := ne_of_place hPlace ha (by simp)
    have hbq := (hCell b (by simp [hPlace])).symm
    simp [Links.insertAfter_next hqa, hba, hbq]

/- An alarm is taken out of a clock's list. -/
theorem cut_active
    (hList : active c = front ++ a :: back) :
    m.prev a = lastRef (.head (.clAlarm c)) front ∧
      AlarmLists (m.cut (m.prev a) (m.next (.cell a)))
        alrmfree (update active c (front ++ back))
        done free (update place a .locker) := by
  have hLinked := h.linkedActive c
  have hNodup := h.nodupActive c
  rw [hList] at hLinked hNodup
  rcases hLinked.remove hNodup (by simp) with ⟨hPrev, hCut⟩
  have hCell := h.lastRef_active hList
  rw [← hPrev] at hCell hCut
  refine ⟨hPrev, ?_⟩
  have hPlaceA : place a = .active c := by
    rw [← h.inActive, hList]
    simp
  have hNext := h.next_active hList
  have hParts := nodup_cons.mp (nodup_middle.mp hNodup)
  apply h.relink
  · exact fun p hp hp' => ⟨hPlaceA.symm ▸ hp.symm, hp'.symm⟩
  · exact hCut
  · exact hParts.2
  · intro b
    have hMem := h.inActive c b
    rw [hList] at hMem
    rw [update_apply]
    by_cases hb : b = a
    · subst hb
      simpa using hParts.1
    · simp only [mem_append, mem_cons, hb,
        false_or, if_false] at hMem ⊢
      exact hMem
  · intro k cells hLinked hk hPlaces _
    apply hLinked.cut_frame
    · rw [hPrev]
      exact head_ne_lastRef hk
    · exact fun b hb => hCell b (hPlaces b hb)
    · intro hIn
      rcases hNext with hEq | hEq
      · exact hLinked.zero_notMem (hEq ▸ hIn)
      · exact hPlaces _ hIn hEq
  · intro b hPlace
    have hbq : (.cell b : Ref AlarmHead) ≠ m.prev a :=
      (hCell b (by simp [hPlace])).symm
    simp [hbq]

/- An alarm is put first on the done list. -/
theorem push_done
    (ha : place a = .locker)
    (hPos : a ≠ 0) :
    AlarmLists (m.insertAfter (.head .alrmdone) a) alrmfree
      active (a :: done) free
      (update place a .done) := by
  have hNotA : a ∉ done := by
    rw [h.inDone, ha]
    simp
  have hNext := h.next_done
  have hna := next_ne hNext ha hPos (by simp)
  refine ⟨?_, ?_, ?_, h.nodupActive,
    nodup_cons.mpr ⟨hNotA, h.nodupDone⟩, h.nodupFree,
    ?_, ?_, ?_⟩
  · intro d
    have hLinked := h.linkedActive d
    apply hLinked.insertAfter_frame (by simp) (by simp)
    · intro hIn
      rcases hNext with hEq | hEq
      · exact hLinked.zero_notMem (hEq ▸ hIn)
      · rw [(h.inActive d _).mp hIn] at hEq
        simp at hEq
    · rw [h.inActive, ha]
      simp
    · simp
    · simp
    · exact hna
  · exact @Linked.insert _ _ _ _ _ [] _ h.linkedDone hPos
      hNotA h.nodupDone (by simp)
  · apply h.linkedFree.congr
    intro b hb
    have hba := ne_of_place ((h.inFree b).mp hb) ha (by simp)
    rw [Links.insertAfter_next (by simp)]
    simp [hba]
  · intro d b
    exact mem_update_iff (h.inActive d b) (by simp [ha])
      (by simp)
  · intro b
    rw [update_apply, mem_cons, h.inDone b]
    by_cases hb : b = a
    · simp [hb]
    · simp [hb]
  · intro b
    exact mem_update_iff (h.inFree b) (by simp [ha])
      (by simp)

end

/- The first alarm is taken off the done list. -/
theorem cut_done
    (h : AlarmLists m alrmfree active (a :: done) free
      place) :
    m.next (.head .alrmdone) = a ∧ a ≠ 0 ∧
      AlarmLists
        (m.cut (.head .alrmdone) (m.next (.cell a)))
        alrmfree active done free
        (update place a .locker) := by
  have hLinked := h.linkedDone
  have hPlaceA : place a = .done :=
    (h.inDone a).mp mem_cons_self
  have hNext := h.next_first_done
  have hSplit := nodup_cons.mp h.nodupDone
  refine ⟨hLinked.1, hLinked.2.1, ?_, ?_, ?_,
    h.nodupActive, hSplit.2, h.nodupFree, ?_, ?_, ?_⟩
  · intro d
    have hActive := h.linkedActive d
    apply hActive.cut_frame (by simp) (by simp)
    intro hIn
    rcases hNext with hEq | hEq
    · exact hActive.zero_notMem (hEq ▸ hIn)
    · rw [(h.inActive d _).mp hIn] at hEq
      simp at hEq
  · exact hLinked.remove_first h.nodupDone (by simp)
  · apply h.linkedFree.congr
    intro b _
    simp
  · intro d b
    exact mem_update_iff (h.inActive d b)
      (by simp [hPlaceA]) (by simp)
  · intro b
    have hMem := h.inDone b
    rw [update_apply]
    by_cases hb : b = a
    · subst hb
      simpa using hSplit.1
    · simp only [mem_cons, hb, false_or, if_false] at hMem ⊢
      exact hMem
  · intro b
    exact mem_update_iff (h.inFree b) (by simp [hPlaceA])
      (by simp)

/- The links of the alarms that are held stay as they are. -/
def SameHeld
    (place : Nat → AlarmPlace τ)
    (m m' : Links AlarmHead) : Prop :=
  ∀ b t, place b = .held t →
    m'.next (.cell b) = m.next (.cell b) ∧
      m'.prev b = m.prev b

section

variable (h : AlarmLists m alrmfree active done free place)
include h

theorem insert_held
    (ha : place a = .locker)
    (hPos : a ≠ 0)
    (hList : active c = front ++ back) :
    SameHeld place m (m.insertAfter
      (lastRef (.head (.clAlarm c)) front) a) := by
  intro b t hb
  have hCell := h.lastRef_active hList
  have hqa := hCell a (by simp [ha])
  have hbq := (hCell b (by simp [hb])).symm
  have hba := ne_of_place hb ha (by simp)
  have hNext := h.next_lastRef hList
  have hna := next_ne hNext ha hPos (by simp)
  have hbn := held_ne_next hNext hb (by simp)
  constructor
  · rw [Links.insertAfter_next hqa]
    simp [hbq, hba]
  · rw [Links.insertAfter_prev hna, if_neg hba, if_neg hbn]

theorem cut_active_held
    (hList : active c = front ++ a :: back) :
    SameHeld place m
      (m.cut (m.prev a) (m.next (.cell a))) := by
  intro b t hb
  have hCell := h.lastRef_active hList
  rw [← (h.cut_active hList).1] at hCell
  have hbq := (hCell b (by simp [hb])).symm
  have hbn := held_ne_next (h.next_active hList) hb (by simp)
  constructor
  · simp [hbq]
  · rw [Links.cut_prev, if_neg hbn]

theorem push_done_held
    (ha : place a = .locker)
    (hPos : a ≠ 0) :
    SameHeld place m
      (m.insertAfter (.head .alrmdone) a) := by
  intro b t hb
  have hba := ne_of_place hb ha (by simp)
  have hna := next_ne h.next_done ha hPos (by simp)
  have hbn := held_ne_next h.next_done hb (by simp)
  constructor
  · rw [Links.insertAfter_next (by simp)]
    simp [hba]
  · rw [Links.insertAfter_prev hna, if_neg hba, if_neg hbn]

end

theorem cut_done_held
    (h : AlarmLists m alrmfree active (a :: done) free
      place) :
    SameHeld place m
      (m.cut (.head .alrmdone) (m.next (.cell a))) := by
  intro b t hb
  have hbn := held_ne_next h.next_first_done hb (by simp)
  constructor
  · simp
  · rw [Links.cut_prev, if_neg hbn]

theorem setNext_held
    {p : Nat}
    (ha : place a = .locker) :
    SameHeld place m (m.setNext (.cell a) p) := by
  intro b t hb
  have hba := ne_of_place hb ha (by simp)
  simp [hba]

end AlarmLists

------
-- The Invariant
------

/-
  Each alarm is in its place. A thread that sleeps has an
  alarm on a list until it is woken; an alarm that was
  flushed points back to the head of its list.
-/
structure AlarmInv
    (s : Clocks τ)
    (active : Nat → List Nat)
    (done free : List Nat)
    (place : Nat → AlarmPlace τ) : Prop where
  lists :
    AlarmLists s.links s.alrmfree active done free place
  outside :
    ∀ a, place a = .outside ↔ a = 0 ∨ s.nextAlarm ≤ a
  heldPhase :
    ∀ t a, place a = .held t → s.phase t = .sleeping a true
  heldBack :
    ∀ t a, place a = .held t →
      (s.alarms a).alStatus = .done ∨
        ((s.alarms a).alStatus = .sleep ∧
          s.links.next (.cell a) = 0 ∧
          ∃ c, s.links.prev a = .head (.clAlarm c))
  server :
    ∀ a, place a = .server ↔
      s.server = .serving a ∨ s.server = .replied a
  sleeping :
    ∀ t a w, s.phase t = .sleeping a w →
      ((∃ c, place a = .active c) ∧
          (s.alarms a).alStatus = .sleep) ∨
        place a = .held t ∨ place a = .locker
  once :
    ∀ t t' a w w', s.phase t = .sleeping a w →
      s.phase t' = .sleeping a w' → t = t'
  sorted :
    ∀ c, (active c).Pairwise (fun a b =>
      cmpTvalspec (s.alarms a).alTime
        (s.alarms b).alTime ≤ 0)
  activeStatus :
    ∀ a c, place a = .active c →
      (s.alarms a).alStatus = .clock ∨
        ((s.alarms a).alStatus = .sleep ∧
          ∃ t w, s.phase t = .sleeping a w)
  asleep : s.server = .asleep → done = []
  pos : 0 < s.nextAlarm

/- A place on a list, or with the holder of the lock. -/
def AlarmPlace.Listed : AlarmPlace τ → Prop
| .active _ => True
| .done => True
| .free => True
| .locker => True
| _ => False

theorem AlarmPlace.Listed.ne
    {p q : AlarmPlace τ}
    (hp : p.Listed)
    (hq : ¬ q.Listed) :
    p ≠ q := by
  rintro rfl
  exact hq hp

namespace AlarmInv

variable {s : Clocks τ} {m' : Links AlarmHead} {alrmfree' : Nat}
variable {active active' : Nat → List Nat}
variable {done done' free free' front back : List Nat}
variable {place : Nat → AlarmPlace τ} {c a : Nat}
variable {p : CallPhase} {w : Bool}

section AlarmInv

variable (h : AlarmInv s active done free place)

include h

/- An alarm is moved between lists and the lock's holder. -/
theorem relist
    {q : AlarmPlace τ}
    (hLists : AlarmLists m' alrmfree' active' done' free'
      (update place a q))
    (hHeld : AlarmLists.SameHeld place s.links m')
    (hOld : (place a).Listed)
    (hNew : q.Listed)
    (hSleep : (∀ t w, s.phase t ≠ .sleeping a w) ∨
      q = .locker ∨
      ((∃ c, q = .active c) ∧
        (s.alarms a).alStatus = .sleep))
    (hSorted : ∀ c, (active' c).Pairwise (fun a b =>
      cmpTvalspec (s.alarms a).alTime
        (s.alarms b).alTime ≤ 0))
    (hStatus : ∀ c, q = .active c →
      (s.alarms a).alStatus = .clock ∨
        ((s.alarms a).alStatus = .sleep ∧
          ∃ t w, s.phase t = .sleeping a w))
    (hAsleep : s.server = .asleep → done' = []) :
    AlarmInv { s with links := m', alrmfree := alrmfree' }
      active' done' free' (update place a q) := by
  have hHeldOf : ∀ t b,
      update place a q b = .held t → place b = .held t :=
    fun t b hb => (of_update_place hb (hNew.ne id)).2
  refine ⟨hLists, ?_, ?_, ?_, ?_, ?_, h.once, hSorted, ?_,
    hAsleep, h.pos⟩
  · intro b
    rw [← h.outside]
    exact update_place_iff (hOld.ne id) (hNew.ne id)
  · exact fun t b hb => h.heldPhase t b (hHeldOf t b hb)
  · intro t b hb
    have hPlace := hHeldOf t b hb
    rw [(hHeld b t hPlace).1, (hHeld b t hPlace).2]
    exact h.heldBack t b hPlace
  · intro b
    rw [← h.server]
    exact update_place_iff (hOld.ne id) (hNew.ne id)
  · intro t b w hPhase
    rw [update_apply]
    by_cases hb : b = a
    · subst hb
      rw [if_pos rfl]
      rcases hSleep with hNone | hLocker | hActive
      · exact absurd hPhase (hNone t w)
      · exact Or.inr (Or.inr hLocker)
      · exact Or.inl hActive
    · rw [if_neg hb]
      exact h.sleeping t b w hPhase
  · intro b d hb
    rw [update_apply] at hb
    by_cases hEq : b = a
    · subst hEq
      rw [if_pos rfl] at hb
      exact hStatus d hb
    · rw [if_neg hEq] at hb
      exact h.activeStatus b d hb

/- Anything may be entered into an alarm being moved. -/
theorem fill
    (ha : place a = .locker)
    (alarm : Alarm) :
    AlarmInv (s.setAlarm a alarm) active done free
      place := by
  have hNe : ∀ b, place b ≠ .locker →
      (s.setAlarm a alarm).alarms b = s.alarms b := by
    intro b hb
    apply update_of_ne
    intro hEq
    exact hb (hEq ▸ ha)
  refine ⟨h.lists, h.outside, h.heldPhase, ?_, h.server, ?_,
    h.once, ?_, ?_, h.asleep, h.pos⟩
  · intro t b hb
    rw [hNe b (by simp [hb])]
    exact h.heldBack t b hb
  · intro t b w hPhase
    rcases h.sleeping t b w hPhase with
      ⟨⟨c, hc⟩, hStatus⟩ | hHeld
    · refine Or.inl ⟨⟨c, hc⟩, ?_⟩
      rw [hNe b (by simp [hc])]
      exact hStatus
    · exact Or.inr hHeld
  · intro c
    apply (h.sorted c).imp_of_mem
    intro b b' hb hb' hCmp
    rw [hNe b (by simp [(h.lists.inActive c b).mp hb]),
      hNe b' (by simp [(h.lists.inActive c b').mp hb'])]
    exact hCmp
  · intro b c hb
    rw [hNe b (by simp [hb])]
    exact h.activeStatus b c hb

/- The zone hands out an alarm. -/
theorem fresh :
    place s.nextAlarm = .outside ∧
      AlarmInv { s with nextAlarm := s.nextAlarm + 1 }
        active done free
        (update place s.nextAlarm .locker) := by
  have hOut : place s.nextAlarm = .outside :=
    (h.outside _).mpr (Or.inr (Nat.le_refl _))
  have hNe : ∀ b, place b ≠ .outside → b ≠ s.nextAlarm := by
    intro b hb hEq
    exact hb (hEq ▸ hOut)
  refine ⟨hOut, h.lists.move (by simp [hOut]) (by simp), ?_,
    ?_, ?_, ?_, ?_, h.once, h.sorted, ?_, h.asleep,
    Nat.succ_pos _⟩
  · intro b
    rw [update_apply]
    split
    · rename_i hb
      subst hb
      have hPos := h.pos
      simp only [reduceCtorEq, false_iff, not_or]
      omega
    · rw [h.outside]
      dsimp only
      omega
  · intro t b hb
    exact h.heldPhase t b (of_update_place hb (by simp)).2
  · intro t b hb
    exact h.heldBack t b (of_update_place hb (by simp)).2
  · intro b
    rw [update_place_iff (by simp [hOut]) (by simp)]
    exact h.server b
  · intro t b w hPhase
    have hPlace := h.sleeping t b w hPhase
    have hb := hNe b (by
      rcases hPlace with ⟨⟨c, hc⟩, _⟩ | hb | hb <;>
        simp [*])
    rw [update_of_ne hb]
    exact hPlace
  · intro b c hb
    exact h.activeStatus b c (of_update_place hb (by simp)).2

/- The alarm thread takes an alarm over. -/
theorem serve
    (ha : place a = .locker)
    (hAwake : ∀ b, place b ≠ .server)
    (hNone : ∀ t w, s.phase t ≠ .sleeping a w) :
    AlarmInv { s with server := .serving a } active done free
      (update place a .server) := by
  refine ⟨h.lists.move (by simp [ha]) (by simp), ?_, ?_, ?_,
    ?_, ?_, h.once, h.sorted, ?_, ?_, h.pos⟩
  · intro b
    rw [update_place_iff (by simp [ha]) (by simp)]
    exact h.outside b
  · intro t b hb
    exact h.heldPhase t b (of_update_place hb (by simp)).2
  · intro t b hb
    exact h.heldBack t b (of_update_place hb (by simp)).2
  · intro b
    rw [update_apply]
    split
    · rename_i hb
      simp [hb]
    · rename_i hb
      constructor
      · intro hPlace
        exact absurd hPlace (hAwake b)
      · intro hServer
        simp only [AlarmThread.serving.injEq, reduceCtorEq,
          or_false] at hServer
        exact absurd hServer.symm hb
  · intro t b w hPhase
    have hb : b ≠ a := fun hEq => hNone t w (hEq ▸ hPhase)
    rw [update_of_ne hb]
    exact h.sleeping t b w hPhase
  · intro b c hb
    exact h.activeStatus b c (of_update_place hb (by simp)).2
  · intro hAbsurd
    simp at hAbsurd

/- The alarm thread is done with its alarm. -/
theorem unserve
    (hServer : s.server = .replied a) :
    AlarmInv { s with server := .ready } active done free
      (update place a .locker) := by
  have ha : place a = .server :=
    (h.server a).mpr (Or.inr hServer)
  refine ⟨h.lists.move (by simp [ha]) (by simp), ?_, ?_, ?_,
    ?_, ?_, h.once, h.sorted, ?_, ?_, h.pos⟩
  · intro b
    rw [update_place_iff (by simp [ha]) (by simp)]
    exact h.outside b
  · intro t b hb
    exact h.heldPhase t b (of_update_place hb (by simp)).2
  · intro t b hb
    exact h.heldBack t b (of_update_place hb (by simp)).2
  · intro b
    rw [update_apply]
    split
    · simp
    · rename_i hb
      rw [h.server, hServer]
      simp [Ne.symm hb]
  · intro t b w hPhase
    have hPlace := h.sleeping t b w hPhase
    rw [update_apply]
    split
    · exact Or.inr (Or.inr rfl)
    · exact hPlace
  · intro b c hb
    exact h.activeStatus b c (of_update_place hb (by simp)).2
  · intro hAbsurd
    simp at hAbsurd

end AlarmInv

section Phases

variable [DecidableEq τ] {t : τ}

section AlarmInv

variable (h : AlarmInv s active done free place)

include h

/- A thread that does not sleep moves on without sleeping. -/
theorem setPhase
    (hOld : ∀ a w, s.phase t ≠ .sleeping a w)
    (hNew : ∀ a w, p ≠ .sleeping a w) :
    AlarmInv (s.setPhase t p) active done free place := by
  have hSame : ∀ u b w,
      (s.setPhase t p).phase u = .sleeping b w ↔
        s.phase u = .sleeping b w := by
    intro u b w
    rw [Clocks.setPhase_phase]
    split
    · rename_i hu
      subst hu
      exact ⟨fun hp => absurd hp (hNew b w),
        fun hp => absurd hp (hOld b w)⟩
    · rfl
  refine ⟨h.lists, h.outside, ?_, h.heldBack, h.server, ?_,
    ?_, h.sorted, ?_, h.asleep, h.pos⟩
  · intro u b hb
    exact (hSame u b true).mpr (h.heldPhase u b hb)
  · intro u b w hPhase
    exact h.sleeping u b w ((hSame u b w).mp hPhase)
  · intro u u' b w w' hu hu'
    exact h.once u u' b w w' ((hSame u b w).mp hu)
      ((hSame u' b w').mp hu')
  · intro b c hb
    rcases h.activeStatus b c hb with hClock | ⟨hSleep, u, w,
      hu⟩
    · exact Or.inl hClock
    · exact Or.inr ⟨hSleep, u, w, (hSame u b w).mpr hu⟩

/- A thread goes to sleep on an alarm being moved. -/
theorem setSleeping
    (hOld : ∀ a w, s.phase t ≠ .sleeping a w)
    (ha : place a = .locker)
    (hNone : ∀ u w, s.phase u ≠ .sleeping a w) :
    AlarmInv (s.setPhase t (.sleeping a false)) active done
      free place := by
  have hSame : ∀ u, u ≠ t →
      (s.setPhase t (.sleeping a false)).phase u =
        s.phase u :=
    fun u hu => update_of_ne hu _ _
  have hSelf :
      (s.setPhase t (.sleeping a false)).phase t =
        .sleeping a false := update_self _ _ _
  refine ⟨h.lists, h.outside, ?_, h.heldBack, h.server, ?_,
    ?_, h.sorted, ?_, h.asleep, h.pos⟩
  · intro u b hb
    have hPhase := h.heldPhase u b hb
    have hu : u ≠ t := fun hEq => hOld b true (hEq ▸ hPhase)
    rw [hSame u hu]
    exact hPhase
  · intro u b w hPhase
    by_cases hu : u = t
    · subst hu
      rw [hSelf] at hPhase
      cases hPhase
      exact Or.inr (Or.inr ha)
    · rw [hSame u hu] at hPhase
      exact h.sleeping u b w hPhase
  · intro u u' b w w' hu hu'
    by_cases huT : u = t
    · by_cases hu'T : u' = t
      · rw [huT, hu'T]
      · subst huT
        rw [hSelf] at hu
        cases hu
        rw [hSame u' hu'T] at hu'
        exact absurd hu' (hNone u' w')
    · rw [hSame u huT] at hu
      by_cases hu'T : u' = t
      · subst hu'T
        rw [hSelf] at hu'
        cases hu'
        exact absurd hu (hNone u w)
      · rw [hSame u' hu'T] at hu'
        exact h.once u u' b w w' hu hu'
  · intro b c hb
    rcases h.activeStatus b c hb with hClock | ⟨hSleep, u, w,
      hu⟩
    · exact Or.inl hClock
    · refine Or.inr ⟨hSleep, u, w, ?_⟩
      rw [hSame u (fun hEq => hOld b w (hEq ▸ hu))]
      exact hu

/- A sleep is aborted. -/
theorem abort
    (hPhase : s.phase t = .sleeping a w) :
    AlarmInv (s.setPhase t (.sleeping a true)) active done
      free place := by
  have hSome : ∀ u b, (∃ v,
      (s.setPhase t (.sleeping a true)).phase u =
        .sleeping b v) ↔ ∃ v, s.phase u = .sleeping b v := by
    intro u b
    simp only [Clocks.setPhase_phase]
    split
    · rename_i hu
      subst hu
      simp [hPhase]
    · rfl
  refine ⟨h.lists, h.outside, ?_, h.heldBack, h.server, ?_,
    ?_, h.sorted, ?_, h.asleep, h.pos⟩
  · intro u b hb
    have hu := h.heldPhase u b hb
    rw [Clocks.setPhase_phase]
    split
    · rename_i hEq
      subst hEq
      rw [hPhase] at hu
      cases hu
      rfl
    · exact hu
  · intro u b v hu
    rcases (hSome u b).mp ⟨v, hu⟩ with ⟨v', hu'⟩
    exact h.sleeping u b v' hu'
  · intro u u' b v v' hu hu'
    rcases (hSome u b).mp ⟨v, hu⟩ with ⟨x, hx⟩
    rcases (hSome u' b).mp ⟨v', hu'⟩ with ⟨x', hx'⟩
    exact h.once u u' b x x' hx hx'
  · intro b c hb
    rcases h.activeStatus b c hb with hClock | ⟨hSleep, u, v,
      hu⟩
    · exact Or.inl hClock
    · rcases (hSome u b).mpr ⟨v, hu⟩ with ⟨v', hu'⟩
      exact Or.inr ⟨hSleep, u, v', hu'⟩

omit [DecidableEq τ] in
/- The sleeper of an alarm being moved is woken with it. -/
theorem hold
    (hPhase : s.phase t = .sleeping a w)
    (ha : place a = .locker)
    (hBack : (s.alarms a).alStatus = .done ∨
      ((s.alarms a).alStatus = .sleep ∧
        s.links.next (.cell a) = 0 ∧
        ∃ c, s.links.prev a = .head (.clAlarm c))) :
    AlarmInv (s.wake a) active done free
      (update place a (.held t)) := by
  have hSome : ∀ u b v, s.phase u = .sleeping b v →
      (s.wake a).phase u =
        .sleeping b (v || decide (b = a)) := by
    intro u b v hu
    simp [Clocks.wake, hu]
  have hOnly : ∀ u b v, (s.wake a).phase u = .sleeping b v →
      ∃ v', s.phase u = .sleeping b v' := by
    intro u b v hu
    unfold Clocks.wake at hu
    dsimp only at hu
    split at hu
    · rename_i b' v' hEq
      cases hu
      exact ⟨v', hEq⟩
    · exact ⟨v, hu⟩
  refine ⟨h.lists.move (by simp [ha]) (by simp), ?_, ?_, ?_,
    ?_, ?_, ?_, h.sorted, ?_, h.asleep, h.pos⟩
  · intro b
    rw [update_place_iff (by simp [ha]) (by simp)]
    exact h.outside b
  · intro u b hb
    rw [update_apply] at hb
    split at hb
    · rename_i hEq
      subst hEq
      cases hb
      rw [hSome _ _ _ hPhase]
      simp
    · rw [hSome _ _ _ (h.heldPhase u b hb)]
      simp
  · intro u b hb
    rw [update_apply] at hb
    split at hb
    · rename_i hEq
      subst hEq
      exact hBack
    · exact h.heldBack u b hb
  · intro b
    rw [update_place_iff (by simp [ha]) (by simp)]
    exact h.server b
  · intro u b v hu
    rcases hOnly u b v hu with ⟨v', hu'⟩
    rw [update_apply]
    split
    · rename_i hEq
      subst hEq
      rw [h.once u t b v' w hu' hPhase]
      exact Or.inr (Or.inl rfl)
    · exact h.sleeping u b v' hu'
  · intro u u' b v v' hu hu'
    rcases hOnly u b v hu with ⟨x, hx⟩
    rcases hOnly u' b v' hu' with ⟨x', hx'⟩
    exact h.once u u' b x x' hx hx'
  · intro b c hb
    rcases h.activeStatus b c
      (of_update_place hb (by simp)).2 with
      hClock | ⟨hSleep, u, v, hu⟩
    · exact Or.inl hClock
    · exact Or.inr ⟨hSleep, u, _, hSome u b v hu⟩

/- A woken thread takes its alarm and stops sleeping. -/
theorem unhold
    (hPhase : s.phase t = .sleeping a true)
    (ha : place a = .held t ∨ place a = .locker)
    (hNew : ∀ a w, p ≠ .sleeping a w) :
    AlarmInv (s.setPhase t p) active done free
      (update place a .locker) := by
  have hOnly : ∀ u b v,
      (s.setPhase t p).phase u = .sleeping b v →
        s.phase u = .sleeping b v ∧ b ≠ a := by
    intro u b v hu
    rw [Clocks.setPhase_phase] at hu
    split at hu
    · exact absurd hu (hNew b v)
    · rename_i hut
      refine ⟨hu, fun hEq => hut ?_⟩
      subst hEq
      exact h.once u t b v true hu hPhase
  have hMany : ∀ u b v, s.phase u = .sleeping b v → b ≠ a →
      (s.setPhase t p).phase u = .sleeping b v := by
    intro u b v hu hb
    rw [Clocks.setPhase_phase, if_neg]
    · exact hu
    · intro hEq
      subst hEq
      rw [hPhase] at hu
      cases hu
      exact hb rfl
  have hListed : (∀ c, place a ≠ .active c) ∧
      place a ≠ .done ∧ place a ≠ .free ∧
      place a ≠ .outside ∧ place a ≠ .server := by
    rcases ha with ha | ha <;> simp [ha]
  refine ⟨h.lists.move
    ⟨hListed.1, hListed.2.1, hListed.2.2.1⟩ (by simp), ?_, ?_,
    ?_, ?_, ?_, ?_, h.sorted, ?_, h.asleep, h.pos⟩
  · intro b
    rw [update_place_iff hListed.2.2.2.1 (by simp)]
    exact h.outside b
  · intro u b hb
    rcases of_update_place hb (by simp) with ⟨hNe, hb⟩
    exact hMany u b true (h.heldPhase u b hb) hNe
  · intro u b hb
    exact h.heldBack u b (of_update_place hb (by simp)).2
  · intro b
    rw [update_place_iff hListed.2.2.2.2 (by simp)]
    exact h.server b
  · intro u b v hu
    rcases hOnly u b v hu with ⟨hu', hb⟩
    rw [update_of_ne hb]
    exact h.sleeping u b v hu'
  · intro u u' b v v' hu hu'
    exact h.once u u' b v v' (hOnly u b v hu).1
      (hOnly u' b v' hu').1
  · intro b c hb
    rcases of_update_place hb (by simp) with ⟨hNe, hb⟩
    rcases h.activeStatus b c hb with hClock | ⟨hSleep, u,
      v, hu⟩
    · exact Or.inl hClock
    · exact Or.inr ⟨hSleep, u, v, hMany u b v hu hNe⟩

end AlarmInv

end Phases

end AlarmInv

end Kern

end OsfMach
