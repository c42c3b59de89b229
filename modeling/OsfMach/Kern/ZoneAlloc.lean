import OsfMach.Kern.ZoneGc

/-
  The sections of `zalloc` keep the invariant of a zone.

  One thread at a time expands the zone. New pages have
  nothing of the zone on them, and what `zget_space` cuts off
  comes from the front of its space.

  Main declarations:
    * `SpaceFor`
    * `ZoneInv.allocate`, `cram_inv`
    * `ZoneInv.cut`, `zgetTake_inv`, `zallocTaken_inv`
-/

------
-- Phases
------

namespace OsfMach

namespace Kern

open Function
open Lib
open Lib.Pages

variable {τ : Type} [DecidableEq τ]
variable {w : Bool} {m b : Nat} {result : Option Nat}

section Phases

variable {c : ZoneConfig} {s : ZoneState τ} {free : List Nat}
variable {t u : τ} {p : ZonePhase}

theorem busy_of_paged
    {a n : Nat}
    (h : p.Paged a n) :
    p.busy = true := by
  rcases h with rfl | rfl
  · rfl
  · rfl

/- A thread that has no memory on its way. -/
def ZonePhase.isEmpty (p : ZonePhase) : Bool :=
  match p with
  | .holding _ _ => false
  | .grown _ _ => false
  | .taken _ => false
  | _ => true

theorem not_paged_of_empty
    (h : p.isEmpty = true)
    (a n : Nat) :
    ¬ p.Paged a n := by
  rintro (rfl | rfl)
  · cases h
  · cases h

theorem not_taken_of_empty
    (h : p.isEmpty = true)
    (a : Nat) :
    p ≠ .taken a := by
  rintro rfl
  cases h

theorem setPhase_self_zone :
    (s.setPhase t p).phase t = p :=
  update_self ..

theorem setPhase_other_zone
    (hNe : u ≠ t) :
    (s.setPhase t p).phase u = s.phase u :=
  update_of_ne hNe ..

omit [DecidableEq τ] in
/- The expansion that a thread has to itself. -/
theorem FlightsOk.alone
    (h : FlightsOk c s)
    (ht : (s.phase t).busy = true)
    (hNe : u ≠ t) :
    (s.phase u).busy = false := by
  by_contra hBusy
  exact hNe (h.unique u t ((Bool.not_eq_false _).mp hBusy) ht)

/- A thread that goes on without memory on its way. -/
theorem ZoneInv.setPhase
    {d w : Bool}
    (h : ZoneInv c s free)
    (hEmpty : p.isEmpty = true)
    (hBusy : p.busy = true →
      d = true ∧ ∀ u, u ≠ t → (s.phase u).busy = false)
    (hOthers : ∀ u, u ≠ t → (s.phase u).busy = true →
      d = true) :
    ZoneInv c
      { s.setPhase t p with
        doingAlloc := d
        someoneWaits := w
        maxSize := m } free := by
  have hFrom : ∀ q : ZonePhase → Prop, ¬ q p →
      ∀ v, q ((s.setPhase t p).phase v) →
        v ≠ t ∧ q (s.phase v) := by
    intro q hNot v hv
    by_cases hEq : v = t
    · rw [hEq, setPhase_self_zone] at hv
      exact absurd hv hNot
    · rw [setPhase_other_zone hEq] at hv
      exact ⟨hEq, hv⟩
  have hPaged : ∀ v a n,
      ((s.setPhase t p).phase v).Paged a n →
        (s.phase v).Paged a n :=
    fun v a n hv =>
      (hFrom (fun q => q.Paged a n) (not_paged_of_empty hEmpty a n) v hv).2
  have hTaken : ∀ v a, (s.setPhase t p).phase v = .taken a →
      s.phase v = .taken a :=
    fun v a hv =>
      (hFrom (fun q => q = .taken a) (not_taken_of_empty hEmpty a) v hv).2
  refine ⟨h.chain, ?_, ?_, h.count, h.curSize⟩
  · exact h.elems.congr rfl rfl rfl rfl hPaged hTaken
  · refine ⟨h.flights.order, h.flights.pos, h.flights.placed,
      ?_, ?_, ?_, ?_, ?_⟩
    · intro v a n hv
      exact h.flights.paged v a n (hPaged v a n hv)
    · intro v a n hv
      apply h.flights.grown v a n
      exact (hFrom (fun q => q = .grown a n)
        (fun hp => not_paged_of_empty hEmpty a n (Or.inr hp))
        v hv).2
    · intro v a hv
      exact h.flights.taken v a (hTaken v a hv)
    · intro v hv
      by_cases hEq : v = t
      · have hIs : p.busy = true := by
          rw [← @setPhase_self_zone τ _ s t p]
          rw [hEq] at hv
          exact hv
        exact (hBusy hIs).1
      · apply hOthers v hEq
        rw [← @setPhase_other_zone τ _ s t v p hEq]
        exact hv
    · intro v w hv hw
      have hIs : ∀ x, x ≠ t →
          ((s.setPhase t p).phase x).busy = true →
          (s.phase x).busy = true := by
        intro x hx hBusyX
        rw [setPhase_other_zone hx] at hBusyX
        exact hBusyX
      have hSelf : ((s.setPhase t p).phase t).busy = true →
          p.busy = true := by
        intro hBusyT
        rw [setPhase_self_zone] at hBusyT
        exact hBusyT
      have hClash : ∀ x, x ≠ t →
          ((s.setPhase t p).phase t).busy = true →
          ((s.setPhase t p).phase x).busy = true → False := by
        intro x hx hT hX
        have hNo := (hBusy (hSelf hT)).2 x hx
        rw [hIs x hx hX] at hNo
        cases hNo
      by_cases hvt : v = t
      · by_cases hwt : w = t
        · rw [hvt, hwt]
        · exfalso
          rw [hvt] at hv
          exact hClash w hwt hv hw
      · by_cases hwt : w = t
        · exfalso
          rw [hwt] at hw
          exact hClash v hvt hw hv
        · exact h.flights.unique v w (hIs v hvt hv)
            (hIs w hwt hw)

/- A thread that does not expand the zone any more. -/
theorem ZoneInv.done
    (h : ZoneInv c s free)
    (ht : (s.phase t).busy = true)
    (hEmpty : p.isEmpty = true)
    (hIdle : p.busy = false) :
    ZoneInv c
      { s.setPhase t p with
        doingAlloc := false
        someoneWaits := w } free := by
  apply h.setPhase (m := s.maxSize) hEmpty
  · intro hBusy
    rw [hIdle] at hBusy
    cases hBusy
  · intro u hu hBusy
    rw [h.flights.alone ht hu] at hBusy
    cases hBusy

/- A thread that is not expanding the zone. -/
theorem ZoneInv.idle
    (h : ZoneInv c s free)
    (hEmpty : p.isEmpty = true)
    (hIdle : p.busy = false) :
    ZoneInv c
      { s.setPhase t p with someoneWaits := w } free := by
  apply h.setPhase (d := s.doingAlloc) (m := s.maxSize)
    hEmpty
  · intro hBusy
    rw [hIdle] at hBusy
    cases hBusy
  · intro u _ hBusy
    exact h.flights.busy u hBusy

end Phases

------
-- Allocation
------

section Alloc

variable {c : ZoneConfig} {s s' : ZoneState τ} {free : List Nat}
variable {t : τ} {p : ZonePhase} {a n : Nat}

theorem zallocLoop_inv
    (h : ZoneInv c s free)
    (hRun : zallocLoop c s t = some s') :
    ∃ free', ZoneInv c s' free' := by
  unfold zallocLoop at hRun
  split at hRun
  · rename_i s₁ hRemove
    rcases h.remove hRemove with ⟨rest, _, hInv⟩
    cases hRun
    exact ⟨rest, hInv.idle (w := s₁.someoneWaits) rfl rfl⟩
  · split_ifs at hRun with hDoing hFull hEx hGrow
    · cases hRun
      exact ⟨free, h.idle rfl rfl⟩
    · cases hRun
      exact ⟨free, h.idle (w := s.someoneWaits) rfl rfl⟩
    · cases hRun
      refine ⟨free, h.setPhase (d := true)
        (w := s.someoneWaits) rfl ?_ (fun _ _ _ => rfl)⟩
      intro _
      refine ⟨rfl, fun u _ => ?_⟩
      by_contra hBusy
      exact hDoing (h.flights.busy u
        ((Bool.not_eq_false _).mp hBusy))
    · cases hRun
      refine ⟨free, h.setPhase (d := true)
        (w := s.someoneWaits) (m := s.maxSize) rfl ?_
        (fun _ _ _ => rfl)⟩
      intro _
      refine ⟨rfl, fun u _ => ?_⟩
      by_contra hBusy
      exact hDoing (h.flights.busy u
        ((Bool.not_eq_false _).mp hBusy))

/- The phase of the thread is set by the loop anyway. -/
theorem zallocLoop_setPhase
    (s : ZoneState τ)
    (t : τ)
    (p : ZonePhase) :
    zallocLoop c (s.setPhase t p) t = zallocLoop c s t := by
  unfold zallocLoop removeFromZone ZoneState.setPhase
  by_cases hZero : s.freeElements = 0
  · simp only [hZero, if_true, update_idem]
  · simp only [hZero, if_false, update_idem]

theorem zallocFinish_inv
    {shortage : Bool}
    (h : ZoneInv c s free)
    (ht : (s.phase t).busy = true)
    (hRun : zallocFinish c s t shortage = some s') :
    ∃ free', ZoneInv c s' free' := by
  have hDone : ZoneInv c ((allocDone s).setPhase t .waiting)
      free := h.done ht rfl rfl
  unfold zallocFinish at hRun
  dsimp only at hRun
  split_ifs at hRun
  · cases hRun
    exact ⟨free, hDone⟩
  · rw [← zallocLoop_setPhase (allocDone s) t .waiting] at hRun
    exact zallocLoop_inv hDone hRun

theorem le_roundPage
    (c : ZoneConfig)
    (n : Nat) :
    n ≤ c.roundPage n := by
  unfold ZoneConfig.roundPage
  have hPos := c.page_pos
  have hDiv := Nat.div_add_mod (n + c.pageSize - 1) c.pageSize
  have hMod := Nat.mod_lt (n + c.pageSize - 1) hPos
  rw [Nat.mul_comm]
  omega

omit [DecidableEq τ] in
/- Memory from the map is in the map. -/
theorem Allocatable.whole
    (h : Allocatable c s a n)
    (hn : 0 < n) :
    Whole c a n := by
  rcases h with ⟨hAligned, _, hMin, hMax, _⟩
  left
  constructor
  · intro x hx hx'
    unfold ZoneConfig.fromZoneMap
    exact decide_eq_true ⟨by omega, by omega⟩
  · intro p hp
    unfold ZoneConfig.pages at hp
    rw [mem_pages] at hp
    unfold ZoneConfig.fromZoneMap
    have hLow : a ≤ p * c.pageSize := by
      calc a = a / c.pageSize * c.pageSize :=
            (Nat.div_mul_cancel hAligned).symm
        _ ≤ p * c.pageSize := Nat.mul_le_mul_right _ hp.1
    have hHigh : p * c.pageSize ≤ a + n - 1 := by
      calc p * c.pageSize
          ≤ (a + n - 1) / c.pageSize * c.pageSize :=
            Nat.mul_le_mul_right _ hp.2
        _ ≤ a + n - 1 := Nat.div_mul_le_self _ _
    exact decide_eq_true ⟨by omega, by omega⟩

omit [DecidableEq τ] in
/- Pages that were not mapped have nothing on them. -/
theorem Placed.other_pages
    (h : Placed c s b m)
    (hFree : ∀ q ∈ c.pages a n, s.mapped q = false) :
    OtherPages c.pageSize b m a n := by
  intro q hq hIn
  have hYes := h q hq
  rw [hFree q hIn] at hYes
  cases hYes

omit [DecidableEq τ] in
theorem Placed.allocated
    (h : Placed c s b m)
    (hMapped : ∀ q, s'.mapped q =
      if q ∈ c.pages a n then true else s.mapped q) :
    Placed c s' b m := by
  intro q hq
  rw [hMapped]
  split_ifs
  · rfl
  · exact h q hq

/- New pages for a thread that expands the zone. -/
theorem ZoneInv.allocate
    (h : ZoneInv c s free)
    (ht : (s.phase t).busy = true)
    (hSpace : Allocatable c s a n)
    (hn : 0 < n)
    (hp : p = .holding a n ∨
      p = .grown a n ∧ c.collectable = false ∧
        c.elemSize ≤ n) :
    ZoneInv c
      ((zonePageInit c (kernelMemoryAllocate c s a n) a n
        zonePageUsed).setPhase t p) free := by
  generalize hNext :
    (zonePageInit c (kernelMemoryAllocate c s a n) a n
      zonePageUsed).setPhase t p = s'
  have hWhole := hSpace.whole hn
  rcases hSpace with ⟨_, ha, _, _, hFree⟩
  have hMapped : ∀ q, s'.mapped q =
      if q ∈ c.pages a n then true else s.mapped q := by
    subst hNext
    exact fun q => rfl
  have hCount : ∀ q, s'.allocCount q =
      if q ∈ c.pages a n then zonePageUsed
      else s.allocCount q := by
    subst hNext
    exact fun q => rfl
  have hNow : s'.phase t = p := by
    subst hNext
    exact setPhase_self_zone
  have hOthers : ∀ u, u ≠ t → s'.phase u = s.phase u := by
    subst hNext
    exact fun u hu => setPhase_other_zone hu
  have hSame : s'.links = s.links ∧ s'.out = s.out ∧
      s'.count = s.count ∧ s'.curSize = s.curSize ∧
      s'.zallocNextSpace = s.zallocNextSpace ∧
      s'.zallocEndOfSpace = s.zallocEndOfSpace ∧
      s'.doingAlloc = s.doingAlloc := by
    subst hNext
    exact ⟨rfl, rfl, rfl, rfl, rfl, rfl, rfl⟩
  rcases hSame with
    ⟨hLinks, hOut, hNumber, hSize, hFirst, hEnd, hDoing⟩
  have hLeft : s'.left = s.left := by
    unfold ZoneState.left
    rw [hFirst, hEnd]
  have hIdle : ∀ u, u ≠ t → (s'.phase u).busy = false := by
    intro u hu
    rw [hOthers u hu]
    exact h.flights.alone ht hu
  have hPaged : ∀ u b m, (s'.phase u).Paged b m →
      b = a ∧ m = n := by
    intro u b m hu
    by_cases hEq : u = t
    · rw [hEq, hNow] at hu
      rcases hp with rfl | ⟨rfl, _⟩
      · rcases hu with hu | hu
        · cases hu
          exact ⟨rfl, rfl⟩
        · cases hu
      · rcases hu with hu | hu
        · cases hu
        · cases hu
          exact ⟨rfl, rfl⟩
    · have hBusy := busy_of_paged hu
      rw [hIdle u hEq] at hBusy
      cases hBusy
  have hTaken : ∀ u b, s'.phase u ≠ .taken b := by
    intro u b hu
    by_cases hEq : u = t
    · rw [hEq, hNow] at hu
      rcases hp with rfl | ⟨rfl, _⟩
      · cases hu
      · cases hu
    · have hBusy := hIdle u hEq
      rw [hu] at hBusy
      cases hBusy
  have hOther : ∀ e ∈ free ++ s.out,
      OtherPages c.pageSize e c.elemSize a n :=
    fun e he => (h.elems.placed e he).other_pages hFree
  refine ⟨?_, ?_, ?_, ?_, ?_⟩
  · unfold FreeChain
    rw [hLinks]
    exact h.chain
  · rw [hOut]
    refine ⟨h.elems.apart, h.elems.nonzero, ?_, h.elems.whole,
      ?_, ?_, ?_, ?_, ?_⟩
    · intro e he
      exact (h.elems.placed e he).allocated hMapped
    · intro hc q
      rw [hCount]
      split_ifs with hq
      · -- no element has a part of a new page
        have hNone : touching c (free ++ s.out) q = 0 := by
          unfold touching
          rw [List.countP_eq_zero]
          intro e he hIs
          rw [Bool.and_eq_true, decide_eq_true_eq] at hIs
          exact hOther e he q hIs.2 hq
        unfold zonePageUsed
        exact ⟨by omega, fun hAbsurd => by omega⟩
      · exact h.elems.counted hc q
    · unfold OffSpace
      rw [hFirst, hLeft]
      exact h.elems.reserve
    · unfold OffSpacePages
      rw [hFirst, hLeft]
      exact h.elems.reservePages
    · intro u b m hu e he
      rcases hPaged u b m hu with ⟨rfl, rfl⟩
      exact hOther e he
    · intro u b hu
      exact absurd hu (hTaken u b)
  · refine ⟨?_, ?_, ?_, ?_, ?_, ?_, ?_, ?_⟩
    · rw [hFirst, hEnd]
      exact h.flights.order
    · rw [hFirst]
      exact h.flights.pos
    · rw [hFirst, hLeft]
      intro hPos
      exact (h.flights.placed hPos).allocated hMapped
    · intro u b m hu
      rcases hPaged u b m hu with ⟨rfl, rfl⟩
      refine ⟨ha, hn, ?_, ?_, hWhole⟩
      · intro q hq
        rw [hMapped, if_pos hq]
      · unfold OffSpacePages
        rw [hFirst, hLeft]
        intro hPos
        exact ((h.flights.placed hPos).other_pages hFree).symm
    · intro u b m hu
      rcases hPaged u b m (Or.inr hu) with ⟨rfl, rfl⟩
      by_cases hEq : u = t
      · rw [hEq, hNow] at hu
        rcases hp with rfl | ⟨_, hIs⟩
        · cases hu
        · exact hIs
      · have hBusy := hIdle u hEq
        rw [hu] at hBusy
        cases hBusy
    · intro u b hu
      exact absurd hu (hTaken u b)
    · intro u hu
      rw [hDoing]
      exact h.flights.busy t ht
    · intro u v hu hv
      have hIs : ∀ x, (s'.phase x).busy = true → x = t := by
        intro x hx
        by_contra hNe
        rw [hIdle x hNe] at hx
        cases hx
      rw [hIs u hu, hIs v hv]
  · rw [hNumber, hOut]
    exact h.count
  · rw [hSize, hOut]
    exact h.curSize

theorem zallocSpace_inv
    {poolLow : Bool}
    (h : ZoneInv c s free)
    (ht : (s.phase t).busy = true)
    (hRun : zallocSpace c s t poolLow result = some s') :
    ∃ free', ZoneInv c s' free' := by
  unfold zallocSpace at hRun
  cases result with
  | none =>
      cases hRun
      refine ⟨free, h.setPhase (d := s.doingAlloc)
        (w := s.someoneWaits) (m := s.maxSize) rfl ?_ ?_⟩
      · intro _
        exact ⟨h.flights.busy t ht,
          fun u hu => h.flights.alone ht hu⟩
      · intro u _ hu
        exact h.flights.busy u hu
  | some space =>
      dsimp only at hRun
      by_cases hOk : Allocatable c s space (c.roundPage
          (if poolLow = true then c.elemSize else c.allocSize))
      · rw [if_pos hOk] at hRun
        cases hRun
        refine ⟨free, h.allocate ht hOk ?_ (Or.inl rfl)⟩
        refine Nat.lt_of_lt_of_le ?_ (le_roundPage c _)
        split_ifs
        · exact c.elem_pos
        · exact c.alloc_pos
      · rw [if_neg hOk] at hRun
        cases hRun

end Alloc

------
-- Memory into the Zone
------

section Memory

variable {c : ZoneConfig} {s s' : ZoneState τ} {free : List Nat}
variable {t : τ} {a n : Nat}

theorem zcramLoop_setPhase
    (fuel : Nat)
    (s : ZoneState τ)
    (t : τ)
    (p : ZonePhase)
    (a n : Nat) :
    zcramLoop c fuel (s.setPhase t p) a n =
      (zcramLoop c fuel s a n).setPhase t p := by
  induction fuel generalizing s a n with
  | zero => rfl
  | succ fuel ih =>
      unfold zcramLoop
      split_ifs
      · rw [← ih]
        congr 1
        unfold zcramElement
        split_ifs
        · rfl
        · rfl
      · rfl

section ZoneInv

variable (h : ZoneInv c s free)

include h

/- The memory of a thread is crammed into the zone. -/
theorem cram_inv
    (hPhase : s.phase t = .holding a n) :
    ∃ free', ZoneInv c
      ((zcram c s a n).setPhase t (.finishing false))
      free' := by
  have ht : (s.phase t).busy = true := by
    rw [hPhase]
    rfl
  have hPaged : (s.phase t).Paged a n := Or.inl hPhase
  rcases h.flights.paged t a n hPaged with
    ⟨ha, hn, hPlaced, hPages, hWhole⟩
  have hNext : ZoneInv c (s.setPhase t (.finishing false))
      free := by
    refine h.setPhase (d := s.doingAlloc)
      (w := s.someoneWaits) (m := s.maxSize) rfl ?_ ?_
    · intro _
      exact ⟨h.flights.busy t ht,
        fun u hu => h.flights.alone ht hu⟩
    · intro u _ hu
      exact h.flights.busy u hu
  unfold zcram
  rw [← zcramLoop_setPhase]
  apply zcram_inv hNext
  have hElse : ∀ u,
      ((s.setPhase t (.finishing false)).phase u).isEmpty =
        true := by
    intro u
    by_cases hEq : u = t
    · rw [hEq, setPhase_self_zone]
      rfl
    · rw [setPhase_other_zone hEq]
      have hIdle := h.flights.alone ht hEq
      cases hu : s.phase u with
      | holding b m | grown b m | taken b =>
          rw [hu] at hIdle
          cases hIdle
      | outside | waiting | expanding | finishing b | starved
      | counting b => rfl
  refine ⟨ha, hPlaced, fun _ => hWhole, ?_, ?_,
    fun _ => hPages, ?_, ?_⟩
  · intro e he
    exact (h.elems.paged t a n hPaged e he).apart c.elem_pos hn
  · intro hLeft
    exact (hPages hLeft).apart hn hLeft
  · intro u b m hu
    exact absurd hu (not_paged_of_empty (hElse u) b m)
  · intro u b hu
    exact absurd hu (not_taken_of_empty (hElse u) b)

/- A range inside the space of `zget_space` and new pages. -/
structure SpaceFor
    (c : ZoneConfig)
    (s : ZoneState τ)
    (es : List Nat)
    (a n : Nat) : Prop where
  pos : 0 < a
  placed : Placed c s a n
  elems : ∀ e ∈ es, Apart e c.elemSize a n

/-
  An element is cut off the front of some space, and what
  follows is the space that is left.
-/
theorem ZoneInv.cut
    (ht : (s.phase t).busy = true)
    (hc : c.collectable = false)
    (hSpace : SpaceFor c s' (free ++ s.out) a n)
    (hFits : c.elemSize ≤ n)
    (hNext : s'.zallocNextSpace = a + c.elemSize)
    (hEnd : s'.zallocEndOfSpace = a + n)
    (hPhase : s'.phase = update s.phase t (.taken a))
    (hDoing : s'.doingAlloc = s.doingAlloc)
    (hMapped :
      ∀ e ∈ free ++ s.out, Placed c s' e c.elemSize)
    (hSame : s'.links = s.links ∧ s'.out = s.out ∧
      s'.count = s.count ∧ s'.curSize = s.curSize) :
    ZoneInv c s' free := by
  rcases hSame with ⟨hLinks, hOut, hNumber, hSize⟩
  have hPos := c.elem_pos
  have hLeft : s'.left = n - c.elemSize := by
    unfold ZoneState.left
    omega
  have hNow : s'.phase t = .taken a := by
    rw [hPhase]
    exact update_self ..
  have hIdle : ∀ u, u ≠ t → (s'.phase u).busy = false := by
    intro u hu
    rw [hPhase, update_of_ne hu]
    exact h.flights.alone ht hu
  have hPaged : ∀ u b m, ¬ (s'.phase u).Paged b m := by
    intro u b m hu
    by_cases hEq : u = t
    · rw [hEq, hNow] at hu
      rcases hu with hu | hu
      · cases hu
      · cases hu
    · have hBusy := busy_of_paged hu
      rw [hIdle u hEq] at hBusy
      cases hBusy
  have hTaken : ∀ u b, s'.phase u = .taken b → b = a := by
    intro u b hu
    by_cases hEq : u = t
    · rw [hEq, hNow] at hu
      cases hu
      rfl
    · have hBusy := hIdle u hEq
      rw [hu] at hBusy
      cases hBusy
  refine ⟨?_, ?_, ?_, ?_, ?_⟩
  · unfold FreeChain
    rw [hLinks]
    exact h.chain
  · rw [hOut]
    refine ⟨h.elems.apart, h.elems.nonzero, hMapped,
      h.elems.whole, ?_, ?_, ?_, ?_, ?_⟩
    · intro hAbsurd
      rw [hc] at hAbsurd
      cases hAbsurd
    · intro e he _
      exact ((hSpace.elems e he).symm.sub (by omega)
        (by omega)).symm
    · intro hAbsurd
      rw [hc] at hAbsurd
      cases hAbsurd
    · intro u b m hu
      exact absurd hu (hPaged u b m)
    · intro u b hu e he
      rw [hTaken u b hu]
      exact ((hSpace.elems e he).symm.sub (Nat.le_refl a)
        (by omega)).symm
  · refine ⟨?_, ?_, ?_, ?_, ?_, ?_, ?_, ?_⟩
    · omega
    · omega
    · intro _ q hq
      exact hSpace.placed q
        (pages_subset (by omega) (by omega) hq)
    · intro u b m hu
      exact absurd hu (hPaged u b m)
    · intro u b m hu
      exact absurd (Or.inr hu) (hPaged u b m)
    · intro u b hu
      rw [hTaken u b hu]
      refine ⟨hSpace.pos, ?_, ?_, hc⟩
      · intro q hq
        exact hSpace.placed q
          (pages_subset (Nat.le_refl a) (by omega) hq)
      · intro _
        left
        rw [hNext]
    · intro u _
      rw [hDoing]
      exact h.flights.busy t ht
    · intro u v hu hv
      have hIs : ∀ x, (s'.phase x).busy = true → x = t := by
        intro x hx
        by_contra hNe
        rw [hIdle x hNe] at hx
        cases hx
      rw [hIs u hu, hIs v hv]
  · rw [hNumber, hOut]
    exact h.count
  · rw [hSize, hOut]
    exact h.curSize

omit [DecidableEq τ] in
/- What is left of the space is enough. -/
theorem ZoneInv.space
    (hEnough :
      s.zallocNextSpace + c.elemSize ≤ s.zallocEndOfSpace) :
    SpaceFor c s (free ++ s.out) s.zallocNextSpace s.left ∧
      c.elemSize ≤ s.left ∧
      s.zallocNextSpace + s.left = s.zallocEndOfSpace := by
  have hPos := c.elem_pos
  have hLeft : c.elemSize ≤ s.left := by
    unfold ZoneState.left
    omega
  refine ⟨⟨h.flights.pos, h.flights.placed (by omega), ?_⟩,
    hLeft, ?_⟩
  · intro e he
    exact h.elems.reserve e he (by omega)
  · have hOrder := h.flights.order
    unfold ZoneState.left
    omega

theorem zgetSpace_inv
    (ht : (s.phase t).busy = true)
    (hc : c.collectable = false)
    (hRun : zgetSpace c s t result = some s') :
    ∃ free', ZoneInv c s' free' := by
  unfold zgetSpace at hRun
  by_cases hFew :
      s.zallocEndOfSpace < s.zallocNextSpace + c.elemSize
  · rw [if_pos hFew] at hRun
    cases result with
    | none =>
        cases hRun
        refine ⟨free, h.setPhase (d := s.doingAlloc)
          (w := s.someoneWaits) (m := s.maxSize) rfl
          ?_ ?_⟩
        · intro _
          exact ⟨h.flights.busy t ht,
            fun u hu => h.flights.alone ht hu⟩
        · intro u _ hu
          exact h.flights.busy u hu
    | some space =>
        dsimp only at hRun
        by_cases hOk : Allocatable c s space
            (c.roundPage c.elemSize)
        · rw [if_pos hOk] at hRun
          cases hRun
          have hSize := le_roundPage c c.elemSize
          exact ⟨free, h.allocate ht hOk
            (Nat.lt_of_lt_of_le c.elem_pos hSize)
            (Or.inr ⟨rfl, hc, hSize⟩)⟩
        · rw [if_neg hOk] at hRun
          cases hRun
  · rw [if_neg hFew] at hRun
    cases hRun
    rcases h.space (by omega) with ⟨hSpace, hFits, hEnd⟩
    refine ⟨free, h.cut ht hc
      ⟨hSpace.pos, hSpace.placed, hSpace.elems⟩ hFits rfl
      hEnd.symm rfl rfl h.elems.placed
      ⟨rfl, rfl, rfl, rfl⟩⟩

omit [DecidableEq τ] in
/- New pages right after the space that is left. -/
theorem ZoneInv.joined
    (hPhase : s.phase t = .grown a n)
    (hEq : a = s.zallocEndOfSpace) :
    SpaceFor c s (free ++ s.out) s.zallocNextSpace
      (s.left + n) := by
  have hPaged : (s.phase t).Paged a n := Or.inr hPhase
  rcases h.flights.paged t a n hPaged with
    ⟨ha, hn, hPlaced, _⟩
  have hOrder := h.flights.order
  have hLeft : s.zallocNextSpace + s.left = a := by
    unfold ZoneState.left
    omega
  refine ⟨h.flights.pos, ?_, ?_⟩
  · intro q hq
    unfold ZoneConfig.pages at hq
    rw [mem_pages] at hq
    by_cases hNew : a / c.pageSize ≤ q
    · apply hPlaced
      unfold ZoneConfig.pages
      rw [mem_pages]
      refine ⟨hNew, ?_⟩
      rw [← hLeft, Nat.add_assoc]
      exact hq.2
    · have hBefore : (a - 1) / c.pageSize + 1 ≥
          a / c.pageSize := by
        rw [← Nat.add_div_right _ c.page_pos]
        apply Nat.div_le_div_right
        have hPos := c.page_pos
        omega
      have hSome : 0 < s.left := by
        by_contra hNone
        have hIs : s.left = 0 := by omega
        rw [hIs, Nat.add_zero] at hLeft
        rw [hLeft] at hq
        omega
      apply h.flights.placed hSome
      unfold ZoneConfig.pages
      rw [mem_pages]
      refine ⟨hq.1, ?_⟩
      rw [hLeft]
      omega
  · intro e he
    have hPos := c.elem_pos
    have hAfter :=
      (h.elems.paged t a n hPaged e he).apart hPos hn
    by_cases hSome : 0 < s.left
    · have hFirst := h.elems.reserve e he hSome
      unfold Apart at hAfter hFirst ⊢
      omega
    · unfold Apart at hAfter ⊢
      omega

theorem zgetTake_inv
    (hPhase : s.phase t = .grown a n) :
    ZoneInv c (zgetTake c s t a n) free := by
  have ht : (s.phase t).busy = true := by
    rw [hPhase]
    rfl
  have hPaged : (s.phase t).Paged a n := Or.inr hPhase
  rcases h.flights.paged t a n hPaged with
    ⟨ha, hn, hPlaced, hPages, _⟩
  rcases h.flights.grown t a n hPhase with ⟨hc, hFits⟩
  unfold zgetTake
  by_cases hFew :
      s.zallocEndOfSpace < s.zallocNextSpace + c.elemSize
  · rw [if_pos hFew]
    by_cases hEq : a = s.zallocEndOfSpace
    · rw [if_neg (not_not.mpr hEq)]
      have hOrder := h.flights.order
      have hEnd : s.zallocNextSpace + (s.left + n) = a + n := by
        unfold ZoneState.left
        omega
      have hSpace := h.joined hPhase hEq
      exact h.cut ht hc
        ⟨hSpace.pos, hSpace.placed, hSpace.elems⟩
        (by omega) rfl hEnd.symm rfl rfl h.elems.placed
        ⟨rfl, rfl, rfl, rfl⟩
    · rw [if_pos hEq]
      refine h.cut ht hc ⟨ha, hPlaced, ?_⟩ hFits rfl rfl rfl
        rfl h.elems.placed ⟨rfl, rfl, rfl, rfl⟩
      intro e he
      exact (h.elems.paged t a n hPaged e he).apart
        c.elem_pos hn
  · rw [if_neg hFew]
    rcases h.space (by omega) with ⟨hSpace, hEnough, hEnd⟩
    have hPos := c.elem_pos
    have hKeep : ∀ b m, Placed c s b m →
        OtherPages c.pageSize b m a n →
        ∀ q ∈ c.pages b m,
          (if q ∈ c.pages a n then false
            else s.mapped q) = true := by
      intro b m hb hOther q hq
      have hNot : q ∉ c.pages a n := hOther q hq
      rw [if_neg hNot]
      exact hb q hq
    refine h.cut ht hc
      ⟨hSpace.pos, ?_, hSpace.elems⟩ hEnough rfl hEnd.symm rfl
      rfl ?_ ⟨rfl, rfl, rfl, rfl⟩
    · exact hKeep _ _ hSpace.placed
        (hPages (by omega)).symm
    · intro e he
      exact hKeep _ _ (h.elems.placed e he)
        (h.elems.paged t a n hPaged e he)

/- The element that was cut off is handed out. -/
theorem zallocTaken_inv
    (hPhase : s.phase t = .taken a) :
    ZoneInv c (zallocTaken c s t a) free := by
  have ht : (s.phase t).busy = true := by
    rw [hPhase]
    rfl
  rcases h.flights.taken t a hPhase with
    ⟨ha, hPlaced, hSpace, hc⟩
  have hDone : ZoneInv c
      { s.setPhase t (.counting a) with
        doingAlloc := false
        someoneWaits := false } free :=
    h.done ht rfl rfl
  have hApart := h.elems.taken t a hPhase
  have hIdle : ∀ u,
      ((zallocTaken c s t a).phase u).busy = false := by
    intro u
    show (update s.phase t (.counting a) u).busy = false
    by_cases hEq : u = t
    · rw [hEq, update_self]
      rfl
    · rw [update_of_ne hEq]
      exact h.flights.alone ht hEq
  have hPerm : (free ++ a :: s.out).Perm
      (a :: (free ++ s.out)) := List.perm_middle
  refine ⟨h.chain, ?_, ?_, ?_, ?_⟩
  · apply ElemsOk.perm ?_ hPerm.symm
    have hMem : ∀ P : Nat → Prop, P a →
        (∀ e ∈ free ++ s.out, P e) →
        ∀ e ∈ a :: (free ++ s.out), P e := by
      intro P haP hRest e he
      rcases List.mem_cons.mp he with rfl | hIn
      · exact haP
      · exact hRest e hIn
    refine ⟨?_, hMem _ (by omega) h.elems.nonzero,
      hMem _ hPlaced h.elems.placed, ?_, ?_,
      hMem _ hSpace h.elems.reserve, ?_, ?_, ?_⟩
    · rw [List.pairwise_cons]
      exact ⟨fun e he => (hApart e he).symm, h.elems.apart⟩
    · intro hAbsurd
      rw [hc] at hAbsurd
      cases hAbsurd
    · intro hAbsurd
      rw [hc] at hAbsurd
      cases hAbsurd
    · intro hAbsurd
      rw [hc] at hAbsurd
      cases hAbsurd
    · intro u b m hu
      have hBusy := busy_of_paged hu
      rw [hIdle u] at hBusy
      cases hBusy
    · intro u b hu
      have hBusy := hIdle u
      rw [hu] at hBusy
      cases hBusy
  · exact hDone.flights.congr rfl rfl rfl rfl rfl
  · show s.count + 1 = _
    rw [h.count]
    show _ = ((a :: s.out).length : Int)
    rfl
  · show s.curSize + c.elemSize = _
    rw [h.curSize]
    show _ = c.elemSize *
      (free.length + (a :: s.out).length)
    rw [List.length_cons, ← Nat.add_assoc, Nat.mul_add_one]

end ZoneInv

end Memory

end Kern

end OsfMach
