import OsfMach.Lib.Runs
import OsfMach.Pager.Segments

/-
  What `ps_select_segment` returns in every state that the
  segments can get into.

  A priority that was found full stays in `ps_select_array`
  as a negative index until a cluster of it is freed, and the
  next call starts its scan there.

  Main declarations:
    * `segmentStep`, `SegmentsOk`
    * `Paging.Selects`, `Paging.SelectsWhen`
    * `segmentStep_ok`
    * `psSelectFrom_ends`, `psSelectFrom_result`
    * `selects_iff`
-/

------
-- Runs
------

namespace OsfMach

namespace Pager

open Function
open Lib

variable {k : Int} {is : List (Fin (bsMaxpri + 1))}
variable {r : Option Nat}

inductive SegmentAct where
| enter (ps : PagingSegment)
| select (shift fuel : Nat)
| deallocate (j cluster : Nat)

/- What a call leaves, if it ends without a fault. -/
def segmentStep (s : Paging) : SegmentAct → Option Paging
| .enter ps => some ((psEnter ps s).getD s)
| .select shift fuel =>
    match psSelectSegment shift fuel s with
    | some (.ok (_, t)) => some t
    | _ => none
| .deallocate j cluster =>
    (psDeallocateCluster j cluster s).toOption

/- The segments fill the array from the start. -/
structure SegmentsOk (s : Paging) : Prop where
  le : s.pagingSegmentCount ≤ maxNumPagingSegments
  used :
    ∀ j, (s.pagingSegments j).isSome = true ↔
      j < s.pagingSegmentCount
  last : s.pagingSegmentMax = s.pagingSegmentCount - 1
  known :
    ∀ j ps, s.pagingSegments j = some ps →
      s.psSelectArray ps.psBs.bsPriority ≠ bsNopri
  select :
    ∀ i, s.psSelectArray i = bsNopri ∨
      s.psSelectArray i = bsFullpri ∨
      (0 ≤ s.psSelectArray i ∧
        s.psSelectArray i ≤ s.pagingSegmentMax)

theorem initial_segmentsOk : SegmentsOk Paging.initial :=
  { le := by decide
    used := fun j => by simp [Paging.initial]
    last := rfl
    known := by
      intro j ps h
      cases h
    select := fun i => .inl rfl }

variable {s t : Paging} {ps : PagingSegment}
variable {j shift fuel : Nat}

theorem SegmentsOk.lt_of_some
    (h : SegmentsOk s)
    (hSome : s.pagingSegments j = some ps) :
    j < s.pagingSegmentCount := by
  apply (h.used j).mp
  rw [hSome]
  rfl

theorem SegmentsOk.le_max
    (h : SegmentsOk s)
    (hSome : s.pagingSegments j = some ps) :
    j ≤ s.pagingSegmentMax := by
  have hLt := h.lt_of_some hSome
  have hLast := h.last
  omega

theorem SegmentsOk.max_lt
    (h : SegmentsOk s) :
    s.pagingSegmentMax < maxNumPagingSegments := by
  have hLe := h.le
  have hLast := h.last
  unfold maxNumPagingSegments at *
  omega

/-
  The segments keep their places and priorities, and what is
  known of a priority is not forgotten.
-/
theorem SegmentsOk.change
    (h : SegmentsOk s)
    (hSegments : ∀ j,
      (t.pagingSegments j).map (·.psBs.bsPriority) =
        (s.pagingSegments j).map (·.psBs.bsPriority))
    (hCount : t.pagingSegmentCount = s.pagingSegmentCount)
    (hMax : t.pagingSegmentMax = s.pagingSegmentMax)
    (hSelect : ∀ i, t.psSelectArray i = s.psSelectArray i ∨
      (t.psSelectArray i = bsFullpri ∨
        (0 ≤ t.psSelectArray i ∧
          t.psSelectArray i ≤ s.pagingSegmentMax))) :
    SegmentsOk t :=
  { le := by
      rw [hCount]
      exact h.le
    used := by
      intro j
      rw [hCount, ← h.used j, ← Option.isSome_map,
        hSegments j, Option.isSome_map]
    last := by
      rw [hCount, hMax]
      exact h.last
    known := by
      intro j ps hSome
      have hMap := hSegments j
      rw [hSome] at hMap
      cases hOld : s.pagingSegments j with
      | none =>
          rw [hOld] at hMap
          cases hMap
      | some old =>
          rw [hOld] at hMap
          have hPri : ps.psBs.bsPriority =
              old.psBs.bsPriority := Option.some.inj hMap
          rw [hPri]
          have hKnown := h.known j old hOld
          rcases hSelect old.psBs.bsPriority with
            hEq | hEq | ⟨hLow, _⟩
          · rw [hEq]
            exact hKnown
          · rw [hEq]
            decide
          · unfold bsNopri
            omega
    select := by
      intro i
      rw [hMax]
      rcases hSelect i with hEq | hNew
      · rw [hEq]
        exact h.select i
      · exact .inr hNew }

------
-- Entering
------

/- The first null entry is the one after the segments. -/
theorem SegmentsOk.psFree_eq
    (h : SegmentsOk s)
    (hFree : psFree s = some j) :
    j = s.pagingSegmentCount ∧
      j < maxNumPagingSegments := by
  unfold psFree at hFree
  rw [List.find?_range_eq_some] at hFree
  rcases hFree with ⟨hNone, hMem, hBefore⟩
  have hLt := List.mem_range.mp hMem
  refine ⟨?_, hLt⟩
  have hNot : ¬ j < s.pagingSegmentCount := by
    intro hUsed
    have hSome := (h.used j).mpr hUsed
    rw [Option.isNone_iff_eq_none] at hNone
    rw [hNone] at hSome
    cases hSome
  by_contra hNe
  have hSome := hBefore s.pagingSegmentCount (by omega)
  have hUsed : (s.pagingSegments
      s.pagingSegmentCount).isSome = true := by
    simpa [Option.isNone_iff_eq_none,
      ← Option.isSome_iff_ne_none] using hSome
  exact absurd ((h.used _).mp hUsed) (Nat.lt_irrefl _)

theorem psEnter_ok
    (h : SegmentsOk s)
    (hEnter : psEnter ps s = some t) :
    SegmentsOk t := by
  unfold psEnter at hEnter
  cases hFree : psFree s with
  | none =>
      rw [hFree] at hEnter
      cases hEnter
  | some i =>
      rw [hFree] at hEnter
      rcases h.psFree_eq hFree with ⟨hEq, hLt⟩
      have hLast := h.last
      cases hEnter
      have hMax : (if s.pagingSegmentMax < i then i
          else s.pagingSegmentMax) = i := by
        split_ifs <;> omega
      refine
        { le := ?le
          used := ?used
          last := ?last
          known := ?known
          select := ?select }
      case le =>
        dsimp only
        omega
      case used =>
        intro j
        dsimp only
        by_cases hNew : j = i
        · subst hNew
          rw [update_self]
          simp only [Option.isSome_some, true_iff]
          omega
        · rw [update_of_ne hNew, h.used j]
          omega
      case last =>
        dsimp only
        omega
      case known =>
        intro j old hOld
        dsimp only at hOld ⊢
        by_cases hNew : j = i
        · rw [hNew, update_self] at hOld
          cases hOld
          split_ifs with hNo
          · rw [update_self]
            decide
          · exact hNo
        · rw [update_of_ne hNew] at hOld
          have hKnown := h.known j old hOld
          split_ifs with hNo
          · rw [update_of_ne]
            · exact hKnown
            · intro hSame
              rw [hSame, hNo] at hKnown
              exact hKnown rfl
          · exact hKnown
      case select =>
        intro p
        dsimp only
        rw [hMax]
        have hOld := h.select p
        by_cases hSame : p = ps.psBs.bsPriority
        · subst hSame
          split_ifs with hNo
          · rw [update_self]
            exact .inr (.inr ⟨by omega, by omega⟩)
          · rcases hOld with hOld | hOld | ⟨hLow, hHigh⟩
            · exact .inl hOld
            · exact .inr (.inl hOld)
            · exact .inr (.inr ⟨hLow, by omega⟩)
        · have hKeep : (if s.psSelectArray
              ps.psBs.bsPriority = bsNopri then
                update s.psSelectArray ps.psBs.bsPriority 0
              else s.psSelectArray) p =
                s.psSelectArray p := by
            split_ifs
            · rw [update_of_ne hSame]
            · rfl
          rw [hKeep]
          rcases hOld with hOld | hOld | ⟨hLow, hHigh⟩
          · exact .inl hOld
          · exact .inr (.inl hOld)
          · exact .inr (.inr ⟨hLow, by omega⟩)

------
-- Looking at a Segment
------

/- Some segment of a priority can be taken. -/
def Paging.OffersAt
    (s : Paging)
    (i : Fin (bsMaxpri + 1))
    (shift : Nat) : Prop :=
  ∃ j ps, s.pagingSegments j = some ps ∧
    ps.psBs.bsPriority = i ∧ ps.Suits shift

/- Some segment can be taken. -/
def Paging.Offers (s : Paging) (shift : Nat) : Prop :=
  ∃ j ps, s.pagingSegments j = some ps ∧ ps.Suits shift

theorem segmentAt_eq
    (s : Paging)
    (hLow : 0 ≤ k)
    (hLt : k < maxNumPagingSegments) :
    s.segmentAt k = .ok (s.pagingSegments k.toNat) :=
  if_pos ⟨hLow, hLt⟩

theorem deref_eq
    (hSome : s.pagingSegments j = some ps)
    (hLt : j < maxNumPagingSegments) :
    s.deref j = .ok ps := by
  unfold Paging.deref
  rw [segmentAt_eq s (by omega) (by omega), Int.toNat_natCast,
    hSome]

theorem deref_some
    (h : s.deref j = .ok ps) :
    s.pagingSegments j = some ps := by
  unfold Paging.deref Paging.segmentAt at h
  split_ifs at h
  rw [Int.toNat_natCast] at h
  cases hSeg : s.pagingSegments j with
  | none =>
      rw [hSeg] at h
      cases h
  | some old =>
      rw [hSeg] at h
      cases h
      rfl

theorem psLook_eq
    (s : Paging)
    (i : Fin (bsMaxpri + 1))
    (shift : Nat)
    (hLow : 0 ≤ k)
    (hLt : k < maxNumPagingSegments) :
    ∃ b, psLook s i shift k = .ok b ∧
      (b = true ↔ ∃ ps, s.pagingSegments k.toNat = some ps ∧
        ps.psBs.bsPriority = i ∧ ps.Suits shift) := by
  unfold psLook
  rw [segmentAt_eq s hLow hLt]
  cases hSeg : s.pagingSegments k.toNat with
  | none =>
      refine ⟨false, rfl, ?_⟩
      constructor
      · intro hFalse
        cases hFalse
      · rintro ⟨ps, hSome, _⟩
        cases hSome
  | some ps =>
      refine ⟨_, rfl, ?_⟩
      rw [decide_eq_true_iff]
      constructor
      · intro hTake
        exact ⟨ps, rfl, hTake⟩
      · rintro ⟨ps', hSome, hTake⟩
        cases hSome
        exact hTake

/- No index of a segment is outside the array. -/
theorem SegmentsOk.look_ok
    (h : SegmentsOk s)
    (i : Fin (bsMaxpri + 1))
    (shift : Nat)
    (hLow : 0 ≤ k)
    (hLe : k ≤ s.pagingSegmentMax) :
    ∃ b, psLook s i shift k = .ok b ∧
      (b = true ↔ ∃ ps, s.pagingSegments k.toNat = some ps ∧
        ps.psBs.bsPriority = i ∧ ps.Suits shift) := by
  have hMax := h.max_lt
  exact psLook_eq s i shift hLow (by omega)

------
-- Scanning a Priority
------

variable {i : Fin (bsMaxpri + 1)}

/- The scan of a full priority looks before the array. -/
theorem psScan_full
    (hFull : s.psSelectArray i = bsFullpri) :
    psScan s i shift fuel = none ∨
      psScan s i shift fuel = some (.error .outOfBounds) := by
  unfold psScan RoundRobin.scan Loop.run
  rw [hFull]
  have hTurn : RoundRobin.turn (psLook s i shift)
      s.pagingSegmentMax bsFullpri (bsFullpri + 1) =
        .error (.error .outOfBounds) := by
    rfl
  cases fuel with
  | zero => exact .inl rfl
  | succ fuel =>
      right
      have hOne : Loop.after
          (RoundRobin.turn (psLook s i shift)
            s.pagingSegmentMax bsFullpri)
          (bsFullpri + 1) 1 =
            .error (.error .outOfBounds) := hTurn
      rw [Loop.after_error hOne (by omega)]

section

variable (h : SegmentsOk s) (hLow : 0 ≤ s.psSelectArray i)
variable (hHigh : s.psSelectArray i ≤ s.pagingSegmentMax)
include h hLow hHigh

/- What the scan of another priority finds. -/
theorem SegmentsOk.psScan_found
    (hScan : psScan s i shift fuel = some (.ok (some k))) :
    0 ≤ k ∧ k ≤ s.pagingSegmentMax ∧
      ∃ ps, s.pagingSegments k.toNat = some ps ∧
        ps.psBs.bsPriority = i ∧ ps.Suits shift := by
  rcases RoundRobin.scan_found hLow hHigh hScan with
    ⟨hk, hkMax, hLook⟩
  refine ⟨hk, hkMax, ?_⟩
  rcases h.look_ok i shift hk hkMax with ⟨b, hb, hIff⟩
  rw [hLook] at hb
  cases hb
  exact hIff.mp rfl

theorem SegmentsOk.psScan_none
    (hScan : psScan s i shift fuel = some (.ok none)) :
    ¬ s.OffersAt i shift := by
  rintro ⟨j, ps, hSome, hTake⟩
  have hLook := RoundRobin.scan_none hLow hHigh hScan j
    (by omega) (by
      have hLe := h.le_max hSome
      omega)
  rcases h.look_ok i shift (k := j) (by omega) (by
      have hLe := h.le_max hSome
      omega) with ⟨b, hb, hIff⟩
  rw [hLook] at hb
  cases hb
  have hTrue := hIff.mpr ⟨ps, hSome, hTake⟩
  cases hTrue

end

section

variable (h : SegmentsOk s)
include h

theorem SegmentsOk.psScan_ends
    (shift : Nat)
    (hLow : 0 ≤ s.psSelectArray i)
    (hHigh : s.psSelectArray i ≤ s.pagingSegmentMax) :
    ∃ r, psScan s i shift (s.pagingSegmentMax + 2) =
      some (.ok r) := by
  rcases RoundRobin.scan_ends (psLook s i shift) hLow hHigh
    with ⟨r, hr⟩
  cases r with
  | ok r => exact ⟨r, hr⟩
  | error e =>
      rcases RoundRobin.scan_failed hLow hHigh hr with
        ⟨k, hk, hkMax, hLook⟩
      rcases h.look_ok i shift hk hkMax with ⟨b, hb, _⟩
      rw [hLook] at hb
      cases hb

/- There is no segment of a priority that is skipped. -/
theorem SegmentsOk.not_offersAt
    (hNo : s.psSelectArray i = bsNopri) :
    ¬ s.OffersAt i shift := by
  rintro ⟨j, ps, hSome, hPri, _⟩
  have hKnown := h.known j ps hSome
  rw [hPri] at hKnown
  exact hKnown hNo

theorem SegmentsOk.setSelect
    (i : Fin (bsMaxpri + 1))
    {v : Int}
    (hv : v = bsFullpri ∨
      (0 ≤ v ∧ v ≤ s.pagingSegmentMax)) :
    SegmentsOk (s.setSelect i v) := by
  apply h.change
  · intro j
    rfl
  · rfl
  · rfl
  · intro k
    dsimp only [Paging.setSelect]
    by_cases hSame : k = i
    · rw [hSame, update_self]
      exact .inr hv
    · rw [update_of_ne hSame]
      exact .inl rfl

theorem SegmentsOk.setSegment
    {new : PagingSegment}
    (hOld : s.pagingSegments j = some ps)
    (hPri : new.psBs = ps.psBs) :
    SegmentsOk (s.setSegment j new) := by
  apply h.change
  · intro k
    dsimp only [Paging.setSegment]
    by_cases hSame : k = j
    · rw [hSame, update_self, hOld]
      simp only [Option.map_some]
      rw [hPri]
    · rw [update_of_ne hSame]
  · rfl
  · rfl
  · intro k
    exact .inl rfl

end

------
-- The Priorities
------

/- The segment that is returned has one cluster less. -/
def Paging.Reserved
    (s : Paging)
    (shift : Nat)
    (t : Paging) : Option Nat → Prop
| none => t.pagingSegments = s.pagingSegments
| some j =>
    ∃ ps, s.pagingSegments j = some ps ∧
      ps.Suits shift ∧
      t.pagingSegments =
        update s.pagingSegments j
          (some { ps with psClcount := ps.psClcount - 1 })

theorem PagingSegment.Suits.reserve_eq
    (h : ps.Suits shift) :
    ps.reserve =
      { ps with psClcount := ps.psClcount - 1 } := by
  rcases h with ⟨_, hFree, _⟩
  unfold PagingSegment.reserve
  rw [if_neg hFree]

/- What the loop over the priorities returns. -/
theorem psSelectFrom_result
    (h : SegmentsOk s)
    (hRun : psSelectFrom shift fuel is s =
      some (.ok (r, t))) :
    SegmentsOk t ∧ s.Reserved shift t r ∧
      (r = none → ∀ i ∈ is, ¬ s.OffersAt i shift) := by
  induction is generalizing s with
  | nil =>
      cases hRun
      exact ⟨h, rfl, fun _ i hi => absurd hi List.not_mem_nil⟩
  | cons i rest ih =>
      unfold psSelectFrom at hRun
      split_ifs at hRun with hNo
      · rcases ih h hRun with ⟨hOk, hReserved, hNone⟩
        refine ⟨hOk, hReserved, ?_⟩
        intro hr k hk
        rcases List.mem_cons.mp hk with rfl | hk
        · exact h.not_offersAt hNo
        · exact hNone hr k hk
      · rcases h.select i with hIs | hFull | ⟨hLow, hHigh⟩
        · exact absurd hIs hNo
        · rcases psScan_full hFull with hScan | hScan <;>
            rw [hScan] at hRun <;> cases hRun
        · cases hScan : psScan s i shift fuel with
          | none =>
              rw [hScan] at hRun
              cases hRun
          | some res =>
              rw [hScan] at hRun
              cases res with
              | error e => cases hRun
              | ok found =>
                  cases found with
                  | none =>
                      rcases ih (h.setSelect i (.inl rfl)) hRun
                        with ⟨hOk, hReserved, hNone⟩
                      refine ⟨hOk, hReserved, ?_⟩
                      intro hr k hk
                      rcases List.mem_cons.mp hk with rfl | hk
                      · exact h.psScan_none hLow hHigh hScan
                      · exact hNone hr k hk
                  | some k =>
                      rcases h.psScan_found hLow hHigh hScan with
                        ⟨hk, hkMax, ps, hSome, _, hSuits⟩
                      have hMax := h.max_lt
                      have hDeref : s.deref k = .ok ps := by
                        have hEq := deref_eq hSome (by omega)
                        rwa [Int.toNat_of_nonneg hk] at hEq
                      dsimp only at hRun
                      rw [hDeref] at hRun
                      cases hRun
                      refine ⟨?_, ?_, ?_⟩
                      · have hSet : SegmentsOk
                            (s.setSegment k.toNat ps.reserve) :=
                          h.setSegment hSome rfl
                        exact hSet.setSelect i
                          (.inr ⟨hk, hkMax⟩)
                      · refine ⟨ps, hSome, hSuits, ?_⟩
                        rw [← hSuits.reserve_eq]
                        rfl
                      · intro hr
                        cases hr

/-
  A priority that is full is only reached when a segment of
  none of the priorities before can be taken.
-/
def Paging.FullCovered
    (s : Paging)
    (shift : Nat)
    (is : List (Fin (bsMaxpri + 1))) : Prop :=
  ∀ before i after, is = before ++ i :: after →
    s.psSelectArray i = bsFullpri →
    ∃ k ∈ before, s.OffersAt k shift

theorem Paging.fullCovered_cons :
    s.FullCovered shift (i :: is) ↔
      s.psSelectArray i ≠ bsFullpri ∧
        (s.OffersAt i shift ∨ s.FullCovered shift is) := by
  constructor
  · intro h
    refine ⟨?_, ?_⟩
    · intro hFull
      rcases h [] i is rfl hFull with ⟨k, hk, _⟩
      exact absurd hk List.not_mem_nil
    · by_cases hOffers : s.OffersAt i shift
      · exact .inl hOffers
      · right
        intro before k after hEq hFull
        rcases h (i :: before) k after (by rw [hEq]; rfl) hFull
          with ⟨m, hm, hAt⟩
        rcases List.mem_cons.mp hm with rfl | hm
        · exact absurd hAt hOffers
        · exact ⟨m, hm, hAt⟩
  · rintro ⟨hNot, hRest⟩ before k after hEq hFull
    cases before with
    | nil =>
        cases hEq
        exact absurd hFull hNot
    | cons m before =>
        injection hEq with hHead hTail
        subst hHead
        rcases hRest with hOffers | hCovered
        · exact ⟨i, List.mem_cons_self, hOffers⟩
        · rcases hCovered before k after hTail hFull with
            ⟨m, hm, hAt⟩
          exact ⟨m, List.mem_cons_of_mem i hm, hAt⟩

/- A priority that was marked full does not change the rest. -/
theorem Paging.fullCovered_setSelect
    (v : Int)
    (hi : i ∉ is) :
    (s.setSelect i v).FullCovered shift is ↔
      s.FullCovered shift is := by
  have hSame : ∀ k ∈ is,
      (s.setSelect i v).psSelectArray k =
        s.psSelectArray k := by
    intro k hk
    apply update_of_ne
    rintro rfl
    exact hi hk
  constructor
  · intro h before k after hEq hFull
    apply h before k after hEq
    rw [hSame k (by rw [hEq]; simp)]
    exact hFull
  · intro h before k after hEq hFull
    apply h before k after hEq
    rw [← hSame k (by rw [hEq]; simp)]
    exact hFull

section

variable (h : SegmentsOk s)
include h

/- With enough fuel the loop ends, unless it meets a full one. -/
theorem psSelectFrom_ends
    (hNodup : is.Nodup)
    (hCovered : s.FullCovered shift is) :
    ∃ r t, psSelectFrom shift (s.pagingSegmentMax + 2) is s =
      some (.ok (r, t)) := by
  induction is generalizing s with
  | nil => exact ⟨none, s, rfl⟩
  | cons i rest ih =>
      rcases List.nodup_cons.mp hNodup with ⟨hi, hRest⟩
      rcases Paging.fullCovered_cons.mp hCovered with
        ⟨hNotFull, hCases⟩
      unfold psSelectFrom
      split_ifs with hNo
      · rcases hCases with hOffers | hCases
        · exact absurd hOffers (h.not_offersAt hNo)
        · exact ih h hRest hCases
      · rcases h.select i with hIs | hFull | ⟨hLow, hHigh⟩
        · exact absurd hIs hNo
        · exact absurd hFull hNotFull
        · rcases h.psScan_ends shift hLow hHigh with
            ⟨r, hScan⟩
          rw [hScan]
          cases r with
          | none =>
              rcases hCases with hOffers | hCases
              · exact absurd hOffers
                  (h.psScan_none hLow hHigh hScan)
              · exact ih (h.setSelect i (.inl rfl)) hRest
                  ((Paging.fullCovered_setSelect _ hi).mpr
                    hCases)
          | some k =>
              rcases h.psScan_found hLow hHigh hScan with
                ⟨hk, hkMax, ps, hSome, _, _⟩
              have hMax := h.max_lt
              have hDeref : s.deref k = .ok ps := by
                have hEq := deref_eq hSome (by omega)
                rwa [Int.toNat_of_nonneg hk] at hEq
              dsimp only
              rw [hDeref]
              exact ⟨_, _, rfl⟩

/- The loop does not get past a full priority. -/
theorem psSelectFrom_covered
    (hNodup : is.Nodup)
    (hRun : psSelectFrom shift fuel is s =
      some (.ok (r, t))) :
    s.FullCovered shift is := by
  induction is generalizing s with
  | nil =>
      intro before i after hEq
      cases before with
      | nil => cases hEq
      | cons k before => cases hEq
  | cons i rest ih =>
      rcases List.nodup_cons.mp hNodup with ⟨hi, hRest⟩
      rw [Paging.fullCovered_cons]
      unfold psSelectFrom at hRun
      split_ifs at hRun with hNo
      · refine ⟨?_, .inr (ih h hRest hRun)⟩
        rw [hNo]
        decide
      · rcases h.select i with hIs | hFull | ⟨hLow, hHigh⟩
        · exact absurd hIs hNo
        · rcases psScan_full hFull with hScan | hScan <;>
            rw [hScan] at hRun <;> cases hRun
        · refine ⟨by unfold bsFullpri; omega, ?_⟩
          by_cases hOffers : s.OffersAt i shift
          · exact .inl hOffers
          · right
            cases hScan : psScan s i shift fuel with
            | none =>
                rw [hScan] at hRun
                cases hRun
            | some res =>
                rw [hScan] at hRun
                cases res with
                | error e => cases hRun
                | ok found =>
                    cases found with
                    | none =>
                        exact (Paging.fullCovered_setSelect _
                          hi).mp (ih (h.setSelect i (.inl rfl))
                            hRest hRun)
                    | some k =>
                        rcases h.psScan_found hLow hHigh hScan
                          with ⟨_, _, ps, hSome, hTake⟩
                        exact absurd ⟨_, ps, hSome, hTake⟩
                          hOffers

------
-- Selecting
------

theorem psSelectSegment_one
    (hOne : s.pagingSegmentCount = 1) :
    ∃ ps, s.pagingSegments s.pagingSegmentMax = some ps ∧
      s.deref s.pagingSegmentMax = .ok ps ∧
      ∀ j old, s.pagingSegments j = some old →
        j = s.pagingSegmentMax ∧ old = ps := by
  have hLast := h.last
  have hSome := (h.used s.pagingSegmentMax).mpr (by omega)
  rcases Option.isSome_iff_exists.mp hSome with ⟨ps, hps⟩
  refine ⟨ps, hps, deref_eq hps h.max_lt, ?_⟩
  intro j old hOld
  have hLt := h.lt_of_some hOld
  have hEq : j = s.pagingSegmentMax := by omega
  refine ⟨hEq, ?_⟩
  rw [hEq, hps] at hOld
  exact (Option.some.inj hOld).symm

/- A call selects, and leaves the segments in order. -/
theorem psSelectSegment_ok
    (hRun : psSelectSegment shift fuel s =
      some (.ok (r, t))) :
    SegmentsOk t := by
  unfold psSelectSegment at hRun
  split_ifs at hRun with hOne hZero
  · rcases psSelectSegment_one h hOne with ⟨ps, hps, hDeref, _⟩
    rw [hDeref] at hRun
    dsimp only at hRun
    split_ifs at hRun <;> cases hRun
    · exact h
    · exact h.setSegment hps rfl
    · exact h
  · cases hRun
    exact h
  · exact (psSelectFrom_result h hRun).1

theorem psDeallocateCluster_ok
    {cluster : Nat}
    (hRun : psDeallocateCluster j cluster s = .ok t) :
    SegmentsOk t := by
  unfold psDeallocateCluster at hRun
  cases hDeref : s.deref j with
  | error e =>
      rw [hDeref] at hRun
      cases hRun
  | ok ps =>
      rw [hDeref] at hRun
      have hSome := deref_some hDeref
      dsimp only at hRun
      split_ifs at hRun with hBad hFull
      · cases hRun
        have hSet : SegmentsOk
            (s.setSegment j (ps.freeCluster cluster)) :=
          h.setSegment hSome rfl
        exact hSet.setSelect _ (.inr ⟨Int.le_refl _, by simp⟩)
      · cases hRun
        exact h.setSegment hSome rfl

theorem segmentStep_ok
    {a : SegmentAct}
    (hStep : segmentStep s a = some t) :
    SegmentsOk t := by
  cases a with
  | enter ps =>
      cases hStep
      cases hEnter : psEnter ps s with
      | none => exact h
      | some t => exact psEnter_ok h hEnter
  | select shift fuel =>
      unfold segmentStep at hStep
      dsimp only at hStep
      split at hStep
      next r u hRun =>
        cases hStep
        exact psSelectSegment_ok h hRun
      next => cases hStep
  | deallocate j cluster =>
      unfold segmentStep at hStep
      dsimp only at hStep
      cases hRun : psDeallocateCluster j cluster s with
      | error e =>
          rw [hRun] at hStep
          cases hStep
      | ok u =>
          rw [hRun] at hStep
          cases hStep
          exact psDeallocateCluster_ok h hRun

end

------
-- Completeness
------

/-
  The call ends without a fault, returns a segment with a
  cluster reserved if there is one that can be taken, and
  null otherwise.
-/
def Paging.Selects (s : Paging) (shift : Nat) : Prop :=
  ∃ fuel r t,
    psSelectSegment shift fuel s = some (.ok (r, t)) ∧
    (r.isSome = true ↔ s.Offers shift) ∧
    s.Reserved shift t r

/-
  The clusters of an only segment are large enough, if it is
  in use and has some. Of several segments, one above every
  priority that was marked full can be taken.
-/
structure Paging.SelectsWhen
    (s : Paging)
    (shift : Nat) : Prop where
  one :
    s.pagingSegmentCount = 1 →
      ∀ ps, s.pagingSegments s.pagingSegmentMax = some ps →
        ps.psGoingAway = false → ps.psClcount ≠ 0 →
        shift ≤ ps.psClshift
  several :
    1 < s.pagingSegmentCount →
      ∀ i, s.psSelectArray i = bsFullpri →
        ∃ k, i < k ∧ s.OffersAt k shift

theorem mem_priorities
    (i : Fin (bsMaxpri + 1)) :
    i ∈ priorities := by
  revert i
  decide

/- The priorities that come before one are those above. -/
theorem mem_before_iff
    {k : Fin (bsMaxpri + 1)}
    {before after : List (Fin (bsMaxpri + 1))}
    (hEq : priorities = before ++ i :: after) :
    k ∈ before ↔ i < k := by
  have hSorted : priorities.Pairwise (fun a b => b < a) := by
    decide
  have hMem := mem_priorities k
  rw [hEq] at hSorted hMem
  rcases List.pairwise_append.mp hSorted with
    ⟨_, hTail, hAcross⟩
  rcases List.pairwise_cons.mp hTail with ⟨hAfter, _⟩
  constructor
  · intro hk
    exact hAcross k hk i List.mem_cons_self
  · intro hLt
    rcases List.mem_append.mp hMem with hk | hk
    · exact hk
    · rcases List.mem_cons.mp hk with rfl | hk
      · exact absurd hLt (Fin.lt_irrefl k)
      · exact absurd hLt (Fin.lt_asymm (hAfter k hk))

theorem fullCovered_priorities :
    s.FullCovered shift priorities ↔
      ∀ i, s.psSelectArray i = bsFullpri →
        ∃ k, i < k ∧ s.OffersAt k shift := by
  constructor
  · intro h i hFull
    rcases List.append_of_mem (mem_priorities i) with
      ⟨before, after, hEq⟩
    rcases h before i after hEq hFull with ⟨k, hk, hOffers⟩
    exact ⟨k, (mem_before_iff hEq).mp hk, hOffers⟩
  · intro h before i after hEq hFull
    rcases h i hFull with ⟨k, hk, hOffers⟩
    exact ⟨k, (mem_before_iff hEq).mpr hk, hOffers⟩

theorem Paging.offers_iff
    (s : Paging)
    (shift : Nat) :
    s.Offers shift ↔ ∃ i ∈ priorities, s.OffersAt i shift := by
  constructor
  · rintro ⟨j, ps, hSome, hSuits⟩
    exact ⟨ps.psBs.bsPriority, mem_priorities _, j, ps, hSome,
      rfl, hSuits⟩
  · rintro ⟨i, _, j, ps, hSome, _, hSuits⟩
    exact ⟨j, ps, hSome, hSuits⟩

/- What is reserved was on offer. -/
theorem Paging.Reserved.offers
    (h : s.Reserved shift t r)
    (hSome : r.isSome = true) :
    s.Offers shift := by
  cases r with
  | none => cases hSome
  | some j =>
      rcases h with ⟨ps, hps, hSuits, _⟩
      exact ⟨j, ps, hps, hSuits⟩

theorem SegmentsOk.selects_several
    (h : SegmentsOk s)
    (hMany : 1 < s.pagingSegmentCount) :
    s.Selects shift ↔ s.FullCovered shift priorities := by
  have hEq : ∀ fuel, psSelectSegment shift fuel s =
      psSelectFrom shift fuel priorities s := by
    intro fuel
    unfold psSelectSegment
    rw [if_neg (by omega), if_neg (by omega)]
  constructor
  · rintro ⟨fuel, r, t, hRun, _⟩
    rw [hEq] at hRun
    exact psSelectFrom_covered h (by decide) hRun
  · intro hCovered
    rcases psSelectFrom_ends h (by decide) hCovered with
      ⟨r, t, hRun⟩
    rcases psSelectFrom_result h hRun with
      ⟨_, hReserved, hNone⟩
    refine ⟨_, r, t, by rw [hEq]; exact hRun, ?_, hReserved⟩
    constructor
    · exact hReserved.offers
    · intro hOffers
      rw [Option.isSome_iff_ne_none]
      intro hr
      rcases (s.offers_iff shift).mp hOffers with ⟨i, hi, hAt⟩
      exact hNone hr i hi hAt

theorem SegmentsOk.selects_one
    (h : SegmentsOk s)
    (hOne : s.pagingSegmentCount = 1) :
    s.Selects shift ↔
      ∀ ps, s.pagingSegments s.pagingSegmentMax = some ps →
        ps.psGoingAway = false → ps.psClcount ≠ 0 →
        shift ≤ ps.psClshift := by
  rcases psSelectSegment_one h hOne with
    ⟨ps, hps, hDeref, hOnly⟩
  have hOffers : s.Offers shift ↔ ps.Suits shift := by
    constructor
    · rintro ⟨j, old, hOld, hSuits⟩
      rw [(hOnly j old hOld).2] at hSuits
      exact hSuits
    · intro hSuits
      exact ⟨_, ps, hps, hSuits⟩
  have hEq : ∀ fuel, psSelectSegment shift fuel s =
      if ps.psGoingAway then some (.ok (none, s))
      else if ps.psClcount ≠ 0 then
        some (.ok (some s.pagingSegmentMax,
          s.setSegment s.pagingSegmentMax ps.reserve))
      else some (.ok (none, s)) := by
    intro fuel
    unfold psSelectSegment
    rw [if_pos hOne, hDeref]
  constructor
  · rintro ⟨fuel, r, t, hRun, hIff, _⟩ ps' hps' hUse hFree
    rw [hps] at hps'
    cases hps'
    rw [hEq, if_neg (by simp [hUse]), if_pos hFree] at hRun
    cases hRun
    exact (hOffers.mp (hIff.mp rfl)).2.2
  · intro hLarge
    by_cases hSuits : ps.Suits shift
    · refine ⟨0, some s.pagingSegmentMax,
        s.setSegment s.pagingSegmentMax ps.reserve,
        ?_, ?_, ?_⟩
      · rw [hEq, if_neg (by simp [hSuits.1]),
          if_pos hSuits.2.1]
      · rw [hOffers]
        simp [hSuits]
      · refine ⟨ps, hps, hSuits, ?_⟩
        rw [← hSuits.reserve_eq]
        rfl
    · refine ⟨0, none, s, ?_, ?_, rfl⟩
      · rw [hEq]
        cases hAway : ps.psGoingAway with
        | true => rfl
        | false =>
            have hNone : ¬ ps.psClcount ≠ 0 := by
              intro hFree
              exact hSuits
                ⟨hAway, hFree, hLarge ps hps hAway hFree⟩
            rw [if_neg (by decide), if_neg hNone]
      · rw [hOffers]
        simp [hSuits]

/- Exactly when a call does what it is meant to do. -/
theorem SegmentsOk.selects_iff
    (h : SegmentsOk s) :
    s.Selects shift ↔ s.SelectsWhen shift := by
  rcases Nat.lt_trichotomy s.pagingSegmentCount 1 with
    hZero | hOne | hMany
  · constructor
    · intro _
      exact
        { one := fun hOne => by omega
          several := fun hMany => by omega }
    · intro _
      refine ⟨0, none, s, ?_, ?_, rfl⟩
      · unfold psSelectSegment
        rw [if_neg (by omega), if_pos (by omega)]
      · constructor
        · intro hFalse
          cases hFalse
        · rintro ⟨j, ps, hSome, _⟩
          have hLt := h.lt_of_some hSome
          omega
  · rw [h.selects_one hOne]
    constructor
    · intro hLarge
      exact
        { one := fun _ => hLarge
          several := fun hMany => by omega }
    · intro hWhen
      exact hWhen.one hOne
  · rw [h.selects_several hMany, fullCovered_priorities]
    constructor
    · intro hCovered
      exact
        { one := fun hOne => by omega
          several := fun _ => hCovered }
    · intro hWhen
      exact hWhen.several hMany

/- The segments are in order in every state of a run. -/
theorem exec_segmentsOk
    {as : List SegmentAct}
    (h : Runs.exec segmentStep Paging.initial as = some s) :
    SegmentsOk s :=
  Runs.exec_preserves (P := SegmentsOk)
    (fun _ _ _ hOk hStep => segmentStep_ok hOk hStep)
    initial_segmentsOk h

/-
  In every state that the segments can get into, a call does
  what it is meant to do exactly when the only segment is not
  too small, and a segment above every full priority can be
  taken.
-/
theorem psSelectSegment_complete_iff
    (as : List SegmentAct)
    (s : Paging)
    (h : Runs.exec segmentStep Paging.initial as = some s)
    (shift : Nat) :
    s.Selects shift ↔ s.SelectsWhen shift :=
  (exec_segmentsOk h).selects_iff

/- A segment of one cluster at the highest priority. -/
def oneCluster (device : Nat) : PagingSegment :=
  { psDevice := device
    psOffset := 0
    psRecnum := 8
    psPgnum := 8
    psRecordShift := 0
    psClshift := 3
    psNcls := 1
    psClcount := 1
    psPgcount := 8
    psHint := 0
    psBmap := fun _ => false
    psBs := { bsPriority := Fin.last _, bsClsize := 8 }
    psGoingAway := false }

/- Both clusters are taken, and another is asked for. -/
def exhausting : List SegmentAct :=
  [.enter (oneCluster 1), .enter (oneCluster 2),
    .select 3 3, .select 3 3, .select 3 3]

theorem exhausting_runs :
    ∃ s, Runs.exec segmentStep Paging.initial exhausting =
        some s ∧
      s.pagingSegmentCount = 2 ∧
      s.psSelectArray 4 = bsFullpri :=
  ⟨_, rfl, rfl, rfl⟩

theorem psSelectSegment_complete_iff_exhausting :
    ∃ s, Runs.exec segmentStep Paging.initial exhausting =
        some s ∧
      (s.Selects 3 ↔ s.SelectsWhen 3) := by
  rcases exhausting_runs with ⟨s, hRun, _⟩
  exact ⟨s, hRun,
    psSelectSegment_complete_iff exhausting s hRun 3⟩

/- One more call reads the array at index minus one. -/
theorem psSelectSegment_not_complete :
    ¬ ∀ as s shift,
      Runs.exec segmentStep Paging.initial as = some s →
      s.Selects shift := by
  intro hAll
  rcases exhausting_runs with ⟨s, hRun, hCount, hFull⟩
  have hWhen := (exec_segmentsOk hRun).selects_iff.mp
    (hAll exhausting s 3 hRun)
  rcases hWhen.several (by omega) 4 hFull with ⟨k, hk, _⟩
  have hLt := k.isLt
  have hAbove : 4 < k.val := hk
  unfold bsMaxpri at hLt
  omega

end Pager

end OsfMach
