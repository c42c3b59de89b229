import OsfMach.Kern.ZoneInv

/-
  The garbage collection of zones.

  An element is taken off the list together with its part in
  the counts of its pages. A page whose count is zero has no
  element left on it, whatever the test that chose the
  element looked at.

  Main declarations:
    * `GcInv`
    * `gcTurn_inv`, `gcScan_inv`
    * `zoneGc_inv`
-/

------
-- Turns
------

namespace OsfMach

namespace Kern

open List
open Lib
open Lib.Pages

variable {τ : Type} {f : Nat → Int} {g : GcState τ} {e p : Nat}

section Gc

variable {c : ZoneConfig} {s s' : ZoneState τ}
variable {es free kept rest : List Nat}

/- A page that nothing of the zone has a part of. -/
structure FreePage
    (c : ZoneConfig)
    (s : ZoneState τ)
    (es : List Nat)
    (p : Nat) : Prop where
  elems : ∀ e ∈ es, p ∉ c.pages e c.elemSize
  reserve :
    0 < s.left → p ∉ c.pages s.zallocNextSpace s.left
  paged : ∀ t a n, (s.phase t).Paged a n → p ∉ c.pages a n

theorem ZoneInv.recount
    (h : ZoneInv c s free) :
    ZoneInv c { s with inFreeList := f } free :=
  ⟨h.chain,
    h.elems.congr rfl rfl rfl rfl (fun _ _ _ hp => hp)
      (fun _ _ hp => hp),
    h.flights.congr rfl rfl rfl rfl rfl, h.count, h.curSize⟩

/- The first loop changes nothing but its own counts. -/
theorem gcCount_eq
    (fuel : Nat)
    (s : ZoneState τ)
    (elt : Nat) :
    ∃ f, gcCount c fuel s elt = { s with inFreeList := f } := by
  induction fuel generalizing s elt with
  | zero => exact ⟨s.inFreeList, rfl⟩
  | succ fuel ih =>
      unfold gcCount
      split_ifs
      · exact ⟨s.inFreeList, rfl⟩
      · rcases ih (zonePageFree c s elt c.elemSize)
          (s.word elt) with ⟨f, hf⟩
        exact ⟨f, hf⟩
      · exact ih s (s.word elt)

/- What the second loop has done. -/
structure GcInv
    (c : ZoneConfig)
    (g : GcState τ)
    (kept rest : List Nat) : Prop where
  inv : ZoneInv c g.state (kept ++ rest)
  elt : g.elt = rest.headD 0
  last : kept = [] ∧ g.last = g.elt ∨
    kept ≠ [] ∧ g.last = kept.getLastD 0
  pages :
    ∀ p ∈ g.freePages,
      FreePage c g.state (kept ++ rest ++ g.state.out) p

theorem GcInv.rest_eq
    (h : GcInv c g kept rest)
    (hElt : g.elt ≠ 0) :
    ∃ rest', rest = g.elt :: rest' := by
  have hHead := h.elt
  cases rest with
  | nil => exact absurd hHead hElt
  | cons a rest' =>
      rw [hHead]
      exact ⟨rest', rfl⟩

theorem FreeChain.next
    {a : Nat}
    (h : FreeChain s (kept ++ a :: rest))
    (ha : a ≠ 0) :
    s.word a = rest.headD 0 := by
  rw [← links_of_ne ha]
  exact IndexChain.Chain.next_eq h

/- An element that stays on the list. -/
theorem GcInv.keep
    (h : GcInv c g kept rest)
    (hElt : g.elt ≠ 0) :
    ∃ rest', rest = g.elt :: rest' ∧
      GcInv c
        { g with
          state := { g.state with inFreeList := f }
          last := g.elt
          elt := g.state.word g.elt }
        (kept ++ [g.elt]) rest' := by
  rcases h.rest_eq hElt with ⟨rest', hRest⟩
  refine ⟨rest', hRest, ?_⟩
  rw [hRest] at h
  have hSplit : kept ++ [g.elt] ++ rest' =
      kept ++ g.elt :: rest' := by
    rw [append_assoc, singleton_append]
  refine ⟨?_, ?_, ?_, ?_⟩
  · rw [hSplit]
    exact h.inv.recount
  · exact h.inv.chain.next hElt
  · right
    refine ⟨by simp, ?_⟩
    exact getLastD_concat.symm
  · intro p hp
    have hFree := h.pages p hp
    rw [hSplit]
    exact ⟨hFree.elems, hFree.reserve, hFree.paged⟩

/- The counts after an element was taken off its pages. -/
def gcAllocCount
    (c : ZoneConfig)
    (s : ZoneState τ)
    (elt p : Nat) : Int :=
  if p ∈ c.pages elt c.elemSize then
    if s.allocCount p - 1 = 0 then zonePageUnused
    else s.allocCount p - 1
  else s.allocCount p

theorem touching_cons
    (hMap : c.fromZoneMap e = true) :
    touching c (e :: es) p =
      touching c es p +
        if p ∈ c.pages e c.elemSize then 1 else 0 := by
  unfold touching
  rw [countP_cons, hMap]
  simp only [Bool.true_and, decide_eq_true_eq]

section

variable (h : ElemsOk c s (e :: es))
include h

/- A page with no count has no element on it. -/
theorem ElemsOk.page_free
    (hc : c.collectable = true)
    (hMap : c.fromZoneMap e = true)
    (hPage : p ∈ c.pages e c.elemSize)
    (hZero : touching c es p = 0) :
    ∀ x ∈ es, p ∉ c.pages x c.elemSize := by
  intro x hx hIn
  have hPos := c.elem_pos
  have hElt := h.whole hc e mem_cons_self
  have hOther := h.whole hc x (mem_cons_of_mem _ hx)
  rcases hOther with ⟨hInside, _⟩ | ⟨_, hPages⟩
  · have hOut := countP_eq_zero.mp hZero x hx
    rw [hInside x (Nat.le_refl x) (by omega)] at hOut
    apply hOut
    exact decide_eq_true hIn
  · rcases hElt with ⟨_, hSame⟩ | ⟨hOutside, _⟩
    · have hYes := hSame p hPage
      rw [hPages p hIn] at hYes
      cases hYes
    · have hNo := hOutside e (Nat.le_refl e) (by omega)
      rw [hMap] at hNo
      cases hNo

/- The elements that are left, with the new counts. -/
theorem ElemsOk.collect
    (hMap : c.fromZoneMap e = true)
    (hMapped : s'.mapped = s.mapped)
    (hCount : s'.allocCount = gcAllocCount c s e)
    (hNext : s'.zallocNextSpace = s.zallocNextSpace)
    (hEnd : s'.zallocEndOfSpace = s.zallocEndOfSpace)
    (hPhase : s'.phase = s.phase) :
    ElemsOk c s' es := by
  have hLess := h.sublist (sublist_cons_self e es)
  have hLeft : s'.left = s.left := by
    unfold ZoneState.left
    rw [hNext, hEnd]
  refine ⟨hLess.apart, hLess.nonzero, ?_, hLess.whole, ?_, ?_,
    ?_, ?_, ?_⟩
  · unfold Placed
    rw [hMapped]
    exact hLess.placed
  · intro hc p
    rcases h.counted hc p with ⟨hLow, hAll⟩
    rw [touching_cons hMap] at hAll
    rw [hCount]
    unfold gcAllocCount zonePageUnused
    split_ifs at hAll ⊢ with hPage hZero
    · refine ⟨Int.le_refl _, fun hPos => ?_⟩
      have hMore := hAll (by omega)
      push_cast at hMore
      omega
    · have hMore := hAll (by omega)
      push_cast at hMore
      refine ⟨by omega, fun _ => by omega⟩
    · exact ⟨hLow, fun hPos => hAll (by omega)⟩
  · unfold OffSpace
    rw [hNext, hLeft]
    exact hLess.reserve
  · unfold OffSpacePages
    rw [hNext, hLeft]
    exact hLess.reservePages
  · rw [hPhase]
    exact hLess.paged
  · rw [hPhase]
    exact hLess.taken

/- A page whose count comes down to zero is free. -/
theorem ElemsOk.free_page
    (hc : c.collectable = true)
    (hMap : c.fromZoneMap e = true)
    (hPage : p ∈ c.pages e c.elemSize)
    (hZero : s.allocCount p - 1 = 0) :
    FreePage c s es p := by
  have hNone : touching c es p = 0 := by
    have hAll := (h.counted hc p).2
    rw [touching_cons hMap, if_pos hPage] at hAll
    have hMore := hAll (by omega)
    push_cast at hMore
    omega
  refine ⟨h.page_free hc hMap hPage hNone, ?_, ?_⟩
  · intro hLeft
    exact h.reservePages hc e mem_cons_self hLeft p hPage
  · intro t a n hp
    exact h.paged t a n hp e mem_cons_self p hPage

end

/- The pages that come free with an element. -/
def gcPages
    (c : ZoneConfig)
    (s : ZoneState τ)
    (elt : Nat) : List Nat :=
  (c.pages elt c.elemSize).filter fun p =>
    s.allocCount p - 1 == 0

theorem mem_gcPages
    {elt p : Nat} :
    p ∈ gcPages c s elt ↔
      p ∈ c.pages elt c.elemSize ∧ s.allocCount p - 1 = 0 := by
  unfold gcPages
  rw [mem_filter, beq_iff_eq]

/- The free elements that the pages still count. -/
def gcInFreeList
    (c : ZoneConfig)
    (s : ZoneState τ)
    (elt p : Nat) : Int :=
  if p ∈ gcPages c s elt then 0
  else if p ∈ c.pages elt c.elemSize ∧ 0 < s.inFreeList p then
    s.inFreeList p - 1
  else s.inFreeList p

/- The state before an element is unlinked. -/
def gcCollected
    (c : ZoneConfig)
    (g : GcState τ)
    (f : Nat → Int) : GcState τ :=
  { g with
    state := { g.state with
      curSize := g.state.curSize - c.elemSize
      inFreeList := f
      allocCount := gcAllocCount c g.state g.elt }
    freePages :=
      (gcPages c g.state g.elt).reverse ++ g.freePages }

theorem gcTurn_collect
    (hMap : c.fromZoneMap g.elt = true)
    (hTest :
      zonePageCollectable c g.state g.elt c.elemSize = true) :
    gcTurn c g =
      gcUnlink (gcCollected c g
        (gcInFreeList c g.state g.elt)) := by
  unfold gcTurn
  rw [if_neg (by rw [hMap]; decide), if_pos hTest]
  unfold zoneAddFreePageList zonePageDealloc zonePageInUse
    gcCollected
  dsimp only
  have hFilter :
      ((c.pages g.elt c.elemSize).filter fun p =>
        (if p ∈ c.pages g.elt c.elemSize then
          g.state.allocCount p - 1
        else g.state.allocCount p) == 0) =
          gcPages c g.state g.elt := by
    apply filter_congr
    intro p hp
    rw [if_pos hp]
  rw [hFilter]
  have hCounts :
      (fun p =>
        if p ∈ gcPages c g.state g.elt then zonePageUnused
        else if p ∈ c.pages g.elt c.elemSize then
          g.state.allocCount p - 1
        else g.state.allocCount p) =
          gcAllocCount c g.state g.elt := by
    funext p
    unfold gcAllocCount
    simp only [mem_gcPages]
    by_cases hPage : p ∈ c.pages g.elt c.elemSize
    · by_cases hZero : g.state.allocCount p - 1 = 0
      · rw [if_pos ⟨hPage, hZero⟩, if_pos hPage, if_pos hZero]
      · rw [if_neg (fun h => hZero h.2), if_pos hPage,
          if_pos hPage, if_neg hZero]
    · rw [if_neg (fun h => hPage h.1), if_neg hPage,
        if_neg hPage]
  rw [hCounts]
  rfl

/- What an unlinking leaves alone. -/
theorem gcUnlink_rest
    (g : GcState τ) :
    (gcUnlink g).state.mapped = g.state.mapped ∧
      (gcUnlink g).state.allocCount = g.state.allocCount ∧
      (gcUnlink g).state.zallocNextSpace =
        g.state.zallocNextSpace ∧
      (gcUnlink g).state.zallocEndOfSpace =
        g.state.zallocEndOfSpace ∧
      (gcUnlink g).state.phase = g.state.phase ∧
      (gcUnlink g).state.doingAlloc = g.state.doingAlloc ∧
      (gcUnlink g).state.out = g.state.out ∧
      (gcUnlink g).state.count = g.state.count ∧
      (gcUnlink g).state.curSize = g.state.curSize ∧
      (gcUnlink g).freePages = g.freePages ∧
      (gcUnlink g).elt = g.state.word g.elt := by
  unfold gcUnlink
  split_ifs
  · exact ⟨rfl, rfl, rfl, rfl, rfl, rfl, rfl, rfl, rfl, rfl,
      rfl⟩
  · exact ⟨rfl, rfl, rfl, rfl, rfl, rfl, rfl, rfl, rfl, rfl,
      rfl⟩

theorem getLastD_mem
    {l : List Nat}
    (h : l ≠ []) :
    l.getLastD 0 ∈ l := by
  cases l with
  | nil => exact absurd rfl h
  | cons a l =>
      rw [getLastD_cons]
      exact getLastD_mem_cons

/- The list after an unlinking. -/
theorem gcUnlink_chain
    (hChain : FreeChain g.state (kept ++ g.elt :: rest))
    (hNodup : (kept ++ g.elt :: rest).Nodup)
    (hNonzero : ∀ a ∈ kept ++ g.elt :: rest, a ≠ 0)
    (hLast : kept = [] ∧ g.last = g.elt ∨
      kept ≠ [] ∧ g.last = kept.getLastD 0) :
    FreeChain (gcUnlink g).state (kept ++ rest) ∧
      (kept = [] ∧ (gcUnlink g).last = (gcUnlink g).elt ∨
        kept ≠ [] ∧
          (gcUnlink g).last = kept.getLastD 0) := by
  have hElt : g.elt ≠ 0 := hNonzero g.elt (by simp)
  have hZero : 0 ∉ kept ++ g.elt :: rest :=
    fun hIn => hNonzero 0 hIn rfl
  have hMem : ∀ j, j ∈ kept ++ rest →
      j ∈ kept ++ g.elt :: rest := by
    intro j hj
    rcases mem_append.mp hj with hIn | hIn
    · exact mem_append_left _ hIn
    · exact mem_append_right _
        (mem_cons_of_mem _ hIn)
  rcases hLast with ⟨rfl, hLast⟩ | ⟨hSome, hLast⟩
  · unfold gcUnlink
    rw [if_pos hLast.symm]
    refine ⟨?_, Or.inl ⟨rfl, rfl⟩⟩
    apply IndexChain.Chain.drop hChain
      (nodup_cons.mpr ⟨hZero, hNodup⟩)
    · exact (links_of_ne hElt).symm
    · intro j hj hNe
      rcases mem_cons.mp hj with rfl | hIn
      · exact absurd rfl hNe
      · have hj0 := hNonzero j (hMem j hIn)
        rw [links_of_ne hj0, links_of_ne hj0]
  · have hIn := getLastD_mem hSome
    have hLast0 : g.last ≠ 0 := by
      rw [hLast]
      exact hNonzero _ (mem_append_left _ hIn)
    have hNe : g.elt ≠ g.last := by
      intro hEq
      have hDisjoint := (nodup_append.mp hNodup).2.2
      apply hDisjoint _ hIn g.elt mem_cons_self
      rw [hEq, hLast]
    unfold gcUnlink
    rw [if_neg hNe]
    refine ⟨?_, Or.inr ⟨hSome, hLast⟩⟩
    apply IndexChain.Chain.drop hChain
      (nodup_cons.mpr ⟨hZero, hNodup⟩)
    · rw [links_of_ne hElt, ← hLast, links_of_ne hLast0]
      exact Function.update_self ..
    · intro j hj hOther
      rcases mem_cons.mp hj with rfl | hj'
      · rfl
      · have hj0 := hNonzero j (hMem j hj')
        rw [links_of_ne hj0, links_of_ne hj0]
        apply Function.update_of_ne
        rw [hLast]
        exact hOther

/- An element that is taken off. -/
theorem GcInv.collect
    (h : GcInv c g kept (g.elt :: rest))
    (hc : c.collectable = true)
    (hMap : c.fromZoneMap g.elt = true) :
    GcInv c (gcUnlink (gcCollected c g f)) kept rest := by
  have hInv := h.inv
  have hPerm :
      (kept ++ g.elt :: rest ++ g.state.out).Perm
        (g.elt :: (kept ++ rest ++ g.state.out)) := by
    rw [append_assoc, append_assoc, cons_append]
    exact perm_middle
  have hElems := hInv.elems.perm hPerm
  have hNodup : (kept ++ g.elt :: rest).Nodup :=
    (nodup_append.mp hInv.elems.nodup).1
  rcases @gcUnlink_rest τ (gcCollected c g f) with
    ⟨hMapped, hCount, hNext, hEnd, hPhase, hDoing, hOut,
      hNumber, hSize, hPages, hElt⟩
  rcases gcUnlink_chain (g := gcCollected c g f) hInv.chain
    hNodup (fun a ha => hInv.free_nonzero ha) h.last with
    ⟨hChain, hLast⟩
  have hAfter : ElemsOk c (gcUnlink (gcCollected c g f)).state
      (kept ++ rest ++ g.state.out) :=
    hElems.collect hMap hMapped hCount hNext hEnd hPhase
  generalize gcUnlink (gcCollected c g f) = g' at *
  have hLeft : g'.state.left = g.state.left := by
    unfold ZoneState.left
    rw [hNext, hEnd]
    rfl
  refine ⟨⟨hChain, ?_, ?_, ?_, ?_⟩, ?_, hLast, ?_⟩
  · rw [hOut]
    exact hAfter
  · exact hInv.flights.congr hMapped hNext hEnd hPhase hDoing
  · rw [hNumber, hOut]
    exact hInv.count
  · rw [hSize, hOut]
    show g.state.curSize - c.elemSize =
      c.elemSize *
        ((kept ++ rest).length + g.state.out.length)
    rw [hInv.curSize, length_append, length_append, length_cons]
    have hSum :
        kept.length + (rest.length + 1) + g.state.out.length =
          kept.length + rest.length + g.state.out.length + 1 :=
      by omega
    rw [hSum, Nat.mul_add_one, Nat.add_sub_cancel]
  · rw [hElt]
    exact hInv.chain.next (hInv.free_nonzero (by simp))
  · intro p hp
    rw [hPages] at hp
    have hFree : FreePage c g.state
        (kept ++ rest ++ g.state.out) p := by
      rcases mem_append.mp hp with hNew | hOld
      · have hIs := mem_gcPages.mp (mem_reverse.mp hNew)
        exact hElems.free_page hc hMap hIs.1 hIs.2
      · have hBefore := h.pages p hOld
        refine ⟨?_, hBefore.reserve, hBefore.paged⟩
        intro e he
        apply hBefore.elems e
        exact hPerm.mem_iff.mpr (mem_cons_of_mem _ he)
    refine ⟨?_, ?_, ?_⟩
    · rw [hOut]
      exact hFree.elems
    · rw [hNext, hLeft]
      exact hFree.reserve
    · rw [hPhase]
      exact hFree.paged

theorem gcTurn_inv
    (h : GcInv c g kept rest)
    (hc : c.collectable = true)
    (hElt : g.elt ≠ 0) :
    ∃ kept' rest', rest = g.elt :: rest' ∧
      GcInv c (gcTurn c g) kept' rest' := by
  by_cases hMap : c.fromZoneMap g.elt = true
  · by_cases hTest :
        zonePageCollectable c g.state g.elt c.elemSize = true
    · rcases h.rest_eq hElt with ⟨rest', hRest⟩
      rw [gcTurn_collect hMap hTest]
      rw [hRest] at h
      exact ⟨kept, rest', hRest, h.collect hc hMap⟩
    · rcases h.keep (f := fun p =>
          if p ∈ c.pages g.elt c.elemSize then 0
          else g.state.inFreeList p) hElt with
        ⟨rest', hRest, hKeep⟩
      refine ⟨kept ++ [g.elt], rest', hRest, ?_⟩
      unfold gcTurn
      rw [if_neg (by rw [hMap]; decide), if_neg hTest]
      exact hKeep
  · rcases h.keep (f := g.state.inFreeList) hElt with
      ⟨rest', hRest, hKeep⟩
    refine ⟨kept ++ [g.elt], rest', hRest, ?_⟩
    unfold gcTurn
    rw [if_pos ((Bool.not_eq_true _).mp hMap)]
    exact hKeep

theorem gcScan_inv
    (fuel : Nat)
    (h : GcInv c g kept rest)
    (hc : c.collectable = true)
    (hFuel : rest.length ≤ fuel) :
    ∃ g' kept', gcScan c fuel g = some g' ∧
      GcInv c g' kept' [] := by
  induction fuel generalizing g kept rest with
  | zero =>
      have hNil := eq_nil_of_length_eq_zero
        (Nat.le_zero.mp hFuel)
      subst hNil
      have hElt : g.elt = 0 := h.elt
      unfold gcScan
      rw [if_pos hElt]
      exact ⟨g, kept, rfl, h⟩
  | succ fuel ih =>
      unfold gcScan
      by_cases hElt : g.elt = 0
      · rw [if_pos hElt]
        have hNil : rest = [] := by
          have hHead := h.elt
          cases rest with
          | nil => rfl
          | cons a rest =>
              rw [headD_cons, hElt] at hHead
              have hNe := h.inv.free_nonzero
                (a := a) (by simp)
              exact absurd hHead.symm hNe
        subst hNil
        exact ⟨g, kept, rfl, h⟩
      · rw [if_neg hElt]
        rcases gcTurn_inv h hc hElt with
          ⟨kept', rest', hRest, hNext⟩
        apply ih hNext
        rw [hRest, length_cons] at hFuel
        omega

/- The pages on the list are removed from the map. -/
theorem ZoneInv.unmap
    {l : List Nat}
    (h : ZoneInv c s free)
    (hc : c.collectable = true)
    (hl : ∀ p ∈ l, FreePage c s (free ++ s.out) p) :
    ZoneInv c
      { s with
        mapped := fun p =>
          if p ∈ l then false else s.mapped p } free := by
  have hKeep : ∀ a n, Placed c s a n →
      (∀ p ∈ l, p ∉ c.pages a n) →
      Placed c
        { s with
          mapped := fun p =>
            if p ∈ l then false else s.mapped p } a n := by
    intro a n hPlaced hNot p hp
    show (if p ∈ l then false else s.mapped p) = true
    rw [if_neg (fun hIn => hNot p hIn hp)]
    exact hPlaced p hp
  refine ⟨h.chain, ?_, ?_, h.count, h.curSize⟩
  · refine ⟨h.elems.apart, h.elems.nonzero, ?_, h.elems.whole,
      h.elems.counted, h.elems.reserve, h.elems.reservePages,
      h.elems.paged, h.elems.taken⟩
    intro e he
    exact hKeep e _ (h.elems.placed e he)
      fun p hp => (hl p hp).elems e he
  · refine ⟨h.flights.order, h.flights.pos, ?_, ?_,
      h.flights.grown, ?_, h.flights.busy, h.flights.unique⟩
    · intro hLeft
      exact hKeep _ _ (h.flights.placed hLeft)
        fun p hp => (hl p hp).reserve hLeft
    · intro t a n hp
      rcases h.flights.paged t a n hp with
        ⟨ha, hn, hPlaced, hRest⟩
      exact ⟨ha, hn, hKeep a n hPlaced
        fun p hIn => (hl p hIn).paged t a n hp, hRest⟩
    · intro t a hp
      have hNot := (h.flights.taken t a hp).2.2.2
      rw [hc] at hNot
      cases hNot

theorem zoneGc_inv
    (h : ZoneInv c s free) :
    ∃ s' free', zoneGc c s = some s' ∧
      ZoneInv c s' free' := by
  unfold zoneGc
  by_cases hc : c.collectable = true
  · rw [if_neg (by rw [hc]; decide)]
    split_ifs with hFew
    · exact ⟨s, free, rfl, h⟩
    · rcases @gcCount_eq τ c s.curSize s s.freeElements with
        ⟨f, hf⟩
      dsimp only
      rw [hf]
      have hStart : GcInv c
          { state := { s with inFreeList := f }
            last := s.freeElements
            elt := s.freeElements
            freePages := [] } [] free := by
        refine ⟨h.recount, ?_, Or.inl ⟨rfl, rfl⟩, ?_⟩
        · rcases h.head with ⟨hZero, rfl⟩ | ⟨_, rest, hFree⟩
          · exact hZero
          · rw [hFree]
            rfl
        · intro p hp
          cases hp
      have hFuel : free.length ≤ s.curSize := by
        have hPos := c.elem_pos
        rw [h.curSize]
        calc free.length
            ≤ 1 * (free.length + s.out.length) := by omega
          _ ≤ c.elemSize * (free.length + s.out.length) :=
            Nat.mul_le_mul_right _ hPos
      rcases gcScan_inv s.curSize hStart hc hFuel with
        ⟨g, kept, hScan, hEnd⟩
      rw [hScan]
      refine ⟨_, kept, rfl, ?_⟩
      have hInv := hEnd.inv
      rw [append_nil] at hInv
      apply hInv.unmap hc
      intro p hp
      have hFree := hEnd.pages p hp
      rw [append_nil] at hFree
      exact hFree
  · rw [if_pos ((Bool.not_eq_true _).mp hc)]
    exact ⟨s, free, rfl, h⟩

end Gc

end Kern

end OsfMach
