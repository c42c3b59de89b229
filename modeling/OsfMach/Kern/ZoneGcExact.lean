import OsfMach.Kern.ZoneGc

/-
  What the garbage collection of zones collects.

  A page is dead when only free elements are on it. Its two
  counts stay equal in the second loop, while the counts of a
  page with a used element on it never meet. So the loop is a
  filter of the free list.

  Main declarations:
    * `deadPage`, `gcDoomed`, `gcLeft`
    * `GcExact`
    * `GcExact.collectable_eq`
    * `gcTurn_exact`, `gcScan_exact`
    * `zoneGc_exact`
-/

------
-- Dead Pages
------

namespace OsfMach

namespace Kern

open List
open Lib

section Dead

variable (c : ZoneConfig) (free used : List Nat)

/- Elements are on the page, and all of them are free. -/
def deadPage (p : Nat) : Bool :=
  decide (0 < touching c free p ∧ touching c used p = 0)

/- An element of the map that is on a dead page. -/
def gcDoomed (e : Nat) : Bool :=
  c.fromZoneMap e &&
    (c.pages e c.elemSize).any (deadPage c free used)

def gcLeft (es : List Nat) : List Nat :=
  es.filter fun e => !gcDoomed c free used e

/- A zone whose counts are those of its elements. -/
structure GcReady
    {τ : Type}
    (s : ZoneState τ) : Prop where
  collectable : c.collectable = true
  chain : FreeChain s free
  nodup : free.Nodup
  clean : ∀ p, s.inFreeList p = 0
  counted :
    ∀ p, 0 < touching c (free ++ used) p →
      s.allocCount p = touching c (free ++ used) p
  curSize :
    s.curSize = c.elemSize * (free.length + used.length)

/- What the second loop has done with a part of the list. -/
structure GcExact
    {τ : Type}
    (g : GcState τ)
    (done rest : List Nat) : Prop where
  split : done ++ rest = free
  elt : g.elt = rest.headD 0
  chain :
    FreeChain g.state (gcLeft c free used done ++ rest)
  last : gcLeft c free used done = [] ∧ g.last = g.elt ∨
    gcLeft c free used done ≠ [] ∧
      g.last = (gcLeft c free used done).getLastD 0
  curSize :
    g.state.curSize =
      c.elemSize *
        ((gcLeft c free used done).length + rest.length +
          used.length)
  low :
    ∀ p, 0 ≤ g.state.inFreeList p ∧
      g.state.inFreeList p ≤ touching c rest p
  dead :
    ∀ p, deadPage c free used p = true →
      g.state.inFreeList p = touching c rest p ∧
        g.state.allocCount p =
          if touching c rest p = 0 then -1
          else (touching c rest p : Int)
  live :
    ∀ p, touching c used p ≠ 0 →
      g.state.allocCount p =
        touching c (gcLeft c free used done) p +
          touching c rest p + touching c used p
  nodup : g.freePages.Nodup
  pages :
    ∀ p, p ∈ g.freePages ↔
      deadPage c free used p = true ∧ touching c rest p = 0

end Dead

section Exact

variable {τ : Type}
variable {c : ZoneConfig} {free used es rest done : List Nat}
variable {g : GcState τ} {s : ZoneState τ} {e p : Nat}

theorem touching_append
    (es₁ es₂ : List Nat) :
    touching c (es₁ ++ es₂) p =
      touching c es₁ p + touching c es₂ p :=
  countP_append

theorem touching_foreign
    (hMap : c.fromZoneMap e = false) :
    touching c (e :: es) p = touching c es p := by
  unfold touching
  rw [countP_cons, hMap]
  rfl

/- An element that is left touches no dead page. -/
theorem touching_left
    (hLeft : gcDoomed c free used e = false)
    (hDead : deadPage c free used p = true) :
    touching c (e :: es) p = touching c es p := by
  by_cases hMap : c.fromZoneMap e = true
  · rw [touching_cons hMap, if_neg, Nat.add_zero]
    intro hPage
    unfold gcDoomed at hLeft
    rw [hMap, Bool.true_and] at hLeft
    have hSome := any_eq_true.mpr ⟨p, hPage, hDead⟩
    rw [hLeft] at hSome
    cases hSome
  · exact touching_foreign ((Bool.not_eq_true _).mp hMap)

theorem gcLeft_keep
    (hLeft : gcDoomed c free used e = false) :
    gcLeft c free used (done ++ [e]) =
      gcLeft c free used done ++ [e] := by
  unfold gcLeft
  rw [filter_append, filter_singleton, hLeft]
  rfl

theorem gcLeft_drop
    (hDoomed : gcDoomed c free used e = true) :
    gcLeft c free used (done ++ [e]) =
      gcLeft c free used done := by
  unfold gcLeft
  rw [filter_append, filter_singleton, hDoomed]
  exact append_nil _

------
-- The First Loop
------

theorem gcCount_touching
    {a fuel : Nat}
    (hChain : IndexChain.Chain s.links a es)
    (hFuel : es.length ≤ fuel) :
    (gcCount c fuel s (s.links a)).inFreeList p =
      s.inFreeList p + touching c es p := by
  induction es generalizing s a fuel with
  | nil =>
      have hEnd : s.links a = 0 := hChain
      rw [hEnd]
      cases fuel <;> simp [gcCount, touching]
  | cons e es ih =>
      rcases hChain with ⟨hEq, hPos, hRest⟩
      rw [hEq]
      rw [length_cons] at hFuel
      cases fuel with
      | zero => omega
      | succ fuel =>
          unfold gcCount
          rw [if_neg hPos, ← links_of_ne hPos]
          have hLess : es.length ≤ fuel := by omega
          split_ifs with hMap
          · have hTail := ih
              (s := zonePageFree c s e c.elemSize) hRest hLess
            rw [touching_cons hMap]
            refine hTail.trans ?_
            unfold zonePageFree
            dsimp only
            split_ifs <;> push_cast <;> omega
          · rw [touching_foreign ((Bool.not_eq_true _).mp hMap)]
            exact ih hRest hLess

------
-- The Second Loop
------

theorem GcExact.head
    (h : GcExact c free used g done (e :: rest)) :
    g.elt = e ∧ e ≠ 0 := by
  refine ⟨h.elt, fun hZero => ?_⟩
  apply IndexChain.Chain.zero_notMem h.chain
  rw [hZero]
  simp

section

variable (h : GcExact c free used g done (e :: rest))
include h

/- A page of a free element is dead, or has a used one. -/
theorem GcExact.dead_iff
    (hMap : c.fromZoneMap e = true)
    (hPage : p ∈ c.pages e c.elemSize) :
    deadPage c free used p = true ↔ touching c used p = 0 := by
  unfold deadPage
  rw [← h.split, touching_append, touching_cons hMap,
    if_pos hPage, decide_eq_true_eq]
  omega

/- The test finds the elements on dead pages. -/
theorem GcExact.collectable_eq
    (hMap : c.fromZoneMap e = true) :
    zonePageCollectable c g.state e c.elemSize =
      gcDoomed c free used e := by
  unfold zonePageCollectable gcDoomed
  rw [hMap, Bool.true_and, Bool.eq_iff_iff, any_eq_true,
    any_eq_true]
  apply exists_congr
  intro p
  apply and_congr_right
  intro hPage
  have hIff := h.dead_iff hMap hPage
  rw [beq_iff_eq]
  by_cases hUsed : touching c used p = 0
  · have hDead := hIff.mpr hUsed
    rcases h.dead p hDead with ⟨hFree, hAlloc⟩
    rw [touching_cons hMap, if_pos hPage] at hFree hAlloc
    rw [hFree, hAlloc]
    simp [hDead]
  · have hAlloc := h.live p hUsed
    have hLow := (h.low p).2
    rw [hIff]
    omega

theorem GcExact.keep
    {f : Nat → Int}
    (hLeft : gcDoomed c free used e = false)
    (hLow : ∀ p, 0 ≤ f p ∧ f p ≤ touching c rest p)
    (hDead :
      ∀ p, deadPage c free used p = true →
        f p = touching c rest p) :
    GcExact c free used
      { g with
        state := { g.state with inFreeList := f }
        last := g.elt
        elt := g.state.word g.elt }
      (done ++ [e]) rest := by
  rcases h.head with ⟨hElt, hPos⟩
  have hKeep : gcLeft c free used (done ++ [e]) =
      gcLeft c free used done ++ [e] := gcLeft_keep hLeft
  have hChain := h.chain
  refine ⟨?_, ?_, ?_, ?_, ?_, hLow, ?_, ?_, h.nodup, ?_⟩
  · rw [append_assoc]
    exact h.split
  · rw [hElt]
    exact hChain.next hPos
  · rw [hKeep, append_assoc]
    exact hChain
  · right
    rw [hKeep]
    refine ⟨by simp, ?_⟩
    rw [getLastD_concat]
    exact hElt
  · rw [hKeep, length_append]
    refine h.curSize.trans ?_
    rw [length_cons, length_singleton]
    congr 1
    omega
  · intro p hp
    have hAlloc := (h.dead p hp).2
    rw [touching_left hLeft hp] at hAlloc
    exact ⟨hDead p hp, hAlloc⟩
  · intro p hp
    refine (h.live p hp).trans ?_
    rw [hKeep, touching_append]
    have hCons : touching c (e :: rest) p =
        touching c [e] p + touching c rest p :=
      touching_append [e] rest
    omega
  · intro p
    refine (h.pages p).trans (and_congr_right fun hp => ?_)
    rw [touching_left hLeft hp]

theorem GcExact.collect
    (hNodup : free.Nodup)
    (hMap : c.fromZoneMap e = true)
    (hDoomed : gcDoomed c free used e = true) :
    GcExact c free used
      (gcUnlink (gcCollected c g (gcInFreeList c g.state e)))
      (done ++ [e]) rest := by
  rcases h.head with ⟨rfl, hPos⟩
  have hCons : ∀ q, touching c (g.elt :: rest) q =
      touching c rest q +
        if q ∈ c.pages g.elt c.elemSize then 1 else 0 :=
    fun q => touching_cons hMap
  have hSub : (gcLeft c free used done ++ g.elt :: rest).Sublist
      free := by
    conv_rhs => rw [← h.split]
    exact List.Sublist.append filter_sublist
      (List.Sublist.refl _)
  rcases @gcUnlink_rest τ
      (gcCollected c g (gcInFreeList c g.state g.elt)) with
    ⟨_, hCount, _, _, _, _, _, _, hSize, hPages, hNext⟩
  have hFree : (gcUnlink
      (gcCollected c g
        (gcInFreeList c g.state g.elt))).state.inFreeList =
      gcInFreeList c g.state g.elt := by
    unfold gcUnlink
    split_ifs <;> rfl
  have hNonzero : ∀ a ∈ gcLeft c free used done ++ g.elt :: rest,
      a ≠ 0 := by
    intro a ha hZero
    rw [hZero] at ha
    exact IndexChain.Chain.zero_notMem h.chain ha
  rcases gcUnlink_chain
      (g := gcCollected c g (gcInFreeList c g.state g.elt))
      h.chain (hNodup.sublist hSub) hNonzero h.last with
    ⟨hChain, hLast⟩
  generalize gcUnlink
    (gcCollected c g (gcInFreeList c g.state g.elt)) = g' at *
  have hAlloc : ∀ q, g'.state.allocCount q =
      gcAllocCount c g.state g.elt q := fun q => by
    rw [hCount]
    rfl
  have hFreePages : g'.freePages =
      (gcPages c g.state g.elt).reverse ++ g.freePages := hPages
  -- a page of the element comes free when it is dead
  have hComes : ∀ q ∈ c.pages g.elt c.elemSize,
      (g.state.allocCount q - 1 = 0 ↔
        deadPage c free used q = true ∧
          touching c rest q = 0) := by
    intro q hq
    have hIff := h.dead_iff hMap hq
    have hTouch := hCons q
    rw [if_pos hq] at hTouch
    by_cases hUsed : touching c used q = 0
    · have hDead := hIff.mpr hUsed
      have hIs := (h.dead q hDead).2
      simp only [hDead, true_and]
      omega
    · have hIs := h.live q hUsed
      rw [hIff]
      omega
  refine ⟨?_, ?_, ?_, ?_, ?_, ?_, ?_, ?_, ?_, ?_⟩
  · rw [append_assoc]
    exact h.split
  · rw [hNext]
    exact h.chain.next hPos
  · rw [gcLeft_drop hDoomed]
    exact hChain
  · rw [gcLeft_drop hDoomed]
    exact hLast
  · rw [hSize, gcLeft_drop hDoomed]
    show g.state.curSize - c.elemSize = _
    rw [h.curSize, length_cons]
    have hSum : ∀ a b : Nat,
        a + (rest.length + 1) + b = a + rest.length + b + 1 :=
      fun a b => by omega
    rw [hSum, Nat.mul_add_one, Nat.add_sub_cancel]
  · intro q
    have hLow := h.low q
    rw [hCons q] at hLow
    rw [hFree]
    unfold gcInFreeList
    by_cases hPage : q ∈ c.pages g.elt c.elemSize
    · simp only [hPage, true_and, if_true] at hLow ⊢
      push_cast at hLow
      split_ifs <;> omega
    · have hOut : q ∉ gcPages c g.state g.elt :=
        fun hIn => hPage (mem_gcPages.mp hIn).1
      simp only [hPage, hOut, false_and, if_false] at hLow ⊢
      exact hLow
  · intro q hq
    rcases h.dead q hq with ⟨hIn, hIs⟩
    simp only [hCons q] at hIn hIs
    rw [hFree, hAlloc]
    unfold gcInFreeList gcAllocCount zonePageUnused
    simp only [mem_gcPages]
    by_cases hPage : q ∈ c.pages g.elt c.elemSize
    · simp only [hPage, true_and, if_true] at hIn hIs ⊢
      push_cast at hIn
      push_cast at hIs
      by_cases hZero : touching c rest q = 0
      · rw [if_pos (by omega), if_pos (by omega), if_pos hZero]
        exact ⟨by omega, rfl⟩
      · omega
    · simp only [hPage, false_and, if_false] at hIn hIs ⊢
      exact ⟨hIn, hIs⟩
  · intro q hq
    have hIs := h.live q hq
    rw [hCons q] at hIs
    rw [hAlloc, gcLeft_drop hDoomed]
    unfold gcAllocCount
    split_ifs at hIs ⊢ <;> push_cast at hIs <;> omega
  · rw [hFreePages, nodup_append]
    refine ⟨?_, h.nodup, ?_⟩
    · exact nodup_reverse.mpr
        ((nodup_range' _).filter _)
    · rintro q hNew _ hOld rfl
      have hPage := (mem_gcPages.mp (mem_reverse.mp hNew)).1
      have hNone := ((h.pages q).mp hOld).2
      rw [hCons q, if_pos hPage] at hNone
      omega
  · intro q
    rw [hFreePages, mem_append, mem_reverse,
      mem_gcPages, h.pages q, hCons q]
    by_cases hPage : q ∈ c.pages g.elt c.elemSize
    · simp [hPage, hComes q hPage]
    · simp [hPage]

theorem gcTurn_exact
    (hNodup : free.Nodup) :
    GcExact c free used (gcTurn c g) (done ++ [e]) rest := by
  rcases h.head with ⟨rfl, _⟩
  by_cases hMap : c.fromZoneMap g.elt = true
  · have hTest := h.collectable_eq hMap
    by_cases hDoomed : gcDoomed c free used g.elt = true
    · rw [gcTurn_collect hMap (hTest.trans hDoomed)]
      exact h.collect hNodup hMap hDoomed
    · have hLeft := (Bool.not_eq_true _).mp hDoomed
      rw [hLeft] at hTest
      unfold gcTurn
      rw [if_neg (by rw [hMap]; decide),
        if_neg (by rw [hTest]; decide)]
      apply h.keep hLeft
      · intro p
        have hLow := h.low p
        rw [touching_cons hMap] at hLow
        split_ifs at hLow ⊢ <;> push_cast at hLow <;> omega
      · intro p hp
        have hIn := (h.dead p hp).1
        have hSame : touching c (g.elt :: rest) p =
            touching c rest p := touching_left hLeft hp
        rw [hSame] at hIn
        rw [touching_cons hMap] at hSame
        rw [if_neg (fun hPage => by rw [if_pos hPage] at hSame; omega)]
        exact hIn
  · have hForeign := (Bool.not_eq_true _).mp hMap
    unfold gcTurn
    rw [if_pos hForeign]
    have hLeft : gcDoomed c free used g.elt = false := by
      unfold gcDoomed
      rw [hForeign, Bool.false_and]
    apply h.keep hLeft
    · intro p
      rw [← touching_foreign hForeign]
      exact h.low p
    · intro p hp
      rw [← touching_foreign hForeign]
      exact (h.dead p hp).1

end

theorem gcScan_exact
    (fuel : Nat)
    (h : GcExact c free used g done rest)
    (hNodup : free.Nodup)
    (hFuel : rest.length ≤ fuel) :
    ∃ g', gcScan c fuel g = some g' ∧
      GcExact c free used g' free [] := by
  induction rest generalizing fuel g done with
  | nil =>
      have hElt : g.elt = 0 := h.elt
      have hDone := h.split
      rw [append_nil] at hDone
      rw [hDone] at h
      refine ⟨g, ?_, h⟩
      cases fuel <;> unfold gcScan <;> rw [if_pos hElt]
  | cons e rest ih =>
      rw [length_cons] at hFuel
      cases fuel with
      | zero => omega
      | succ fuel =>
          rcases h.head with ⟨rfl, hPos⟩
          unfold gcScan
          rw [if_neg hPos]
          exact ih fuel (gcTurn_exact h hNodup) (by omega)

------
-- Collections
------

/- The state in which the second loop begins. -/
def gcBegin (c : ZoneConfig) (s : ZoneState τ) : GcState τ :=
  { state := gcCount c s.curSize s s.freeElements
    last := s.freeElements
    elt := s.freeElements
    freePages := [] }

theorem GcReady.begin
    (h : GcReady c free used s)
    (hFuel : free.length ≤ s.curSize) :
    GcExact c free used (gcBegin c s) [] free := by
  rcases gcCount_eq (c := c) s.curSize s s.freeElements with
    ⟨f, hf⟩
  have hCount : ∀ p, f p = touching c free p := by
    intro p
    have hIs := gcCount_touching (c := c) (p := p) h.chain hFuel
    rw [links_zero, hf, h.clean, Int.zero_add] at hIs
    exact hIs
  have hElt : s.freeElements = free.headD 0 := by
    have hChain := h.chain
    cases free with
    | nil => exact hChain
    | cons a free => exact hChain.1
  unfold gcBegin
  rw [hf]
  refine ⟨rfl, hElt, h.chain, Or.inl ⟨rfl, rfl⟩, ?_, ?_, ?_, ?_,
    nodup_nil, ?_⟩
  · exact h.curSize.trans (by simp [gcLeft])
  · intro p
    show 0 ≤ f p ∧ f p ≤ _
    rw [hCount]
    omega
  · intro p hp
    have hDead := hp
    unfold deadPage at hDead
    rw [decide_eq_true_eq] at hDead
    have hAll := touching_append (c := c) (p := p) free used
    refine ⟨hCount p, ?_⟩
    show s.allocCount p = _
    rw [h.counted p (by omega), if_neg (by omega)]
    omega
  · intro p hp
    have hAll := touching_append (c := c) (p := p) free used
    show s.allocCount p = _
    rw [h.counted p (by omega)]
    have hNone : touching c (gcLeft c free used []) p = 0 := rfl
    omega
  · intro p
    unfold deadPage
    rw [decide_eq_true_eq]
    constructor
    · intro hp
      cases hp
    · rintro ⟨⟨hSome, _⟩, hNone⟩
      omega

/- The collection frees the dead pages and nothing else. -/
theorem zoneGc_exact
    (h : GcReady c free used s)
    (hTest :
      ¬ s.curSize - s.count * c.elemSize ≤
        2 * (c.pageSize : Int)) :
    ∃ g, gcScan c s.curSize (gcBegin c s) = some g ∧
      zoneGc c s =
        some { g.state with
          mapped := fun p =>
            if p ∈ g.freePages then false
            else g.state.mapped p } ∧
      g.freePages.Nodup ∧
      (∀ p, p ∈ g.freePages ↔
        deadPage c free used p = true) ∧
      FreeChain g.state (gcLeft c free used free) ∧
      g.state.curSize + c.elemSize *
          (free.length - (gcLeft c free used free).length) =
        s.curSize ∧
      (∀ p, g.state.inFreeList p = 0) ∧
      ∀ p, 0 < touching c (free ++ used) p →
        deadPage c free used p = false →
        g.state.allocCount p =
          touching c (gcLeft c free used free ++ used) p := by
  have hFuel : free.length ≤ s.curSize := by
    rw [h.curSize]
    calc free.length
        ≤ 1 * (free.length + used.length) := by omega
      _ ≤ c.elemSize * (free.length + used.length) :=
        Nat.mul_le_mul_right _ c.elem_pos
  rcases gcScan_exact s.curSize (h.begin hFuel) h.nodup hFuel with
    ⟨g, hScan, hEnd⟩
  have hNone : ∀ p, touching c [] p = 0 := fun p => rfl
  refine ⟨g, hScan, ?_, hEnd.nodup, ?_, ?_, ?_, ?_, ?_⟩
  · unfold zoneGc
    rw [if_neg (by rw [h.collectable]; decide), if_neg hTest]
    dsimp only
    rcases gcCount_eq (c := c) s.curSize s s.freeElements with
      ⟨f, hf⟩
    unfold gcBegin at hScan
    rw [hf] at hScan ⊢
    rw [hScan]
    rfl
  · intro p
    rw [hEnd.pages p]
    exact and_iff_left (hNone p)
  · have hChain := hEnd.chain
    rw [append_nil] at hChain
    exact hChain
  · have hLess : (gcLeft c free used free).length ≤ free.length :=
      length_filter_le _ _
    rw [hEnd.curSize, h.curSize, ← Nat.mul_add]
    congr 1
    rw [length_nil]
    omega
  · intro p
    have hLow := hEnd.low p
    rw [hNone p] at hLow
    omega
  · intro p hSome hLive
    have hUsed : touching c used p ≠ 0 := by
      intro hZero
      rw [touching_append, hZero, Nat.add_zero] at hSome
      unfold deadPage at hLive
      rw [decide_eq_false_iff_not] at hLive
      exact hLive ⟨hSome, hZero⟩
    rw [hEnd.live p hUsed, hNone p, touching_append]
    omega

/- Elements of one page and a half, and one not of the map. -/
def straddlingConfig : ZoneConfig :=
  { pageSize := 4
    elemSize := 6
    allocSize := 12
    exhaustible := false
    collectable := true
    expandable := true
    splRoutine := false
    zoneMapMinAddress := 4
    zoneMapMaxAddress := 100
    page_pos := by decide
    elem_pos := by decide
    alloc_pos := by decide }

def straddlingZone : ZoneState Unit :=
  { freeElements := 10
    curSize := 30
    maxSize := 100
    count := 1
    doingAlloc := false
    someoneWaits := false
    word := fun a =>
      if a = 10 then 200 else if a = 200 then 4
      else if a = 4 then 16 else 0
    mapped := fun _ => true
    allocCount := fun p =>
      touching straddlingConfig [10, 200, 4, 16, 22] p
    inFreeList := fun _ => 0
    zallocNextSpace := 0
    zallocEndOfSpace := 0
    phase := fun _ => .outside
    out := [22] }

theorem straddlingZone_ready :
    GcReady straddlingConfig [10, 200, 4, 16] [22]
      straddlingZone :=
  ⟨rfl, by simp [FreeChain, IndexChain.Chain, ZoneState.links,
    straddlingZone], by decide, fun _ => rfl, fun _ _ => rfl,
    rfl⟩

theorem zoneGc_exact_straddling :
    ∃ g, gcScan straddlingConfig 30
        (gcBegin straddlingConfig straddlingZone) = some g ∧
      zoneGc straddlingConfig straddlingZone =
        some { g.state with
          mapped := fun p =>
            if p ∈ g.freePages then false
            else g.state.mapped p } ∧
      FreeChain g.state [200] := by
  rcases zoneGc_exact straddlingZone_ready (by decide) with
    ⟨g, hScan, hGc, _, _, hChain, _⟩
  exact ⟨g, hScan, hGc, hChain⟩

end Exact

end Kern

end OsfMach
