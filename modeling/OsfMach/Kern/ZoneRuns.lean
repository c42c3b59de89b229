import OsfMach.Kern.ZoneAlloc

/-
  Whole runs of a zone.

  Every step keeps the elements apart, as long as an element
  that goes back to the map while memory is low has its pages
  for itself.

  Main declarations:
    * `ZoneOrderly`, `zinit`
    * `zfree_inv`
    * `zoneStep_inv`
    * `zone_accounting`
-/

------
-- Conditions
------

namespace OsfMach

namespace Kern

open Lib
open Lib.Pages

variable {τ : Type} [DecidableEq τ]

section Conditions

variable (c : ZoneConfig)

/- What the rest of the system leaves alone. -/
structure ZoneOthers.Ok
    (s : ZoneState τ)
    (es : List Nat)
    (o : ZoneOthers) : Prop where
  placed :
    ∀ a n,
      (∃ e ∈ es, a = e ∧ n = c.elemSize) ∨
        (∃ t, (s.phase t).Paged a n) ∨
        (∃ t, s.phase t = .taken a ∧ n = c.elemSize) →
      ∀ p ∈ c.pages a n, o.mapped p = true
  counted :
    c.collectable = true → ∀ p,
      -1 ≤ o.allocCount p ∧
        (0 < touching c es p →
          (touching c es p : Int) ≤ o.allocCount p)
  order : o.zallocNextSpace ≤ o.zallocEndOfSpace
  pos : 0 < o.zallocNextSpace
  space :
    ∀ p ∈ c.pages o.zallocNextSpace
        (o.zallocEndOfSpace - o.zallocNextSpace),
      o.mapped p = true
  elems :
    ∀ e ∈ es,
      Apart e c.elemSize o.zallocNextSpace
        (o.zallocEndOfSpace - o.zallocNextSpace) ∧
      (c.collectable = true →
        OtherPages c.pageSize e c.elemSize o.zallocNextSpace
          (o.zallocEndOfSpace - o.zallocNextSpace))
  paged :
    ∀ t a n, (s.phase t).Paged a n →
      OtherPages c.pageSize a n o.zallocNextSpace
        (o.zallocEndOfSpace - o.zallocNextSpace)
  taken :
    ∀ t a, s.phase t = .taken a →
      Apart a c.elemSize o.zallocNextSpace
        (o.zallocEndOfSpace - o.zallocNextSpace)

/- Whether an element goes back to the map. -/
def goesBack (poolLow : Bool) : Prop :=
  c.pageSize ≤ c.elemSize ∧ c.splRoutine = false ∧
    poolLow = true

/- An element that has its pages for itself. -/
structure OwnPages
    (s : ZoneState τ)
    (es : List Nat)
    (e : Nat) : Prop where
  elems :
    ∀ x ∈ es,
      OtherPages c.pageSize x c.elemSize e c.elemSize
  space :
    0 < s.left →
      OtherPages c.pageSize s.zallocNextSpace s.left
        e c.elemSize
  taken :
    ∀ t a, s.phase t = .taken a →
      OtherPages c.pageSize a c.elemSize e c.elemSize

/-
  What the actions ask of the state. Memory that is crammed
  is fresh, and elements are freed and written by those that
  have them. An element that goes back to the map has its
  pages for itself.
-/
def ZoneOrderly
    (s : ZoneState τ)
    (a : ZoneAction τ) : Prop :=
  ∀ free, FreeChain s free →
    match a with
    | .zcram newmem size =>
        Fresh c s (free ++ s.out) newmem size
    | .zfree e poolLow =>
        e ∈ s.out ∧
          (goesBack c poolLow →
            OwnPages c s (free ++ s.out.erase e) e)
    | .write addr _ =>
        ∃ e ∈ s.out, e ≤ addr ∧ addr < e + c.elemSize
    | .others o => ZoneOthers.Ok c s (free ++ s.out) o
    | _ => True

end Conditions

------
-- Steps
------

section Steps

variable {c : ZoneConfig} {s s' : ZoneState τ} {free : List Nat}
variable {t : τ} {e : Nat}

omit [DecidableEq τ] in
/- An element goes back to the map with all of its pages. -/
theorem zfree_low_inv
    (h : ZoneInv c s free)
    (he : e ∈ s.out)
    (hOwn : OwnPages c s (free ++ s.out.erase e) e) :
    ZoneInv c
      (kmemFree c
        { zonePageInit c { s with out := s.out.erase e } e
            c.elemSize zonePageUnused with
          count := s.count - 1
          curSize := s.curSize - c.elemSize }
        e c.elemSize) free := by
  generalize hNext :
    kmemFree c
      { zonePageInit c { s with out := s.out.erase e } e
          c.elemSize zonePageUnused with
        count := s.count - 1
        curSize := s.curSize - c.elemSize }
      e c.elemSize = s'
  have hMapped : ∀ q, s'.mapped q =
      if q ∈ c.pages e c.elemSize then false
      else s.mapped q := by
    subst hNext
    exact fun q => rfl
  have hCount : ∀ q, s'.allocCount q =
      if q ∈ c.pages e c.elemSize then zonePageUnused
      else s.allocCount q := by
    subst hNext
    exact fun q => rfl
  have hSame : s'.links = s.links ∧
      s'.out = s.out.erase e ∧ s'.count = s.count - 1 ∧
      s'.curSize = s.curSize - c.elemSize ∧
      s'.phase = s.phase ∧
      s'.zallocNextSpace = s.zallocNextSpace ∧
      s'.zallocEndOfSpace = s.zallocEndOfSpace ∧
      s'.doingAlloc = s.doingAlloc := by
    subst hNext
    exact ⟨rfl, rfl, rfl, rfl, rfl, rfl, rfl, rfl⟩
  clear hNext
  rcases hSame with ⟨hLinks, hOut, hNumber, hSize, hPhase,
    hFirst, hEnd, hDoing⟩
  have hLeft : s'.left = s.left := by
    unfold ZoneState.left
    rw [hFirst, hEnd]
  have hPerm : (free ++ s.out).Perm
      (e :: (free ++ s.out.erase e)) := by
    refine ((List.perm_cons_erase he).append_left free).trans ?_
    exact List.perm_middle
  have hAll := h.elems.perm hPerm
  have hRest := hAll.sublist (List.sublist_cons_self _ _)
  have hLength := List.length_erase_of_mem he
  have hSome := List.length_pos_of_mem he
  have hKeep : ∀ b m, Placed c s b m →
      OtherPages c.pageSize b m e c.elemSize →
      Placed c s' b m := by
    intro b m hb hOther q hq
    have hNot : q ∉ c.pages e c.elemSize := hOther q hq
    rw [hMapped, if_neg hNot]
    exact hb q hq
  refine ⟨?_, ?_, ?_, ?_, ?_⟩
  · unfold FreeChain
    rw [hLinks]
    exact h.chain
  · rw [hOut]
    refine ⟨hRest.apart, hRest.nonzero, ?_, hRest.whole, ?_,
      ?_, ?_, ?_, ?_⟩
    · intro x hx
      exact hKeep x _ (hRest.placed x hx) (hOwn.elems x hx)
    · intro hc q
      rw [hCount]
      split_ifs with hq
      · have hNone :
            touching c (free ++ s.out.erase e) q = 0 := by
          unfold touching
          rw [List.countP_eq_zero]
          intro x hx hIs
          rw [Bool.and_eq_true, decide_eq_true_eq] at hIs
          exact hOwn.elems x hx q hIs.2 hq
        rw [hNone]
        unfold zonePageUnused
        exact ⟨Int.le_refl _, fun hAbsurd => by omega⟩
      · exact hRest.counted hc q
    · unfold OffSpace
      rw [hFirst, hLeft]
      exact hRest.reserve
    · unfold OffSpacePages
      rw [hFirst, hLeft]
      exact hRest.reservePages
    · rw [hPhase]
      exact hRest.paged
    · rw [hPhase]
      exact hRest.taken
  · have hf := h.flights
    refine ⟨?_, ?_, ?_, ?_, ?_, ?_, ?_, ?_⟩
    · rw [hFirst, hEnd]
      exact hf.order
    · rw [hFirst]
      exact hf.pos
    · rw [hFirst, hLeft]
      intro hPos
      exact hKeep _ _ (hf.placed hPos) (hOwn.space hPos)
    · intro u a n hu
      rw [hPhase] at hu
      rcases hf.paged u a n hu with
        ⟨ha, hn, hPlaced, hOff, hWhole⟩
      refine ⟨ha, hn, ?_, ?_, hWhole⟩
      · exact hKeep a n hPlaced
          (hAll.paged u a n hu e List.mem_cons_self).symm
      · unfold OffSpacePages
        rw [hFirst, hLeft]
        exact hOff
    · rw [hPhase]
      exact hf.grown
    · intro u a hu
      rw [hPhase] at hu
      rcases hf.taken u a hu with ⟨ha, hPlaced, hOff, hc⟩
      refine ⟨ha, hKeep a _ hPlaced (hOwn.taken u a hu), ?_, hc⟩
      unfold OffSpace
      rw [hFirst, hLeft]
      exact hOff
    · rw [hPhase, hDoing]
      exact hf.busy
    · rw [hPhase]
      exact hf.unique
  · rw [hNumber, hOut, h.count]
    omega
  · rw [hSize, hOut, h.curSize]
    have hSum : free.length + s.out.length =
        free.length + (s.out.erase e).length + 1 := by
      omega
    rw [hSum, Nat.mul_add_one, Nat.add_sub_cancel]

omit [DecidableEq τ] in
theorem zfree_inv
    {poolLow : Bool}
    (h : ZoneInv c s free)
    (hOrderly : ZoneOrderly c s (.zfree e poolLow))
    (hRun : zfree c s e poolLow = some s') :
    ∃ free', ZoneInv c s' free' := by
  rcases hOrderly free h.chain with ⟨he, hOwn⟩
  unfold zfree at hRun
  dsimp only at hRun
  by_cases hBack :
      c.pageSize ≤ c.elemSize ∧ c.splRoutine = false ∧
        poolLow = true
  · rw [if_pos hBack] at hRun
    split_ifs at hRun
    · cases hRun
      exact ⟨free, zfree_low_inv h he (hOwn hBack)⟩
  · rw [if_neg hBack] at hRun
    cases hRun
    exact ⟨e :: free, h.add he⟩

omit [DecidableEq τ] in
/- A word that its holder writes is no link. -/
theorem ZoneInv.write
    {addr value : Nat}
    (h : ZoneInv c s free)
    (he : e ∈ s.out)
    (hLow : e ≤ addr)
    (hHigh : addr < e + c.elemSize) :
    ZoneInv c
      { s with word := Function.update s.word addr value }
      free := by
  refine ⟨?_, ?_, ?_, h.count, h.curSize⟩
  · apply h.chain.write
    · intro a ha
      apply Function.update_of_ne
      intro hEq
      have hPos := c.elem_pos
      have hApart :=
        (List.pairwise_append.mp h.elems.apart).2.2 a ha e he
      unfold Apart at hApart
      omega
    · exact fun a ha => h.free_nonzero ha
    · rfl
  · exact h.elems.congr rfl rfl rfl rfl (fun _ _ _ hp => hp)
      (fun _ _ hp => hp)
  · exact h.flights.congr rfl rfl rfl rfl rfl

omit [DecidableEq τ] in
theorem ZoneInv.others
    {o : ZoneOthers}
    (h : ZoneInv c s free)
    (hOk : ZoneOthers.Ok c s (free ++ s.out) o) :
    ZoneInv c
      { s with
        mapped := o.mapped
        allocCount := o.allocCount
        zallocNextSpace := o.zallocNextSpace
        zallocEndOfSpace := o.zallocEndOfSpace } free := by
  refine ⟨h.chain, ?_, ?_, h.count, h.curSize⟩
  · refine ⟨h.elems.apart, h.elems.nonzero, ?_, h.elems.whole,
      hOk.counted, fun x hx _ => (hOk.elems x hx).1,
      fun hc x hx _ => (hOk.elems x hx).2 hc, h.elems.paged,
      h.elems.taken⟩
    intro x hx
    exact hOk.placed x _ (Or.inl ⟨x, hx, rfl, rfl⟩)
  · refine ⟨hOk.order, hOk.pos, fun _ => hOk.space, ?_,
      h.flights.grown, ?_, h.flights.busy, h.flights.unique⟩
    · intro u a n hu
      rcases h.flights.paged u a n hu with
        ⟨ha, hn, _, _, hWhole⟩
      exact ⟨ha, hn,
        hOk.placed a n (Or.inr (Or.inl ⟨u, hu⟩)),
        fun _ => hOk.paged u a n hu, hWhole⟩
    · intro u a hu
      rcases h.flights.taken u a hu with ⟨ha, _, _, hc⟩
      exact ⟨ha,
        hOk.placed a _ (Or.inr (Or.inr ⟨u, hu, rfl⟩)),
        fun _ => hOk.taken u a hu, hc⟩

omit [DecidableEq τ] in
/- A count that is too high keeps a page from being freed. -/
theorem ZoneInv.pageAlloc
    {a n : Nat}
    (h : ZoneInv c s free) :
    ZoneInv c (zonePageAlloc c s a n) free := by
  refine ⟨h.chain, ?_, h.flights.congr rfl rfl rfl rfl rfl,
    h.count, h.curSize⟩
  refine ⟨h.elems.apart, h.elems.nonzero, h.elems.placed,
    h.elems.whole, ?_, h.elems.reserve, h.elems.reservePages,
    h.elems.paged, h.elems.taken⟩
  intro hc q
  rcases h.elems.counted hc q with ⟨hLow, hCount⟩
  show -1 ≤ (if q ∈ c.pages a n then
      if s.allocCount q = zonePageUnused then 1
      else s.allocCount q + 1
    else s.allocCount q) ∧
    (0 < touching c (free ++ s.out) q →
      (touching c (free ++ s.out) q : Int) ≤
        if q ∈ c.pages a n then
          if s.allocCount q = zonePageUnused then 1
          else s.allocCount q + 1
        else s.allocCount q)
  unfold zonePageUnused
  split_ifs with hPage hUnused
  · refine ⟨by omega, fun hPos => ?_⟩
    have hMore := hCount hPos
    omega
  · refine ⟨by omega, fun hPos => ?_⟩
    have hMore := hCount hPos
    omega
  · exact ⟨hLow, hCount⟩

theorem zoneStep_inv
    (c : ZoneConfig)
    (s : ZoneState τ)
    (a : ZoneAction τ)
    (s' : ZoneState τ)
    (hInv : ∃ free, ZoneInv c s free)
    (hOrderly : ZoneOrderly c s a)
    (hStep : zoneStep c s a = some s') :
    ∃ free, ZoneInv c s' free := by
  rcases hInv with ⟨free, h⟩
  unfold zoneStep at hStep
  cases a with
  | zcram newmem size =>
      cases hStep
      exact zcram_inv h (hOrderly free h.chain)
  | zalloc t | resume t =>
      dsimp only at hStep
      split at hStep
      · exact zallocLoop_inv h hStep
      · cases hStep
  | space t poolLow result =>
      dsimp only at hStep
      split at hStep
      · rename_i hPhase
        split_ifs at hStep
        · exact zallocSpace_inv h (by rw [hPhase]; rfl) hStep
      · cases hStep
  | cram t =>
      dsimp only at hStep
      split at hStep
      · rename_i space size hPhase
        cases hStep
        exact cram_inv h hPhase
      · cases hStep
  | finish t =>
      dsimp only at hStep
      split at hStep
      · rename_i shortage hPhase
        exact zallocFinish_inv h (by rw [hPhase]; rfl) hStep
      · cases hStep
  | zgetSpace t result =>
      dsimp only at hStep
      split at hStep
      · rename_i hPhase
        split_ifs at hStep with hc
        · exact zgetSpace_inv h (by rw [hPhase]; rfl)
            ((Bool.not_eq_true _).mp hc) hStep
      · cases hStep
  | zgetTake t =>
      dsimp only at hStep
      split at hStep
      · rename_i space size hPhase
        cases hStep
        exact ⟨free, zgetTake_inv h hPhase⟩
      · cases hStep
  | taken t =>
      dsimp only at hStep
      split at hStep
      · rename_i space hPhase
        cases hStep
        exact ⟨free, zallocTaken_inv h hPhase⟩
      · cases hStep
  | starved t =>
      dsimp only at hStep
      split at hStep
      · rename_i hPhase
        cases hStep
        exact ⟨free, h.done (by rw [hPhase]; rfl) rfl rfl⟩
      · cases hStep
  | counted t =>
      dsimp only at hStep
      split at hStep
      · cases hStep
        exact ⟨free, h.pageAlloc.idle
          (w := s.someoneWaits) rfl rfl⟩
      · cases hStep
  | zget =>
      cases hRemove : removeFromZone s with
      | none =>
          rw [hRemove] at hStep
          cases hStep
          exact ⟨free, h⟩
      | some s₁ =>
          rw [hRemove] at hStep
          cases hStep
          rcases h.remove hRemove with ⟨rest, _, hNext⟩
          exact ⟨rest, hNext⟩
  | zfree elem poolLow => exact zfree_inv h hOrderly hStep
  | zoneGc =>
      rcases zoneGc_inv h with ⟨s₁, free', hRun, hNext⟩
      rw [hRun] at hStep
      cases hStep
      exact ⟨free', hNext⟩
  | write addr value =>
      cases hStep
      rcases hOrderly free h.chain with ⟨e, he, hLow, hHigh⟩
      exact ⟨free, h.write he hLow hHigh⟩
  | others o =>
      cases hStep
      exact ⟨free, h.others (hOrderly free h.chain)⟩

end Steps

------
-- Runs
------

/- `zinit`, with the rest of the system as it is. -/
def zinit
    (τ : Type)
    (o : ZoneOthers)
    (word : Nat → Nat)
    (maxSize : Nat) : ZoneState τ :=
  { freeElements := 0
    curSize := 0
    maxSize := maxSize
    count := 0
    doingAlloc := false
    someoneWaits := false
    word := word
    mapped := o.mapped
    allocCount := o.allocCount
    inFreeList := fun _ => 0
    zallocNextSpace := o.zallocNextSpace
    zallocEndOfSpace := o.zallocEndOfSpace
    phase := fun _ => .outside
    out := [] }

/- What the rest of the system has to begin with. -/
structure ZoneOthers.Start
    (c : ZoneConfig)
    (o : ZoneOthers) : Prop where
  counted : ∀ p, -1 ≤ o.allocCount p
  order : o.zallocNextSpace ≤ o.zallocEndOfSpace
  pos : 0 < o.zallocNextSpace
  space :
    ∀ p ∈ c.pages o.zallocNextSpace
        (o.zallocEndOfSpace - o.zallocNextSpace),
      o.mapped p = true

omit [DecidableEq τ] in
theorem zinit_inv
    {c : ZoneConfig}
    {o : ZoneOthers}
    (h : ZoneOthers.Start c o)
    (word : Nat → Nat)
    (maxSize : Nat) :
    ZoneInv c (zinit τ o word maxSize) [] := by
  have hNone : ∀ (t : τ) a n,
      ¬ (((zinit τ o word maxSize).phase t).Paged a n) := by
    rintro t a n (hAbsurd | hAbsurd)
    · cases hAbsurd
    · cases hAbsurd
  refine ⟨rfl, ?_, ?_, rfl, rfl⟩
  · refine ⟨List.Pairwise.nil, ?_, ?_, ?_, ?_, ?_, ?_, ?_, ?_⟩
    · intro e he
      cases he
    · intro e he
      cases he
    · intro _ e he
      cases he
    · intro _ p
      exact ⟨h.counted p, fun hAbsurd => by cases hAbsurd⟩
    · intro e he
      cases he
    · intro _ e he
      cases he
    · intro t a n hp
      exact absurd hp (hNone t a n)
    · intro t a hp
      cases hp
  · refine ⟨h.order, h.pos, fun _ => h.space, ?_, ?_, ?_, ?_,
      ?_⟩
    · intro t a n hp
      exact absurd hp (hNone t a n)
    · intro t a n hp
      cases hp
    · intro t a hp
      cases hp
    · intro t hp
      cases hp
    · intro t u hp
      cases hp

/-
  The accounts of a zone in every state that is reached: the
  free list is a chain of elements that are apart from each
  other and from those that were handed out, none of which
  was handed out twice; and the counts are right.
-/
theorem zone_accounting
    (c : ZoneConfig)
    {o : ZoneOthers}
    (word : Nat → Nat)
    (maxSize : Nat)
    {as : List (ZoneAction τ)}
    {s : ZoneState τ}
    (hStart : ZoneOthers.Start c o)
    (hMeets :
      Runs.Meets (zoneStep c) (ZoneOrderly c)
        (zinit τ o word maxSize) as)
    (hExec :
      Runs.exec (zoneStep c) (zinit τ o word maxSize) as =
        some s) :
    ∃ free, FreeChain s free ∧ free.Nodup ∧
      free.Pairwise (fun a b =>
        Apart a c.elemSize b c.elemSize) ∧
      (∀ a ∈ free, ∀ b ∈ s.out,
        Apart a c.elemSize b c.elemSize) ∧
      s.out.Nodup ∧
      s.count = s.out.length ∧
      (s.curSize : Int) =
        c.elemSize * (s.count + free.length) ∧
      zoneFreeCount c s = free.length ∧
      0 ≤ zoneFreeCount c s := by
  have hInv : ∃ free, ZoneInv c s free :=
    Runs.exec_invariant
      (P := fun s => ∃ free, ZoneInv c s free)
      (zoneStep_inv c) ⟨[], zinit_inv hStart word maxSize⟩
      hMeets hExec
  rcases hInv with ⟨free, h⟩
  have hNodup := List.nodup_append.mp h.elems.nodup
  have hApart := List.pairwise_append.mp h.elems.apart
  have hFree : zoneFreeCount c s = free.length := by
    unfold zoneFreeCount
    rw [h.curSize, Nat.mul_div_cancel_left _ c.elem_pos,
      h.count]
    push_cast
    omega
  refine ⟨free, h.chain, hNodup.1, hApart.1, hApart.2.2,
    hNodup.2.1, h.count, ?_, hFree, ?_⟩
  · rw [h.curSize, h.count]
    push_cast
    rw [Int.add_comm]
  · omega

/- A zone of elements of two pages, not collectable. -/
def twoPageZone : ZoneConfig :=
  { pageSize := 0x1000
    elemSize := 0x2000
    allocSize := 0x2000
    exhaustible := false
    collectable := false
    expandable := true
    splRoutine := false
    zoneMapMinAddress := 0x1000
    zoneMapMaxAddress := 0x10000
    page_pos := by decide
    elem_pos := by decide
    alloc_pos := by decide }

/- Five pages, of which other zones have taken the first. -/
def fivePages (next : Nat) : ZoneOthers :=
  { mapped := fun p => decide (p < 6)
    allocCount := fun p =>
      if p < 6 then zonePageUsed else zonePageUnused
    zallocNextSpace := next
    zallocEndOfSpace := 0x6000 }

theorem fivePages_start
    (next : Nat)
    (hPos : 0 < next)
    (hLe : next ≤ 0x6000) :
    ZoneOthers.Start twoPageZone (fivePages next) := by
  refine ⟨?_, hLe, hPos, ?_⟩
  · intro p
    show -1 ≤ if p < 6 then zonePageUsed else zonePageUnused
    split_ifs
    · decide
    · decide
  · intro p hp
    have hRange := List.mem_range'_1.mp hp
    show decide (p < 6) = true
    have hEnd : (fivePages next).zallocEndOfSpace = 0x6000 := rfl
    have hNext : (fivePages next).zallocNextSpace = next := rfl
    have hSize : twoPageZone.pageSize = 0x1000 := rfl
    rw [hEnd, hNext, hSize] at hRange
    rw [decide_eq_true_eq]
    omega

/- An element of whole pages goes back when memory is low. -/
theorem zone_accounting_low :
    ∃ s, Runs.exec (zoneStep twoPageZone)
        (zinit Unit (fivePages 0x1000) (fun _ => 0) 0x8000)
        [.zalloc (), .zgetSpace () none, .taken (), .counted (),
          .zfree 0x1000 true] = some s ∧
      s.out = [] ∧ s.mapped 2 = false ∧
      zoneFreeCount twoPageZone s = 0 := by
  have hMeets : Runs.Meets (zoneStep twoPageZone)
      (ZoneOrderly twoPageZone)
      (zinit Unit (fivePages 0x1000) (fun _ => 0) 0x8000)
      [.zalloc (), .zgetSpace () none, .taken (), .counted (),
        .zfree 0x1000 true] := by
    refine ⟨fun _ _ => trivial, fun s hs => ?_⟩
    cases hs
    refine ⟨fun _ _ => trivial, fun s hs => ?_⟩
    cases hs
    refine ⟨fun _ _ => trivial, fun s hs => ?_⟩
    cases hs
    refine ⟨fun _ _ => trivial, fun s hs => ?_⟩
    cases hs
    refine ⟨?_, fun s hs => trivial⟩
    intro free hChain
    have hNil : free = [] := hChain.next_eq_zero_iff.mp rfl
    subst hNil
    refine ⟨List.mem_cons_self, fun _ => ⟨?_, ?_, ?_⟩⟩
    · intro x hx
      cases hx
    · intro _ p hp hq
      have hLow := (List.mem_range'_1.mp hp).1
      have hHigh := (List.mem_range'_1.mp hq).2
      exact absurd (Nat.lt_of_le_of_lt hLow hHigh) (by decide)
    · intro t a hTaken
      cases hTaken
  have hAll := zone_accounting twoPageZone (fun _ => 0) 0x8000
    (fivePages_start 0x1000 (by decide) (by decide)) hMeets rfl
  rcases hAll with ⟨free, hChain, -, -, -, -, -, -, hCount, -⟩
  have hNil : free = [] := hChain.next_eq_zero_iff.mp rfl
  subst hNil
  exact ⟨_, rfl, rfl, rfl, hCount⟩

/-
  Elements that do not start at a page. One that goes back
  takes the first page of the next one with it, and memory
  that is got later overlaps that one.
-/
theorem zone_overlap :
    ZoneOthers.Start twoPageZone (fivePages 0x1100) ∧
    ∃ s₁ s₂ s₃ s : ZoneState Unit,
      Runs.exec (zoneStep twoPageZone)
        (zinit Unit (fivePages 0x1100) (fun _ => 0) 0x8000)
        [.zalloc (), .zgetSpace () none, .taken (),
          .counted (), .zalloc (), .zgetSpace () none,
          .taken (), .counted ()] = some s₁ ∧
      s₁.out = [0x3100, 0x1100] ∧
      zfree twoPageZone s₁ 0x1100 true = some s₂ ∧
      Runs.exec (zoneStep twoPageZone) s₂
        [.zalloc (), .zgetSpace () (some 0x2000),
          .zgetTake (), .taken (), .counted ()] = some s₃ ∧
      s₃.out = [0x2000, 0x3100] ∧
      zfree twoPageZone s₃ 0x2000 false = some s ∧
      FreeChain s [0x2000] ∧ s.out = [0x3100] ∧
      ¬ Apart 0x2000 twoPageZone.elemSize
        0x3100 twoPageZone.elemSize := by
  refine ⟨fivePages_start 0x1100 (by decide) (by decide),
    _, _, _, _, rfl, rfl, rfl, rfl, rfl, rfl, ?_, rfl, ?_⟩
  · exact ⟨rfl, by decide, rfl⟩
  · unfold Apart
    decide
end Kern

end OsfMach
