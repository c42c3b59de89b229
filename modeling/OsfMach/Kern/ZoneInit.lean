import OsfMach.Kern.ZoneRuns

/-
  The sizes that `zinit` chooses, and what follows for the
  elements of the zone.

  An allocation is to hold an element, and an element of
  pages that is freed while memory is low is to give back no
  page of another one.

  Main declarations:
    * `zinitConfig`
    * `GoodAlloc`, `zfreePages`
    * `zinitBest_spec`, `zalloc_expands`
    * `zinitConfig_good_iff`
    * `zfree_own_iff`
-/

------
-- The Sizes of a Zone
------

namespace OsfMach

namespace Kern

open Function
open Lib
open Lib.Pages

/- The size of `free_elements`. -/
def pointerSize : Nat := 4

def zinitSize (size : Nat) : Nat :=
  let size := if size < pointerSize then pointerSize else size
  size - 1 + pointerSize - (size - 1) % pointerSize

/- A turn of the search: the best size so far, and its waste. -/
def zinitTurn
    (pageSize size : Nat)
    (b : Nat × Nat)
    (i : Nat) : Nat × Nat :=
  let tsize := i * pageSize
  let twaste := tsize % size
  if twaste < b.2 then (tsize, twaste) else b

def zinitBest (pageSize size : Nat) : Nat × Nat :=
  [2, 3, 4, 5].foldl (zinitTurn pageSize size)
    (pageSize, pageSize % size)

/- `round_page` of what the caller suggests. -/
def suggestedSize (pageSize alloc : Nat) : Nat :=
  let alloc := if alloc = 0 then pageSize else alloc
  (alloc + pageSize - 1) / pageSize * pageSize

def zinitAlloc (pageSize size alloc : Nat) : Nat :=
  let b := zinitBest pageSize size
  let alloc := suggestedSize pageSize alloc
  if alloc ≤ b.1 ∨ b.2 ≤ alloc % size then b.1 else alloc

variable {pageSize size : Nat}

theorem zinitSize_pos : 0 < zinitSize size := by
  unfold zinitSize pointerSize
  dsimp only
  split_ifs
  · decide
  · omega

/- The search ends with a candidate, and none wastes less. -/
theorem zinitTurn_foldl
    (pageSize size : Nat)
    (is : List Nat)
    (b : Nat × Nat) :
    (is.foldl (zinitTurn pageSize size) b = b ∨
        ∃ i ∈ is, is.foldl (zinitTurn pageSize size) b =
          (i * pageSize, i * pageSize % size)) ∧
      (is.foldl (zinitTurn pageSize size) b).2 ≤ b.2 ∧
      ∀ i ∈ is, (is.foldl (zinitTurn pageSize size) b).2 ≤
        i * pageSize % size := by
  induction is generalizing b with
  | nil => simp
  | cons j is ih =>
      rw [List.foldl_cons]
      rcases ih (zinitTurn pageSize size b j) with
        ⟨hIs, hLe, hAll⟩
      have hTurn : (zinitTurn pageSize size b j = b ∨
            zinitTurn pageSize size b j =
              (j * pageSize, j * pageSize % size)) ∧
          (zinitTurn pageSize size b j).2 ≤ b.2 ∧
          (zinitTurn pageSize size b j).2 ≤
            j * pageSize % size := by
        unfold zinitTurn
        dsimp only
        split_ifs with hLess
        · exact ⟨Or.inr rfl, hLess.le, Nat.le_refl _⟩
        · exact ⟨Or.inl rfl, Nat.le_refl _,
            Nat.le_of_not_lt hLess⟩
      refine ⟨?_, hLe.trans hTurn.2.1, ?_⟩
      · rcases hIs with hSame | ⟨i, hi, hEq⟩
        · rw [hSame]
          rcases hTurn.1 with hOld | hNew
          · exact Or.inl hOld
          · exact Or.inr ⟨j, List.mem_cons_self, hNew⟩
        · exact Or.inr ⟨i, List.mem_cons_of_mem _ hi, hEq⟩
      · intro i hi
        rcases List.mem_cons.mp hi with rfl | hi
        · exact hLe.trans hTurn.2.2
        · exact hAll i hi

theorem zinitBest_spec
    (pageSize size : Nat) :
    ∃ i, 1 ≤ i ∧ i ≤ 5 ∧
      zinitBest pageSize size =
        (i * pageSize, i * pageSize % size) ∧
      ∀ j, 1 ≤ j → j ≤ 5 →
        i * pageSize % size ≤ j * pageSize % size := by
  have hFold := zinitTurn_foldl pageSize size [2, 3, 4, 5]
    (pageSize, pageSize % size)
  rw [← zinitBest] at hFold
  rcases hFold with ⟨hIs, hFirst, hAll⟩
  have hMin : ∀ j, 1 ≤ j → j ≤ 5 →
      (zinitBest pageSize size).2 ≤ j * pageSize % size := by
    intro j hLow hHigh
    rcases Nat.eq_or_lt_of_le hLow with rfl | hMore
    · rw [Nat.one_mul]
      exact hFirst
    · apply hAll
      simp
      omega
  rcases hIs with hOne | ⟨i, hi, hEq⟩
  · refine ⟨1, Nat.le_refl 1, by decide, ?_, ?_⟩
    · rw [hOne, Nat.one_mul]
    · rw [hOne] at hMin
      simpa using hMin
  · rw [hEq] at hMin
    refine ⟨i, ?_, ?_, hEq, hMin⟩ <;> simp at hi <;> omega

/-
  A candidate that holds an element wastes less than a page,
  and one that does not is all waste.
-/
theorem zinitBest_holds
    (hPage : 0 < pageSize)
    (hSize : size ≤ 5 * pageSize) :
    size ≤ (zinitBest pageSize size).1 := by
  rcases zinitBest_spec pageSize size with
    ⟨i, hLow, _, hEq, hMin⟩
  rw [hEq]
  by_contra hLess
  rw [Nat.not_le] at hLess
  have hWaste : i * pageSize % size = i * pageSize :=
    Nat.mod_eq_of_lt hLess
  have hOne : pageSize ≤ i * pageSize :=
    Nat.le_mul_of_pos_left _ hLow
  -- the first candidate that holds an element
  have hUp := Nat.div_add_mod (size + pageSize - 1) pageSize
  have hRest := Nat.mod_lt (size + pageSize - 1) hPage
  generalize hj : (size + pageSize - 1) / pageSize = j at hUp
  rw [Nat.mul_comm] at hUp
  have hFive : j ≤ 5 := by
    rw [← hj]
    apply Nat.le_of_lt_succ
    rw [Nat.div_lt_iff_lt_mul hPage]
    omega
  have hFirst : 1 ≤ j := by
    rcases Nat.eq_zero_or_pos j with rfl | hPos
    · omega
    · exact hPos
  have hBest := hMin j hFirst hFive
  have hHeld : j * pageSize % size = j * pageSize - size := by
    rw [Nat.mod_eq_sub_mod (by omega), Nat.mod_eq_of_lt]
    omega
  omega

theorem zinitBest_small
    (hPage : 0 < pageSize)
    (hSize : 5 * pageSize < size) :
    zinitBest pageSize size = (pageSize, pageSize) := by
  rcases zinitBest_spec pageSize size with
    ⟨i, hLow, hHigh, hEq, hMin⟩
  have hLe : i * pageSize ≤ 5 * pageSize :=
    Nat.mul_le_mul_right _ hHigh
  have hOne := hMin 1 (Nat.le_refl 1) (by decide)
  rw [Nat.one_mul, Nat.mod_eq_of_lt (by omega),
    Nat.mod_eq_of_lt (by omega)] at hOne
  have hi : i = 1 := by
    have hMul := Nat.le_of_mul_le_mul_right
      (hOne.trans_eq (Nat.one_mul _).symm) hPage
    omega
  rw [hEq, hi, Nat.one_mul, Nat.mod_eq_of_lt (by omega)]

/- When the allocations of a zone hold an element. -/
theorem zinitAlloc_holds_iff
    (hPage : 0 < pageSize)
    (alloc : Nat) :
    size ≤ zinitAlloc pageSize size alloc ↔
      size ≤ 5 * pageSize ∨
        size ≤ suggestedSize pageSize alloc ∧
          suggestedSize pageSize alloc % size < pageSize := by
  unfold zinitAlloc
  by_cases hSize : size ≤ 5 * pageSize
  · have hHolds := zinitBest_holds hPage hSize
    simp only [hSize, true_or, iff_true]
    split_ifs with hBest
    · exact hHolds
    · omega
  · rw [Nat.not_le] at hSize
    rw [zinitBest_small hPage hSize]
    have hNot : ¬ size ≤ 5 * pageSize := Nat.not_le.mpr hSize
    simp only [hNot, false_or]
    split_ifs with hBest
    · constructor
      · intro hLe
        omega
      · rintro ⟨hLe, hLess⟩
        omega
    · constructor
      · intro hLe
        exact ⟨hLe, by omega⟩
      · exact fun h => h.1

------
-- Expansions
------

theorem dvd_zinitAlloc
    (alloc : Nat) :
    pageSize ∣ zinitAlloc pageSize size alloc := by
  rcases zinitBest_spec pageSize size with ⟨i, _, _, hEq, _⟩
  unfold zinitAlloc
  dsimp only
  split_ifs
  · rw [hEq]
    exact Nat.dvd_mul_left _ _
  · exact Nat.dvd_mul_left _ _

theorem zinitAlloc_pos
    (hPage : 0 < pageSize)
    (alloc : Nat) :
    0 < zinitAlloc pageSize size alloc := by
  rcases zinitBest_spec pageSize size with
    ⟨i, hLow, _, hEq, _⟩
  have hPos : 0 < i * pageSize := Nat.mul_pos hLow hPage
  unfold zinitAlloc
  dsimp only
  rw [hEq]
  split_ifs <;> omega

/- What `zinit` makes of its arguments. -/
def zinitConfig
    (pageSize : Nat)
    (hPage : 0 < pageSize)
    (zoneMin zoneMax size alloc : Nat) : ZoneConfig :=
  { pageSize := pageSize
    elemSize := zinitSize size
    allocSize := zinitAlloc pageSize (zinitSize size) alloc
    exhaustible := false
    collectable := true
    expandable := true
    splRoutine := false
    zoneMapMinAddress := zoneMin
    zoneMapMaxAddress := zoneMax
    page_pos := hPage
    elem_pos := zinitSize_pos
    alloc_pos := zinitAlloc_pos hPage alloc }

variable {τ : Type} [DecidableEq τ]

/-
  A thread that is alone gets an element after one expansion,
  at any address that the map has memory at.
-/
def Expands
    (τ : Type)
    [DecidableEq τ]
    (c : ZoneConfig) : Prop :=
  ∀ (s : ZoneState τ) (t : τ) (poolLow : Bool) (space : Nat),
    s.phase t = .outside → s.freeElements = 0 →
    s.doingAlloc = false →
    Allocatable c s space (c.roundPage
      (if poolLow then c.elemSize else c.allocSize)) →
    ∃ s₁ s₂ e,
      Runs.exec (zoneStep c) s
          [.zalloc t, .space t poolLow (some space), .cram t] =
        some s₁ ∧
      s₁.freeElements ≠ 0 ∧
      zoneStep c s₁ (.finish t) = some s₂ ∧
      s₂.phase t = .outside ∧ e ≠ 0 ∧ s₂.out = e :: s.out

structure GoodAlloc
    (τ : Type)
    [DecidableEq τ]
    (c : ZoneConfig) : Prop where
  pages : c.pageSize ∣ c.allocSize
  holds : c.elemSize ≤ c.allocSize
  waste : ∀ i, 1 ≤ i → i ≤ 5 → c.elemSize ≤ i * c.pageSize →
    c.allocSize % c.elemSize ≤ i * c.pageSize % c.elemSize
  expands : Expands τ c

variable {c : ZoneConfig} {s : ZoneState τ} {a n : Nat}

omit [DecidableEq τ] in
/- Memory that holds an element leaves one on the list. -/
theorem zcramLoop_nonempty
    (fuel : Nat)
    (ha : 0 < a)
    (h : s.freeElements ≠ 0 ∨ 0 < fuel ∧ c.elemSize ≤ n) :
    (zcramLoop c fuel s a n).freeElements ≠ 0 ∧
      (zcramLoop c fuel s a n).out = s.out := by
  induction fuel generalizing s a n with
  | zero =>
      rcases h with hSome | ⟨hNo, _⟩
      · exact ⟨hSome, rfl⟩
      · exact absurd hNo (Nat.lt_irrefl 0)
  | succ fuel ih =>
      unfold zcramLoop
      split_ifs with hFits
      · have hOut : (zcramElement c s a).out = s.out :=
          (zcramElement_rest s a).2.2.2.2.2.1
        have hHead :
            (zcramElement c s a).freeElements = a := by
          unfold zcramElement addToZone
          dsimp only
          split_ifs <;> rfl
        rw [← hOut]
        apply ih (by omega)
        exact Or.inl (by rw [hHead]; omega)
      · rcases h with hSome | ⟨_, hLe⟩
        · exact ⟨hSome, rfl⟩
        · exact absurd hLe hFits

omit [DecidableEq τ] in
theorem removeFromZone_some
    (h : s.freeElements ≠ 0) :
    ∃ s', removeFromZone s = some s' ∧
      s'.out = s.freeElements :: s.out := by
  unfold removeFromZone
  rw [if_neg h]
  exact ⟨_, rfl, rfl⟩

/- The loop of `zalloc` comes to its expansion. -/
theorem zallocLoop_expanding
    {t : τ}
    (hExhaustible : c.exhaustible = false)
    (hExpandable : c.expandable = true)
    (hEmpty : s.freeElements = 0)
    (hDoing : s.doingAlloc = false) :
    ∃ s₁, zallocLoop c s t = some s₁ ∧
      s₁.phase t = .expanding ∧ s₁.mapped = s.mapped ∧
      s₁.out = s.out := by
  unfold zallocLoop removeFromZone
  simp only [hDoing, hExhaustible, hExpandable, if_true,
    Bool.false_eq_true, if_false]
  split_ifs
  · exact ⟨_, rfl, update_self _ _ _, rfl, rfl⟩
  · exact ⟨_, rfl, update_self _ _ _, rfl, rfl⟩

theorem zalloc_expands
    (hCollectable : c.collectable = true)
    (hExhaustible : c.exhaustible = false)
    (hExpandable : c.expandable = true)
    (hFits : c.elemSize ≤ c.allocSize) :
    Expands τ c := by
  intro s t poolLow space hPhase hEmpty hDoing hAlloc
  rcases zallocLoop_expanding (t := t) hExhaustible hExpandable
    hEmpty hDoing with ⟨s₁, hLoop, hPhase₁, hMapped, hOut₁⟩
  generalize hSize : c.roundPage
    (if poolLow then c.elemSize else c.allocSize) = size
    at hAlloc
  have hLe : c.elemSize ≤ size := by
    rw [← hSize]
    refine Nat.le_trans ?_ (le_roundPage c _)
    split_ifs
    · exact Nat.le_refl _
    · exact hFits
  have hAlloc₁ : Allocatable c s₁ space size := by
    unfold Allocatable
    rw [hMapped]
    exact hAlloc
  let s₂ := (zonePageInit c
    (kernelMemoryAllocate c s₁ space size) space size
    zonePageUsed).setPhase t (.holding space size)
  let s₃ := (zcram c s₂ space size).setPhase t
    (.finishing false)
  have hCram : (zcram c s₂ space size).freeElements ≠ 0 ∧
      (zcram c s₂ space size).out = s₂.out :=
    zcramLoop_nonempty size hAlloc.2.1
      (Or.inr ⟨Nat.lt_of_lt_of_le c.elem_pos hLe, hLe⟩)
  have hSpace : zallocSpace c s₁ t poolLow (some space) =
      some s₂ := by
    unfold zallocSpace
    dsimp only
    rw [hSize, if_pos hAlloc₁]
  have hDone : (allocDone s₃).freeElements ≠ 0 := hCram.1
  rcases removeFromZone_some hDone with ⟨s₄, hRemove, hOut₄⟩
  refine ⟨s₃, s₄.setPhase t .outside, _, ?_, hCram.1, ?_,
    update_self _ _ _, hDone, hOut₄.trans ?_⟩
  · refine Runs.exec_cons.mpr ⟨s₁, ?_,
      Runs.exec_cons.mpr ⟨s₂, ?_,
        Runs.exec_cons.mpr ⟨s₃, ?_, rfl⟩⟩⟩
    · unfold zoneStep
      simp only [hPhase]
      exact hLoop
    · unfold zoneStep
      simp only [hPhase₁, hCollectable, if_true]
      exact hSpace
    · have hHolding : s₂.phase t = .holding space size :=
        update_self _ _ _
      unfold zoneStep
      simp only [hHolding]
      rfl
  · have hFinishing : s₃.phase t = .finishing false :=
      update_self _ _ _
    unfold zoneStep
    simp only [hFinishing]
    unfold zallocFinish zallocLoop
    simp [hRemove]
  · exact congrArg (s₃.freeElements :: ·)
      (hCram.2.trans hOut₁)

/-
  A zone has allocations that are good for its elements when
  an element has at most five pages, or when the caller makes
  a suggestion that holds one and wastes less than a page.
-/
theorem zinitConfig_good_iff
    (τ : Type)
    [DecidableEq τ]
    (pageSize : Nat)
    (hPage : 0 < pageSize)
    (zoneMin zoneMax size alloc : Nat) :
    GoodAlloc τ
        (zinitConfig pageSize hPage zoneMin zoneMax size
          alloc) ↔
      zinitSize size ≤ 5 * pageSize ∨
        zinitSize size ≤ suggestedSize pageSize alloc ∧
          suggestedSize pageSize alloc % zinitSize size <
            pageSize := by
  rw [← zinitAlloc_holds_iff hPage]
  refine ⟨fun h => h.holds, fun hHolds => ?_⟩
  refine ⟨dvd_zinitAlloc alloc, hHolds, ?_,
    zalloc_expands rfl rfl rfl hHolds⟩
  intro i hLow hHigh _
  rcases zinitBest_spec pageSize (zinitSize size)
    with ⟨j, _, _, hEq, hMin⟩
  refine Nat.le_trans ?_ (hMin i hLow hHigh)
  show zinitAlloc pageSize (zinitSize size) alloc %
    zinitSize size ≤ _
  unfold zinitAlloc
  dsimp only
  rw [hEq]
  split_ifs with hBest
  · exact Nat.le_refl _
  · omega

theorem zinitConfig_good_iff_small :
    zinitSize 100 ≤ 5 * 4096 ∧
      GoodAlloc Unit
        (zinitConfig 4096 (by decide) 0 0x100000 100 0) := by
  have hFew : zinitSize 100 ≤ 5 * 4096 := by decide
  exact ⟨hFew, (zinitConfig_good_iff Unit 4096 (by decide) 0
    0x100000 100 0).mpr (Or.inl hFew)⟩

/- Five pages and a word: the allocations have one page. -/
theorem zinitConfig_not_good :
    (zinitConfig 4096 (by decide) 0 0x100000 20484 0).allocSize =
        4096 ∧
      ¬ GoodAlloc Unit
        (zinitConfig 4096 (by decide) 0 0x100000 20484 0) :=
  ⟨by decide, fun h => absurd h.holds (by decide)⟩

------
-- Elements That Are Freed
------

/- The pages that `zfree` gives back while memory is low. -/
def zfreePages (c : ZoneConfig) (elem : Nat) : List Nat :=
  if c.pageSize ≤ c.elemSize ∧ c.splRoutine = false then
    c.pages elem c.elemSize
  else []

omit [DecidableEq τ] in
/- They are marked unused and removed, and no others are. -/
theorem zfree_pages
    {s s' : ZoneState τ}
    {elem : Nat}
    (hFree : zfree c s elem true = some s') :
    (∀ p, s'.mapped p =
        if p ∈ zfreePages c elem then false else s.mapped p) ∧
      ∀ p, s'.allocCount p =
        if p ∈ zfreePages c elem then zonePageUnused
        else s.allocCount p := by
  unfold zfree at hFree
  unfold zfreePages
  by_cases hPages : c.pageSize ≤ c.elemSize ∧
      c.splRoutine = false
  · rw [if_pos ⟨hPages.1, hPages.2, rfl⟩] at hFree
    rw [if_pos hPages]
    split_ifs at hFree
    cases hFree
    exact ⟨fun _ => rfl, fun _ => rfl⟩
  · rw [if_neg (fun h => hPages ⟨h.1, h.2.1⟩)] at hFree
    rw [if_neg hPages]
    cases hFree
    exact ⟨fun _ => by simp [addToZone],
      fun _ => by simp [addToZone]⟩

/- A page of the element alone, in the map of zones. -/
def OwnPage (c : ZoneConfig) (elem p : Nat) : Prop :=
  (elem ≤ p * c.pageSize ∧
      (p + 1) * c.pageSize ≤ elem + c.elemSize) ∧
    c.zoneMapMinAddress ≤ p * c.pageSize ∧
      (p + 1) * c.pageSize ≤ c.zoneMapMaxAddress

/-
  An element of pages gives back its own pages alone when it
  starts at a page of the map and has whole pages.
-/
theorem zfreePages_own_iff
    (c : ZoneConfig)
    (elem : Nat) :
    (∀ p ∈ zfreePages c elem, OwnPage c elem p) ↔
      (c.pageSize ≤ c.elemSize → c.splRoutine = false →
        c.pageSize ∣ elem ∧ c.pageSize ∣ c.elemSize ∧
          c.zoneMapMinAddress ≤ elem ∧
          elem + c.elemSize ≤ c.zoneMapMaxAddress) := by
  have hPage := c.page_pos
  unfold zfreePages
  constructor
  · intro hOwn hLe hSpl
    rw [if_pos ⟨hLe, hSpl⟩] at hOwn
    have hOrder : elem / c.pageSize ≤
        (elem + c.elemSize - 1) / c.pageSize :=
      Nat.div_le_div_right (by omega)
    have hFirst := hOwn _
      (mem_pages.mpr ⟨Nat.le_refl _, hOrder⟩)
    have hLast := hOwn _
      (mem_pages.mpr ⟨hOrder, Nat.le_refl _⟩)
    have hLow := Nat.div_mul_le_self elem c.pageSize
    have hHigh := Nat.lt_div_mul_add hPage
      (a := elem + c.elemSize - 1)
    have hAbove := hLast.1.2
    rw [Nat.add_mul, Nat.one_mul] at hAbove
    have hStart := Nat.le_antisymm hLow hFirst.1.1
    have hEnd : ((elem + c.elemSize - 1) / c.pageSize + 1) *
        c.pageSize = elem + c.elemSize := by
      rw [Nat.add_mul, Nat.one_mul]
      omega
    have hDvd : c.pageSize ∣ elem :=
      ⟨_, (Nat.mul_comm _ _ ▸ hStart.symm)⟩
    refine ⟨hDvd, ?_, hStart ▸ hFirst.2.1, hEnd ▸ hLast.2.2⟩
    refine (Nat.dvd_add_right hDvd).mp ?_
    exact ⟨_, (Nat.mul_comm _ _ ▸ hEnd.symm)⟩
  · intro hGood p hp
    split_ifs at hp with hPages
    · rcases hGood hPages.1 hPages.2 with
        ⟨⟨k, hk⟩, ⟨m, hm⟩, hMin, hMax⟩
      rcases mem_pages.mp hp with ⟨hLow, hHigh⟩
      rw [hk, Nat.mul_div_cancel_left _ hPage] at hLow
      have hIn := (Nat.le_div_iff_mul_le hPage).mp hHigh
      have hLess : p < k + m := by
        apply Nat.lt_of_mul_lt_mul_left (a := c.pageSize)
        rw [Nat.mul_add, Nat.mul_comm]
        omega
      have hFrom : elem ≤ p * c.pageSize := by
        rw [hk, Nat.mul_comm]
        exact Nat.mul_le_mul_right _ hLow
      have hTo :
          (p + 1) * c.pageSize ≤ elem + c.elemSize := by
        rw [hk, hm, ← Nat.mul_add, Nat.mul_comm c.pageSize]
        exact Nat.mul_le_mul_right _ hLess
      exact ⟨⟨hFrom, hTo⟩, by omega, by omega⟩
    · cases hp

omit [DecidableEq τ] in
/- What an element of pages gives back, and when it may. -/
theorem zfree_own_iff
    (c : ZoneConfig)
    (elem : Nat) :
    (∀ s s' : ZoneState τ, zfree c s elem true = some s' →
      (∀ p, s'.mapped p =
          if p ∈ zfreePages c elem then false
          else s.mapped p) ∧
        ∀ p, s'.allocCount p =
          if p ∈ zfreePages c elem then zonePageUnused
          else s.allocCount p) ∧
    ((∀ p ∈ zfreePages c elem, OwnPage c elem p) ↔
      (c.pageSize ≤ c.elemSize → c.splRoutine = false →
        c.pageSize ∣ elem ∧ c.pageSize ∣ c.elemSize ∧
          c.zoneMapMinAddress ≤ elem ∧
          elem + c.elemSize ≤ c.zoneMapMaxAddress)) :=
  ⟨fun _ _ => zfree_pages, zfreePages_own_iff c elem⟩

/- Elements of 5000 bytes, four of them in five pages. -/
def odd : ZoneConfig :=
  zinitConfig 4096 twoPageZone.page_pos 0x1000 0x100000
    5000 0

/-
  A thread gets the last element of the first five pages. To
  free it unmaps a page of the element before it.
-/
theorem zfreePages_not_own :
    ∃ s₁ s₂ s₃ s₄ s₅ : ZoneState Unit,
      zoneStep odd
          (zinit Unit ⟨fun _ => false, fun _ => -1, 1, 1⟩
            (fun _ => 0) 0x100000) (.zalloc ()) = some s₁ ∧
      zoneStep odd s₁ (.space () false (some 0x1000)) =
        some s₂ ∧
      zoneStep odd s₂ (.cram ()) = some s₃ ∧
      zoneStep odd s₃ (.finish ()) = some s₄ ∧
      s₄.out = [0x1000 + 15000] ∧
      s₄.freeElements = 0x1000 + 10000 ∧
      zfree odd s₄ (0x1000 + 15000) true = some s₅ ∧
      4 ∈ odd.pages (0x1000 + 10000) odd.elemSize ∧
      s₅.mapped 4 = false ∧
      ¬ ∀ p ∈ zfreePages odd (0x1000 + 15000),
        OwnPage odd (0x1000 + 15000) p := by
  refine ⟨_, _, _, _, _, rfl, rfl, rfl, rfl, rfl, rfl, rfl,
    by decide, rfl, ?_⟩
  intro hOwn
  have hFour := hOwn 4 (by decide)
  exact absurd hFour.1.1 (by decide)

end Kern

end OsfMach
