import Mathlib.Data.List.Nodup
import Mathlib.Logic.Function.Basic

/-
  Doubly linked lists of cells, ended by a null link.

  The first link of a list is in a head. The previous link of
  a cell points to the head or to the cell before it, so that
  a cell can be cut out without knowing its list.

  Main declarations:
    * `Cells.Ref`, `Cells.Links`
    * `Cells.Linked`
    * `Links.cut`, `Links.insertAfter`
    * `Linked.insert`, `Linked.remove`
    * `Linked.insertAfter_frame`, `Linked.cut_frame`
-/

------
-- Links
------

namespace Lib

open Function

namespace Cells

/- What holds a link to a next cell. -/
inductive Ref (κ : Type) where
| head (k : κ) : Ref κ
| cell (a : Nat) : Ref κ
deriving DecidableEq, Repr

structure Links (κ : Type) where
  next : Ref κ → Nat
  prev : Nat → Ref κ

variable {κ : Type} [DecidableEq κ]

namespace Links

def setNext
    (m : Links κ)
    (r : Ref κ)
    (p : Nat) : Links κ :=
  { m with next := update m.next r p }

def setPrev
    (m : Links κ)
    (a : Nat)
    (r : Ref κ) : Links κ :=
  { m with prev := update m.prev a r }

/- Lead `r` on to `q`, and back if there is a cell. -/
def cut
    (m : Links κ)
    (r : Ref κ)
    (q : Nat) : Links κ :=
  if q = 0 then m.setNext r q
  else (m.setNext r q).setPrev q r

/- Put a cell behind `r`. -/
def insertAfter
    (m : Links κ)
    (r : Ref κ)
    (a : Nat) : Links κ :=
  let q := m.next r
  let m := m.setNext r a
  let m := m.setNext (.cell a) q
  let m := m.setPrev a r
  if q = 0 then m else m.setPrev q (.cell a)

variable {m : Links κ} {r r' : Ref κ} {a b p q : Nat}

@[simp] theorem setNext_next :
    (m.setNext r p).next r' =
      if r' = r then p else m.next r' := by
  simp [setNext, update_apply]

@[simp] theorem setNext_prev :
    (m.setNext r p).prev = m.prev := rfl

omit [DecidableEq κ] in
@[simp] theorem setPrev_next :
    (m.setPrev a r).next = m.next := rfl

omit [DecidableEq κ] in
@[simp] theorem setPrev_prev :
    (m.setPrev a r).prev b =
      if b = a then r else m.prev b := by
  simp [setPrev, update_apply]

@[simp] theorem cut_next :
    (m.cut r q).next r' =
      if r' = r then q else m.next r' := by
  unfold cut
  split <;> simp

theorem cut_prev :
    (m.cut r q).prev b =
      if b = q ∧ q ≠ 0 then r else m.prev b := by
  unfold cut
  split <;> rename_i hq
  · simp [hq]
  · simp [hq]

theorem insertAfter_next
    (hNe : r ≠ .cell a) :
    (m.insertAfter r a).next r' =
      if r' = r then a
      else if r' = .cell a then m.next r
      else m.next r' := by
  unfold insertAfter
  dsimp only
  by_cases hr : r' = r
  · subst hr
    split <;> simp [hNe]
  · split <;> simp [hr]

theorem insertAfter_prev
    (hNe : m.next r ≠ a) :
    (m.insertAfter r a).prev b =
      if b = a then r
      else if b = m.next r ∧ m.next r ≠ 0 then .cell a
      else m.prev b := by
  unfold insertAfter
  dsimp only
  split <;> rename_i hq
  · simp [hq]
  · by_cases hb : b = a
    · subst hb
      simp [hNe.symm]
    · simp [hq, hb]

end Links

------
-- Lists
------

/- The links from `r` on run through the cells and end. -/
def Linked (m : Links κ) : Ref κ → List Nat → Prop
| r, [] => m.next r = 0
| r, a :: cells =>
    m.next r = a ∧ a ≠ 0 ∧ m.prev a = r ∧
      Linked m (.cell a) cells

/- What holds the link behind some cells. -/
def lastRef : Ref κ → List Nat → Ref κ
| r, [] => r
| _, a :: cells => lastRef (.cell a) cells

variable {m m' : Links κ} {r : Ref κ} {a : Nat}
variable {cells front back : List Nat}

omit [DecidableEq κ] in
theorem lastRef_ne
    {r' : Ref κ}
    (hFirst : r' ≠ r)
    (hCells : ∀ c ∈ cells, r' ≠ .cell c) :
    r' ≠ lastRef r cells := by
  induction cells generalizing r with
  | nil => exact hFirst
  | cons b cells ih =>
      exact ih (hCells b List.mem_cons_self)
        (fun c hc => hCells c (List.mem_cons_of_mem _ hc))

namespace Linked

omit [DecidableEq κ] in
/- Only the links of the list matter. -/
theorem congr
    (h : Linked m r cells)
    (hHead : m'.next r = m.next r)
    (hNext : ∀ b ∈ cells,
      m'.next (.cell b) = m.next (.cell b))
    (hPrev : ∀ b ∈ cells, m'.prev b = m.prev b) :
    Linked m' r cells := by
  induction cells generalizing r with
  | nil => exact hHead.trans h
  | cons b cells ih =>
      rcases h with ⟨hFirst, hb, hBack, hRest⟩
      refine ⟨hHead.trans hFirst, hb,
        (hPrev b List.mem_cons_self).trans hBack, ?_⟩
      exact ih hRest (hNext b List.mem_cons_self)
        (fun c hc => hNext c (List.mem_cons_of_mem _ hc))
        (fun c hc => hPrev c (List.mem_cons_of_mem _ hc))

omit [DecidableEq κ] in
theorem zero_notMem
    (h : Linked m r cells) :
    0 ∉ cells := by
  induction cells generalizing r with
  | nil => simp
  | cons b cells ih =>
      rcases h with ⟨_, hb, _, hRest⟩
      simp [ih hRest, hb.symm]

omit [DecidableEq κ] in
/- The links determine the list. -/
theorem unique
    {cells' : List Nat}
    (h : Linked m r cells)
    (h' : Linked m r cells') :
    cells = cells' := by
  induction cells generalizing r cells' with
  | nil =>
      cases cells' with
      | nil => rfl
      | cons b cells' => exact absurd (h'.1.symm.trans h) h'.2.1
  | cons b cells ih =>
      cases cells' with
      | nil => exact absurd (h.1.symm.trans h') h.2.1
      | cons c cells' =>
          have hEq : b = c := h.1.symm.trans h'.1
          subst hEq
          rw [ih h.2.2.2 h'.2.2.2]

omit [DecidableEq κ] in
theorem next_eq_zero_iff
    (h : Linked m r cells) :
    m.next r = 0 ↔ cells = [] := by
  cases cells with
  | nil =>
      have hEnd : m.next r = 0 := h
      simp [hEnd]
  | cons b cells => simp [h.1, h.2.1]

omit [DecidableEq κ] in
/- The back part of a list hangs on its front part. -/
theorem back_part
    (h : Linked m r (front ++ back)) :
    Linked m (lastRef r front) back := by
  induction front generalizing r with
  | nil => exact h
  | cons b front ih => exact ih h.2.2.2

omit [DecidableEq κ] in
theorem next_mem
    (h : Linked m r cells)
    (hNe : m.next r ≠ 0) :
    m.next r ∈ cells := by
  cases cells with
  | nil => exact absurd h hNe
  | cons b cells => simp [h.1]

/- A cell put behind a front part is behind it. -/
theorem insert
    (h : Linked m r (front ++ back))
    (ha : a ≠ 0)
    (hNew : a ∉ front ++ back)
    (hNodup : (front ++ back).Nodup)
    (hHead : r ≠ .cell a ∧ ∀ b ∈ front ++ back, r ≠ .cell b) :
    Linked (m.insertAfter (lastRef r front) a) r
      (front ++ a :: back) := by
  induction front generalizing r with
  | nil =>
      have hNext : m.next r ≠ a := by
        intro hEq
        exact hNew (hEq ▸ h.next_mem (hEq ▸ ha))
      rw [lastRef, List.nil_append]
      refine ⟨?_, ha, ?_, ?_⟩
      · simp [Links.insertAfter_next hHead.1]
      · simp [Links.insertAfter_prev hNext]
      · have hCell : (Ref.cell a : Ref κ) ≠ r :=
          hHead.1.symm
        cases back with
        | nil =>
            have hEnd : m.next r = 0 := h
            simp [Linked, Links.insertAfter_next hHead.1,
              hCell, hEnd]
        | cons b back =>
            rcases h with ⟨hFirst, hb, _, hRest⟩
            refine ⟨?_, hb, ?_, ?_⟩
            · simp [Links.insertAfter_next hHead.1, hCell,
                hFirst]
            · have hba : b ≠ a := fun hEq => hNew (by
                simp [hEq])
              simp [Links.insertAfter_prev hNext, hba,
                hFirst, hb]
            · apply hRest.congr
              · rw [Links.insertAfter_next hHead.1]
                grind
              · intro c hc
                rw [Links.insertAfter_next hHead.1]
                grind
              · intro c hc
                rw [Links.insertAfter_prev hNext]
                grind
  | cons b front ih =>
      have hBack := h.back_part
      rcases h with ⟨hFirst, hb, hPrev, hRest⟩
      rw [lastRef] at hBack ⊢
      have hNe : lastRef (.cell b : Ref κ) front ≠ .cell a :=
        (lastRef_ne (by grind) (by grind)).symm
      have hNext : m.next (lastRef (.cell b) front) ≠ a := by
        intro hEq
        have hMem := hBack.next_mem (by rw [hEq]; exact ha)
        rw [hEq] at hMem
        exact hNew (by simp [hMem])
      have hNextB :
          m.next (lastRef (.cell b) front) ≠ b := by
        intro hEq
        have hMem := hBack.next_mem (by rw [hEq]; exact hb)
        grind
      have hOther : r ≠ lastRef (.cell b) front :=
        lastRef_ne (by grind) (by grind)
      refine ⟨?_, hb, ?_, ?_⟩
      · simp [Links.insertAfter_next hNe, hOther, hHead.1,
          hFirst]
      · have hba : b ≠ a := fun hEq => hNew (by simp [hEq])
        simp [Links.insertAfter_prev hNext, hba, hPrev,
          hNextB.symm]
      · apply ih hRest
        · grind
        · grind
        · constructor <;> grind

/-
  A cell of a list points back to what leads to it, and
  leading past it takes it out.
-/
theorem remove
    (h : Linked m r (front ++ a :: back))
    (hNodup : (front ++ a :: back).Nodup)
    (hHead : ∀ b ∈ front ++ a :: back, r ≠ .cell b) :
    m.prev a = lastRef r front ∧
      Linked (m.cut (lastRef r front) (m.next (.cell a))) r
        (front ++ back) := by
  induction front generalizing r with
  | nil =>
      rcases h with ⟨hFirst, ha, hPrev, hRest⟩
      refine ⟨hPrev, ?_⟩
      rw [lastRef, List.nil_append]
      cases back with
      | nil =>
          have hEnd : m.next (.cell a) = 0 := hRest
          simp [Linked, hEnd]
      | cons b back =>
          rcases hRest with ⟨hSecond, hb, _, hTail⟩
          refine ⟨by simp [hSecond], hb, ?_, ?_⟩
          · simp [Links.cut_prev, hSecond, hb]
          · apply hTail.congr
            · rw [Links.cut_next]
              grind
            · intro c hc
              rw [Links.cut_next]
              grind
            · intro c hc
              rw [Links.cut_prev]
              grind
  | cons b front ih =>
      have hBack := h.back_part
      rcases h with ⟨hFirst, hb, hPrev, hRest⟩
      rw [lastRef] at hBack ⊢
      rcases ih hRest (by grind) (by grind) with
        ⟨hPrevA, hList⟩
      have hOther : r ≠ lastRef (.cell b) front :=
        lastRef_ne (by grind) (by grind)
      have hNextB : m.next (.cell a) ≠ b := by
        intro hEq
        have hMem := hBack.2.2.2.next_mem
          (by rw [hEq]; exact hb)
        grind
      refine ⟨hPrevA, ?_, hb, ?_, hList⟩
      · simp [hOther, hFirst]
      · simp [Links.cut_prev, hNextB.symm, hPrev]

/- The first cell of a list is taken out at its head. -/
theorem remove_first
    (h : Linked m r (a :: back))
    (hNodup : (a :: back).Nodup)
    (hHead : ∀ b ∈ a :: back, r ≠ .cell b) :
    Linked (m.cut r (m.next (.cell a))) r back :=
  (@remove _ _ _ _ _ [] _ h hNodup hHead).2

section Frames

variable {q : Ref κ} {p : Nat}

/- Stores into the links of other cells. -/
theorem setNext_frame
    (h : Linked m r cells)
    (hHead : r ≠ q)
    (hCells : ∀ b ∈ cells, q ≠ .cell b) :
    Linked (m.setNext q p) r cells := by
  apply h.congr
  · simp [hHead]
  · intro b hb
    simp [(hCells b hb).symm]
  · intro b _
    rfl

theorem cut_frame
    (h : Linked m r cells)
    (hHead : r ≠ q)
    (hCells : ∀ b ∈ cells, q ≠ .cell b)
    (hNext : p ∉ cells) :
    Linked (m.cut q p) r cells := by
  apply h.congr
  · simp [hHead]
  · intro b hb
    simp [(hCells b hb).symm]
  · intro b hb
    have hNe : b ≠ p := fun hEq => hNext (hEq ▸ hb)
    simp [Links.cut_prev, hNe]

theorem insertAfter_frame
    (h : Linked m r cells)
    (hHead : r ≠ q)
    (hCells : ∀ b ∈ cells, q ≠ .cell b)
    (hNext : m.next q ∉ cells)
    (hNew : a ∉ cells)
    (hFirst : r ≠ .cell a)
    (hLast : q ≠ .cell a)
    (hOther : m.next q ≠ a) :
    Linked (m.insertAfter q a) r cells := by
  apply h.congr
  · simp [Links.insertAfter_next hLast, hHead, hFirst]
  · intro b hb
    have hNe : b ≠ a := fun hEq => hNew (hEq ▸ hb)
    simp [Links.insertAfter_next hLast, hNe, (hCells b hb).symm]
  · intro b hb
    have hNe : b ≠ a := fun hEq => hNew (hEq ▸ hb)
    have hNe' : b ≠ m.next q := fun hEq => hNext (hEq ▸ hb)
    simp [Links.insertAfter_prev hOther, hNe, hNe']

end Frames

end Linked

end Cells

end Lib
