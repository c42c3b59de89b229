import Mathlib.Data.List.GetD
import OsfMach.Ipc.DnRequests

/-
  What a larger table of dead-name requests contains.

  The requests of the old table are copied to their places,
  and the elements after them are added to the free list.

  Main declarations:
    * `grownTable`
    * `RequestSizes.skip_large`, `RequestSizes.skip_none`
    * `addFree_chain`
    * `grownTable_free`, `grownTable_request`
-/

------
-- Choosing a Size
------

namespace OsfMach

namespace Ipc

open List
open Lib
open Lib.Checked

variable {i j count free : Nat}

/- The sizes that are skipped are too small. -/
theorem skipSizes_small
    {target n : Nat}
    (sizes : List Nat)
    (hMem : n ∈ sizes.take (skipSizes target sizes)) :
    n < target := by
  induction sizes with
  | nil => exact absurd hMem (by simp)
  | cons size sizes ih =>
      unfold skipSizes at hMem
      by_cases hSmall : size < target
      · rw [if_pos hSmall, take_succ_cons] at hMem
        rcases mem_cons.mp hMem with hEq | hRest
        · exact hEq ▸ hSmall
        · exact ih hRest
      · rw [if_neg hSmall, take_zero] at hMem
        exact absurd hMem not_mem_nil

/- The size after them is not, if there is one. -/
theorem skipSizes_large
    {target : Nat}
    (sizes : List Nat) :
    skipSizes target sizes = sizes.length ∨
      target ≤ sizes.getD (skipSizes target sizes) 0 := by
  induction sizes with
  | nil => exact .inl rfl
  | cons size sizes ih =>
      unfold skipSizes
      by_cases hSmall : size < target
      · rw [if_pos hSmall, length_cons, getD_cons_succ]
        exact ih.imp (congrArg (· + 1)) id
      · rw [if_neg hSmall, getD_cons_zero]
        exact .inr (Nat.le_of_not_lt hSmall)

section Sizes

variable {z : RequestSizes} {its target : Nat}

theorem RequestSizes.itsSize_eq
    (h : its < z.sizes.length) :
    z.itsSize its = z.sizes[its] :=
  getD_eq_getElem _ _ h

theorem RequestSizes.lt_length
    (h : z.itsSize its ≠ 0) :
    its < z.sizes.length := by
  by_contra hNot
  apply h
  exact getD_eq_default _ _ (Nat.le_of_not_lt hNot)

theorem RequestSizes.itsSize_mem
    (h : its < z.sizes.length) :
    z.itsSize its ∈ z.sizes :=
  (RequestSizes.itsSize_eq h).symm ▸ getElem_mem h

theorem RequestSizes.two_le_itsSize
    (h : its < z.sizes.length) :
    2 ≤ z.itsSize its :=
  z.two_le _ (RequestSizes.itsSize_mem h)

theorem RequestSizes.itsSize_lt
    (hLess : i < j)
    (h : z.itsSize j ≠ 0) :
    z.itsSize i < z.itsSize j := by
  have hj := RequestSizes.lt_length h
  have hi : i < z.sizes.length := by omega
  rw [RequestSizes.itsSize_eq hi, RequestSizes.itsSize_eq hj]
  exact pairwise_iff_getElem.mp z.increasing i j hi hj hLess

/- The loop ends at a size that is large enough, or at zero. -/
theorem RequestSizes.skip_large
    (h : z.itsSize
      (its + skipSizes target (z.sizes.drop its)) ≠ 0) :
    target ≤ z.itsSize
      (its + skipSizes target (z.sizes.drop its)) := by
  have hLt := RequestSizes.lt_length h
  have hIn : skipSizes target (z.sizes.drop its) <
      (z.sizes.drop its).length := by
    rw [length_drop]
    omega
  rcases skipSizes_large (z.sizes.drop its) with hAll | hLarge
  · rw [hAll] at hIn
    exact absurd hIn (Nat.lt_irrefl _)
  · rw [getD_eq_getElem _ _ hIn, getElem_drop] at hLarge
    rw [RequestSizes.itsSize_eq hLt]
    exact hLarge

/- When it ends at zero there is no size for the target. -/
theorem RequestSizes.skip_none
    (hSmall : ∀ i, i < its → z.itsSize i < target)
    (h : z.itsSize
      (its + skipSizes target (z.sizes.drop its)) = 0) :
    ∀ n, n ∈ z.sizes → n < target := by
  intro n hMem
  rcases getElem_of_mem hMem with ⟨i, hi, hEq⟩
  by_cases hBefore : i < its
  · have hLess := hSmall i hBefore
    rw [RequestSizes.itsSize_eq hi, hEq] at hLess
    exact hLess
  · have hEnd : z.sizes.length ≤
        its + skipSizes target (z.sizes.drop its) := by
      by_contra hNot
      have hTwo := RequestSizes.two_le_itsSize
        (Nat.lt_of_not_le hNot)
      omega
    have hAll : (z.sizes.drop its).length ≤
        skipSizes target (z.sizes.drop its) := by
      rw [length_drop]
      omega
    have hIn : n ∈ z.sizes.drop its := by
      apply mem_iff_getElem.mpr
      refine ⟨i - its, by rw [length_drop]; omega, ?_⟩
      rw [getElem_drop]
      simp only [Nat.add_sub_cancel' (Nat.le_of_not_lt hBefore)]
      exact hEq
    apply skipSizes_small (z.sizes.drop its)
    rw [take_of_length_le hAll]
    exact hIn

/- A size that is taken at once is the first that is asked. -/
theorem skip_eq_zero_iff
    (h : its < z.sizes.length) :
    skipSizes target (z.sizes.drop its) = 0 ↔
      target ≤ z.itsSize its := by
  rw [drop_eq_getElem_cons h, RequestSizes.itsSize_eq h]
  unfold skipSizes
  by_cases hSmall : z.sizes[its] < target
  · rw [if_pos hSmall]
    exact iff_of_false (Nat.succ_ne_zero _)
      (Nat.not_le_of_lt hSmall)
  · rw [if_neg hSmall]
    exact iff_of_true rfl (Nat.le_of_not_lt hSmall)

end Sizes

------
-- New Elements
------

section Elements

variable {t : RequestTable}

theorem RequestTable.set_self
    (t : RequestTable)
    (i : Nat)
    (r : IpcPortRequest) :
    (t.set i r).slots i = r :=
  Function.update_self _ _ _

theorem RequestTable.set_of_ne
    (r : IpcPortRequest)
    (h : j ≠ i) :
    (t.set i r).slots j = t.slots j :=
  Function.update_of_ne h _ _

/- The loop leaves the other elements, and the size. -/
theorem addFree_elems
    (count i free : Nat) :
    (addFree t count i free).1.elems = t.elems := by
  induction count generalizing t i free with
  | zero => rfl
  | succ count ih => exact ih (i + 1) i

theorem addFree_other
    (h : j < i ∨ i + count ≤ j) :
    (addFree t count i free).1.slots j = t.slots j := by
  induction count generalizing t i free with
  | zero => rfl
  | succ count ih =>
      have hNe : j ≠ i := by omega
      exact (ih (by omega)).trans
        (RequestTable.set_of_ne _ hNe)

/- The new elements have no names. -/
theorem addFree_name
    (hLow : i ≤ j)
    (hHigh : j < i + count) :
    ((addFree t count i free).1.slots j).iprName =
      machPortNull := by
  induction count generalizing t i free with
  | zero => omega
  | succ count ih =>
      by_cases hEq : j = i
      · subst hEq
        have hSlot : (addFree t (count + 1) j free).1.slots j =
            ⟨free, machPortNull⟩ :=
          (addFree_other (.inl (Nat.lt_succ_self j))).trans
            (RequestTable.set_self t j _)
        rw [hSlot]
        rfl
      · exact ih (by omega) (by omega)

/- They come before what was free. -/
theorem addFree_chain
    (its : Nat)
    {l : List Nat}
    (hPos : i ≠ 0)
    (hBelow : ∀ j, j ∈ l → j < i)
    (hChain : IndexChain.Chain (t.set 0 ⟨free, its⟩).next 0 l) :
    IndexChain.Chain
      ((addFree t count i free).1.set 0
        ⟨(addFree t count i free).2, its⟩).next 0
      ((List.range' i count).reverse ++ l) := by
  induction count generalizing t i free l with
  | zero => exact hChain
  | succ count ih =>
      have hPush : IndexChain.Chain
          ((t.set i ⟨free, machPortNull⟩).set 0
            ⟨i, its⟩).next 0 (i :: l) := by
        refine hChain.push hPos ?_ ?_ ?_
        · exact congrArg IpcPortRequest.iprNext
            (RequestTable.set_self _ 0 _)
        · unfold RequestTable.next
          rw [RequestTable.set_of_ne _ hPos,
            RequestTable.set_self, RequestTable.set_self]
          rfl
        · intro j hMem
          have hLess := hBelow j hMem
          have hNe : j ≠ 0 := by
            intro hZero
            subst hZero
            exact hChain.zero_notMem hMem
          unfold RequestTable.next
          rw [RequestTable.set_of_ne _ hNe,
            RequestTable.set_of_ne _ (Nat.ne_of_lt hLess),
            RequestTable.set_of_ne _ hNe]
      have hBelow' : ∀ j, j ∈ i :: l → j < i + 1 := by
        intro j hMem
        rcases mem_cons.mp hMem with hEq | hOld
        · omega
        · exact Nat.lt_succ_of_lt (hBelow j hOld)
      have hRest := ih (Nat.succ_ne_zero i) hBelow' hPush
      rw [List.range'_succ, reverse_cons, append_assoc]
      exact hRest

end Elements

------
-- The New Table
------

/- Where the new elements start. -/
def firstNew : Option RequestTable → Nat
| none => 1
| some t => t.elems

def freeHead : Option RequestTable → Nat
| none => 0
| some t => t.next 0

/- The new table with the requests of the old one. -/
def copiedTable
    (old : Option RequestTable)
    (new : RequestTable) : RequestTable :=
  match old with
  | none => new
  | some t => { new with
      slots := fun i =>
        if 1 ≤ i ∧ i < t.elems then t.slots i
        else new.slots i }

def grownTable
    (old : Option RequestTable)
    (new : RequestTable)
    (its : Nat) : RequestTable :=
  let r := addFree (copiedTable old new)
    (new.elems - firstNew old) (firstNew old) (freeHead old)
  r.1.set 0 ⟨r.2, its⟩

/- What is free in a table, if there is one. -/
def OldFree : Option RequestTable → List Nat → Prop
| none, free => free = []
| some t, free => FreeRequests t free ∧ 0 < t.elems

section Grown

variable {old : Option RequestTable} {new : RequestTable}
variable {its : Nat} {free : List Nat}

theorem OldFree.pos
    (h : OldFree old free) :
    firstNew old ≠ 0 := by
  cases old with
  | none => exact Nat.one_ne_zero
  | some t => exact Nat.pos_iff_ne_zero.mp h.2

theorem OldFree.lt
    (h : OldFree old free)
    (hMem : i ∈ free) :
    i < firstNew old := by
  cases old with
  | none =>
      have hNil : free = [] := h
      subst hNil
      exact absurd hMem not_mem_nil
  | some t => exact h.1.lt i hMem

theorem OldFree.nodup
    (h : OldFree old free) :
    free.Nodup := by
  cases old with
  | none =>
      have hNil : free = [] := h
      subst hNil
      exact nodup_nil
  | some t => exact h.1.nodup

theorem copied_elems :
    (copiedTable old new).elems = new.elems := by
  cases old with
  | none => rfl
  | some t => rfl

theorem copied_slots
    {t : RequestTable}
    (hPos : i ≠ 0)
    (hLt : i < t.elems) :
    (copiedTable (some t) new).slots i = t.slots i :=
  if_pos ⟨Nat.one_le_iff_ne_zero.mpr hPos, hLt⟩

theorem OldFree.mem_iff
    (h : OldFree old free)
    (hPos : i ≠ 0)
    (hLt : i < firstNew old) :
    i ∈ free ↔
      ((copiedTable old new).slots i).iprName =
        machPortNull := by
  cases old with
  | none =>
      have hZero : i = 0 := Nat.lt_one_iff.mp hLt
      exact absurd hZero hPos
  | some t =>
      rw [copied_slots hPos hLt]
      exact h.1.mem_iff i hPos hLt

theorem OldFree.chain
    (h : OldFree old free) :
    IndexChain.Chain
      ((copiedTable old new).set 0
        ⟨freeHead old, its⟩).next 0 free := by
  cases old with
  | none =>
      have hNil : free = [] := h
      subst hNil
      exact congrArg IpcPortRequest.iprNext
        (RequestTable.set_self _ 0 _)
  | some t =>
      refine h.1.chain.congr fun j hMem => ?_
      unfold RequestTable.next
      rcases mem_cons.mp hMem with hEq | hFree
      · subst hEq
        rfl
      · have hPos : j ≠ 0 := by
          intro hZero
          subst hZero
          exact h.1.chain.zero_notMem hFree
        rw [RequestTable.set_of_ne _ hPos,
          copied_slots hPos (h.1.lt j hFree)]

theorem grownTable_elems :
    (grownTable old new its).elems = new.elems :=
  (addFree_elems _ _ _).trans copied_elems

/- An element of the old table is where it was. -/
theorem grownTable_old
    (hPos : i ≠ 0)
    (hLt : i < firstNew old) :
    (grownTable old new its).slots i =
      (copiedTable old new).slots i :=
  (RequestTable.set_of_ne _ hPos).trans
    (addFree_other (.inl hLt))

theorem grownTable_new
    (hFirst : firstNew old ≠ 0)
    (hLow : firstNew old ≤ i)
    (hHigh : i < new.elems) :
    ((grownTable old new its).slots i).iprName =
      machPortNull := by
  have hPos : i ≠ 0 := by omega
  unfold grownTable
  rw [RequestTable.set_of_ne _ hPos]
  exact addFree_name hLow (by omega)

/- The new elements are free, and then what was free. -/
theorem grownTable_free
    (its : Nat)
    (h : OldFree old free)
    (hMore : firstNew old ≤ new.elems) :
    FreeRequests (grownTable old new its)
      ((List.range' (firstNew old)
        (new.elems - firstNew old)).reverse ++ free) := by
  have hFirst := h.pos
  have hNew : ∀ i, i ∈ (List.range' (firstNew old)
      (new.elems - firstNew old)).reverse ↔
        firstNew old ≤ i ∧ i < new.elems := by
    intro i
    rw [mem_reverse, mem_range'_1]
    omega
  refine ⟨addFree_chain its hFirst (fun j hMem => h.lt hMem)
    h.chain, ?_, ?_, ?_⟩
  · refine List.Nodup.append ?_ h.nodup ?_
    · exact nodup_reverse.mpr nodup_range'
    · intro i hIn hOld
      have hLow := ((hNew i).mp hIn).1
      have hLess := h.lt hOld
      omega
  · intro i hMem
    rw [grownTable_elems]
    rcases mem_append.mp hMem with hIn | hOld
    · exact ((hNew i).mp hIn).2
    · exact Nat.lt_of_lt_of_le (h.lt hOld) hMore
  · intro i hPos hLt
    rw [grownTable_elems] at hLt
    rw [mem_append, hNew]
    by_cases hOld : i < firstNew old
    · rw [grownTable_old hPos hOld, ← h.mem_iff hPos hOld]
      constructor
      · rintro (hIn | hFree)
        · omega
        · exact hFree
      · exact fun hFree => .inr hFree
    · rw [grownTable_new hFirst (Nat.le_of_not_lt hOld) hLt]
      exact iff_of_true
        (.inl ⟨Nat.le_of_not_lt hOld, hLt⟩) rfl

/- The requests are what they were. -/
theorem grownTable_request
    (hFirst : firstNew old ≠ 0)
    (hMore : firstNew old ≤ new.elems)
    (i : Nat) :
    (grownTable old new its).request i =
      old.bind fun t => t.request i := by
  unfold RequestTable.request
  rw [grownTable_elems]
  by_cases hPos : i = 0
  · rw [if_neg fun h => h.1 hPos]
    cases old with
    | none => rfl
    | some t => exact (if_neg fun h => h.1 hPos).symm
  by_cases hOld : i < firstNew old
  · rw [grownTable_old hPos hOld]
    cases old with
    | none => exact absurd (Nat.lt_one_iff.mp hOld) hPos
    | some t =>
        have hLt : i < t.elems := hOld
        have hLess : i < new.elems :=
          Nat.lt_of_lt_of_le hLt hMore
        rw [copied_slots hPos hLt]
        simp only [Option.bind_some, hLt, hLess]
  · have hLow := Nat.le_of_not_lt hOld
    rw [if_neg fun h =>
      h.2.2 (grownTable_new hFirst hLow h.2.1)]
    cases old with
    | none => rfl
    | some t => exact (if_neg fun h => hOld h.2.1).symm

end Grown

end Ipc

end OsfMach
