import OsfMach.Ipc.EntryInv

/-
  What the routines on entries do to a space.

  Every routine that changes entries is a change of one slot
  of the table, of the tree, or of both. The changes are
  described on layouts first and then found in the routines.

  Main declarations:
    * `Layout.claim`, `Layout.release`
    * `Layout.SlotChange`
    * `LayoutInv.claim`, `LayoutInv.has_claim`
    * `LayoutInv.release`, `LayoutInv.has_release`
-/

------
-- Changes of One Slot
------

namespace OsfMach

namespace Ipc

open Function
open Lib

/- Nothing but one entry was pending. -/
theorem pend_ne
    {pend : Option EntryRef}
    {ref ref' : EntryRef}
    (hPend : pend = none ∨ pend = some ref)
    (hNe : ref ≠ ref') :
    pend ≠ some ref' := by
  intro h
  rcases hPend with h' | h'
  · rw [h'] at h
    cases h
  · rw [h'] at h
    cases h
    exact hNe rfl

namespace Layout

variable {L L' : Layout} {pend pend' : Option EntryRef}

/-
  Apart from slot `i` the table denotes the same, and links
  change at most in slots that are not used.
-/
structure SlotChange
    (pend pend' : Option EntryRef)
    (L L' : Layout)
    (i : Nat) : Prop where
  size : L'.size = L.size
  bits :
    ∀ j, j ≠ i → (L'.table j).ieBits = (L.table j).ieBits
  object :
    ∀ j, j ≠ i → (L'.table j).ieObject = (L.table j).ieObject
  used : ∀ j, j ≠ i → (L'.Used pend' j ↔ L.Used pend j)
  same : ∀ j, j ≠ i → L.Used pend j → L'.table j = L.table j

/- Names of other indices stay in the table as they are. -/
theorem SlotChange.inTable_iff
    {i : Nat}
    (hChange : SlotChange pend pend' L L' i)
    {name : Nat}
    (hNe : machPortIndex name ≠ i)
    {content : Content} :
    L'.InTable pend' name content ↔
      L.InTable pend name content := by
  have hUsed := hChange.used _ hNe
  have hBits := hChange.bits _ hNe
  unfold InTable
  rw [hChange.size, hUsed, hBits]
  constructor
  · rintro ⟨hPos, hLt, hIn, hGen, hContent⟩
    rw [hChange.same _ hNe hIn] at hContent
    exact ⟨hPos, hLt, hIn, hGen, hContent⟩
  · rintro ⟨hPos, hLt, hIn, hGen, hContent⟩
    rw [← hChange.same _ hNe hIn] at hContent
    exact ⟨hPos, hLt, hIn, hGen, hContent⟩

/- Claim the slot `i` after its predecessor `p`. -/
def claim
    (L : Layout)
    (p i : Nat)
    (gen : EntryBits) : Layout :=
  (L.setSlot p
    { L.table p with
      ieRequest := (L.table i).ieRequest }).setSlot i
        ⟨gen, (L.table i).ieObject, 0⟩

/- Put the slot `i` in front of the free list. -/
def release
    (L : Layout)
    (i : Nat) : Layout :=
  (L.setSlot i
    ⟨ieBitsGen (L.table i).ieBits, (L.table i).ieObject,
      (L.table 0).ieRequest⟩).setSlot 0
        { L.table 0 with ieRequest := i }

theorem claim_table_self
    (L : Layout)
    (p i : Nat)
    (gen : EntryBits) :
    (L.claim p i gen).table i =
      ⟨gen, (L.table i).ieObject, 0⟩ :=
  update_self ..

theorem claim_table_of_ne
    (L : Layout)
    {p i j : Nat}
    (hNe : j ≠ i)
    (gen : EntryBits) :
    (L.claim p i gen).table j =
      if j = p then
        { L.table p with ieRequest := (L.table i).ieRequest }
      else L.table j := by
  unfold claim setSlot
  dsimp only
  rw [update_of_ne hNe, update_apply]

/- A claim changes the slot claimed. -/
theorem slotChange_claim
    {p i : Nat}
    (hFree : p = 0 ∨ ¬ L.Used none p)
    (hZero : ¬ L.Used none 0)
    (gen : EntryBits) :
    SlotChange none (some (.slot i)) L (L.claim p i gen)
      i := by
  have hUnused : ¬ L.Used none p := by
    rcases hFree with h | h
    · rw [h]
      exact hZero
    · exact h
  have hBits : ∀ j, j ≠ i →
      ((L.claim p i gen).table j).ieBits =
        (L.table j).ieBits := by
    intro j hNe
    rw [claim_table_of_ne L hNe]
    split_ifs with h
    · rw [h]
    · rfl
  refine ⟨rfl, hBits, ?_, ?_, ?_⟩
  · intro j hNe
    rw [claim_table_of_ne L hNe]
    split_ifs with h
    · rw [h]
    · rfl
  · intro j hNe
    unfold Used
    rw [hBits j hNe]
    have hPend :
        some (EntryRef.slot i) ≠ some (.slot j) := by
      intro h
      cases h
      exact hNe rfl
    simp [hPend]
  · intro j hNe hUsed
    rw [claim_table_of_ne L hNe]
    split_ifs with h
    · rw [h] at hUsed
      exact absurd hUsed hUnused
    · rfl

end Layout

------
-- Claiming a Slot
------

namespace LayoutInv

variable {L : Layout} {pend : Option EntryRef}

/- Slot zero is never used. -/
theorem not_used_zero
    (hInv : LayoutInv pend L) :
    ¬ L.Used pend 0 := by
  intro h
  rcases h with h | h
  · exact h hInv.zero_type
  · exact hInv.zero_pend h

section Claim

variable {free : List Nat} {p i : Nat} {gen : EntryBits}

section

variable (hInv : LayoutInv none L)
variable (hList : L.FreeList none free) (hMem : i ∈ free)
variable (hPred : p ∈ 0 :: free)
include hInv hList hMem hPred

/- A claimed slot leaves the free list and is pending. -/
theorem claim
    (hChain : IndexChain.Chain
      (update (fun j => (L.table j).ieRequest) p
        (L.table i).ieRequest) 0 (free.erase i))
    (hGen : ieBitsGen gen = gen) :
    LayoutInv (some (.slot i)) (L.claim p i gen) := by
  rcases hList with ⟨_, hNodup, hFree⟩
  rcases (hFree i).mp hMem with ⟨hPos, hLt, hUnused⟩
  have hNotColl := hInv.not_collides hPos hLt hUnused
  have hChange : Layout.SlotChange none (some (.slot i)) L
      (L.claim p i gen) i := by
    apply Layout.slotChange_claim _ hInv.not_used_zero
    rcases List.mem_cons.mp hPred with h | h
    · exact Or.inl h
    · exact Or.inr ((hFree p).mp h).2.2
  have hSelf := L.claim_table_self p i gen
  have hUsedSelf :
      (L.claim p i gen).Used (some (.slot i)) i :=
    Or.inr rfl
  have hUsed : ∀ j, L.Used none j →
      (L.claim p i gen).Used (some (.slot i)) j := by
    intro j hj
    by_cases hNe : j = i
    · rw [hNe]
      exact hUsedSelf
    · exact (hChange.used j hNe).mpr hj
  have hZero : 0 ≠ i := by omega
  exact
    { size_pos := hInv.size_pos
      size_lt := hInv.size_lt
      free := by
        refine ⟨free.erase i, ?_, hNodup.erase i, ?_⟩
        · apply hChain.congr
          intro j hj
          have hNe : j ≠ i := by
            intro h
            rcases List.mem_cons.mp hj with h' | h'
            · omega
            · rw [h] at h'
              exact hNodup.not_mem_erase h'
          rw [Layout.claim_table_of_ne L hNe, update_apply]
          split_ifs <;> rfl
        · intro j
          rw [hNodup.mem_erase_iff, hFree]
          constructor
          · rintro ⟨hNe, hjPos, hjLt, hjUnused⟩
            exact ⟨hjPos, hjLt, fun h =>
              hjUnused ((hChange.used j hNe).mp h)⟩
          · rintro ⟨hjPos, hjLt, hjUnused⟩
            have hNe : j ≠ i := by
              intro h
              rw [h] at hjUnused
              exact hjUnused hUsedSelf
            exact ⟨hNe, hjPos, hjLt,
              fun h => hjUnused (hUsed j h)⟩
      clean := by
        intro j hjPos hjLt hjUnused
        have hNe : j ≠ i := by
          intro h
          rw [h] at hjUnused
          exact hjUnused hUsedSelf
        rw [hChange.bits j hNe, hChange.object j hNe]
        apply hInv.clean j hjPos hjLt
        intro h
        exact hjUnused (hUsed j h)
      zero_gen := by
        rw [hChange.bits 0 hZero]
        exact hInv.zero_gen
      zero_type := by
        rw [hChange.bits 0 hZero]
        exact hInv.zero_type
      zero_pend := by
        intro h
        cases h
        exact hZero rfl
      coll := by
        intro j hjLt hIn
        by_cases hNe : j = i
        · subst hNe
          have hNone : ieBitsHasCollision gen = false := by
            rw [← hGen]
            exact ieBitsHasCollision_gen gen
          rw [hSelf]
          rw [hNone]
          constructor
          · intro h
            cases h
          · intro h
            exact absurd h hNotColl
        · rw [hChange.bits j hNe]
          apply hInv.coll j hjLt
          rcases hIn with h | h
          · exact Or.inl h
          · exact Or.inr ((hChange.used j hNe).mp h)
      tree_used := by
        intro entry hEntry hePos heLt
        exact hUsed _
          (hInv.tree_used entry hEntry hePos heLt)
      sorted := hInv.sorted
      valid := hInv.valid
      bits := hInv.bits
      typed := by
        intro entry hEntry
        rcases hInv.typed entry hEntry with h | h
        · exact Or.inl h
        · cases h
      apart := by
        intro entry hEntry hePos heLt
        have hNe : machPortIndex entry.1 ≠ i := by
          intro h
          exact hNotColl ⟨entry, hEntry, h⟩
        rw [hChange.bits _ hNe]
        exact hInv.apart entry hEntry hePos heLt }

/- A claim adds one name that denotes nothing yet. -/
theorem has_claim
    (hGen : ieBitsGen gen = gen)
    (name : Nat)
    (content : Content) :
    (L.claim p i gen).Has (some (.slot i)) name content ↔
      L.Has none name content ∨
        (name = machPortMake i gen ∧
          content = Content.fresh) := by
  rcases hList with ⟨_, _, hFree⟩
  rcases (hFree i).mp hMem with ⟨hPos, hLt, hUnused⟩
  have hIndex : i < machIndexBound := hLt.trans hInv.size_lt
  have hChange : Layout.SlotChange none (some (.slot i)) L
      (L.claim p i gen) i := by
    apply Layout.slotChange_claim _ hInv.not_used_zero
    rcases List.mem_cons.mp hPred with h | h
    · exact Or.inl h
    · exact Or.inr ((hFree p).mp h).2.2
  have hSelf := L.claim_table_self p i gen
  have hObject := (hInv.clean i hPos hLt hUnused).2
  have hContent :
      ((L.claim p i gen).table i).content =
        Content.fresh := by
    rw [hSelf, hObject]
    unfold EntryFields.content Content.fresh
    rw [← hGen, ieBitsRight_gen]
  unfold Layout.Has
  by_cases hNe : machPortIndex name = i
  · have hOld : ¬ L.InTable none name content := by
      intro h
      have hUsed := h.2.2.1
      rw [hNe] at hUsed
      exact hUnused hUsed
    have hNew : (L.claim p i gen).InTable (some (.slot i))
        name content ↔ name = machPortMake i gen ∧
          content = Content.fresh := by
      constructor
      · rintro ⟨_, _, _, hEq, hIs⟩
        rw [hNe] at hEq hIs
        rw [hSelf] at hEq
        constructor
        · apply machPort_ext
          · rw [hNe, machPortIndex_make hIndex]
          · rw [← hEq, hGen, machPortGen_make hIndex hGen]
        · exact hIs.symm.trans hContent
      · rintro ⟨hName, hIs⟩
        unfold Layout.InTable
        rw [hNe, hSelf]
        refine ⟨hPos, hLt, Or.inr rfl, ?_, ?_⟩
        · rw [hName, machPortGen_make hIndex hGen]
          exact hGen
        · rw [hIs, ← hContent, hSelf]
    rw [hNew]
    simp only [hOld, false_or]
    exact or_comm
  · have hOther : name ≠ machPortMake i gen := by
      intro h
      rw [h, machPortIndex_make hIndex] at hNe
      exact hNe rfl
    rw [hChange.inTable_iff hNe]
    have hTree : (L.claim p i gen).InTree name content ↔
        L.InTree name content := Iff.rfl
    rw [hTree]
    simp only [hOther, false_and, or_false]

end

end Claim

end LayoutInv

------
-- Releasing a Slot
------

namespace Layout

variable {i : Nat}

theorem release_table_zero
    (L : Layout) :
    (L.release i).table 0 =
      { L.table 0 with ieRequest := i } := by
  unfold release setSlot
  dsimp only
  rw [update_self]

theorem release_table_self
    (L : Layout)
    (hPos : 0 < i) :
    (L.release i).table i =
      ⟨ieBitsGen (L.table i).ieBits, (L.table i).ieObject,
        (L.table 0).ieRequest⟩ := by
  unfold release setSlot
  dsimp only
  rw [update_of_ne (by omega), update_self]

theorem release_table_of_ne
    (L : Layout)
    {i j : Nat}
    (hZero : j ≠ 0)
    (hNe : j ≠ i) :
    (L.release i).table j = L.table j := by
  unfold release setSlot
  dsimp only
  rw [update_of_ne hZero, update_of_ne hNe]

/- A release changes the slot released. -/
theorem slotChange_release
    {L : Layout}
    {pend : Option EntryRef}
    (hPend : pend = none ∨ pend = some (.slot i))
    (hUnused : ¬ L.Used pend 0) :
    SlotChange pend none L (L.release i) i := by
  have hBits : ∀ j, j ≠ i →
      ((L.release i).table j).ieBits =
        (L.table j).ieBits := by
    intro j hNe
    by_cases hZero : j = 0
    · rw [hZero, release_table_zero]
    · rw [release_table_of_ne L hZero hNe]
  refine ⟨rfl, hBits, ?_, ?_, ?_⟩
  · intro j hNe
    by_cases hZero : j = 0
    · rw [hZero, release_table_zero]
    · rw [release_table_of_ne L hZero hNe]
  · intro j hNe
    unfold Used
    rw [hBits j hNe]
    have hOther : pend ≠ some (.slot j) := by
      apply pend_ne hPend
      intro h
      cases h
      exact hNe rfl
    simp [hOther]
  · intro j hNe hUsed
    have hZero : j ≠ 0 := by
      intro h
      rw [h] at hUsed
      exact hUnused hUsed
    exact release_table_of_ne L hZero hNe

end Layout

namespace LayoutInv

variable {L : Layout} {pend : Option EntryRef} {i : Nat}

/- A released slot is free. -/
theorem not_used_release
    (hPos : 0 < i) :
    ¬ (L.release i).Used none i := by
  unfold Layout.Used
  rw [L.release_table_self hPos]
  simp

section

variable (hInv : LayoutInv pend L)
variable (hPend : pend = none ∨ pend = some (.slot i))
variable (hPos : 0 < i)
include hInv hPend hPos

theorem release
    (hLt : i < L.size)
    (hUsed : L.Used pend i)
    (hColl : ¬ L.Collides i)
    (hObject : (L.table i).ieObject = 0) :
    LayoutInv none (L.release i) := by
  have hChange : Layout.SlotChange pend none L
      (L.release i) i :=
    Layout.slotChange_release hPend hInv.not_used_zero
  have hSelf := L.release_table_self hPos
  have hFreed : ¬ (L.release i).Used none i :=
    not_used_release hPos
  exact
    { size_pos := hInv.size_pos
      size_lt := hInv.size_lt
      free := by
        rcases hInv.free with ⟨free, hChain, hNodup, hFree⟩
        have hNotMem : i ∉ free := by
          intro h
          exact ((hFree i).mp h).2.2 hUsed
        refine ⟨i :: free, ?_, ?_, ?_⟩
        · apply hChain.push (by omega)
          · rw [L.release_table_zero]
          · rw [hSelf]
          · intro j hj
            have hjPos := ((hFree j).mp hj).1
            have hNe : j ≠ i := by
              intro h
              rw [h] at hj
              exact hNotMem hj
            rw [L.release_table_of_ne (by omega) hNe]
        · exact List.nodup_cons.mpr ⟨hNotMem, hNodup⟩
        · intro j
          rw [List.mem_cons, hFree]
          by_cases hNe : j = i
          · subst hNe
            simp only [true_or, true_iff]
            exact ⟨hPos, hLt, hFreed⟩
          · rw [hChange.used j hNe]
            simp only [hNe, false_or]
            rfl
      clean := by
        intro j hjPos hjLt hjUnused
        by_cases hNe : j = i
        · subst hNe
          rw [hSelf]
          exact ⟨ieBitsGen_gen _, hObject⟩
        · rw [hChange.bits j hNe, hChange.object j hNe]
          apply hInv.clean j hjPos hjLt
          intro h
          exact hjUnused ((hChange.used j hNe).mpr h)
      zero_gen := by
        exact hInv.zero_gen
      zero_type := by
        exact hInv.zero_type
      zero_pend := by simp
      coll := by
        intro j hjLt hIn
        have hNe : j ≠ i := by
          intro h
          subst h
          rcases hIn with h | h
          · omega
          · exact hFreed h
        rw [hChange.bits j hNe]
        apply hInv.coll j hjLt
        rcases hIn with h | h
        · exact Or.inl h
        · exact Or.inr ((hChange.used j hNe).mp h)
      tree_used := by
        intro entry hEntry hePos heLt
        have hNe : machPortIndex entry.1 ≠ i := by
          intro h
          exact hColl ⟨entry, hEntry, h⟩
        apply (hChange.used _ hNe).mpr
        exact hInv.tree_used entry hEntry hePos heLt
      sorted := hInv.sorted
      valid := hInv.valid
      bits := hInv.bits
      typed := by
        intro entry hEntry
        rcases hInv.typed entry hEntry with h | h
        · exact Or.inl h
        · exact absurd h (pend_ne hPend (by simp))
      apart := by
        intro entry hEntry hePos heLt
        have hNe : machPortIndex entry.1 ≠ i := by
          intro h
          exact hColl ⟨entry, hEntry, h⟩
        rw [hChange.bits _ hNe]
        exact hInv.apart entry hEntry hePos heLt }

/- A release takes one name out. -/
theorem has_release
    (hColl : ¬ L.Collides i)
    {n : Nat}
    (hIndex : machPortIndex n = i)
    (hGen : ieBitsGen (L.table i).ieBits = machPortGen n)
    (name : Nat)
    (content : Content) :
    (L.release i).Has none name content ↔
      L.Has pend name content ∧ name ≠ n := by
  have hChange : Layout.SlotChange pend none L
      (L.release i) i :=
    Layout.slotChange_release hPend hInv.not_used_zero
  have hTree : (L.release i).InTree name content ↔
      L.InTree name content := Iff.rfl
  unfold Layout.Has
  rw [hTree]
  by_cases hNe : machPortIndex name = i
  · have hNew :
        ¬ (L.release i).InTable none name content := by
      intro h
      have hUsed := h.2.2.1
      rw [hNe] at hUsed
      exact not_used_release hPos hUsed
    have hOut : ¬ L.InTree name content := by
      rintro ⟨fields, hMem, _⟩
      exact hColl ⟨_, hMem, hNe⟩
    have hOld : L.InTable pend name content → name = n := by
      rintro ⟨_, _, _, hEq, _⟩
      rw [hNe, hGen] at hEq
      exact machPort_ext (hNe.trans hIndex.symm) hEq.symm
    simp only [hNew, hOut, or_false, false_iff, not_and,
      ne_eq, not_not]
    exact hOld
  · have hOther : name ≠ n := by
      intro h
      rw [h] at hNe
      exact hNe hIndex
    rw [hChange.inTable_iff hNe]
    simp only [hOther, ne_eq, not_false_eq_true, and_true]

end

end LayoutInv

------
-- Changing the Tree
------

namespace Layout

variable {L L' : Layout} {pend pend' : Option EntryRef}

/- No slot of the table is pending. -/
def NoSlot (pend : Option EntryRef) : Prop :=
  ∀ i, pend ≠ some (.slot i)

/- Slot `i` may change its collision flag, nothing else. -/
structure Reflag (L L' : Layout) (i : Nat) : Prop where
  size : L'.size = L.size
  same : ∀ j, j ≠ i → L'.table j = L.table j
  gen :
    ieBitsGen (L'.table i).ieBits =
      ieBitsGen (L.table i).ieBits
  right :
    ieBitsRight (L'.table i).ieBits =
      ieBitsRight (L.table i).ieBits
  object : (L'.table i).ieObject = (L.table i).ieObject
  request : (L'.table i).ieRequest = (L.table i).ieRequest

namespace Reflag

variable {i : Nat}

section

variable (hFlag : Reflag L L' i)
include hFlag

theorem gen_eq
    (j : Nat) :
    ieBitsGen (L'.table j).ieBits =
      ieBitsGen (L.table j).ieBits := by
  by_cases hj : j = i
  · rw [hj]
    exact hFlag.gen
  · rw [hFlag.same j hj]

theorem content_eq
    (j : Nat) :
    (L'.table j).content = (L.table j).content := by
  by_cases hj : j = i
  · unfold EntryFields.content
    rw [hj, hFlag.right, hFlag.object, hFlag.request]
  · rw [hFlag.same j hj]

theorem type_eq
    (j : Nat) :
    ieBitsType (L'.table j).ieBits =
      ieBitsType (L.table j).ieBits := by
  have hContent := hFlag.content_eq j
  have hRight := congrArg Content.right hContent
  have hType := congrArg ieBitsType hRight
  unfold EntryFields.content at hType
  rw [ieBitsType_right, ieBitsType_right] at hType
  exact hType

theorem request_eq
    (j : Nat) :
    (L'.table j).ieRequest = (L.table j).ieRequest :=
  congrArg Content.request (hFlag.content_eq j)

theorem used_iff
    (hPend : NoSlot pend)
    (hPend' : NoSlot pend')
    (j : Nat) :
    L'.Used pend' j ↔ L.Used pend j := by
  unfold Used
  rw [hFlag.type_eq j]
  simp only [hPend j, hPend' j, or_false]

theorem inTable_iff
    (hPend : NoSlot pend)
    (hPend' : NoSlot pend')
    (name : Nat)
    (content : Content) :
    L'.InTable pend' name content ↔
      L.InTable pend name content := by
  unfold InTable
  rw [hFlag.size, hFlag.used_iff hPend hPend', hFlag.gen_eq,
    hFlag.content_eq]

end

end Reflag

end Layout

/-
  A change of the tree under one index keeps the invariant
  when the collision flag of the slot follows it.
-/
theorem LayoutInv.retree
    {L L' : Layout}
    {pend pend' : Option EntryRef}
    {i : Nat}
    (hInv : LayoutInv pend L)
    (hFlag : L.Reflag L' i)
    (hPend : Layout.NoSlot pend)
    (hPend' : Layout.NoSlot pend')
    (hIn : i = 0 ∨ L.Used pend i ∨ L'.table i = L.table i)
    (hColl : i < L.size → i = 0 ∨ L.Used pend i →
      (ieBitsHasCollision (L'.table i).ieBits = true ↔
        L'.Collides i))
    (hOther : ∀ j, j ≠ i → (L'.Collides j ↔ L.Collides j))
    (hSorted : KeySorted L'.entries)
    (hEntries : ∀ entry ∈ L'.entries,
      (0 < entry.1 ∧ entry.1 < machPortDead) ∧
        ieBitsRight entry.2.ieBits = entry.2.ieBits ∧
        (ieBitsType entry.2.ieBits ≠ 0 ∨
          pend' = some (.node entry.1)) ∧
        (0 < machPortIndex entry.1 →
          machPortIndex entry.1 < L.size →
            L.Used pend (machPortIndex entry.1) ∧
              ieBitsGen
                  (L.table (machPortIndex entry.1)).ieBits ≠
                machPortGen entry.1)) :
    LayoutInv pend' L' := by
  have hUsed := hFlag.used_iff hPend hPend'
  have hFree : ∀ j, 0 < j → ¬ L.Used pend j →
      L'.table j = L.table j := by
    intro j hPos hUnused
    by_cases hj : j = i
    · rcases hIn with h | h | h
      · omega
      · rw [← hj] at h
        exact absurd h hUnused
      · rw [hj]
        exact h
    · exact hFlag.same j hj
  exact
    { size_pos := by
        rw [hFlag.size]
        exact hInv.size_pos
      size_lt := by
        rw [hFlag.size]
        exact hInv.size_lt
      free := by
        rcases hInv.free with ⟨free, hChain, hNodup, hMem⟩
        refine ⟨free, ?_, hNodup, ?_⟩
        · apply hChain.congr
          intro j _
          exact hFlag.request_eq j
        · intro j
          rw [hMem, hFlag.size, hUsed]
      clean := by
        intro j hPos hLt hUnused
        rw [hUsed] at hUnused
        rw [hFlag.size] at hLt
        rw [hFree j hPos hUnused]
        exact hInv.clean j hPos hLt hUnused
      zero_gen := by
        rw [hFlag.gen_eq]
        exact hInv.zero_gen
      zero_type := by
        rw [hFlag.type_eq]
        exact hInv.zero_type
      zero_pend := hPend' 0
      coll := by
        intro j hLt hj
        rw [hFlag.size] at hLt
        rw [hUsed] at hj
        by_cases hEq : j = i
        · subst hEq
          exact hColl hLt hj
        · rw [hFlag.same j hEq, hOther j hEq]
          exact hInv.coll j hLt hj
      tree_used := by
        intro entry hEntry hPos hLt
        rw [hFlag.size] at hLt
        rw [hUsed]
        exact ((hEntries entry hEntry).2.2.2 hPos hLt).1
      sorted := hSorted
      valid := fun entry hEntry => (hEntries entry hEntry).1
      bits := fun entry hEntry =>
        (hEntries entry hEntry).2.1
      typed := fun entry hEntry =>
        (hEntries entry hEntry).2.2.1
      apart := by
        intro entry hEntry hPos hLt
        rw [hFlag.size] at hLt
        rw [hFlag.gen_eq]
        exact ((hEntries entry hEntry).2.2.2 hPos hLt).2 }

namespace Layout

theorem mem_smallIndices
    (L : Layout)
    (j : Nat) :
    j ∈ L.smallIndices ↔
      L.Collides j ∧ L.size ≤ j ∧ j < L.limit := by
  unfold smallIndices Collides
  rw [Finset.mem_filter, List.mem_toFinset, List.mem_map]

/- Small indices follow the collisions. -/
theorem smallIndices_insert
    {L L' : Layout}
    {i : Nat}
    (hSize : L'.size = L.size)
    (hLimit : L'.limit = L.limit)
    (hIn : L.size ≤ i ∧ i < L.limit)
    (hColl : ∀ j, L'.Collides j ↔ L.Collides j ∨ j = i) :
    L'.smallIndices = insert i L.smallIndices := by
  ext j
  rw [mem_smallIndices, Finset.mem_insert, mem_smallIndices,
    hSize, hLimit, hColl]
  constructor
  · rintro ⟨h | h, hRange⟩
    · exact Or.inr ⟨h, hRange⟩
    · exact Or.inl h
  · rintro (h | ⟨h, hRange⟩)
    · rw [h]
      exact ⟨Or.inr rfl, hIn⟩
    · exact ⟨Or.inl h, hRange⟩

theorem smallIndices_congr
    {L L' : Layout}
    (hSize : L'.size = L.size)
    (hLimit : L'.limit = L.limit)
    (hColl : ∀ j, L.size ≤ j → j < L.limit →
      (L'.Collides j ↔ L.Collides j)) :
    L'.smallIndices = L.smallIndices := by
  ext j
  rw [mem_smallIndices, mem_smallIndices, hSize, hLimit]
  constructor
  · rintro ⟨h, hLow, hHigh⟩
    exact ⟨(hColl j hLow hHigh).mp h, hLow, hHigh⟩
  · rintro ⟨h, hLow, hHigh⟩
    exact ⟨(hColl j hLow hHigh).mpr h, hLow, hHigh⟩

section Node

variable {L L' : Layout}
variable {small large : List (Nat × EntryFields)} {name : Nat}
variable {fields : EntryFields}

section

variable (hLess : L.entries = small ++ large)
variable (hMore : L'.entries = small ++ (name, fields) :: large)
include hLess hMore

/- Collisions with and without one name of the tree. -/
theorem collides_node_iff
    (j : Nat) :
    L'.Collides j ↔ L.Collides j ∨ j = machPortIndex name := by
  unfold Collides
  rw [hLess, hMore]
  simp only [List.mem_append, List.mem_cons]
  constructor
  · rintro ⟨entry, hMem, hIndex⟩
    rcases hMem with h | h | h
    · exact Or.inl ⟨entry, Or.inl h, hIndex⟩
    · rw [h] at hIndex
      exact Or.inr hIndex.symm
    · exact Or.inl ⟨entry, Or.inr h, hIndex⟩
  · intro h
    rcases h with ⟨entry, h | h, hIndex⟩ | h
    · exact ⟨entry, Or.inl h, hIndex⟩
    · exact ⟨entry, Or.inr (Or.inr h), hIndex⟩
    · exact ⟨(name, fields), Or.inr (Or.inl rfl), h.symm⟩

theorem collides_node_of_ne
    {j : Nat}
    (hNe : j ≠ machPortIndex name) :
    L'.Collides j ↔ L.Collides j := by
  rw [collides_node_iff hLess hMore]
  simp [hNe]

/- The tree with and without one name. -/
theorem inTree_node_iff
    (other : Nat)
    (content : Content) :
    L'.InTree other content ↔
      L.InTree other content ∨
        (other = name ∧ content = fields.content) := by
  unfold InTree
  rw [hLess, hMore]
  simp only [List.mem_append, List.mem_cons, Prod.mk.injEq]
  constructor
  · rintro ⟨f, hMem, hContent⟩
    rcases hMem with h | ⟨hName, hFields⟩ | h
    · exact Or.inl ⟨f, Or.inl h, hContent⟩
    · rw [hFields] at hContent
      exact Or.inr ⟨hName, hContent.symm⟩
    · exact Or.inl ⟨f, Or.inr h, hContent⟩
  · intro h
    rcases h with ⟨f, h | h, hContent⟩ | ⟨hName, hContent⟩
    · exact ⟨f, Or.inl h, hContent⟩
    · exact ⟨f, Or.inr (Or.inr h), hContent⟩
    · exact ⟨fields, Or.inr (Or.inl ⟨hName, rfl⟩),
        hContent.symm⟩

/- A name taken out of a sorted tree is gone. -/
theorem not_inTree_of_removed
    (hSorted : KeySorted L'.entries)
    (content : Content) :
    ¬ L.InTree name content := by
  rintro ⟨f, hMem, _⟩
  rw [hMore] at hSorted
  rw [hLess] at hMem
  have hGone := hSorted.lookup_remove name
  rw [if_pos rfl] at hGone
  rw [hSorted.remove_middle.lookup_of_mem hMem] at hGone
  cases hGone

end

end Node

end Layout

/- The entries of a tree with and without one of them. -/
theorem mem_middle_iff
    {α : Type}
    {small large : List α}
    {a b : α} :
    a ∈ small ++ b :: large ↔
      a ∈ small ++ large ∨ a = b := by
  rw [List.mem_append, List.mem_append, List.mem_cons,
    or_assoc, or_comm (a := a = b)]

namespace LayoutInv

variable {L L' : Layout} {pend : Option EntryRef}
variable {small large : List (Nat × EntryFields)} {name : Nat}

/- A new name in the tree is pending. -/
theorem addNode
    (hInv : LayoutInv none L)
    (hLess : L.entries = small ++ large)
    (hMore : L'.entries =
      small ++ (name, ⟨0, 0, 0⟩) :: large)
    (hFlag : L.Reflag L' (machPortIndex name))
    (hOut : L.size ≤ machPortIndex name →
      L'.table (machPortIndex name) =
        L.table (machPortIndex name))
    (hSet : machPortIndex name < L.size →
      ieBitsHasCollision
        (L'.table (machPortIndex name)).ieBits = true)
    (hSorted : KeySorted L'.entries)
    (hValid : 0 < name ∧ name < machPortDead)
    (hSlot : 0 < machPortIndex name →
      machPortIndex name < L.size →
        L.Used none (machPortIndex name) ∧
          ieBitsGen (L.table (machPortIndex name)).ieBits ≠
            machPortGen name) :
    LayoutInv (some (.node name)) L' := by
  have hColl := Layout.collides_node_iff hLess hMore
  apply hInv.retree hFlag _ _ _ _ _ hSorted
  · intro entry hEntry
    rw [hMore] at hEntry
    have hOld : entry ∈ L.entries ∨
        entry = (name, ⟨0, 0, 0⟩) := by
      rw [hLess]
      exact mem_middle_iff.mp hEntry
    rcases hOld with h | h
    · refine ⟨hInv.valid entry h, hInv.bits entry h, ?_, ?_⟩
      · rcases hInv.typed entry h with h' | h'
        · exact Or.inl h'
        · cases h'
      · intro hPos hLt
        exact ⟨hInv.tree_used entry h hPos hLt,
          hInv.apart entry h hPos hLt⟩
    · subst h
      exact ⟨hValid, ieBitsRight_zero, Or.inr rfl, hSlot⟩
  · intro i h
    cases h
  · intro i h
    cases h
  · rcases Nat.lt_or_ge (machPortIndex name) L.size with
      hLt | hGe
    · rcases Nat.eq_zero_or_pos (machPortIndex name) with
        h | h
      · exact Or.inl h
      · exact Or.inr (Or.inl (hSlot h hLt).1)
    · exact Or.inr (Or.inr (hOut hGe))
  · intro hLt _
    constructor
    · intro _
      exact (hColl _).mpr (Or.inr rfl)
    · intro _
      exact hSet hLt
  · intro j hNe
    exact Layout.collides_node_of_ne hLess hMore hNe

theorem has_addNode
    (hLess : L.entries = small ++ large)
    (hMore : L'.entries =
      small ++ (name, ⟨0, 0, 0⟩) :: large)
    (hFlag : L.Reflag L' (machPortIndex name))
    (other : Nat)
    (content : Content) :
    L'.Has (some (.node name)) other content ↔
      L.Has none other content ∨
        (other = name ∧ content = Content.fresh) := by
  have hTable := @Layout.Reflag.inTable_iff L L' none
    (some (.node name)) _ hFlag
    (by
      intro i h
      cases h)
    (by
      intro i h
      cases h)
    other content
  have hTree := Layout.inTree_node_iff hLess hMore other
    content
  have hFresh : EntryFields.content ⟨0, 0, 0⟩ =
      Content.fresh := rfl
  unfold Layout.Has
  rw [hTable, hTree, hFresh, or_assoc]

/- The name pending is gone from the tree. -/
theorem removeNode
    {fields : EntryFields}
    (hInv : LayoutInv pend L)
    (hPend : pend = none ∨ pend = some (.node name))
    (hMore : L.entries = small ++ (name, fields) :: large)
    (hLess : L'.entries = small ++ large)
    (hFlag : L.Reflag L' (machPortIndex name))
    (hOut : L.size ≤ machPortIndex name →
      L'.table (machPortIndex name) =
        L.table (machPortIndex name))
    (hSet : machPortIndex name < L.size →
      (ieBitsHasCollision
          (L'.table (machPortIndex name)).ieBits = true ↔
        L'.Collides (machPortIndex name))) :
    LayoutInv none L' := by
  have hSorted : KeySorted L'.entries := by
    have h := hInv.sorted
    rw [hMore] at h
    rw [hLess]
    exact h.remove_middle
  have hNoSlot : Layout.NoSlot pend :=
    fun i => pend_ne hPend (by simp)
  have hMem : (name, fields) ∈ L.entries := by
    rw [hMore]
    simp
  apply hInv.retree hFlag hNoSlot _ _ _ _ hSorted
  · intro entry hEntry
    have hOld : entry ∈ L.entries := by
      rw [hMore]
      rw [hLess] at hEntry
      exact mem_middle_iff.mpr (Or.inl hEntry)
    have hNe : entry.1 ≠ name := by
      intro h
      apply Layout.not_inTree_of_removed hLess hMore
        hInv.sorted entry.2.content
      rw [← h]
      exact ⟨entry.2, hEntry, rfl⟩
    refine ⟨hInv.valid entry hOld, hInv.bits entry hOld, ?_, ?_⟩
    · rcases hInv.typed entry hOld with h | h
      · exact Or.inl h
      · refine absurd h (pend_ne hPend ?_)
        intro h'
        cases h'
        exact hNe rfl
    · intro hPos hLt
      exact ⟨hInv.tree_used entry hOld hPos hLt,
        hInv.apart entry hOld hPos hLt⟩
  · intro i h
    cases h
  · rcases Nat.lt_or_ge (machPortIndex name) L.size with
      hLt | hGe
    · rcases Nat.eq_zero_or_pos (machPortIndex name) with
        h | h
      · exact Or.inl h
      · exact Or.inr (Or.inl
          (hInv.tree_used (name, fields) hMem h hLt))
    · exact Or.inr (Or.inr (hOut hGe))
  · intro hLt _
    exact hSet hLt
  · intro j hNe
    exact (Layout.collides_node_of_ne hLess hMore hNe).symm

theorem has_removeNode
    {fields : EntryFields}
    (hInv : LayoutInv pend L)
    (hPend : pend = none ∨ pend = some (.node name))
    (hMore : L.entries = small ++ (name, fields) :: large)
    (hLess : L'.entries = small ++ large)
    (hFlag : L.Reflag L' (machPortIndex name))
    (other : Nat)
    (content : Content) :
    L'.Has none other content ↔
      L.Has pend other content ∧ other ≠ name := by
  have hNoSlot : Layout.NoSlot pend :=
    fun i => pend_ne hPend (by simp)
  have hTable := @Layout.Reflag.inTable_iff L L' pend none _
    hFlag hNoSlot
    (by
      intro i h
      cases h)
    other content
  have hTree := Layout.inTree_node_iff hLess hMore other
    content
  have hMem : (name, fields) ∈ L.entries := by
    rw [hMore]
    simp
  have hGone := Layout.not_inTree_of_removed hLess hMore
    hInv.sorted content
  have hApart := hInv.not_inTable hMem content
  unfold Layout.Has
  rw [hTable, hTree]
  by_cases hName : other = name
  · subst hName
    simp only [ne_eq, not_true_eq_false, and_false,
      iff_false, not_or]
    exact ⟨hApart, hGone⟩
  · simp [hName]

end LayoutInv

------
-- Refilling a Slot from the Tree
------

/-
  Slot `i` takes over the name `name` from the tree, in
  place of the name it had.
-/
structure Layout.Refill
    (L L' : Layout)
    (name : Nat)
    (fields : EntryFields) : Prop where
  size : L'.size = L.size
  same :
    ∀ j, j ≠ machPortIndex name → L'.table j = L.table j
  gen :
    ieBitsGen (L'.table (machPortIndex name)).ieBits =
      machPortGen name
  content :
    (L'.table (machPortIndex name)).content = fields.content
  flag :
    ieBitsHasCollision
        (L'.table (machPortIndex name)).ieBits = true ↔
      L'.Collides (machPortIndex name)
  more :
    ∃ small large,
      L.entries = small ++ (name, fields) :: large ∧
        L'.entries = small ++ large

namespace LayoutInv

variable {L L' : Layout} {pend : Option EntryRef} {name : Nat}
variable {fields : EntryFields}

theorem slotChange_refill
    (hRefill : L.Refill L' name fields)
    (hPend : pend = none ∨
      pend = some (.slot (machPortIndex name))) :
    Layout.SlotChange pend none L L'
      (machPortIndex name) := by
  refine ⟨hRefill.size, ?_, ?_, ?_, ?_⟩
  · intro j hNe
    rw [hRefill.same j hNe]
  · intro j hNe
    rw [hRefill.same j hNe]
  · intro j hNe
    have hOther : pend ≠ some (.slot j) := by
      apply pend_ne hPend
      intro h
      cases h
      exact hNe rfl
    unfold Layout.Used
    rw [hRefill.same j hNe]
    simp [hOther]
  · intro j hNe _
    exact hRefill.same j hNe

section

variable (hInv : LayoutInv pend L)
variable (hRefill : L.Refill L' name fields)
include hInv hRefill

/- The refilled slot is in use. -/
theorem used_refill
    (hPend : pend = none ∨
      pend = some (.slot (machPortIndex name))) :
    L'.Used none (machPortIndex name) := by
  rcases hRefill.more with ⟨small, large, hMore, _⟩
  have hMem : (name, fields) ∈ L.entries := by
    rw [hMore]
    simp
  have hType : ieBitsType fields.ieBits ≠ 0 := by
    rcases hInv.typed _ hMem with h | h
    · exact h
    · exact absurd h (pend_ne hPend (by simp))
  left
  have hContent :=
    congrArg (fun c => ieBitsType c.right) hRefill.content
  unfold EntryFields.content at hContent
  rw [ieBitsType_right, ieBitsType_right] at hContent
  rw [hContent]
  exact hType

theorem refill
    (hPend : pend = none ∨
      pend = some (.slot (machPortIndex name)))
    (hPos : 0 < machPortIndex name)
    (hUsed : L.Used pend (machPortIndex name)) :
    LayoutInv none L' := by
  have hChange := slotChange_refill hRefill hPend
  have hFilled := hInv.used_refill hRefill hPend
  rcases hRefill.more with ⟨small, large, hMore, hLess⟩
  have hSubset : ∀ entry ∈ L'.entries,
      entry ∈ L.entries := by
    intro entry hEntry
    rw [hLess] at hEntry
    rw [hMore]
    exact mem_middle_iff.mpr (Or.inl hEntry)
  have hUsedIff : ∀ j, L'.Used none j ↔ L.Used pend j := by
    intro j
    by_cases hj : j = machPortIndex name
    · rw [hj]
      exact ⟨fun _ => hUsed, fun _ => hFilled⟩
    · exact hChange.used j hj
  have hZero : 0 ≠ machPortIndex name := by omega
  exact
    { size_pos := by
        rw [hRefill.size]
        exact hInv.size_pos
      size_lt := by
        rw [hRefill.size]
        exact hInv.size_lt
      free := by
        rcases hInv.free with ⟨free, hChain, hNodup, hMem⟩
        refine ⟨free, ?_, hNodup, ?_⟩
        · apply hChain.congr
          intro j hj
          have hNe : j ≠ machPortIndex name := by
            intro h
            rcases List.mem_cons.mp hj with h' | h'
            · omega
            · rw [h] at h'
              exact ((hMem _).mp h').2.2 hUsed
          rw [hRefill.same j hNe]
        · intro j
          rw [hMem, hRefill.size, hUsedIff]
      clean := by
        intro j hjPos hLt hUnused
        rw [hUsedIff] at hUnused
        rw [hRefill.size] at hLt
        have hNe : j ≠ machPortIndex name := by
          intro h
          rw [h] at hUnused
          exact hUnused hUsed
        rw [hRefill.same j hNe]
        exact hInv.clean j hjPos hLt hUnused
      zero_gen := by
        rw [hRefill.same 0 hZero]
        exact hInv.zero_gen
      zero_type := by
        rw [hRefill.same 0 hZero]
        exact hInv.zero_type
      zero_pend := by simp
      coll := by
        intro j hLt hj
        by_cases hEq : j = machPortIndex name
        · rw [hEq]
          exact hRefill.flag
        · rw [hRefill.size] at hLt
          rw [hUsedIff] at hj
          rw [hRefill.same j hEq,
            ← Layout.collides_node_of_ne hLess hMore hEq]
          exact hInv.coll j hLt hj
      tree_used := by
        intro entry hEntry hePos hLt
        rw [hRefill.size] at hLt
        rw [hUsedIff]
        exact hInv.tree_used entry (hSubset entry hEntry)
          hePos hLt
      sorted := by
        have h := hInv.sorted
        rw [hMore] at h
        rw [hLess]
        exact h.remove_middle
      valid := fun entry hEntry =>
        hInv.valid entry (hSubset entry hEntry)
      bits := fun entry hEntry =>
        hInv.bits entry (hSubset entry hEntry)
      typed := by
        intro entry hEntry
        rcases hInv.typed entry (hSubset entry hEntry) with
          h | h
        · exact Or.inl h
        · exact absurd h (pend_ne hPend (by simp))
      apart := by
        intro entry hEntry hePos hLt
        rw [hRefill.size] at hLt
        by_cases hEq :
          machPortIndex entry.1 = machPortIndex name
        · rw [hEq, hRefill.gen]
          intro hGen
          have hName := machPort_ext hEq hGen.symm
          apply Layout.not_inTree_of_removed hLess hMore
            hInv.sorted entry.2.content
          rw [← hName]
          exact ⟨entry.2, hEntry, rfl⟩
        · rw [hRefill.same _ hEq]
          exact hInv.apart entry (hSubset entry hEntry)
            hePos hLt }

/- The name that the slot had is gone. -/
theorem has_refill
    (hPend : pend = none ∨
      pend = some (.slot (machPortIndex name)))
    (hPos : 0 < machPortIndex name)
    (hLt : machPortIndex name < L.size)
    {n : Nat}
    (hIndex : machPortIndex n = machPortIndex name)
    (hGen :
      ieBitsGen (L.table (machPortIndex name)).ieBits =
        machPortGen n)
    (other : Nat)
    (content : Content) :
    L'.Has none other content ↔
      L.Has pend other content ∧ other ≠ n := by
  have hChange := slotChange_refill hRefill hPend
  have hFilled := hInv.used_refill hRefill hPend
  rcases hRefill.more with ⟨small, large, hMore, hLess⟩
  have hMem : (name, fields) ∈ L.entries := by
    rw [hMore]
    simp
  have hTree := Layout.inTree_node_iff hLess hMore other
    content
  have hOut : n ≠ name := by
    intro h
    rw [h] at hGen
    exact hInv.apart _ hMem hPos hLt hGen
  unfold Layout.Has
  rw [hTree]
  by_cases hEq : machPortIndex other = machPortIndex name
  · -- the slot held `n` before and holds `name` now
    have hNew : L'.InTable none other content ↔
        other = name ∧ content = fields.content := by
      constructor
      · rintro ⟨_, _, _, hGen', hContent⟩
        rw [hEq] at hGen' hContent
        constructor
        · exact machPort_ext hEq
            (hGen'.symm.trans hRefill.gen)
        · exact hContent.symm.trans hRefill.content
      · rintro ⟨hName, hContent⟩
        rw [hName]
        refine ⟨hPos, ?_, hFilled, hRefill.gen, ?_⟩
        · rw [hRefill.size]
          exact hLt
        · rw [hContent]
          exact hRefill.content
    have hOld : L.InTable pend other content → other = n := by
      rintro ⟨_, _, _, hGen', _⟩
      rw [hEq, hGen] at hGen'
      exact machPort_ext (hEq.trans hIndex.symm) hGen'.symm
    have hNotTree : other = n →
        ¬ L'.InTree other content := by
      rintro hName ⟨f, hf, _⟩
      have hf' : (other, f) ∈ L.entries := by
        rw [hLess] at hf
        rw [hMore]
        exact mem_middle_iff.mpr (Or.inl hf)
      apply hInv.apart _ hf'
      · rw [hEq]
        exact hPos
      · rw [hEq]
        exact hLt
      · rw [hEq, hName]
        exact hGen
    rw [hNew]
    by_cases hName : other = n
    · subst hName
      have hTree' := hNotTree rfl
      have hNe : ¬ (other = name ∧
          content = fields.content) := fun h => hOut h.1
      simp only [hNe, hTree', ne_eq, not_true_eq_false,
        and_false, or_false]
    · have hNotOld : ¬ L.InTable pend other content :=
        fun h => hName (hOld h)
      simp only [hNotOld, false_or, hName, ne_eq,
        not_false_eq_true, and_true]
      exact or_comm
  · have hName : other ≠ n := by
      intro h
      rw [h] at hEq
      exact hEq hIndex
    have hName' : other ≠ name := by
      intro h
      rw [h] at hEq
      exact hEq rfl
    rw [hChange.inTable_iff hEq]
    simp only [hName, hName', false_and, or_false, ne_eq,
      not_false_eq_true, and_true]

end

end LayoutInv

------
-- Storing into an Entry
------

/- Store what an entry denotes, keeping how it is kept. -/
def Layout.storeNode
    (L : Layout)
    (name : Nat)
    (fields : EntryFields) : Layout :=
  { L with
    entries := L.entries.map (fun entry =>
      (entry.1,
        if entry.1 = name then fields else entry.2)) }

namespace LayoutInv

variable {L : Layout} {pend : Option EntryRef} {name : Nat}
variable {fields : EntryFields}

theorem slotChange_storeSlot
    {i : Nat}
    (hPend : pend = none ∨ pend = some (.slot i)) :
    Layout.SlotChange pend none L (L.setSlot i fields)
      i := by
  have hSame : ∀ j, j ≠ i →
      (L.setSlot i fields).table j = L.table j :=
    fun j hNe => update_of_ne hNe ..
  refine ⟨rfl, ?_, ?_, ?_, ?_⟩
  · intro j hNe
    rw [hSame j hNe]
  · intro j hNe
    rw [hSame j hNe]
  · intro j hNe
    have hOther : pend ≠ some (.slot j) := by
      apply pend_ne hPend
      intro h
      cases h
      exact hNe rfl
    unfold Layout.Used
    rw [hSame j hNe]
    simp [hOther]
  · intro j hNe _
    exact hSame j hNe

section

variable (hInv : LayoutInv pend L)
include hInv

/- A store into a slot in use. -/
theorem storeSlot
    {i : Nat}
    (fields : EntryFields)
    (hPend : pend = none ∨ pend = some (.slot i))
    (hPos : 0 < i)
    (hUsed : L.Used pend i)
    (hType : ieBitsType fields.ieBits ≠ 0)
    (hGen : ieBitsGen fields.ieBits =
      ieBitsGen (L.table i).ieBits)
    (hFlag : ieBitsHasCollision fields.ieBits =
      ieBitsHasCollision (L.table i).ieBits) :
    LayoutInv none (L.setSlot i fields) := by
  have hChange := @slotChange_storeSlot L pend fields i hPend
  have hSame : ∀ j, j ≠ i →
      (L.setSlot i fields).table j = L.table j :=
    fun j hNe => update_of_ne hNe ..
  have hSelf : (L.setSlot i fields).table i = fields :=
    update_self ..
  have hUsedIff : ∀ j,
      (L.setSlot i fields).Used none j ↔ L.Used pend j := by
    intro j
    by_cases hj : j = i
    · subst hj
      refine ⟨fun _ => hUsed, fun _ => ?_⟩
      left
      rw [hSelf]
      exact hType
    · exact hChange.used j hj
  have hGenIff : ∀ j,
      ieBitsGen ((L.setSlot i fields).table j).ieBits =
        ieBitsGen (L.table j).ieBits := by
    intro j
    by_cases hj : j = i
    · subst hj
      rw [hSelf]
      exact hGen
    · rw [hSame j hj]
  have hZero : 0 ≠ i := by omega
  exact
    { size_pos := hInv.size_pos
      size_lt := hInv.size_lt
      free := by
        rcases hInv.free with ⟨free, hChain, hNodup, hMem⟩
        refine ⟨free, ?_, hNodup, ?_⟩
        · apply hChain.congr
          intro j hj
          have hNe : j ≠ i := by
            intro h
            rcases List.mem_cons.mp hj with h' | h'
            · omega
            · rw [h] at h'
              exact ((hMem _).mp h').2.2 hUsed
          rw [hSame j hNe]
        · intro j
          rw [hMem, hUsedIff]
          rfl
      clean := by
        intro j hjPos hLt hUnused
        rw [hUsedIff] at hUnused
        have hNe : j ≠ i := by
          intro h
          rw [h] at hUnused
          exact hUnused hUsed
        rw [hSame j hNe]
        exact hInv.clean j hjPos hLt hUnused
      zero_gen := by
        rw [hSame 0 hZero]
        exact hInv.zero_gen
      zero_type := by
        rw [hSame 0 hZero]
        exact hInv.zero_type
      zero_pend := by simp
      coll := by
        intro j hLt hj
        rw [hUsedIff] at hj
        have hOld := hInv.coll j hLt hj
        by_cases hEq : j = i
        · subst hEq
          rw [hSelf, hFlag]
          exact hOld
        · rw [hSame j hEq]
          exact hOld
      tree_used := by
        intro entry hEntry hePos hLt
        rw [hUsedIff]
        exact hInv.tree_used entry hEntry hePos hLt
      sorted := hInv.sorted
      valid := hInv.valid
      bits := hInv.bits
      typed := by
        intro entry hEntry
        rcases hInv.typed entry hEntry with h | h
        · exact Or.inl h
        · exact absurd h (pend_ne hPend (by simp))
      apart := by
        intro entry hEntry hePos hLt
        rw [hGenIff]
        exact hInv.apart entry hEntry hePos hLt }

theorem has_storeSlot
    (hPend : pend = none ∨
      pend = some (.slot (machPortIndex name)))
    (hPos : 0 < machPortIndex name)
    (hLt : machPortIndex name < L.size)
    (hType : ieBitsType fields.ieBits ≠ 0)
    (hGen : ieBitsGen (L.table (machPortIndex name)).ieBits =
      machPortGen name)
    (hGen' : ieBitsGen fields.ieBits = machPortGen name)
    (other : Nat)
    (content : Content) :
    (L.setSlot (machPortIndex name) fields).Has none other
        content ↔
      if other = name then content = fields.content
      else L.Has pend other content := by
  have hChange := @slotChange_storeSlot L pend fields _ hPend
  have hSelf : (L.setSlot (machPortIndex name) fields).table
      (machPortIndex name) = fields :=
    update_self ..
  have hTree :
      (L.setSlot (machPortIndex name) fields).InTree other
        content ↔ L.InTree other content := Iff.rfl
  unfold Layout.Has
  rw [hTree]
  by_cases hEq : machPortIndex other = machPortIndex name
  · have hNew :
        (L.setSlot (machPortIndex name) fields).InTable none
          other content ↔
        other = name ∧ content = fields.content := by
      constructor
      · rintro ⟨_, _, _, hIs, hContent⟩
        rw [hEq, hSelf] at hIs hContent
        exact ⟨machPort_ext hEq (hIs.symm.trans hGen'),
          hContent.symm⟩
      · rintro ⟨hName, hContent⟩
        subst hName
        refine ⟨hPos, hLt, Or.inl ?_, ?_, ?_⟩
        · rw [hSelf]
          exact hType
        · rw [hSelf]
          exact hGen'
        · rw [hSelf]
          exact hContent.symm
    have hOld : L.InTable pend other content →
        other = name := by
      rintro ⟨_, _, _, hIs, _⟩
      rw [hEq, hGen] at hIs
      exact machPort_ext hEq hIs.symm
    rw [hNew]
    split_ifs with hName
    · subst hName
      have hOut : ¬ L.InTree other content := by
        rintro ⟨f, hMem, _⟩
        exact hInv.apart _ hMem hPos hLt hGen
      simp only [hOut, or_false, true_and]
    · have hNotOld : ¬ L.InTable pend other content :=
        fun h => hName (hOld h)
      simp only [hName, false_and, false_or, hNotOld]
  · have hName : other ≠ name := by
      intro h
      rw [h] at hEq
      exact hEq rfl
    rw [hChange.inTable_iff hEq, if_neg hName]

/- A store into an entry of the tree. -/
theorem storeNode
    (fields : EntryFields)
    (hPend : pend = none ∨ pend = some (.node name))
    (hType : ieBitsType fields.ieBits ≠ 0)
    (hBits : ieBitsRight fields.ieBits = fields.ieBits) :
    LayoutInv none (L.storeNode name fields) := by
  have hNoSlot : Layout.NoSlot pend :=
    fun i => pend_ne hPend (by simp)
  have hColl : ∀ j, (L.storeNode name fields).Collides j ↔
      L.Collides j := by
    intro j
    unfold Layout.Collides Layout.storeNode
    simp
  -- no slot changes, so any slot may be named
  have hFlag : L.Reflag (L.storeNode name fields) 0 :=
    ⟨rfl, fun _ _ => rfl, rfl, rfl, rfl, rfl⟩
  apply hInv.retree hFlag hNoSlot
    (by
      intro i h
      cases h)
    (Or.inr (Or.inr rfl))
    (by
      intro hLt hIn
      rw [hColl]
      exact hInv.coll 0 hLt hIn)
    (fun j _ => hColl j)
    (hInv.sorted.map_val _)
  intro entry hEntry
  rcases List.mem_map.mp hEntry with ⟨old, hOld, hEq⟩
  subst hEq
  refine ⟨hInv.valid old hOld, ?_, Or.inl ?_, ?_⟩
  · split_ifs with h
    · exact hBits
    · exact hInv.bits old hOld
  · split_ifs with h
    · exact hType
    · rcases hInv.typed old hOld with h' | h'
      · exact h'
      · refine absurd h' (pend_ne hPend ?_)
        intro h''
        cases h''
        exact h rfl
  · intro hPos hLt
    exact ⟨hInv.tree_used old hOld hPos hLt,
      hInv.apart old hOld hPos hLt⟩

theorem has_storeNode
    (hPend : pend = none ∨ pend = some (.node name))
    {old : EntryFields}
    (hMem : (name, old) ∈ L.entries)
    (other : Nat)
    (content : Content) :
    (L.storeNode name fields).Has none other content ↔
      if other = name then content = fields.content
      else L.Has pend other content := by
  have hNoSlot : Layout.NoSlot pend :=
    fun i => pend_ne hPend (by simp)
  have hTable := @Layout.Reflag.inTable_iff L
    (L.storeNode name fields) pend none 0
    ⟨rfl, fun _ _ => rfl, rfl, rfl, rfl, rfl⟩ hNoSlot
    (by
      intro i h
      cases h)
    other content
  have hTree :
      (L.storeNode name fields).InTree other content ↔
        if other = name then content = fields.content
        else L.InTree other content := by
    unfold Layout.InTree Layout.storeNode
    simp only [List.mem_map, Prod.mk.injEq]
    split_ifs with hName
    · constructor
      · rintro ⟨f, ⟨e, he, hKey, hVal⟩, hContent⟩
        rw [if_pos (hKey.trans hName)] at hVal
        rw [← hContent, hVal]
      · intro hContent
        exact ⟨fields, ⟨(name, old), hMem, hName.symm,
          if_pos rfl⟩, hContent.symm⟩
    · constructor
      · rintro ⟨f, ⟨e, he, hKey, hVal⟩, hContent⟩
        rw [if_neg (by
          rw [hKey]
          exact hName)] at hVal
        refine ⟨f, ?_, hContent⟩
        rw [← hKey, ← hVal]
        exact he
      · rintro ⟨f, hf, hContent⟩
        exact ⟨f, ⟨(other, f), hf, rfl, if_neg hName⟩, hContent⟩
  unfold Layout.Has
  rw [hTable, hTree]
  split_ifs with hName
  · subst hName
    have hOut := hInv.not_inTable hMem content
    simp only [hOut, false_or]
  · rfl

end

end LayoutInv

end Ipc

end OsfMach
