import OsfMach.Ipc.SpaceOps

/-
  The loops of a growth.

  One loop moves tree entries into the new slots, one counts
  the indices that the next table would cover, and one puts
  the new slots that stay unused on the free list.

  Main declarations:
    * `Movable`, `Moved`
    * `Freed`
    * `travFold_growMove`
    * `travFold_growCount`
    * `growFreeAll_spec`
-/

------
-- Moving Entries into the Table
------

namespace OsfMach

namespace Ipc

open Function
open List
open Lib

/-
  What moving a list of tree entries does: every entry is
  kept or placed in its slot, an occupied slot keeps what it
  denotes, and its flag tells whether names were kept.
-/
structure Moved
    (s s' : IpcSpace)
    (entries kept : List (Nat × EntryFields)) : Prop where
  frame : SameFrame s s'
  tree : s'.isTree = s.isTree
  small : s'.isTreeSmall = s.isTreeSmall
  total :
    s'.isTreeTotal + entries.length =
      s.isTreeTotal + kept.length
  sub : kept.Sublist entries
  placed :
    ∀ e ∈ entries, e ∈ kept ∨
      (ieBitsGen (s'.isTable (machPortIndex e.1)).ieBits =
          machPortGen e.1 ∧
        (s'.isTable
          (machPortIndex e.1)).toEntryFields.content =
            e.2.content)
  occupied :
    ∀ j, (s.isTable j).ieBits ≠ 0 →
      ieBitsGen (s'.isTable j).ieBits =
          ieBitsGen (s.isTable j).ieBits ∧
        (s'.isTable j).toEntryFields.content =
          (s.isTable j).toEntryFields.content
  flag :
    ∀ j, ieBitsHasCollision (s'.isTable j).ieBits = true ↔
      ieBitsHasCollision (s.isTable j).ieBits = true ∨
        ∃ e ∈ kept, machPortIndex e.1 = j
  same :
    ∀ j, (∀ e ∈ entries, machPortIndex e.1 ≠ j) →
      (s'.isTable j).toEntryFields =
        (s.isTable j).toEntryFields
  filled :
    ∀ j, (s.isTable j).ieBits = 0 →
      (∃ e ∈ entries, machPortIndex e.1 = j) →
        ∃ e ∈ entries, machPortIndex e.1 = j ∧
          ieBitsGen (s'.isTable j).ieBits =
            machPortGen e.1 ∧
          (s'.isTable j).toEntryFields.content = e.2.content
  apart :
    ∀ e ∈ kept,
      ieBitsGen (s'.isTable (machPortIndex e.1)).ieBits ≠
        machPortGen e.1

/- The entries that can be moved. -/
structure Movable
    (s : IpcSpace)
    (entries : List (Nat × EntryFields)) : Prop where
  sorted : KeySorted entries
  bits :
    ∀ e ∈ entries,
      ieBitsRight e.2.ieBits = e.2.ieBits ∧
        ieBitsType e.2.ieBits ≠ 0
  apart :
    ∀ e ∈ entries,
      (s.isTable (machPortIndex e.1)).ieBits ≠ 0 →
        ieBitsGen (s.isTable (machPortIndex e.1)).ieBits ≠
          machPortGen e.1
  total : entries.length ≤ s.isTreeTotal

/- One entry finds its slot taken. -/
theorem growMove_taken
    (ipc : IpcParams)
    (s : IpcSpace)
    {name : Nat}
    (fields : EntryFields)
    (hTaken : (s.isTable (machPortIndex name)).ieBits ≠ 0) :
    growMove ipc s name fields =
      (s.setSlot (machPortIndex name)
        { (s.isTable (machPortIndex name)).toEntryFields with
          ieBits :=
            (s.isTable (machPortIndex name)).ieBits |||
              ieBitsCollision }, false) := by
  unfold growMove
  rw [if_pos hTaken]

/- One entry is placed in its slot. -/
theorem growMove_free
    (ipc : IpcParams)
    (s : IpcSpace)
    {name : Nat}
    (fields : EntryFields)
    (hFree : (s.isTable (machPortIndex name)).ieBits = 0) :
    growMove ipc s name fields =
      ({ rehashMoved ipc
          (s.setSlot (machPortIndex name)
            { fields with
              ieBits := fields.ieBits ||| machPortGen name })
          name fields with
        isTreeTotal := (rehashMoved ipc
          (s.setSlot (machPortIndex name)
            { fields with
              ieBits := fields.ieBits ||| machPortGen name })
          name fields).isTreeTotal - 1 }, true) := by
  unfold growMove
  rw [if_neg (not_not.mpr hFree)]
  rfl

/- The slot of an index after a store into another. -/
theorem IpcSpace.fields_setSlot
    (s : IpcSpace)
    (i j : Nat)
    (fields : EntryFields) :
    ((s.setSlot i fields).isTable j).toEntryFields =
      if j = i then fields
      else (s.isTable j).toEntryFields := by
  unfold IpcSpace.setSlot
  dsimp only
  rw [update_apply]
  split_ifs <;> rfl

section Move

variable {s s1 s' : IpcSpace} {k : Nat} {v : EntryFields}
variable {rest kept : List (Nat × EntryFields)}

theorem bits_ne_zero_of_collision
    {bits : EntryBits}
    (hColl : ieBitsHasCollision bits = true) :
    bits ≠ 0 := by
  intro h
  rw [h] at hColl
  exact absurd hColl (by decide)

section

variable (hMovable : Movable s ((k, v) :: rest))
include hMovable

/- An entry kept first, and the others moved after it. -/
theorem Moved.keep
    (hTaken : (s.isTable (machPortIndex k)).ieBits ≠ 0)
    (hMoved : Moved
      (s.setSlot (machPortIndex k)
        { (s.isTable (machPortIndex k)).toEntryFields with
          ieBits := (s.isTable (machPortIndex k)).ieBits |||
            ieBitsCollision }) s' rest kept) :
    Moved s s' ((k, v) :: rest) ((k, v) :: kept) := by
  have hSlot := s.fields_setSlot (machPortIndex k)
  generalize hs1 :
    (s.setSlot (machPortIndex k) _ : IpcSpace) = s1
    at hMoved
  have hFields : ∀ j, (s1.isTable j).toEntryFields =
      if j = machPortIndex k then
        { (s.isTable (machPortIndex k)).toEntryFields with
          ieBits := (s.isTable (machPortIndex k)).ieBits |||
            ieBitsCollision }
      else (s.isTable j).toEntryFields := by
    intro j
    rw [← hs1]
    exact hSlot j _
  have hGen : ∀ j, ieBitsGen (s1.isTable j).ieBits =
      ieBitsGen (s.isTable j).ieBits := by
    intro j
    rw [hFields]
    split_ifs with h
    · rw [h]
      exact ieBitsGen_setCollision _
    · rfl
  have hContent : ∀ j,
      (s1.isTable j).toEntryFields.content =
        (s.isTable j).toEntryFields.content := by
    intro j
    rw [hFields]
    split_ifs with h
    · rw [h]
      unfold EntryFields.content
      rw [ieBitsRight_setCollision]
    · rfl
  have hOccupied : ∀ j, (s.isTable j).ieBits ≠ 0 →
      (s1.isTable j).ieBits ≠ 0 := by
    intro j hj
    rw [hFields]
    split_ifs with h
    · exact bits_ne_zero_of_collision
        (ieBitsHasCollision_setCollision _)
    · exact hj
  have hFlag : ∀ j,
      ieBitsHasCollision (s1.isTable j).ieBits = true ↔
        ieBitsHasCollision (s.isTable j).ieBits = true ∨
          machPortIndex k = j := by
    intro j
    rw [hFields]
    split_ifs with h
    · simp [h]
    · simp [Ne.symm h]
  have hFrame : s1.isTreeTotal = s.isTreeTotal := by
    rw [← hs1]
    rfl
  exact
    { frame := by
        rw [← hs1] at hMoved
        exact ⟨hMoved.frame.active, hMoved.frame.size,
          hMoved.frame.next, hMoved.frame.fast,
            hMoved.frame.growing⟩
      tree := by
        rw [← hs1] at hMoved
        exact hMoved.tree
      small := by
        rw [← hs1] at hMoved
        exact hMoved.small
      total := by
        have h := hMoved.total
        simp only [length_cons]
        omega
      sub := hMoved.sub.cons_cons _
      placed := by
        intro e he
        rcases mem_cons.mp he with h | h
        · exact Or.inl (by simp [h])
        · rcases hMoved.placed e h with h' | h'
          · exact Or.inl (mem_cons_of_mem _ h')
          · exact Or.inr h'
      occupied := by
        intro j hj
        have h := hMoved.occupied j (hOccupied j hj)
        rw [hGen, hContent] at h
        exact h
      flag := by
        intro j
        rw [hMoved.flag, hFlag, or_assoc]
        simp only [mem_cons, exists_eq_or_imp]
      same := by
        intro j hj
        have hNe := hj (k, v) (mem_cons_self ..)
        rw [hMoved.same j (fun e he =>
            hj e (mem_cons_of_mem _ he)), hFields,
          if_neg (Ne.symm hNe)]
      filled := by
        rintro j hZero ⟨e, he, hIndex⟩
        have hNe : machPortIndex k ≠ j := by
          intro h
          rw [h] at hTaken
          exact hTaken hZero
        have hZero' : (s1.isTable j).ieBits = 0 := by
          rw [hFields, if_neg (Ne.symm hNe)]
          exact hZero
        have hRest : e ∈ rest := by
          rcases mem_cons.mp he with h | h
          · rw [h] at hIndex
            exact absurd hIndex hNe
          · exact h
        rcases hMoved.filled j hZero' ⟨e, hRest, hIndex⟩ with
          ⟨e', he', hPlaced⟩
        exact ⟨e', mem_cons_of_mem _ he', hPlaced⟩
      apart := by
        intro e he
        rcases mem_cons.mp he with h | h
        · subst h
          have hOld := hMoved.occupied (machPortIndex k)
            (hOccupied (machPortIndex k) hTaken)
          rw [hOld.1, hGen]
          exact hMovable.apart (k, v)
            (mem_cons_self ..) hTaken
        · exact hMoved.apart e h }

/- An entry placed first, and the others moved after it. -/
theorem Moved.place
    (hFree : (s.isTable (machPortIndex k)).ieBits = 0)
    (hSame : SameEntries
      (s.setSlot (machPortIndex k)
        { v with ieBits := v.ieBits ||| machPortGen k }) s1)
    (hMoved : Moved
      { s1 with isTreeTotal := s1.isTreeTotal - 1 } s' rest
      kept) :
    Moved s s' ((k, v) :: rest) kept := by
  have hTotal : s1.isTreeTotal = s.isTreeTotal := hSame.total
  have hLen : rest.length + 1 ≤ s.isTreeTotal :=
    hMovable.total
  have hBits := hMovable.bits (k, v) (mem_cons_self ..)
  have hKGen := ieBitsGen_machPortGen k
  have hFields : ∀ j, (s1.isTable j).toEntryFields =
      if j = machPortIndex k then
        { v with ieBits := v.ieBits ||| machPortGen k }
      else (s.isTable j).toEntryFields := by
    intro j
    rw [hSame.fields j]
    exact s.fields_setSlot (machPortIndex k) j _
  have hSelf : (s1.isTable
      (machPortIndex k)).toEntryFields =
      { v with ieBits := v.ieBits ||| machPortGen k } :=
    (hFields _).trans (if_pos rfl)
  have hOther : ∀ j, j ≠ machPortIndex k →
      (s1.isTable j).toEntryFields =
        (s.isTable j).toEntryFields := by
    intro j hNe
    exact (hFields j).trans (if_neg hNe)
  have hFilled :
      (s1.isTable (machPortIndex k)).ieBits ≠ 0 := by
    intro h
    rw [hSelf] at h
    dsimp only at h
    have hType := ieBitsType_or_gen v.ieBits _ hKGen
    rw [h, ieBitsType_zero] at hType
    exact hBits.2 hType.symm
  have hGen : ieBitsGen
      (s1.isTable (machPortIndex k)).ieBits =
        machPortGen k := by
    rw [hSelf]
    exact ieBitsGen_or_gen hBits.1 hKGen
  have hContent : (s1.isTable
      (machPortIndex k)).toEntryFields.content =
        v.content := by
    rw [hSelf]
    unfold EntryFields.content
    rw [ieBitsRight_or_gen _ _ hKGen]
  have hFlag : ∀ j,
      ieBitsHasCollision (s1.isTable j).ieBits =
        ieBitsHasCollision (s.isTable j).ieBits := by
    intro j
    by_cases hj : j = machPortIndex k
    · rw [hj, hSelf, hFree]
      rw [ieBitsHasCollision_or_gen hBits.1 hKGen]
      rfl
    · rw [hOther j hj]
  -- the slot of the placed entry after the others moved
  have hAfter := hMoved.occupied (machPortIndex k) hFilled
  have hAfterGen : ieBitsGen
      (s'.isTable (machPortIndex k)).ieBits =
        machPortGen k := hAfter.1.trans hGen
  have hAfterContent : (s'.isTable
      (machPortIndex k)).toEntryFields.content =
        v.content := hAfter.2.trans hContent
  exact
    { frame :=
        { active :=
            hMoved.frame.active.trans hSame.frame.active
          size := hMoved.frame.size.trans hSame.frame.size
          next := hMoved.frame.next.trans hSame.frame.next
          fast := hMoved.frame.fast.trans hSame.frame.fast
          growing :=
            hMoved.frame.growing.trans hSame.frame.growing }
      tree := hMoved.tree.trans hSame.tree
      small := hMoved.small.trans hSame.small
      total := by
        have h := hMoved.total
        dsimp only at h
        simp only [length_cons]
        omega
      sub := hMoved.sub.cons _
      placed := by
        intro e he
        rcases mem_cons.mp he with h | h
        · subst h
          exact Or.inr ⟨hAfterGen, hAfterContent⟩
        · exact hMoved.placed e h
      occupied := by
        intro j hj
        have hNe : j ≠ machPortIndex k := by
          intro h
          rw [h] at hj
          exact hj hFree
        have hSame' := hOther j hNe
        have hj' : (s1.isTable j).ieBits ≠ 0 := by
          rw [hSame']
          exact hj
        have h := hMoved.occupied j hj'
        rw [hSame'] at h
        exact h
      flag := by
        intro j
        rw [hMoved.flag]
        rw [hFlag]
      same := by
        intro j hj
        have hNe := hj (k, v) (mem_cons_self ..)
        have h := hMoved.same j (fun e he =>
          hj e (mem_cons_of_mem _ he))
        exact h.trans (hOther j (Ne.symm hNe))
      filled := by
        rintro j hZero ⟨e, he, hIndex⟩
        by_cases hj : j = machPortIndex k
        · subst hj
          exact ⟨(k, v), mem_cons_self .., rfl,
            hAfterGen, hAfterContent⟩
        · have hZero' : (s1.isTable j).ieBits = 0 := by
            rw [hOther j hj]
            exact hZero
          have hRest : e ∈ rest := by
            rcases mem_cons.mp he with h | h
            · rw [h] at hIndex
              exact absurd hIndex.symm hj
            · exact h
          rcases hMoved.filled j hZero' ⟨e, hRest, hIndex⟩
            with ⟨e', he', hPlaced⟩
          exact ⟨e', mem_cons_of_mem _ he', hPlaced⟩
      apart := hMoved.apart }

/- The others can be moved after an entry was kept. -/
theorem Movable.keep
    (hTaken : (s.isTable (machPortIndex k)).ieBits ≠ 0) :
    Movable
      (s.setSlot (machPortIndex k)
        { (s.isTable (machPortIndex k)).toEntryFields with
          ieBits := (s.isTable (machPortIndex k)).ieBits |||
            ieBitsCollision }) rest := by
  have hRest : ∀ e ∈ rest, e ∈ (k, v) :: rest :=
    fun e he => mem_cons_of_mem _ he
  refine ⟨(KeySorted.cons_iff.mp hMovable.sorted).2,
    fun e he => hMovable.bits e (hRest e he), ?_, ?_⟩
  · intro e he hOccupied
    have hApart := hMovable.apart e (hRest e he)
    rw [s.fields_setSlot] at hOccupied ⊢
    by_cases h : machPortIndex e.1 = machPortIndex k
    · rw [if_pos h]
      rw [ieBitsGen_setCollision, ← h]
      rw [h] at hApart ⊢
      exact hApart hTaken
    · rw [if_neg h] at hOccupied ⊢
      exact hApart hOccupied
  · have h := hMovable.total
    simp only [length_cons] at h
    have hSame : (s.setSlot (machPortIndex k)
        { (s.isTable (machPortIndex k)).toEntryFields with
          ieBits := (s.isTable (machPortIndex k)).ieBits |||
            ieBitsCollision }).isTreeTotal =
      s.isTreeTotal := rfl
    omega

/- The others can be moved after an entry was placed. -/
theorem Movable.place
    (hSame : SameEntries
      (s.setSlot (machPortIndex k)
        { v with ieBits := v.ieBits ||| machPortGen k })
      s1) :
    Movable { s1 with isTreeTotal := s1.isTreeTotal - 1 }
      rest := by
  have hRest : ∀ e ∈ rest, e ∈ (k, v) :: rest :=
    fun e he => mem_cons_of_mem _ he
  have hSorted := KeySorted.cons_iff.mp hMovable.sorted
  have hBits := hMovable.bits (k, v) (mem_cons_self ..)
  refine ⟨hSorted.2,
    fun e he => hMovable.bits e (hRest e he), ?_, ?_⟩
  · intro e he hOccupied
    have hApart := hMovable.apart e (hRest e he)
    rw [hSame.fields, s.fields_setSlot] at hOccupied ⊢
    by_cases h : machPortIndex e.1 = machPortIndex k
    · rw [if_pos h]
      rw [ieBitsGen_or_gen hBits.1 (ieBitsGen_machPortGen k)]
      intro hGen
      have hName := machPort_ext h hGen.symm
      have hLt := hSorted.1 e he
      omega
    · rw [if_neg h] at hOccupied ⊢
      exact hApart hOccupied
  · have h := hMovable.total
    have hTotal : s1.isTreeTotal = s.isTreeTotal :=
      hSame.total
    simp only [length_cons] at h
    dsimp only
    omega

end

end Move

/- The traversal that moves entries into the table. -/
theorem travFold_growMove
    (ipc : IpcParams)
    (entries : List (Nat × EntryFields))
    (s : IpcSpace)
    (hMovable : Movable s entries) :
    Moved s (travFold (growMove ipc) s entries).1 entries
      (travFold (growMove ipc) s entries).2 := by
  induction entries generalizing s with
  | nil =>
      exact
        { frame := ⟨rfl, rfl, rfl, rfl, rfl⟩
          tree := rfl
          small := rfl
          total := rfl
          sub := List.Sublist.refl _
          placed := fun e he => absurd he (by simp)
          occupied := fun _ _ => ⟨rfl, rfl⟩
          flag := by
            intro j
            simp [travFold]
          same := fun _ _ => rfl
          filled := by
            rintro j _ ⟨e, he, _⟩
            cases he
          apart := fun e he => absurd he (by simp [travFold]) }
  | cons entry rest ih =>
      rcases entry with ⟨k, v⟩
      by_cases hFree :
        (s.isTable (machPortIndex k)).ieBits = 0
      · have hSame := SameEntries.rehashMoved ipc
          (s.setSlot (machPortIndex k)
            { v with ieBits := v.ieBits ||| machPortGen k })
          k v
        have hTail := ih _ (hMovable.place hSame)
        simp only [travFold, growMove_free ipc s v hFree,
          if_true]
        exact hTail.place hMovable hFree hSame
      · have hStep := growMove_taken ipc s v hFree
        have hTail := ih _ (hMovable.keep hFree)
        simp only [travFold, hStep]
        exact hTail.keep hMovable hFree

------
-- Counting Indices
------

/- Counting keeps every entry. -/
theorem travFold_growCount_kept
    (entries : List (Nat × EntryFields))
    (count : Nat × Nat) :
    (travFold growCount count entries).2 = entries := by
  induction entries generalizing count with
  | nil => rfl
  | cons entry rest ih =>
      rcases entry with ⟨k, v⟩
      have hKeep : (growCount count k v).2 = false := by
        unfold growCount
        dsimp only
        split_ifs <;> rfl
      simp only [travFold, hKeep]
      rw [ih]
      rfl

/-
  Entries come in the order of their indices, so an index
  that differs from the last one is new.
-/
theorem travFold_growCount
    (entries : List (Nat × EntryFields))
    (hSorted : KeySorted entries)
    (n last : Nat)
    (hLast : ∀ e ∈ entries, last ≤ machPortIndex e.1) :
    (travFold growCount (n, last) entries).1.1 =
      n + ((entries.map
        (fun e => machPortIndex e.1)).toFinset.erase
          last).card := by
  induction entries generalizing n last with
  | nil => simp [travFold]
  | cons entry rest ih =>
      rcases entry with ⟨k, v⟩
      have hParts := KeySorted.cons_iff.mp hSorted
      have hHead : last ≤ machPortIndex k :=
        hLast (k, v) (mem_cons_self ..)
      have hRest : ∀ e ∈ rest,
          machPortIndex k ≤ machPortIndex e.1 := by
        intro e he
        exact machPortIndex_mono (hParts.1 e he).le
      have hSet : (((k, v) :: rest).map
          (fun e => machPortIndex e.1)).toFinset =
          insert (machPortIndex k) (rest.map
            (fun e => machPortIndex e.1)).toFinset := by
        simp
      rw [hSet]
      by_cases hEq : machPortIndex k = last
      · have hStep : growCount (n, last) k v =
            ((n, last), false) := by
          unfold growCount
          rw [if_neg (not_not.mpr hEq)]
        simp only [travFold, hStep]
        rw [ih hParts.2 n last
          (fun e he => hHead.trans (hRest e he)), hEq,
          Finset.erase_insert_eq_erase]
      · have hStep : growCount (n, last) k v =
            ((n + 1, machPortIndex k), false) := by
          unfold growCount
          rw [if_pos hEq]
        have hNew : last ∉ insert (machPortIndex k)
            (rest.map
              (fun e => machPortIndex e.1)).toFinset := by
          rw [Finset.mem_insert, mem_toFinset, mem_map]
          rintro (h | ⟨e, he, h⟩)
          · exact hEq h.symm
          · have hGe := hRest e he
            omega
        have hCard := Finset.card_erase_add_one
          (Finset.mem_insert_self (machPortIndex k)
            (rest.map
              (fun e => machPortIndex e.1)).toFinset)
        rw [Finset.erase_insert_eq_erase] at hCard
        simp only [travFold, hStep]
        rw [ih hParts.2 (n + 1) (machPortIndex k) hRest,
          Finset.erase_eq_of_notMem hNew]
        omega

------
-- Freeing the New Slots
------

/- The new slots that are unused. -/
def unusedSlots (s : IpcSpace) (slots : List Nat) : List Nat :=
  slots.filter (fun i => (s.isTable i).ieBits = 0)

/- What putting slots on the free list does. -/
structure Freed
    (s s' : IpcSpace)
    (new : List Nat) : Prop where
  frame : SameFrame s s'
  tree : s'.isTree = s.isTree
  total : s'.isTreeTotal = s.isTreeTotal
  small : s'.isTreeSmall = s.isTreeSmall
  same :
    ∀ j, j ≠ 0 → j ∉ new →
      (s'.isTable j).toEntryFields =
        (s.isTable j).toEntryFields
  bits :
    ∀ j ∈ new,
      (s'.isTable j).ieBits = ieBitsGenMask ∧
        (s'.isTable j).ieObject = (s.isTable j).ieObject
  zero :
    (s'.isTable 0).ieBits = (s.isTable 0).ieBits ∧
      (s'.isTable 0).ieObject = (s.isTable 0).ieObject

/- The loop that builds the list from the last slot down. -/
theorem foldr_growFree
    (slots : List Nat)
    (s : IpcSpace)
    (free : List Nat)
    (hChain : IndexChain.Chain
      (fun j => (s.isTable j).ieRequest) 0 free)
    (hNodup : slots.Nodup)
    (hZero : 0 ∉ slots)
    (hApart : ∀ i ∈ slots, i ∉ free) :
    Freed s
      (slots.foldr (fun i state => growFree state i)
        (s, (s.isTable 0).ieNext)).1 (unusedSlots s slots) ∧
      IndexChain.Chain
        (update
          (fun j => ((slots.foldr
            (fun i state => growFree state i)
            (s, (s.isTable 0).ieNext)).1.isTable
              j).ieRequest) 0
          (slots.foldr (fun i state => growFree state i)
            (s, (s.isTable 0).ieNext)).2)
        0 (unusedSlots s slots ++ free) := by
  induction slots with
  | nil =>
      refine ⟨⟨⟨rfl, rfl, rfl, rfl, rfl⟩, rfl, rfl, rfl,
        fun _ _ _ => rfl, fun j hj => absurd hj (by
          simp [unusedSlots]), ⟨rfl, rfl⟩⟩, ?_⟩
      apply hChain.congr
      intro j _
      rw [update_apply]
      split_ifs with h
      · rw [h]
        rfl
      · rfl
  | cons i slots ih =>
      have hParts := nodup_cons.mp hNodup
      rw [mem_cons, not_or] at hZero
      rcases ih hParts.2 hZero.2
        (fun j hj => hApart j (mem_cons_of_mem _ hj))
        with ⟨hFreed, hTail⟩
      rw [foldr_cons]
      generalize hState :
        slots.foldr (fun i state => growFree state i)
          (s, (s.isTable 0).ieNext) = state
        at hFreed hTail ⊢
      have hNot : i ∉ unusedSlots s slots := by
        intro h
        exact hParts.1 (mem_of_mem_filter h)
      have hOld := hFreed.same i (Ne.symm hZero.1) hNot
      by_cases hBits : (s.isTable i).ieBits = 0
      · have hNew : unusedSlots s (i :: slots) =
            i :: unusedSlots s slots :=
          filter_cons_of_pos (by simpa using hBits)
        have hStep : growFree state i =
            (state.1.setSlot i ⟨ieBitsGenMask,
              (s.isTable i).ieObject, state.2⟩, i) := by
          unfold growFree
          dsimp only
          rw [hOld, if_pos hBits]
        have hSlot := fun j => state.1.fields_setSlot i j
          ⟨ieBitsGenMask, (s.isTable i).ieObject, state.2⟩
        rw [hNew, hStep]
        refine ⟨⟨⟨hFreed.frame.active, hFreed.frame.size,
          hFreed.frame.next, hFreed.frame.fast,
            hFreed.frame.growing⟩, hFreed.tree,
          hFreed.total, hFreed.small, ?_, ?_, ?_⟩, ?_⟩
        · intro j hj hjNew
          rw [mem_cons, not_or] at hjNew
          rw [hSlot, if_neg hjNew.1]
          exact hFreed.same j hj hjNew.2
        · intro j hj
          rw [hSlot]
          split_ifs with h
          · rw [h]
            exact ⟨rfl, rfl⟩
          · rcases mem_cons.mp hj with h' | h'
            · exact absurd h' h
            · exact hFreed.bits j h'
        · rw [hSlot, if_neg hZero.1]
          exact hFreed.zero
        · apply hTail.push (Ne.symm hZero.1)
          · exact update_self ..
          · rw [update_of_ne (Ne.symm hZero.1), update_self]
            rw [hSlot, if_pos rfl]
          · intro j hj
            have hjNe : j ≠ i := by
              intro h
              rw [h] at hj
              rcases mem_append.mp hj with h' | h'
              · exact hNot h'
              · exact hApart i (mem_cons_self ..) h'
            by_cases hjZero : j = 0
            · exact absurd hj (by
                rw [hjZero]
                exact hTail.zero_notMem)
            · rw [update_of_ne hjZero, update_of_ne hjZero]
              rw [hSlot, if_neg hjNe]
      · have hNew : unusedSlots s (i :: slots) =
            unusedSlots s slots :=
          filter_cons_of_neg (by simpa using hBits)
        have hStep : growFree state i = state := by
          unfold growFree
          dsimp only
          rw [hOld, if_neg hBits]
        rw [hNew, hStep]
        exact ⟨hFreed, hTail⟩

/- The new slots that are unused join the free list. -/
theorem growFreeAll_spec
    (s : IpcSpace)
    {osize size : Nat}
    {free : List Nat}
    (hPos : 0 < osize)
    (hChain : IndexChain.Chain
      (fun j => (s.isTable j).ieRequest) 0 free)
    (hOld : ∀ i ∈ free, i < osize) :
    ∃ new,
      (∀ j, j ∈ new ↔ osize ≤ j ∧ j < osize + (size - osize) ∧
        (s.isTable j).ieBits = 0) ∧
      new.Nodup ∧
      Freed s (growFreeAll s osize size) new ∧
      IndexChain.Chain
        (fun j =>
          ((growFreeAll s osize size).isTable j).ieRequest)
        0 (new ++ free) := by
  have hLoop := foldr_growFree
    (List.range' osize (size - osize)) s free hChain
    nodup_range'
    (by
      intro h
      have hGe := (mem_range'_1.mp h).1
      omega)
    (by
      intro i hi hMem
      have hGe := (mem_range'_1.mp hi).1
      have hLt := hOld i hMem
      omega)
  refine ⟨unusedSlots s (List.range' osize (size - osize)),
    ?_, ?_, ?_, ?_⟩
  · intro j
    unfold unusedSlots
    rw [mem_filter, mem_range'_1]
    simp only [decide_eq_true_eq, and_assoc]
  · exact List.Nodup.filter _ nodup_range'
  all_goals
    unfold growFreeAll
    dsimp only
    rw [foldl_reverse]
    generalize List.foldr _ _ _ = state at hLoop ⊢
    have hSlot := fun j => state.1.fields_setSlot 0 j
      { (state.1.isTable 0).toEntryFields with
        ieRequest := state.2 }
  · have hFreed := hLoop.1
    refine ⟨⟨hFreed.frame.active, hFreed.frame.size,
      hFreed.frame.next, hFreed.frame.fast,
            hFreed.frame.growing⟩, hFreed.tree,
      hFreed.total, hFreed.small, ?_, ?_, ?_⟩
    · intro j hj hjNew
      rw [hSlot, if_neg hj]
      exact hFreed.same j hj hjNew
    · intro j hj
      have hjZero : j ≠ 0 := by
        intro h
        have hGe := (mem_range'_1.mp
          (mem_of_mem_filter hj)).1
        omega
      rw [hSlot, if_neg hjZero]
      exact hFreed.bits j hj
    · exact hFreed.zero
  · apply hLoop.2.congr
    intro j _
    rw [hSlot, update_apply]
    split_ifs <;> rfl

end Ipc

end OsfMach
