import OsfMach.Ipc.GrowLoops

/-
  The parts of a growth of the table.

  Growth copies the table, works through the tree, and frees
  the new slots that stay unused.

  Main declarations:
    * `Grown`, `GrownFreed`, `GrownTree`
    * `GrownFreed.layoutInv`, `GrownFreed.has_iff`
    * `SpaceInv.exists_grownTree`
-/

------
-- The Four Regions of the Tree
------

namespace OsfMach

namespace Ipc

open List
open Lib

variable {osize size nsize : Nat}

/- The tree cut at the old, the new and the next size. -/
structure CutGrow
    (tree large small move ignore : SplayTree EntryFields)
    (osize size nsize : Nat) : Prop where
  list :
    tree.toList =
      ignore.toList ++
        (move.toList ++ (small.toList ++ large.toList))
  large_wf : large.WellFormed
  small_wf : small.WellFormed
  move_wf : move.WellFormed
  ignore_wf : ignore.WellFormed
  large_index :
    ∀ a ∈ large.toList, nsize ≤ machPortIndex a.1
  small_index :
    ∀ a ∈ small.toList,
      size ≤ machPortIndex a.1 ∧ machPortIndex a.1 < nsize
  move_index :
    ∀ a ∈ move.toList,
      osize ≤ machPortIndex a.1 ∧ machPortIndex a.1 < size
  ignore_index :
    ∀ a ∈ ignore.toList, machPortIndex a.1 < osize

theorem cutGrow_split
    {tree : SplayTree EntryFields}
    (hTree : tree.WellFormed)
    (hLe : osize ≤ size)
    (hLe' : size ≤ nsize)
    (hLt : nsize < machIndexBound) :
    CutGrow tree
      (tree.split (machPortMake nsize 0)).1
      ((tree.split (machPortMake nsize 0)).2.split
        (machPortMake size 0)).1
      (((tree.split (machPortMake nsize 0)).2.split
        (machPortMake size 0)).2.split
          (machPortMake osize 0)).1
      (((tree.split (machPortMake nsize 0)).2.split
        (machPortMake size 0)).2.split
          (machPortMake osize 0)).2
      osize size nsize := by
  rcases SplayTree.split_spec hTree (machPortMake nsize 0)
    with ⟨hLarge, hRest, hList, hBelow, hAbove⟩
  rcases SplayTree.split_spec hRest (machPortMake size 0)
    with ⟨hSmall, hRest', hList', hBelow', hAbove'⟩
  rcases SplayTree.split_spec hRest' (machPortMake osize 0)
    with ⟨hMove, hIgnore, hList'', hBelow'', hAbove''⟩
  refine ⟨?_, hLarge, hSmall, hMove, hIgnore, ?_, ?_, ?_, ?_⟩
  · rw [hList, hList', hList'']
    simp only [append_assoc]
  · intro a ha
    have hGe := (hAbove a ha).not_gt
    rw [lt_machPortMake_zero_iff hLt] at hGe
    omega
  · intro a ha
    have hGe := (hAbove' a ha).not_gt
    have hIn := hBelow a
      (by
        rw [hList']
        exact mem_append_right _ ha)
    rw [lt_machPortMake_zero_iff (by omega)] at hGe
    rw [lt_machPortMake_zero_iff hLt] at hIn
    omega
  · intro a ha
    have hGe := (hAbove'' a ha).not_gt
    have hIn := hBelow' a
      (by
        rw [hList'']
        exact mem_append_right _ ha)
    rw [lt_machPortMake_zero_iff (by omega)] at hGe
    rw [lt_machPortMake_zero_iff (by omega)] at hIn
    omega
  · intro a ha
    have hIn := hBelow'' a ha
    rw [lt_machPortMake_zero_iff (by omega)] at hIn
    exact hIn

/- The regions go back together without what has moved. -/
theorem CutGrow.rejoin
    {tree large small move ignore kept :
      SplayTree EntryFields}
    (hCut : CutGrow tree large small move ignore osize size
      nsize)
    (hSorted : KeySorted tree.toList)
    {small' : SplayTree EntryFields}
    (hSmall : small'.WellFormed)
    (hSmallList : small'.toList = small.toList)
    (hKept : kept.WellFormed)
    (hSub : ∀ a ∈ kept.toList, a ∈ move.toList) :
    (((large.join small').join kept).join ignore).WellFormed ∧
      (((large.join small').join kept).join ignore).toList =
        ignore.toList ++
          (kept.toList ++ (small.toList ++ large.toList)) := by
  rw [hCut.list] at hSorted
  rcases KeySorted.append_iff.mp hSorted with
    ⟨_, hSorted', hIgnore⟩
  rcases KeySorted.append_iff.mp hSorted' with
    ⟨_, hSorted'', hMove⟩
  rcases KeySorted.append_iff.mp hSorted'' with
    ⟨_, _, hBelow⟩
  have hJoin := SplayTree.join_spec hCut.large_wf hSmall
    (by
      rw [hSmallList]
      exact hBelow)
  rw [hSmallList] at hJoin
  have hJoin' := SplayTree.join_spec hJoin.1 hKept
    (by
      intro a ha b hb
      rw [hJoin.2] at hb
      exact hMove a (hSub a ha) b hb)
  have hJoin'' := SplayTree.join_spec hJoin'.1 hCut.ignore_wf
    (by
      intro a ha b hb
      rw [hJoin'.2, hJoin.2] at hb
      apply hIgnore a ha b
      rcases mem_append.mp hb with h | h
      · exact mem_append_left _ (hSub b h)
      · exact mem_append_right _ h)
  refine ⟨hJoin''.1, ?_⟩
  rw [hJoin''.2, hJoin'.2, hJoin.2]

------
-- Layouts after Growth
------

/-
  A table of the new size before its unused slots are freed.
  Of the tree entries `front ++ (move ++ back)` those of
  `move` have an index in the new part; `kept` stay.
-/
structure Grown
    (s t : IpcSpace)
    (osize size : Nat)
    (front move kept back : List (Nat × EntryFields)) :
    Prop where
  old : s.isTree.toList = front ++ (move ++ back)
  new : t.isTree.toList = front ++ (kept ++ back)
  sub : kept.Sublist move
  front_index : ∀ e ∈ front, machPortIndex e.1 < osize
  move_index :
    ∀ e ∈ move,
      osize ≤ machPortIndex e.1 ∧ machPortIndex e.1 < size
  back_index : ∀ e ∈ back, size ≤ machPortIndex e.1
  low :
    ∀ j < osize, (t.isTable j).toEntryFields =
      (s.isTable j).toEntryFields
  blank :
    ∀ j, osize ≤ j → j < size →
      (∀ e ∈ move, machPortIndex e.1 ≠ j) →
        (t.isTable j).toEntryFields = ⟨0, 0, 0⟩
  filled :
    ∀ j, osize ≤ j → j < size →
      (∃ e ∈ move, machPortIndex e.1 = j) →
        ∃ e ∈ move, machPortIndex e.1 = j ∧
          ieBitsGen (t.isTable j).ieBits = machPortGen e.1 ∧
          (t.isTable j).toEntryFields.content = e.2.content
  placed :
    ∀ e ∈ move, e ∈ kept ∨
      (ieBitsGen (t.isTable (machPortIndex e.1)).ieBits =
          machPortGen e.1 ∧
        (t.isTable
          (machPortIndex e.1)).toEntryFields.content =
            e.2.content)
  flag :
    ∀ j, osize ≤ j → j < size →
      (ieBitsHasCollision (t.isTable j).ieBits = true ↔
        ∃ e ∈ kept, machPortIndex e.1 = j)
  apart :
    ∀ e ∈ kept,
      ieBitsGen (t.isTable (machPortIndex e.1)).ieBits ≠
        machPortGen e.1

/- The type of an entry is part of what it denotes. -/
theorem type_of_content_eq
    {fields fields' : EntryFields}
    (hContent : fields.content = fields'.content) :
    ieBitsType fields.ieBits = ieBitsType fields'.ieBits := by
  have hRight := congrArg Content.right hContent
  have hType := congrArg ieBitsType hRight
  unfold EntryFields.content at hType
  rw [ieBitsType_right, ieBitsType_right] at hType
  exact hType

/- A grown table with its unused slots freed. -/
structure GrownFreed
    (ipc : IpcParams)
    (s t t' : IpcSpace)
    (osize size : Nat)
    (front move kept back : List (Nat × EntryFields))
    (new : List Nat) : Prop where
  inv : LayoutInv none (s.layout ipc)
  osize_eq : s.isTableSize = osize
  size_eq : t'.isTableSize = size
  lt : osize < size
  size_lt : size < machIndexBound
  grown : Grown s t osize size front move kept back
  freed : Freed t t' new
  mem_new :
    ∀ j, j ∈ new ↔
      osize ≤ j ∧ j < size ∧ (t.isTable j).ieBits = 0

namespace GrownFreed

variable {ipc : IpcParams} {s t t' : IpcSpace}
variable {osize size : Nat}
variable {front move kept back : List (Nat × EntryFields)}
variable {new : List Nat} {e : Nat × EntryFields} {j : Nat}

section GrownFreed

variable (h : GrownFreed ipc s t t' osize size front move kept back new)

include h

theorem osize_pos :
    0 < osize := by
  have hPos := h.inv.size_pos
  have hEq : (s.layout ipc).size = osize := h.osize_eq
  omega

/- Entries of the old tree. -/
theorem mem_old :
    e ∈ (s.layout ipc).entries ↔
      e ∈ front ∨ e ∈ move ∨ e ∈ back := by
  have hOld : (s.layout ipc).entries = _ := h.grown.old
  rw [hOld, mem_append, mem_append]

/- Entries of the new tree. -/
theorem mem_entries :
    e ∈ (t'.layout ipc).entries ↔
      e ∈ front ∨ e ∈ kept ∨ e ∈ back := by
  have hNew : (t'.layout ipc).entries =
      front ++ (kept ++ back) := by
    have hTree : t'.isTree = t.isTree := h.freed.tree
    refine Eq.trans ?_ h.grown.new
    unfold IpcSpace.layout
    rw [hTree]
  rw [hNew, mem_append, mem_append]

/- No entry is new. -/
theorem subset
    (he : e ∈ (t'.layout ipc).entries) :
    e ∈ (s.layout ipc).entries := by
  rw [h.mem_old]
  rcases h.mem_entries.mp he with h' | h' | h'
  · exact Or.inl h'
  · exact Or.inr (Or.inl (h.grown.sub.subset h'))
  · exact Or.inr (Or.inr h')

theorem typed
    (he : e ∈ (s.layout ipc).entries) :
    ieBitsType e.2.ieBits ≠ 0 := by
  rcases h.inv.typed e he with h' | h'
  · exact h'
  · cases h'

/- Slots of the old table. -/
theorem low
    (hPos : 0 < j)
    (hLt : j < osize) :
    (t'.layout ipc).table j = (s.layout ipc).table j := by
  have hNot : j ∉ new := by
    intro hMem
    have hGe := ((h.mem_new j).mp hMem).1
    omega
  exact (h.freed.same j (by omega) hNot).trans
    (h.grown.low j hLt)

theorem low_bits
    (hLt : j < osize) :
    ((t'.layout ipc).table j).ieBits =
      ((s.layout ipc).table j).ieBits := by
  by_cases hj : j = 0
  · subst hj
    have hZero := h.freed.zero.1
    rw [h.grown.low 0 hLt] at hZero
    exact hZero
  · rw [h.low (by omega) hLt]

theorem used_low
    (hLt : j < osize) :
    (t'.layout ipc).Used none j ↔
      (s.layout ipc).Used none j := by
  unfold Layout.Used
  rw [h.low_bits hLt]

/- A new slot that some entry wanted. -/
theorem high_filled
    (hGe : osize ≤ j)
    (hLt : j < size)
    (hMove : ∃ e ∈ move, machPortIndex e.1 = j) :
    j ∉ new ∧
      (t'.layout ipc).table j = (t.isTable j).toEntryFields ∧
      (t'.layout ipc).Used none j := by
  rcases h.grown.filled j hGe hLt hMove with
    ⟨e, he, _, _, hContent⟩
  have hType : ieBitsType (t.isTable j).ieBits ≠ 0 := by
    rw [type_of_content_eq hContent]
    exact h.typed (h.mem_old.mpr (Or.inr (Or.inl he)))
  have hNot : j ∉ new := by
    intro hMem
    have hZero := ((h.mem_new j).mp hMem).2.2
    rw [hZero, ieBitsType_zero] at hType
    exact hType rfl
  have hPos := h.osize_pos
  have hSame : (t'.layout ipc).table j =
      (t.isTable j).toEntryFields :=
    h.freed.same j (by omega) hNot
  refine ⟨hNot, hSame, Or.inl ?_⟩
  rw [hSame]
  exact hType

/- A new slot that no entry wanted. -/
theorem high_blank
    (hGe : osize ≤ j)
    (hLt : j < size)
    (hMove : ∀ e ∈ move, machPortIndex e.1 ≠ j) :
    j ∈ new ∧
      ((t'.layout ipc).table j).ieBits = ieBitsGenMask ∧
      ((t'.layout ipc).table j).ieObject = 0 ∧
      ¬ (t'.layout ipc).Used none j := by
  have hBlank := h.grown.blank j hGe hLt hMove
  have hMem : j ∈ new := by
    rw [h.mem_new, hBlank]
    exact ⟨hGe, hLt, rfl⟩
  have hBits := h.freed.bits j hMem
  rw [hBlank] at hBits
  refine ⟨hMem, hBits.1, hBits.2, ?_⟩
  intro hUsed
  have hType := Layout.type_of_used hUsed
  have hBits' : ((t'.layout ipc).table j).ieBits =
      ieBitsGenMask := hBits.1
  rw [hBits'] at hType
  exact hType (by decide)

/- The collisions of an old index. -/
theorem collides_low
    (hLt : j < osize) :
    (t'.layout ipc).Collides j ↔
      (s.layout ipc).Collides j := by
  have hSize := h.lt
  constructor
  · rintro ⟨e, he, hIndex⟩
    exact ⟨e, h.subset he, hIndex⟩
  · rintro ⟨e, he, hIndex⟩
    refine ⟨e, h.mem_entries.mpr (Or.inl ?_), hIndex⟩
    rcases h.mem_old.mp he with h' | h' | h'
    · exact h'
    · have hGe := (h.grown.move_index e h').1
      omega
    · have hGe := h.grown.back_index e h'
      omega

/- The collisions of a new index. -/
theorem collides_high
    (hGe : osize ≤ j)
    (hLt : j < size) :
    (t'.layout ipc).Collides j ↔
      ∃ e ∈ kept, machPortIndex e.1 = j := by
  constructor
  · rintro ⟨e, he, hIndex⟩
    rcases h.mem_entries.mp he with h' | h' | h'
    · have hLow := h.grown.front_index e h'
      omega
    · exact ⟨e, h', hIndex⟩
    · have hHigh := h.grown.back_index e h'
      omega
  · rintro ⟨e, he, hIndex⟩
    exact ⟨e, h.mem_entries.mpr (Or.inr (Or.inl he)), hIndex⟩

end GrownFreed

variable {free : List Nat}

section GrownFreed

variable (h : GrownFreed ipc s t t' osize size front move kept back new)

include h

/- The free list after growth. -/
theorem freeList
    (hNodup : new.Nodup)
    (hFree : (s.layout ipc).FreeList none free)
    (hChain : IndexChain.Chain
      (fun j => (t'.isTable j).ieRequest) 0 (new ++ free)) :
    (t'.layout ipc).FreeList none (new ++ free) := by
  have hSize : (t'.layout ipc).size = size := h.size_eq
  have hOsize : (s.layout ipc).size = osize := h.osize_eq
  have hLt := h.lt
  have hPos := h.osize_pos
  have hFreeLt : ∀ j ∈ free, j < osize := by
    intro j hj
    have hj' := ((hFree.2.2 j).mp hj).2.1
    omega
  refine ⟨hChain, ?_, ?_⟩
  · rw [nodup_append]
    refine ⟨hNodup, hFree.2.1, ?_⟩
    intro a ha b hb hab
    have hGe := ((h.mem_new a).mp ha).1
    have hLow := hFreeLt b hb
    omega
  · intro j
    rw [mem_append, hSize]
    by_cases hLow : j < osize
    · have hNot : j ∉ new := by
        intro hMem
        have hGe := ((h.mem_new j).mp hMem).1
        omega
      rw [hFree.2.2, hOsize, h.used_low hLow]
      simp only [hNot, false_or]
      constructor
      · rintro ⟨hjPos, _, hUnused⟩
        exact ⟨hjPos, by omega, hUnused⟩
      · rintro ⟨hjPos, _, hUnused⟩
        exact ⟨hjPos, hLow, hUnused⟩
    · have hNot : j ∉ free := by
        intro hMem
        exact hLow (hFreeLt j hMem)
      simp only [hNot, or_false]
      constructor
      · intro hMem
        rcases (h.mem_new j).mp hMem with ⟨hGe, hjLt, _⟩
        refine ⟨by omega, hjLt, ?_⟩
        intro hUsed
        by_cases hMove : ∃ e ∈ move, machPortIndex e.1 = j
        · exact (h.high_filled hGe hjLt hMove).1 hMem
        · push Not at hMove
          exact (h.high_blank hGe hjLt hMove).2.2.2 hUsed
      · rintro ⟨_, hjLt, hUnused⟩
        by_cases hMove : ∃ e ∈ move, machPortIndex e.1 = j
        · exact absurd
            (h.high_filled (by omega) hjLt hMove).2.2 hUnused
        · push Not at hMove
          exact (h.high_blank (by omega) hjLt hMove).1

/- The collision flags after growth. -/
theorem coll
    {j : Nat}
    (hLt : j < size)
    (hIn : j = 0 ∨ (t'.layout ipc).Used none j) :
    ieBitsHasCollision ((t'.layout ipc).table j).ieBits =
        true ↔ (t'.layout ipc).Collides j := by
  have hPos := h.osize_pos
  have hOsize : (s.layout ipc).size = osize := h.osize_eq
  by_cases hLow : j < osize
  · rw [h.low_bits hLow, h.collides_low hLow]
    apply h.inv.coll j (by omega)
    rcases hIn with h' | h'
    · exact Or.inl h'
    · exact Or.inr ((h.used_low hLow).mp h')
  · have hGe : osize ≤ j := by omega
    have hUsed : (t'.layout ipc).Used none j := by
      rcases hIn with h' | h'
      · omega
      · exact h'
    by_cases hMove : ∃ e ∈ move, machPortIndex e.1 = j
    · rw [(h.high_filled hGe hLt hMove).2.1,
        h.collides_high hGe hLt]
      exact h.grown.flag j hGe hLt
    · push Not at hMove
      exact absurd hUsed (h.high_blank hGe hLt hMove).2.2.2

theorem layoutInv
    (hNodup : new.Nodup)
    (hFree : (s.layout ipc).FreeList none free)
    (hChain : IndexChain.Chain
      (fun j => (t'.isTable j).ieRequest) 0 (new ++ free)) :
    LayoutInv none (t'.layout ipc) := by
  have hSize : (t'.layout ipc).size = size := h.size_eq
  have hOsize : (s.layout ipc).size = osize := h.osize_eq
  have hLt := h.lt
  have hPos := h.osize_pos
  have hInv := h.inv
  exact
    { size_pos := by
        omega
      size_lt := by
        rw [hSize]
        exact h.size_lt
      free := ⟨_, h.freeList hNodup hFree hChain⟩
      clean := by
        intro j hjPos hjLt hUnused
        rw [hSize] at hjLt
        by_cases hLow : j < osize
        · rw [h.low hjPos hLow]
          apply hInv.clean j hjPos (by omega)
          intro hUsed
          exact hUnused ((h.used_low hLow).mpr hUsed)
        · have hGe : osize ≤ j := by omega
          by_cases hMove : ∃ e ∈ move, machPortIndex e.1 = j
          · exact absurd
              (h.high_filled hGe hjLt hMove).2.2 hUnused
          · push Not at hMove
            have hBlank := h.high_blank hGe hjLt hMove
            rw [hBlank.2.1, hBlank.2.2.1]
            exact ⟨by decide, rfl⟩
      zero_gen := by
        rw [h.low_bits hPos]
        exact hInv.zero_gen
      zero_type := by
        rw [h.low_bits hPos]
        exact hInv.zero_type
      zero_pend := by simp
      coll := by
        intro j hjLt hIn
        rw [hSize] at hjLt
        exact h.coll hjLt hIn
      tree_used := by
        intro e he hePos heLt
        rw [hSize] at heLt
        rcases h.mem_entries.mp he with h' | h' | h'
        · have hLow := h.grown.front_index e h'
          rw [h.used_low hLow]
          exact hInv.tree_used e (h.subset he) hePos
            (by omega)
        · have hMem := h.grown.sub.subset h'
          have hGe := (h.grown.move_index e hMem).1
          exact (h.high_filled hGe heLt ⟨e, hMem, rfl⟩).2.2
        · have hHigh := h.grown.back_index e h'
          omega
      sorted := by
        have hOld := hInv.sorted
        have hOldEq : (s.layout ipc).entries =
            front ++ (move ++ back) := h.grown.old
        have hNewEq : (t'.layout ipc).entries =
            front ++ (kept ++ back) := by
          refine Eq.trans ?_ h.grown.new
          unfold IpcSpace.layout
          rw [h.freed.tree]
        rw [hOldEq] at hOld
        rw [hNewEq]
        apply hOld.sublist
        exact (h.grown.sub.append_right back).append_left
          front
      valid := fun e he => hInv.valid e (h.subset he)
      bits := fun e he => hInv.bits e (h.subset he)
      typed := fun e he => Or.inl (h.typed (h.subset he))
      apart := by
        intro e he hePos heLt
        rw [hSize] at heLt
        rcases h.mem_entries.mp he with h' | h' | h'
        · have hLow := h.grown.front_index e h'
          rw [h.low_bits hLow]
          exact hInv.apart e (h.subset he) hePos (by omega)
        · have hMem := h.grown.sub.subset h'
          have hGe := (h.grown.move_index e hMem).1
          rw [(h.high_filled hGe heLt ⟨e, hMem, rfl⟩).2.1]
          exact h.grown.apart e h'
        · have hHigh := h.grown.back_index e h'
          omega }

/- Names in the table stay in the table. -/
theorem inTable
    {name : Nat}
    {content : Content}
    (hTable : (s.layout ipc).InTable none name content) :
    (t'.layout ipc).InTable none name content := by
  have hSize : (t'.layout ipc).size = size := h.size_eq
  have hOsize : (s.layout ipc).size = osize := h.osize_eq
  have hLt := h.lt
  rcases hTable with ⟨hPos, hIn, hUsed, hGen, hContent⟩
  rw [hOsize] at hIn
  rw [← h.low hPos hIn] at hGen hContent
  rw [← h.used_low hIn] at hUsed
  exact ⟨hPos, by omega, hUsed, hGen, hContent⟩

/- Growth changes no name. -/
theorem has_iff
    (name : Nat)
    (content : Content) :
    (t'.layout ipc).Has none name content ↔
      (s.layout ipc).Has none name content := by
  have hSize : (t'.layout ipc).size = size := h.size_eq
  have hOsize : (s.layout ipc).size = osize := h.osize_eq
  constructor
  · intro hHas
    rcases hHas with hTable | ⟨fields, hMem, hContent⟩
    · rcases hTable with ⟨hPos, hIn, hUsed, hGen, hContent⟩
      rw [hSize] at hIn
      by_cases hLow : machPortIndex name < osize
      · left
        rw [h.low hPos hLow] at hGen hContent
        rw [h.used_low hLow] at hUsed
        exact ⟨hPos, by omega, hUsed, hGen, hContent⟩
      · right
        have hGe : osize ≤ machPortIndex name := by omega
        by_cases hMove :
          ∃ e ∈ move, machPortIndex e.1 = machPortIndex name
        · have hSame := (h.high_filled hGe hIn hMove).2.1
          rw [hSame] at hGen hContent
          rcases h.grown.filled _ hGe hIn hMove with
            ⟨e, he, hIndex, hGen', hContent'⟩
          have hName : e.1 = name :=
            machPort_ext hIndex (hGen'.symm.trans hGen)
          subst hName
          exact ⟨e.2, h.mem_old.mpr (Or.inr (Or.inl he)),
            hContent'.symm.trans hContent⟩
        · push Not at hMove
          exact absurd hUsed
            (h.high_blank hGe hIn hMove).2.2.2
    · exact Or.inr ⟨fields, h.subset hMem, hContent⟩
  · intro hHas
    rcases hHas with hTable | ⟨fields, hMem, hContent⟩
    · exact Or.inl (h.inTable hTable)
    · rcases h.mem_old.mp hMem with h' | h' | h'
      · exact Or.inr ⟨fields,
          h.mem_entries.mpr (Or.inl h'), hContent⟩
      · rcases h.grown.placed (name, fields) h' with
          hKept | ⟨hGen, hContent'⟩
        · exact Or.inr ⟨fields,
            h.mem_entries.mpr (Or.inr (Or.inl hKept)),
            hContent⟩
        · left
          rcases h.grown.move_index _ h' with ⟨hGe, hIn⟩
          dsimp only at hGe hIn hGen hContent'
          rcases h.high_filled hGe hIn
            ⟨(name, fields), h', rfl⟩ with ⟨_, hSame, hUsed⟩
          have hPos := h.osize_pos
          refine ⟨by omega, by omega, hUsed, ?_, ?_⟩
          · rw [hSame]
            exact hGen
          · rw [hSame]
            exact hContent'.trans hContent
      · exact Or.inr ⟨fields,
          h.mem_entries.mpr (Or.inr (Or.inr h')), hContent⟩

end GrownFreed

end GrownFreed

------
-- One Growth of the Table
------

namespace TableSizes

variable (sizes : TableSizes)
variable {i : Nat}

theorem lt_of_lt
    {i j : Nat}
    (hLt : i < j)
    (hLast : j < sizes.last) :
    sizes.itsSize i < sizes.itsSize j := by
  induction j with
  | zero => omega
  | succ j ih =>
      have hStep := sizes.strict j hLast
      by_cases hEq : i = j
      · rw [hEq]
        exact hStep
      · omega

theorem le_next
    (hLast : i < sizes.last) :
    sizes.itsSize i ≤ sizes.itsSize (i + 1) := by
  by_cases hEq : i + 1 = sizes.last
  · have hFlat := sizes.flat
    have hPrev : sizes.last - 1 = i := by omega
    rw [hPrev] at hFlat
    rw [hEq, hFlat]
  · exact (sizes.strict i (by omega)).le

theorem size_lt
    (hLe : i ≤ sizes.last) :
    sizes.itsSize i < machIndexBound := by
  have hSize := sizes.size_le hLe
  have hDead : machPortIndex machPortDead + 1 =
      machIndexBound := by decide
  omega

end TableSizes

/- Rehashing the old entries changes none of them. -/
theorem foldl_growHash
    (slots : List Nat)
    (s : IpcSpace) :
    SameEntries s (slots.foldl growHash s) := by
  induction slots generalizing s with
  | nil => exact SameEntries.refl s
  | cons i slots ih =>
      have hStep : SameEntries s (growHash s i) := by
        unfold growHash
        dsimp only
        split_ifs
        · exact SameEntries.hashLocalInsert _ _ _
        · exact SameEntries.refl s
      exact hStep.trans (ih _)

/- A copied table, whatever its reverse hash. -/
structure Copied
    (s s1 : IpcSpace)
    (osize size next : Nat) : Prop where
  active : s1.isActive = s.isActive
  growing : s1.isGrowing = s.isGrowing
  fast : s1.isFast = s.isFast
  size_eq : s1.isTableSize = size
  next_eq : s1.isTableNext = next
  tree : s1.isTree = s.isTree
  total : s1.isTreeTotal = s.isTreeTotal
  small : s1.isTreeSmall = s.isTreeSmall
  low :
    ∀ j < osize, (s1.isTable j).toEntryFields =
      (s.isTable j).toEntryFields
  high :
    ∀ j, osize ≤ j → j < size →
      (s1.isTable j).toEntryFields = ⟨0, 0, 0⟩

theorem copied_of_sameEntries
    {s s1 : IpcSpace}
    {osize size next : Nat}
    (hSame : SameEntries
      { s with
        isTable := growCopy s osize size
        isTableSize := size
        isTableNext := next } s1) :
    Copied s s1 osize size next :=
  { active := hSame.frame.active
    growing := hSame.frame.growing
    fast := hSame.frame.fast
    size_eq := hSame.frame.size
    next_eq := hSame.frame.next
    tree := hSame.tree
    total := hSame.total
    small := hSame.small
    low := by
      intro j hLt
      rw [hSame.fields]
      unfold growCopy
      dsimp only
      rw [if_pos hLt]
    high := by
      intro j hGe hLt
      rw [hSame.fields]
      unfold growCopy
      dsimp only
      rw [if_neg (by omega), if_pos hLt]
      rfl }

/- What the work on the tree does. -/
structure GrownTree
    (ipc : IpcParams)
    (s s1 s2 : IpcSpace)
    (osize size nsize : Nat)
    (front move kept back : List (Nat × EntryFields)) :
    Prop where
  grown : Grown s s2 osize size front move kept back
  frame : SameFrame s1 s2
  wf : s2.isTree.WellFormed
  total : s2.isTreeTotal = s2.isTree.toList.length
  small :
    s2.isTreeSmall =
      (((front ++ (kept ++ back)).map
        (fun e => machPortIndex e.1)).toFinset.filter
          (fun i => size ≤ i ∧ i < nsize)).card
  movable : Movable s1 move
  kept_eq : kept = (travFold (growMove ipc) s1 move).2
  swept :
    ∃ tree count,
      s2 =
        { (travFold (growMove ipc) s1 move).1 with
          isTree := tree
          isTreeSmall := count }

section Tree

variable {ipc : IpcParams} {s s1 : IpcSpace}
variable {osize size nsize next : Nat}

/- Nothing to do when the tree is empty. -/
theorem grownTree_nil
    (hInv : SpaceInv ipc none s)
    (hCopied : Copied s s1 osize size next)
    (hNil : s.isTree.toList = []) :
    GrownTree ipc s s1 s1 osize size nsize [] [] [] [] := by
  have hTree := hCopied.tree
  have hSmall : s.isTreeSmall = 0 := by
    rw [hInv.small, Finset.card_eq_zero]
    unfold Layout.smallIndices IpcSpace.layout
    rw [hNil]
    rfl
  refine ⟨?_, ⟨rfl, rfl, rfl, rfl, rfl⟩, ?_, ?_, ?_, ?_,
    rfl, ⟨s1.isTree, s1.isTreeSmall, rfl⟩⟩
  · exact
      { old := hNil
        new := by
          rw [hTree]
          exact hNil
        sub := List.Sublist.refl _
        front_index := fun e he => absurd he (by simp)
        move_index := fun e he => absurd he (by simp)
        back_index := fun e he => absurd he (by simp)
        low := hCopied.low
        blank := fun j hGe hLt _ => hCopied.high j hGe hLt
        filled := by
          rintro j _ _ ⟨e, he, _⟩
          cases he
        placed := fun e he => absurd he (by simp)
        flag := by
          intro j hGe hLt
          rw [hCopied.high j hGe hLt]
          constructor
          · intro h
            exact absurd h (by decide)
          · rintro ⟨e, he, _⟩
            cases he
        apart := fun e he => absurd he (by simp) }
  · rw [hTree]
    exact hInv.tree
  · rw [hTree, hCopied.total]
    exact hInv.total
  · rw [hCopied.small, hSmall]
    rfl
  · exact ⟨List.Pairwise.nil, by simp, by simp,
      Nat.zero_le _⟩

/- The four regions are worked through. -/
theorem grownTree_spec
    (hInv : SpaceInv ipc none s)
    (hCopied : Copied s s1 osize size next)
    (hPos : 0 < osize)
    (hLe : osize ≤ size)
    (hLe' : size ≤ nsize)
    (hLt : nsize < machIndexBound) :
    ∃ front move kept back,
      GrownTree ipc s s1 (growTree ipc s1 osize size nsize)
        osize size nsize front move kept back := by
  have hWF : s1.isTree.WellFormed := by
    rw [hCopied.tree]
    exact hInv.tree
  have hCut := cutGrow_split hWF hLe hLe' hLt
  unfold growTree
  dsimp only
  generalize (s1.isTree.split (machPortMake nsize 0)).1 =
    large at hCut ⊢
  generalize ((s1.isTree.split (machPortMake nsize 0)).2.split
    (machPortMake size 0)).1 = small at hCut ⊢
  generalize (((s1.isTree.split
    (machPortMake nsize 0)).2.split
      (machPortMake size 0)).2.split
        (machPortMake osize 0)) = cut at hCut ⊢
  have hList := hCut.list
  rw [hCopied.tree] at hList
  have hMem : ∀ e ∈ cut.1.toList,
      e ∈ (s.layout ipc).entries := by
    intro e he
    have hIn : e ∈ s.isTree.toList := by
      rw [hList]
      exact mem_append_right _ (mem_append_left _ he)
    exact hIn
  -- the entries in the new part of the table move
  have hMovable : Movable s1 cut.1.toList := by
    refine ⟨hCut.move_wf.sorted, ?_, ?_, ?_⟩
    · intro e he
      refine ⟨hInv.layout.bits e (hMem e he), ?_⟩
      rcases hInv.layout.typed e (hMem e he) with h | h
      · exact h
      · cases h
    · intro e he hBits
      rcases hCut.move_index e he with ⟨hGe, hIn⟩
      rw [hCopied.high _ hGe hIn] at hBits
      exact absurd rfl hBits
    · rw [hCopied.total, hInv.total, hList]
      simp only [length_append]
      omega
  have hMoved := travFold_growMove ipc _ s1 hMovable
  rcases SplayTree.traverse_spec hCut.move_wf (growMove ipc)
    s1 with ⟨hState, hKept, hKeptWF⟩
  rw [← hState, ← hKept] at hMoved
  generalize cut.1.traverse (growMove ipc) s1 = moved
    at hMoved hKeptWF hState hKept ⊢
  -- the entries above are counted
  have hCount := travFold_growCount small.toList
    hCut.small_wf.sorted 0 0 (fun _ _ => Nat.zero_le _)
  have hCountKept := travFold_growCount_kept small.toList
    (0, 0)
  rcases SplayTree.traverse_spec hCut.small_wf growCount
    (0, 0) with ⟨hNumber, hSmall, hSmallWF⟩
  rw [← hNumber] at hCount
  rw [hCountKept] at hSmall
  have hJoin := hCut.rejoin hWF.sorted hSmallWF hSmall
    hKeptWF (fun e he => hMoved.sub.subset he)
  refine ⟨cut.2.toList, cut.1.toList, moved.2.toList,
    small.toList ++ large.toList, ?_⟩
  refine ⟨?_, ?_, hJoin.1, ?_, ?_, hMovable, hKept, ?_⟩
  · exact
      { old := hList
        new := hJoin.2
        sub := hMoved.sub
        front_index := hCut.ignore_index
        move_index := hCut.move_index
        back_index := by
          intro e he
          rcases mem_append.mp he with h | h
          · exact (hCut.small_index e h).1
          · exact hLe'.trans (hCut.large_index e h)
        low := by
          intro j hj
          refine (hMoved.same j ?_).trans (hCopied.low j hj)
          intro e he hIndex
          have hGe := (hCut.move_index e he).1
          omega
        blank := by
          intro j hGe hj hNone
          exact (hMoved.same j hNone).trans
            (hCopied.high j hGe hj)
        filled := by
          intro j hGe hj hSome
          apply hMoved.filled j _ hSome
          rw [hCopied.high j hGe hj]
        placed := hMoved.placed
        flag := by
          intro j hGe hj
          rw [hMoved.flag, hCopied.high j hGe hj]
          constructor
          · rintro (h | h)
            · exact absurd h (by decide)
            · exact h
          · exact Or.inr
        apart := hMoved.apart }
  · exact ⟨hMoved.frame.active, hMoved.frame.size,
      hMoved.frame.next, hMoved.frame.fast,
            hMoved.frame.growing⟩
  · have hTotal := hMoved.total
    have hOld := hInv.total
    rw [hCopied.total] at hTotal
    rw [hList] at hOld
    rw [hJoin.2]
    simp only [length_append] at hOld ⊢
    omega
  · dsimp only
    rw [hCount, Nat.zero_add]
    congr 1
    ext i
    rw [Finset.mem_erase, Finset.mem_filter, mem_toFinset,
      mem_toFinset, mem_map, mem_map]
    constructor
    · rintro ⟨_, e, he, hIndex⟩
      have hRange := hCut.small_index e he
      rw [hIndex] at hRange
      refine ⟨⟨e, ?_, hIndex⟩, hRange⟩
      exact mem_append_right _
        (mem_append_right _ (mem_append_left _ he))
    · rintro ⟨⟨e, he, hIndex⟩, hGe, hIn⟩
      refine ⟨by omega, e, ?_, hIndex⟩
      simp only [mem_append] at he
      rcases he with h | h | h | h
      · have hLow := hCut.ignore_index e h
        omega
      · have hLow := (hCut.move_index e
          (hMoved.sub.subset h)).2
        omega
      · exact h
      · have hHigh := hCut.large_index e h
        omega
  · rw [← hState]
    exact ⟨_, _, rfl⟩

end Tree

namespace SpaceInv

variable {ipc : IpcParams} {s : IpcSpace}

/- The work on the tree, if there is a tree. -/
theorem exists_grownTree
    {s1 : IpcSpace}
    {osize size nsize next : Nat}
    (hInv : SpaceInv ipc none s)
    (hCopied : Copied s s1 osize size next)
    (hPos : 0 < osize)
    (hLe : osize ≤ size)
    (hLe' : size ≤ nsize)
    (hLt : nsize < machIndexBound) :
    ∃ front move kept back,
      GrownTree ipc s s1
        (if 0 < s1.isTreeTotal then
          growTree ipc s1 osize size nsize else s1)
        osize size nsize front move kept back := by
  split_ifs with hTotal
  · exact grownTree_spec hInv hCopied hPos hLe hLe' hLt
  · refine ⟨[], [], [], [], ?_⟩
    apply grownTree_nil hInv hCopied
    apply length_eq_zero_iff.mp
    rw [← hInv.total, ← hCopied.total]
    omega

end SpaceInv

end Ipc

end OsfMach
