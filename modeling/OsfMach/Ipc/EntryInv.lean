import OsfMach.Ipc.Entry
import Mathlib.Data.Finset.Card
import Mathlib.Data.List.Dedup

/-
  The representation invariant of a space.

  The layout of a space is its table and the entries of its
  tree, without the hash fields and the shape of the tree.
  An entry that has been allocated but not yet given a type
  by its caller is pending.

  Main declarations:
    * `Layout`, `Layout.Used`, `Layout.Has`
    * `LayoutInv`, `SpaceInv`, `IpcSpace.found`
    * `SpaceInv.treeCollision_spec`
    * `SpaceInv.lookup_spec`
-/

------
-- Layouts
------

namespace OsfMach

namespace Ipc

open Function
open Lib

/- Table and tree entries; `limit` is the next table size. -/
structure Layout where
  table : Nat → EntryFields
  size : Nat
  limit : Nat
  entries : List (Nat × EntryFields)

/- The layout of a space. -/
def IpcSpace.layout (ipc : IpcParams) (s : IpcSpace) : Layout :=
  { table := fun i => (s.isTable i).toEntryFields
    size := s.isTableSize
    limit := ipc.sizes.itsSize s.isTableNext
    entries := s.isTree.toList }

/- Of the tree a layout reads the order alone. -/
theorem IpcSpace.layout_reshape
    {ipc : IpcParams}
    {s : IpcSpace}
    {tree : SplayTree EntryFields}
    (hList : tree.toList = s.isTree.toList) :
    ({ s with isTree := tree } : IpcSpace).layout ipc =
      s.layout ipc := by
  unfold IpcSpace.layout
  simp only [hList]

/- What a name denotes, apart from where it is kept. -/
structure Content where
  right : EntryBits
  object : Nat
  request : Nat
deriving DecidableEq, Repr

def EntryFields.content (fields : EntryFields) : Content :=
  ⟨ieBitsRight fields.ieBits, fields.ieObject,
    fields.ieRequest⟩

/- What a new entry denotes before it is given a type. -/
def Content.fresh : Content := ⟨0, 0, 0⟩

/- The type of a right. -/
def Content.type (content : Content) : EntryBits :=
  ieBitsType content.right

namespace Layout

/- A slot is in use or pending. -/
def Used
    (L : Layout)
    (pend : Option EntryRef)
    (i : Nat) : Prop :=
  ieBitsType (L.table i).ieBits ≠ 0 ∨ pend = some (.slot i)

/- The tree holds a name of this index. -/
def Collides (L : Layout) (i : Nat) : Prop :=
  ∃ entry ∈ L.entries, machPortIndex entry.1 = i

/- The table denotes this content by this name. -/
def InTable
    (L : Layout)
    (pend : Option EntryRef)
    (name : Nat)
    (content : Content) : Prop :=
  0 < machPortIndex name ∧ machPortIndex name < L.size ∧
    L.Used pend (machPortIndex name) ∧
    ieBitsGen (L.table (machPortIndex name)).ieBits =
      machPortGen name ∧
    (L.table (machPortIndex name)).content = content

/- The tree denotes this content by this name. -/
def InTree
    (L : Layout)
    (name : Nat)
    (content : Content) : Prop :=
  ∃ fields, (name, fields) ∈ L.entries ∧
    fields.content = content

/- The space denotes this content by this name. -/
def Has
    (L : Layout)
    (pend : Option EntryRef)
    (name : Nat)
    (content : Content) : Prop :=
  L.InTable pend name content ∨ L.InTree name content

/- The small indices of the tree. -/
def smallIndices (L : Layout) : Finset Nat :=
  (L.entries.map (fun entry =>
    machPortIndex entry.1)).toFinset.filter
      (fun i => L.size ≤ i ∧ i < L.limit)

/- The free list. -/
def FreeList
    (L : Layout)
    (pend : Option EntryRef)
    (free : List Nat) : Prop :=
  IndexChain.Chain (fun i => (L.table i).ieRequest) 0 free ∧
    free.Nodup ∧
    ∀ i, i ∈ free ↔ 0 < i ∧ i < L.size ∧ ¬ L.Used pend i

/- Store a slot of the table. -/
def setSlot
    (L : Layout)
    (i : Nat)
    (fields : EntryFields) : Layout :=
  { L with table := update L.table i fields }

end Layout

/-
  What holds of every layout: the free list has the unused
  slots, collision flags tell the truth, and the names of
  the tree are apart from those of the table.
-/
structure LayoutInv
    (pend : Option EntryRef)
    (L : Layout) : Prop where
  size_pos : 0 < L.size
  size_lt : L.size < machIndexBound
  free : ∃ free, L.FreeList pend free
  clean :
    ∀ i, 0 < i → i < L.size → ¬ L.Used pend i →
      ieBitsGen (L.table i).ieBits = (L.table i).ieBits ∧
        (L.table i).ieObject = 0
  zero_gen : ieBitsGen (L.table 0).ieBits = ieBitsGenMask
  zero_type : ieBitsType (L.table 0).ieBits = 0
  zero_pend : pend ≠ some (.slot 0)
  coll :
    ∀ i < L.size, i = 0 ∨ L.Used pend i →
      (ieBitsHasCollision (L.table i).ieBits = true ↔
        L.Collides i)
  tree_used :
    ∀ entry ∈ L.entries, 0 < machPortIndex entry.1 →
      machPortIndex entry.1 < L.size →
        L.Used pend (machPortIndex entry.1)
  sorted : KeySorted L.entries
  valid :
    ∀ entry ∈ L.entries,
      0 < entry.1 ∧ entry.1 < machPortDead
  bits :
    ∀ entry ∈ L.entries,
      ieBitsRight entry.2.ieBits = entry.2.ieBits
  typed :
    ∀ entry ∈ L.entries, ieBitsType entry.2.ieBits ≠ 0 ∨
      pend = some (.node entry.1)
  apart :
    ∀ entry ∈ L.entries, 0 < machPortIndex entry.1 →
      machPortIndex entry.1 < L.size →
        ieBitsGen (L.table (machPortIndex entry.1)).ieBits ≠
          machPortGen entry.1

/- The representation invariant of a space. -/
structure SpaceInv
    (ipc : IpcParams)
    (pend : Option EntryRef)
    (s : IpcSpace) : Prop where
  layout : LayoutInv pend (s.layout ipc)
  tree : s.isTree.WellFormed
  active : s.isActive = true
  growing : s.isGrowing = false
  next_pos : 0 < s.isTableNext
  next_le : s.isTableNext ≤ ipc.sizes.last
  size_eq :
    s.isTableSize = ipc.sizes.itsSize (s.isTableNext - 1)
  total : s.isTreeTotal = s.isTree.toList.length
  small : s.isTreeSmall = (s.layout ipc).smallIndices.card
  fast : s.isFast = true → s.isTree.toList = []

------
-- Facts about Layouts
------

namespace LayoutInv

variable {pend : Option EntryRef} {L : Layout}

/- A name in the tree is not in the table. -/
theorem not_inTable
    (hInv : LayoutInv pend L)
    {entry : Nat × EntryFields}
    (hMem : entry ∈ L.entries)
    (content : Content) :
    ¬ L.InTable pend entry.1 content := by
  intro hTable
  rcases hTable with ⟨hPos, hLt, _, hGen, _⟩
  exact hInv.apart entry hMem hPos hLt hGen

/- An unused slot has no colliding names. -/
theorem not_collides
    (hInv : LayoutInv pend L)
    {i : Nat}
    (hPos : 0 < i)
    (hLt : i < L.size)
    (hFree : ¬ L.Used pend i) :
    ¬ L.Collides i := by
  rintro ⟨entry, hMem, hIndex⟩
  subst hIndex
  exact hFree (hInv.tree_used entry hMem hPos hLt)

end LayoutInv

------
-- Facts about Spaces
------

namespace SpaceInv

variable {ipc : IpcParams} {pend : Option EntryRef}
variable {s s' : IpcSpace}

/-
  Only the layout and the counters matter, not the hash
  tables and the shape of the tree.
-/
theorem congr
    (hInv : SpaceInv ipc pend s)
    (hLayout : s'.layout ipc = s.layout ipc)
    (hTree : s'.isTree.WellFormed)
    (hActive : s'.isActive = s.isActive)
    (hGrowing : s'.isGrowing = s.isGrowing)
    (hNext : s'.isTableNext = s.isTableNext)
    (hTotal : s'.isTreeTotal = s.isTreeTotal)
    (hSmall : s'.isTreeSmall = s.isTreeSmall)
    (hFast : s'.isFast = s.isFast) :
    SpaceInv ipc pend s' := by
  have hSize : s'.isTableSize = s.isTableSize :=
    congrArg Layout.size hLayout
  have hEntries : s'.isTree.toList = s.isTree.toList :=
    congrArg Layout.entries hLayout
  refine ⟨?_, hTree, ?_, ?_, ?_, ?_, ?_, ?_, ?_, ?_⟩
  · rw [hLayout]
    exact hInv.layout
  · rw [hActive]
    exact hInv.active
  · rw [hGrowing]
    exact hInv.growing
  · rw [hNext]
    exact hInv.next_pos
  · rw [hNext]
    exact hInv.next_le
  · rw [hSize, hNext]
    exact hInv.size_eq
  · rw [hTotal, hEntries]
    exact hInv.total
  · rw [hSmall, hLayout]
    exact hInv.small
  · rw [hFast, hEntries]
    exact hInv.fast

/- Reshaping the tree changes nothing. -/
theorem reshape
    (hInv : SpaceInv ipc pend s)
    {tree : SplayTree EntryFields}
    (hList : tree.toList = s.isTree.toList)
    (hTree : tree.WellFormed) :
    SpaceInv ipc pend { s with isTree := tree } := by
  exact hInv.congr (IpcSpace.layout_reshape hList) hTree rfl
    rfl rfl rfl rfl rfl

end SpaceInv

------
-- Collisions in the Tree
------

/- A name of the tree is neither null nor dead. -/
def ValidNames (entries : List (Nat × EntryFields)) : Prop :=
  ∀ entry ∈ entries, 0 < entry.1 ∧ entry.1 < machPortDead

/- The neighbours of a name tell whether its index occurs. -/
theorem neighbours_collide_iff
    {entries : List (Nat × EntryFields)}
    {name lower upper : Nat}
    (hValid : ValidNames entries)
    (hLower : SplayTree.IsLower entries name lower)
    (hUpper : SplayTree.IsUpper entries name upper) :
    ((lower ≠ machPortLargest ∧
        machPortIndex lower = machPortIndex name) ∨
      (upper ≠ machPortSmallest ∧
        machPortIndex upper = machPortIndex name)) ↔
      ∃ entry ∈ entries,
        machPortIndex entry.1 = machPortIndex name := by
  constructor
  · intro h
    rcases h with ⟨hNe, hIndex⟩ | ⟨hNe, hIndex⟩
    · rcases hLower with ⟨hEq, _⟩ | ⟨⟨v, hMem⟩, _⟩
      · exact absurd hEq hNe
      · exact ⟨(lower, v), hMem, hIndex⟩
    · rcases hUpper with ⟨hEq, _⟩ | ⟨⟨v, hMem⟩, _⟩
      · exact absurd hEq hNe
      · exact ⟨(upper, v), hMem, hIndex⟩
  · rintro ⟨entry, hMem, hIndex⟩
    rcases Nat.le_total entry.1 name with hLe | hLe
    · left
      rcases hLower with ⟨_, hAll⟩ | ⟨⟨v, hIn⟩, hTop, hMax⟩
      · exact absurd (hAll entry hMem) hLe.not_gt
      · have hVal := (hValid _ hIn).2
        have hLow :=
          machPortIndex_mono (hMax entry hMem hLe)
        have hHigh := machPortIndex_mono hTop
        constructor
        · exact hVal.ne
        · omega
    · right
      rcases hUpper with ⟨_, hAll⟩ | ⟨⟨v, hIn⟩, hBot, hMin⟩
      · exact absurd (hAll entry hMem) hLe.not_gt
      · have hVal := (hValid _ hIn).1
        have hLow := machPortIndex_mono hBot
        have hHigh :=
          machPortIndex_mono (hMin entry hMem hLe)
        constructor
        · exact hVal.ne'
        · omega

/- The test for collisions reshapes the tree at most. -/
theorem treeCollision_spec
    {s : IpcSpace}
    (hTree : s.isTree.WellFormed)
    (hValid : ValidNames s.isTree.toList)
    (name : Nat) :
    ((ipcEntryTreeCollision s name).1 = true ↔
        ∃ entry ∈ s.isTree.toList,
          machPortIndex entry.1 = machPortIndex name) ∧
      ∃ tree : SplayTree EntryFields,
        (ipcEntryTreeCollision s name).2 =
            { s with isTree := tree } ∧
          tree.toList = s.isTree.toList ∧
          tree.WellFormed := by
  rcases SplayTree.bounds_spec hTree name with
    ⟨hLower, hUpper, hList, hWF⟩
  have hIff := neighbours_collide_iff hValid hLower hUpper
  constructor
  · unfold ipcEntryTreeCollision
    rw [decide_eq_true_iff]
    exact hIff
  · exact ⟨_, rfl, hList, hWF⟩

------
-- Lookups
------

/- Where the space keeps this name, and what is there. -/
def Layout.At
    (L : Layout)
    (pend : Option EntryRef)
    (name : Nat) : EntryRef → EntryFields → Prop
| .slot i, fields =>
    i = machPortIndex name ∧ 0 < i ∧ i < L.size ∧
      L.Used pend i ∧
      ieBitsGen (L.table i).ieBits = machPortGen name ∧
      L.table i = fields
| .node n, fields => n = name ∧ (name, fields) ∈ L.entries

/- The space denotes what it keeps for a name. -/
theorem Layout.has_iff
    {L : Layout}
    {pend : Option EntryRef}
    {name : Nat}
    {content : Content} :
    L.Has pend name content ↔
      ∃ ref fields, L.At pend name ref fields ∧
        fields.content = content := by
  constructor
  · intro hHas
    rcases hHas with hTable | ⟨fields, hMem, hContent⟩
    · rcases hTable with ⟨hPos, hLt, hUsed, hGen, hContent⟩
      exact ⟨.slot (machPortIndex name), _,
        ⟨rfl, hPos, hLt, hUsed, hGen, rfl⟩, hContent⟩
    · exact ⟨.node name, fields, ⟨rfl, hMem⟩, hContent⟩
  · rintro ⟨ref, fields, hAt, hContent⟩
    cases ref with
    | slot i =>
        rcases hAt with ⟨hi, hPos, hLt, hUsed, hGen, hEq⟩
        subst hi
        rw [← hEq] at hContent
        exact Or.inl ⟨hPos, hLt, hUsed, hGen, hContent⟩
    | node n => exact Or.inr ⟨fields, hAt.2, hContent⟩

/- The type of a used slot when nothing is pending. -/
theorem Layout.type_of_used
    {L : Layout}
    {i : Nat}
    (hUsed : L.Used none i) :
    ieBitsType (L.table i).ieBits ≠ machPortTypeNone := by
  rcases hUsed with h | h
  · exact h
  · cases h

/-
  The one valid name whose index and generation are those of
  slot zero.
-/
def shadowedName : Nat := 0xff

theorem shadowedName_of_zero
    {name : Nat}
    (hIndex : machPortIndex name = 0)
    (hGen : machPortGen name = ieBitsGenMask) :
    name = shadowedName := by
  apply machPort_ext
  · rw [hIndex]
    rfl
  · rw [hGen]
    rfl

namespace SpaceInv

variable {ipc : IpcParams} {pend : Option EntryRef}
variable {s : IpcSpace} {name : Nat}

section

variable (hInv : SpaceInv ipc pend s)
include hInv

/- A lookup in the tree. -/
theorem treeLookup_spec
    (name : Nat) :
    (treeLookup s name).1 =
        (s.treeFields name).map (fun _ => .node name) ∧
      ∃ tree : SplayTree EntryFields,
        (treeLookup s name).2 = { s with isTree := tree } ∧
          tree.toList = s.isTree.toList ∧
          tree.WellFormed := by
  rcases SplayTree.lookup_spec hInv.tree name with
    ⟨hSome, hList, hWF⟩
  constructor
  · unfold treeLookup IpcSpace.treeFields
    rw [← hSome]
  · exact ⟨_, rfl, hList, hWF⟩

/- A lookup reshapes the tree at most. -/
theorem lookup_reshape
    (name : Nat) :
    ∃ tree : SplayTree EntryFields,
      (ipcEntryLookup s name).2 = { s with isTree := tree } ∧
        tree.toList = s.isTree.toList ∧
        tree.WellFormed := by
  have hTree := (hInv.treeLookup_spec name).2
  have hSame : ∃ tree : SplayTree EntryFields,
      s = { s with isTree := tree } ∧
        tree.toList = s.isTree.toList ∧
        tree.WellFormed := ⟨s.isTree, rfl, rfl, hInv.tree⟩
  unfold ipcEntryLookup
  dsimp only
  split_ifs <;> first | exact hSame | exact hTree

/- The tree alone holds a name that the table does not. -/
theorem treeLookup_iff
    (hTable : ∀ i fields,
      ¬ (s.layout ipc).At pend name (.slot i) fields)
    (ref : EntryRef) :
    (treeLookup s name).1 = some ref ↔
      ∃ fields, (s.layout ipc).At pend name ref fields := by
  have hSorted := hInv.layout.sorted
  rw [(hInv.treeLookup_spec name).1, Option.map_eq_some_iff]
  constructor
  · rintro ⟨fields, hLookup, hRef⟩
    subst hRef
    exact ⟨fields, rfl, mem_of_lookup_eq_some hLookup⟩
  · rintro ⟨fields, hAt⟩
    cases ref with
    | slot i => exact absurd hAt (hTable i fields)
    | node n =>
        rcases hAt with ⟨hName, hMem⟩
        refine ⟨fields, hSorted.lookup_of_mem hMem, ?_⟩
        rw [hName]

/- A used slot of the right generation is the entry. -/
theorem slot_iff
    (hLt : machPortIndex name < s.isTableSize)
    (hGen : ieBitsGen
      (s.isTable (machPortIndex name)).ieBits =
        machPortGen name)
    (hType : ieBitsType
      (s.isTable (machPortIndex name)).ieBits ≠
        machPortTypeNone)
    (ref : EntryRef) :
    some (EntryRef.slot (machPortIndex name)) = some ref ↔
      ∃ fields, (s.layout ipc).At pend name ref fields := by
  have hPos : 0 < machPortIndex name := by
    apply Nat.pos_of_ne_zero
    intro hZero
    rw [hZero] at hType
    exact hType hInv.layout.zero_type
  constructor
  · intro hRef
    cases hRef
    exact ⟨_, rfl, hPos, hLt, Or.inl hType, hGen, rfl⟩
  · rintro ⟨fields, hAt⟩
    cases ref with
    | slot i => rw [hAt.1]
    | node n =>
        exact absurd hGen
          (hInv.layout.apart (name, fields) hAt.2 hPos hLt)

end

/- A name that is kept nowhere. -/
theorem false_iff_at
    (hNone : ∀ ref fields,
      ¬ (s.layout ipc).At pend name ref fields)
    (ref : EntryRef) :
    False ↔
      ∃ fields, (s.layout ipc).At pend name ref fields := by
  constructor
  · exact False.elim
  · rintro ⟨fields, hAt⟩
    exact hNone ref fields hAt

section Lookup

variable {name : Nat} (hInv : SpaceInv ipc pend s)
variable (hTyped : ∀ ref fields,
  (s.layout ipc).At pend name ref fields →
    ieBitsType fields.ieBits ≠ machPortTypeNone)

include hInv hTyped

/- In a fast space nothing is in the tree. -/
theorem lookup_fast
    (hFast : s.isFast = true)
    (hLt : machPortIndex name < s.isTableSize)
    (ref : EntryRef) :
    (ipcEntryLookup s name).1 = some ref ↔
      ∃ fields, (s.layout ipc).At pend name ref fields := by
  unfold ipcEntryLookup
  dsimp only
  split_ifs with hBad
  · apply false_iff_at
    intro ref fields hAt
    cases ref with
    | slot i =>
        have hType := hTyped _ _ hAt
        rcases hAt with ⟨hi, _, _, _, hGen, hFields⟩
        subst hi
        rcases hBad with h | h
        · exact h hGen
        · rw [← hFields] at hType
          exact hType h
    | node n =>
        have hNil : (s.layout ipc).entries = [] :=
          hInv.fast hFast
        have hMem := hAt.2
        rw [hNil] at hMem
        cases hMem
  · rw [not_or, not_not] at hBad
    exact hInv.slot_iff hLt hBad.1 hBad.2 ref

/- The names of the index of a slot. -/
theorem lookup_inside
    (hFast : ¬ s.isFast = true)
    (hShadow : name = shadowedName →
      ∀ fields, (name, fields) ∉ (s.layout ipc).entries)
    (hLt : machPortIndex name < s.isTableSize)
    (ref : EntryRef) :
    (ipcEntryLookup s name).1 = some ref ↔
      ∃ fields, (s.layout ipc).At pend name ref fields := by
  have hLayout := hInv.layout
  unfold ipcEntryLookup
  dsimp only
  split_ifs with hGen hColl hType
  · -- another generation, and the tree has the index
    apply hInv.treeLookup_iff
    intro i fields hAt
    rcases hAt with ⟨hi, _, _, _, hEq, _⟩
    subst hi
    exact hGen hEq
  · -- another generation, and the tree lacks the index
    apply false_iff_at
    intro ref fields hAt
    cases ref with
    | slot i =>
        rcases hAt with ⟨hi, _, _, _, hEq, _⟩
        subst hi
        exact hGen hEq
    | node n =>
        have hCollides : (s.layout ipc).Collides
            (machPortIndex name) := ⟨_, hAt.2, rfl⟩
        have hIn : machPortIndex name = 0 ∨
            (s.layout ipc).Used pend
              (machPortIndex name) := by
          rcases Nat.eq_zero_or_pos
            (machPortIndex name) with h | h
          · exact Or.inl h
          · exact Or.inr
              (hLayout.tree_used (name, fields) hAt.2 h hLt)
        exact hColl ((hLayout.coll _ hLt hIn).mpr hCollides)
  · -- the slot is free, or it is slot zero
    apply false_iff_at
    intro ref fields hAt
    cases ref with
    | slot i =>
        have hNot := hTyped _ _ hAt
        rcases hAt with ⟨hi, _, _, _, _, hFields⟩
        subst hi
        rw [← hFields] at hNot
        exact hNot hType
    | node n =>
        have hGen' := not_not.mp hGen
        rcases Nat.eq_zero_or_pos
          (machPortIndex name) with h | h
        · have hZero := hLayout.zero_gen
          rw [h] at hGen'
          exact hShadow (shadowedName_of_zero h
            (hGen'.symm.trans hZero)) fields hAt.2
        · exact hLayout.apart (name, fields) hAt.2 h hLt
            hGen'
  · exact hInv.slot_iff hLt (not_not.mp hGen) hType ref

omit hTyped in
/- The names above the table. -/
theorem lookup_outside
    (hFast : ¬ s.isFast = true)
    (hLt : ¬ machPortIndex name < s.isTableSize)
    (ref : EntryRef) :
    (ipcEntryLookup s name).1 = some ref ↔
      ∃ fields, (s.layout ipc).At pend name ref fields := by
  have hSlot : ∀ i fields,
      ¬ (s.layout ipc).At pend name (.slot i) fields := by
    intro i fields hAt
    rcases hAt with ⟨hi, _, hIn, _, _, _⟩
    subst hi
    exact hLt hIn
  unfold ipcEntryLookup
  dsimp only
  rw [if_neg hFast, if_neg hLt]
  split_ifs with hTotal
  · have hNil : (s.layout ipc).entries = [] := by
      apply List.length_eq_zero_iff.mp
      exact hInv.total.symm.trans hTotal
    apply false_iff_at
    intro ref fields hAt
    cases ref with
    | slot i => exact hSlot i fields hAt
    | node n =>
        have hMem := hAt.2
        rw [hNil] at hMem
        cases hMem
  · exact hInv.treeLookup_iff hSlot ref

/-
  A lookup finds the entry that the space keeps for a name.
  A tree entry of the name shadowed by slot zero is missed.
-/
theorem lookup_spec
    (hShadow : name = shadowedName →
      ∀ fields, (name, fields) ∉ (s.layout ipc).entries)
    (hFast :
      s.isFast = true → machPortIndex name < s.isTableSize)
    (ref : EntryRef) :
    (ipcEntryLookup s name).1 = some ref ↔
      ∃ fields, (s.layout ipc).At pend name ref fields := by
  by_cases hF : s.isFast = true
  · exact hInv.lookup_fast hTyped hF (hFast hF) ref
  · by_cases hLt : machPortIndex name < s.isTableSize
    · exact hInv.lookup_inside hTyped hF hShadow hLt ref
    · exact hInv.lookup_outside hF hLt ref

end Lookup

end SpaceInv

------
-- Reading and Storing Entries
------

theorem IpcSpace.layout_setSlot
    (ipc : IpcParams)
    (s : IpcSpace)
    (i : Nat)
    (fields : EntryFields) :
    (s.setSlot i fields).layout ipc =
      (s.layout ipc).setSlot i fields := by
  unfold layout setSlot Layout.setSlot
  simp only [Layout.mk.injEq, and_true]
  funext j
  rw [update_apply, update_apply]
  split_ifs <;> rfl

/- What a lookup of a name gives. -/
def IpcSpace.found
    (s : IpcSpace)
    (name : Nat) : Option Content :=
  let found := ipcEntryLookup s name
  found.1.map (fun ref => (found.2.fields ref).content)

namespace SpaceInv

variable {ipc : IpcParams} {pend : Option EntryRef}
variable {s : IpcSpace} {name : Nat} {ref : EntryRef}
variable {fields : EntryFields}

section

variable (hInv : SpaceInv ipc pend s)
include hInv

/- Reading through a pointer to a kept entry. -/
theorem fields_of_at
    (hAt : (s.layout ipc).At pend name ref fields) :
    s.fields ref = fields := by
  cases ref with
  | slot i => exact hAt.2.2.2.2.2
  | node n =>
      rcases hAt with ⟨hName, hMem⟩
      have hMem' : (name, fields) ∈ s.isTree.toList := hMem
      unfold IpcSpace.fields IpcSpace.treeFields
      dsimp only
      rw [hName, hInv.tree.sorted.lookup_of_mem hMem']
      rfl

/- A kept entry has a type unless it is pending. -/
theorem type_of_at
    (hAt : (s.layout ipc).At pend name ref fields)
    (hNe : pend ≠ some ref) :
    ieBitsType fields.ieBits ≠ 0 := by
  cases ref with
  | slot i =>
      rcases hAt with ⟨_, _, _, hUsed, _, hFields⟩
      rw [← hFields]
      rcases hUsed with h | h
      · exact h
      · exact absurd h hNe
  | node n =>
      rcases hAt with ⟨hName, hMem⟩
      subst hName
      rcases hInv.layout.typed _ hMem with h | h
      · exact h
      · exact absurd h hNe

/- An entry is kept for one name, and a name in one place. -/
theorem at_unique
    {ref' : EntryRef}
    {fields' : EntryFields}
    (hAt : (s.layout ipc).At pend name ref fields)
    (hAt' : (s.layout ipc).At pend name ref' fields') :
    ref = ref' := by
  cases ref with
  | slot i =>
      cases ref' with
      | slot j => rw [hAt.1, hAt'.1]
      | node n =>
          rcases hAt with ⟨hi, hPos, hLt, _, hGen, _⟩
          subst hi
          exact absurd hGen
            (hInv.layout.apart (name, fields') hAt'.2 hPos
              hLt)
  | node n =>
      cases ref' with
      | slot j =>
          rcases hAt' with ⟨hj, hPos, hLt, _, hGen, _⟩
          subst hj
          exact absurd hGen
            (hInv.layout.apart (name, fields) hAt.2 hPos hLt)
      | node m => rw [hAt.1, hAt'.1]

end

end SpaceInv

end Ipc

end OsfMach
