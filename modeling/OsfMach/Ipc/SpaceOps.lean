import OsfMach.Ipc.HashOps

/-
  The routines on entries keep the invariant of a space.

  Every routine is shown to be one of the changes of layouts,
  with the counters of the space following it.

  Main declarations:
    * `Allocated`, `Deallocated`
    * `SpaceInv.get_spec`
    * `SpaceInv.allocSlot_spec`, `SpaceInv.allocNode_spec`
    * `SpaceInv.dealloc_spec`
-/

------
-- Layouts of Spaces
------

namespace OsfMach

namespace Ipc

open Function
open List
open Lib

variable {i : Nat}

/- The fields that do not change when entries do. -/
structure SameFrame (s s' : IpcSpace) : Prop where
  active : s'.isActive = s.isActive
  size : s'.isTableSize = s.isTableSize
  next : s'.isTableNext = s.isTableNext
  fast : s'.isFast = s.isFast
  growing : s'.isGrowing = s.isGrowing

namespace SpaceInv

variable {ipc : IpcParams} {pend pend' : Option EntryRef}
variable {s s' : IpcSpace}

/- A change of the entries and of what counts them. -/
theorem reframe
    (hInv : SpaceInv ipc pend s)
    (hFrame : SameFrame s s')
    (hLayout : LayoutInv pend' (s'.layout ipc))
    (hTree : s'.isTree.WellFormed)
    (hTotal : s'.isTreeTotal = s'.isTree.toList.length)
    (hSmall : s'.isTreeSmall =
      (s'.layout ipc).smallIndices.card)
    (hFast : s.isFast = true → s'.isTree.toList = []) :
    SpaceInv ipc pend' s' :=
  { layout := hLayout
    tree := hTree
    active := hFrame.active.trans hInv.active
    growing := hFrame.growing.trans hInv.growing
    next_pos := hInv.next_pos.trans_eq hFrame.next.symm
    next_le := hFrame.next.trans_le hInv.next_le
    size_eq := by
      rw [hFrame.size, hFrame.next]
      exact hInv.size_eq
    total := hTotal
    small := hSmall
    fast := fun h => hFast (hFrame.fast ▸ h) }

/- A change of the table alone. -/
theorem retable
    (hInv : SpaceInv ipc pend s)
    {table : Nat → IpcEntry}
    (hLayout : LayoutInv pend'
      (({ s with isTable := table } : IpcSpace).layout ipc)) :
    SpaceInv ipc pend' { s with isTable := table } :=
  hInv.reframe ⟨rfl, rfl, rfl, rfl, rfl⟩ hLayout hInv.tree
    hInv.total hInv.small hInv.fast

/- The free list of a space. -/
theorem exists_free
    (hInv : SpaceInv ipc pend s) :
    ∃ free, (s.layout ipc).FreeList pend free :=
  hInv.layout.free

/- The free list is no longer than the table. -/
theorem length_free_le
    {L : Layout}
    {free : List Nat}
    (hFree : L.FreeList pend free) :
    free.length ≤ L.size := by
  have hSub : free ⊆ List.range L.size := by
    intro i hi
    exact mem_range.mpr ((hFree.2.2 i).mp hi).2.1
  have hLen := hFree.2.1.length_le_of_subset hSub
  rw [length_range] at hLen
  exact hLen

end SpaceInv

------
-- Allocating
------

/- A new name is pending; nothing else has changed. -/
structure Allocated
    (ipc : IpcParams)
    (s s' : IpcSpace)
    (name : Nat)
    (ref : EntryRef) : Prop where
  inv : SpaceInv ipc (some ref) s'
  valid : 0 < name ∧ name < machPortDead
  absent : ∀ c, ¬ (s.layout ipc).Has none name c
  kept :
    ∃ fields,
      (s'.layout ipc).At (some ref) name ref fields
  has :
    ∀ n c, (s'.layout ipc).Has (some ref) n c ↔
      (s.layout ipc).Has none n c ∨
        (n = name ∧ c = Content.fresh)
  fast : s'.isFast = s.isFast
  hash : HashInv ipc s → HashInv ipc s'

/- The size of a table is no more than the largest index. -/
theorem TableSizes.size_le
    (sizes : TableSizes)
    (hLe : i ≤ sizes.last) :
    sizes.itsSize i ≤ machPortIndex machPortDead := by
  have hMono : ∀ k, i + k < sizes.last →
      sizes.itsSize i ≤ sizes.itsSize (i + k) := by
    intro k
    induction k with
    | zero => exact fun _ => le_refl _
    | succ k ih =>
        intro hk
        have hStep := sizes.strict (i + k) (by omega)
        rw [← Nat.add_assoc]
        omega
  have hDead := sizes.le_dead
  by_cases hEq : i = sizes.last
  · rw [hEq]
    exact hDead
  · have hTop := hMono (sizes.last - 1 - i) (by omega)
    have hIndex : i + (sizes.last - 1 - i) =
        sizes.last - 1 := by omega
    rw [hIndex, ← sizes.flat] at hTop
    omega

namespace SpaceInv

variable {ipc : IpcParams} {s : IpcSpace} {name : Nat}

/- Names with an index in the table are valid. -/
theorem valid_of_index
    {pend : Option EntryRef}
    (hInv : SpaceInv ipc pend s)
    (hPos : 0 < machPortIndex name)
    (hLt : machPortIndex name < s.isTableSize) :
    0 < name ∧ name < machPortDead := by
  have hLast := hInv.next_le
  have hSize := ipc.sizes.size_le
    (i := s.isTableNext - 1) (by omega)
  rw [← hInv.size_eq] at hSize
  constructor
  · apply Nat.pos_of_ne_zero
    intro h
    rw [h] at hPos
    exact absurd hPos (by decide)
  · by_contra hCon
    have hMono := machPortIndex_mono (not_lt.mp hCon)
    omega

section Claim

variable {free : List Nat} {p i : Nat} {gen : EntryBits}
variable {table : Nat → IpcEntry}

theorem allocated_of_claim
    (hInv : SpaceInv ipc none s)
    (hList : (s.layout ipc).FreeList none free)
    (hMem : i ∈ free)
    (hPred : p ∈ 0 :: free)
    (hChain : IndexChain.Chain
      (update
        (fun j => (s.isTable j).ieRequest) p
        (s.isTable i).ieRequest) 0 (free.erase i))
    (hGen : ieBitsGen gen = gen)
    (hName : name = machPortMake i gen)
    (hTable :
      ({ s with isTable := table } : IpcSpace).layout ipc =
        (s.layout ipc).claim p i gen)
    (hSame : SameHash s { s with isTable := table }) :
    Allocated ipc s { s with isTable := table } name
      (.slot i) := by
  subst hName
  have hLayout := hInv.layout
  rcases (hList.2.2 i).mp hMem with ⟨hPos, hLt, hUnused⟩
  have hIndex : machPortIndex (machPortMake i gen) = i :=
    machPortIndex_make (hLt.trans hLayout.size_lt) gen
  have hMake : machPortGen (machPortMake i gen) = gen :=
    machPortGen_make (hLt.trans hLayout.size_lt) hGen
  have hClaim := hLayout.claim hList hMem hPred hChain hGen
  have hSelf := (s.layout ipc).claim_table_self p i gen
  refine ⟨?_, ?_, ?_, ?_, ?_, rfl, ?_⟩
  · apply hInv.retable
    rw [hTable]
    exact hClaim
  · apply hInv.valid_of_index
    · rw [hIndex]
      exact hPos
    · rw [hIndex]
      exact hLt
  · intro c hHas
    rcases hHas with h | ⟨fields, h, _⟩
    · have hUsed := h.2.2.1
      rw [hIndex] at hUsed
      exact hUnused hUsed
    · exact hLayout.not_collides hPos hLt hUnused
        ⟨_, h, hIndex⟩
  · rw [hTable]
    refine ⟨_, hIndex.symm, hPos, hLt, Or.inr rfl, ?_, rfl⟩
    rw [hSelf, hMake]
    exact hGen
  · rw [hTable]
    exact hLayout.has_claim hList hMem hPred hGen
  · intro hHash
    apply HashView.congr hHash hSame
    intro ref obj
    rw [hTable]
    apply Layout.sends_claim_iff
    · intro h
      apply hUnused
      left
      rw [h]
      exact machPortTypeSend_ne_none
    · rw [← hGen, ieBitsType_gen]
      exact machPortTypeSend_ne_none.symm

end Claim

/- `ipc_entry_get` takes the first free slot. -/
theorem get_spec
    (hInv : SpaceInv ipc none s) :
    ipcEntryGet s = (none, s) ∨
      ∃ name i,
        (ipcEntryGet s).1 = some (name, .slot i) ∧
          Allocated ipc s (ipcEntryGet s).2 name
            (.slot i) := by
  rcases hInv.exists_free with ⟨free, hList⟩
  have hChain := hList.1
  cases free with
  | nil =>
      left
      have hZero : (s.isTable 0).ieNext = 0 := hChain
      unfold ipcEntryGet
      rw [if_pos hZero]
  | cons i free =>
      right
      have hNext : (s.isTable 0).ieNext = i := hChain.1
      have hNe : i ≠ 0 := hChain.2.1
      have hZeroMem : 0 ∉ i :: free := hChain.zero_notMem
      refine ⟨machPortMake i
        (ieBitsNewGen (s.isTable i).ieBits), i, ?_, ?_⟩
      · unfold ipcEntryGet
        rw [hNext, if_neg hNe]
      · unfold ipcEntryGet
        rw [hNext, if_neg hNe]
        apply hInv.allocated_of_claim hList
          (mem_cons_self ..) (mem_cons_self ..)
        · rw [erase_cons_head]
          apply hChain.pop
          · rfl
          · intro j hj
            apply update_of_ne
            intro h
            rw [h] at hj
            exact hZeroMem (mem_cons_of_mem _ hj)
        · exact ieBitsGen_newGen (s.isTable i).ieBits
        · rfl
        · refine (IpcSpace.layout_setSlot ..).trans ?_
          rw [IpcSpace.layout_setSlot]
          rfl
        · exact (SameHash.setSlot _ _ _).trans
            (SameHash.setSlot _ _ _)

/- A free slot is claimed for a given name. -/
theorem allocSlot_spec
    (hInv : SpaceInv ipc none s)
    (hName : name < machPortBound)
    (hPos : 0 < machPortIndex name)
    (hLt : machPortIndex name < s.isTableSize)
    (hType : ieBitsType
      (s.isTable (machPortIndex name)).ieBits = 0) :
    Allocated ipc s
      (allocSlot s (machPortIndex name) (machPortGen name))
      name (.slot (machPortIndex name)) := by
  rcases hInv.exists_free with ⟨free, hList⟩
  have hChain := hList.1
  have hUnused : ¬ (s.layout ipc).Used none
      (machPortIndex name) := by
    intro h
    exact Layout.type_of_used h hType
  have hMem : machPortIndex name ∈ free :=
    (hList.2.2 _).mpr ⟨hPos, hLt, hUnused⟩
  have hNodup : (0 :: free).Nodup :=
    nodup_cons.mpr ⟨hChain.zero_notMem, hList.2.1⟩
  rcases hChain.unlink s.isTableSize hNodup hMem
    (length_free_le hList) with
    ⟨p, hPred, hIn, hNe, hNew⟩
  have hPred' : IndexChain.pred
      (fun i => (s.isTable i).ieNext) (machPortIndex name)
      s.isTableSize 0 = some p := hPred
  unfold allocSlot
  rw [hPred']
  apply hInv.allocated_of_claim hList hMem hIn hNew
    (ieBitsGen_machPortGen name)
    (machPortMake_index_gen hName).symm
  have hObject : ((s.setSlot p
      { (s.isTable p).toEntryFields with
        ieRequest :=
          (s.isTable (machPortIndex name)).ieNext }).isTable
        (machPortIndex name)).ieObject =
      (s.isTable (machPortIndex name)).ieObject := by
    unfold IpcSpace.setSlot
    dsimp only
    rw [update_of_ne hNe.symm]
  · refine (IpcSpace.layout_setSlot ..).trans ?_
    rw [IpcSpace.layout_setSlot, hObject]
    rfl
  · exact (SameHash.setSlot _ _ _).trans
      (SameHash.setSlot _ _ _)

------
-- Allocating in the Tree
------

variable {s' : IpcSpace}

theorem limit_eq
    (hFrame : SameFrame s s') :
    (s'.layout ipc).limit = (s.layout ipc).limit := by
  unfold IpcSpace.layout
  rw [hFrame.next]

/- A tree entry put into a space that is prepared for it. -/
theorem allocated_of_insert
    (hInv : SpaceInv ipc none s)
    (s' : IpcSpace)
    (hSlow : s.isFast = false)
    (hValid : 0 < name ∧ name < machPortDead)
    (hNone : s.treeFields name = none)
    (hSlot : 0 < machPortIndex name →
      machPortIndex name < s.isTableSize →
        (s.layout ipc).Used none (machPortIndex name) ∧
          ieBitsGen
              (s.isTable (machPortIndex name)).ieBits ≠
            machPortGen name)
    (hFrame : SameFrame s s')
    (hSame : SameHash s s')
    (hList : s'.isTree.toList = s.isTree.toList)
    (hTree : s'.isTree.WellFormed)
    (hTotal : s'.isTreeTotal = s.isTreeTotal + 1)
    (hFlag : (s.layout ipc).Reflag (s'.layout ipc)
      (machPortIndex name))
    (hOut : s.isTableSize ≤ machPortIndex name →
      (s'.layout ipc).table (machPortIndex name) =
        (s.layout ipc).table (machPortIndex name))
    (hSet : machPortIndex name < s.isTableSize →
      ieBitsHasCollision
        ((s'.layout ipc).table
          (machPortIndex name)).ieBits = true)
    (hGrow : s.isTableSize ≤ machPortIndex name →
      machPortIndex name < (s.layout ipc).limit →
        ¬ (s.layout ipc).Collides (machPortIndex name) →
          s'.isTreeSmall = s.isTreeSmall + 1)
    (hKeep : ¬ (s.isTableSize ≤ machPortIndex name ∧
        machPortIndex name < (s.layout ipc).limit ∧
        ¬ (s.layout ipc).Collides (machPortIndex name)) →
      s'.isTreeSmall = s.isTreeSmall) :
    Allocated ipc s
      { s' with
        isTree := s'.isTree.insert name ⟨0, 0, 0⟩ }
      name (.node name) := by
  have hLe : name ≤ machPortLargest := hValid.2.le
  rcases SplayTree.insert_spec hTree hLe
    (by
      rw [hList]
      exact hNone)
    ⟨0, 0, 0⟩ with ⟨hWF, small, large, hLess, hMore⟩
  rw [hList] at hLess
  have hLimit := @limit_eq ipc s s' hFrame
  -- the new layout, its collisions and its small indices
  generalize hNew :
    ({ s' with isTree := s'.isTree.insert name ⟨0, 0, 0⟩ } :
      IpcSpace) = t
  have hEntries : (t.layout ipc).entries =
      small ++ (name, ⟨0, 0, 0⟩) :: large := by
    rw [← hNew]
    exact hMore
  have hFlag' : (s.layout ipc).Reflag (t.layout ipc)
      (machPortIndex name) := by
    rw [← hNew]
    exact ⟨hFlag.size, hFlag.same, hFlag.gen, hFlag.right,
      hFlag.object, hFlag.request⟩
  have hTable : (t.layout ipc).table =
      (s'.layout ipc).table := by
    rw [← hNew]
    rfl
  have hColl := @Layout.collides_node_iff (s.layout ipc)
    (t.layout ipc) _ _ _ _ hLess hEntries
  have hLimit' : (t.layout ipc).limit =
      (s.layout ipc).limit := by
    rw [← hLimit, ← hNew]
    rfl
  have hSmall : t.isTreeSmall =
      (t.layout ipc).smallIndices.card := by
    have hCount : t.isTreeSmall = s'.isTreeSmall := by
      rw [← hNew]
    by_cases hRange : s.isTableSize ≤ machPortIndex name ∧
        machPortIndex name < (s.layout ipc).limit
    · rw [Layout.smallIndices_insert hFlag'.size hLimit'
        hRange hColl, hCount]
      by_cases hHit : (s.layout ipc).Collides
          (machPortIndex name)
      · have hMem : machPortIndex name ∈
            (s.layout ipc).smallIndices :=
          (Layout.mem_smallIndices ..).mpr ⟨hHit, hRange⟩
        rw [hKeep (fun h => h.2.2 hHit),
          Finset.insert_eq_of_mem hMem]
        exact hInv.small
      · have hMem : machPortIndex name ∉
            (s.layout ipc).smallIndices := by
          intro h
          exact hHit ((Layout.mem_smallIndices ..).mp h).1
        rw [hGrow hRange.1 hRange.2 hHit,
          Finset.card_insert_of_notMem hMem, hInv.small]
    · rw [hCount, hKeep (fun h => hRange ⟨h.1, h.2.1⟩),
        Layout.smallIndices_congr hFlag'.size hLimit']
      · exact hInv.small
      · intro j hLow hHigh
        apply Layout.collides_node_of_ne hLess hEntries
        intro h
        rw [h] at hLow hHigh
        exact hRange ⟨hLow, hHigh⟩
  have hLayout : LayoutInv (some (.node name))
      (t.layout ipc) := by
    apply hInv.layout.addNode hLess hEntries hFlag' _ _ _
      hValid hSlot
    · rw [hTable]
      exact hOut
    · rw [hTable]
      exact hSet
    · rw [← hNew]
      exact hWF.sorted
  have hHas := @LayoutInv.has_addNode (s.layout ipc)
    (t.layout ipc) _ _ _ hLess hEntries hFlag'
  have hMem : (name, ⟨0, 0, 0⟩) ∈ (t.layout ipc).entries := by
    rw [hEntries]
    simp
  refine ⟨?_, hValid, ?_, ⟨_, rfl, hMem⟩, hHas, ?_, ?_⟩
  · refine hInv.reframe (hNew ▸ ⟨hFrame.active, hFrame.size,
      hFrame.next, hFrame.fast, hFrame.growing⟩) hLayout
      (hNew ▸ hWF) ?_ hSmall ?_
    · have hLen : t.isTree.toList.length =
          s.isTree.toList.length + 1 := by
        have h1 : t.isTree.toList = _ := hEntries
        rw [h1, hLess]
        simp only [length_append, length_cons]
        omega
      rw [hLen, ← hInv.total, ← hTotal, ← hNew]
    · intro hF
      rw [hSlow] at hF
      cases hF
  · intro c hHas'
    rcases hHas' with h | ⟨fields, h, _⟩
    · rcases h with ⟨hPos, hLt, _, hGen, _⟩
      exact (hSlot hPos hLt).2 hGen
    · have hSome := hInv.layout.sorted.lookup_of_mem h
      have hNone' : (s.layout ipc).entries.lookup name =
          none := hNone
      rw [hNone'] at hSome
      cases hSome
  · rw [← hNew]
    exact hFrame.fast
  · intro hHash
    apply HashView.congr hHash
    · rw [← hNew]
      exact ⟨hSame.slots, hSame.size, hSame.addr, hSame.ihgb,
        hSame.hash⟩
    · exact Layout.sends_addNode_iff hFlag' hLess hEntries

end SpaceInv

/- A slot whose collision flag may have changed. -/
theorem reflag_setSlot
    (ipc : IpcParams)
    (s : IpcSpace)
    (i : Nat)
    {bits : EntryBits}
    (hGen : ieBitsGen bits = ieBitsGen (s.isTable i).ieBits)
    (hRight :
      ieBitsRight bits = ieBitsRight (s.isTable i).ieBits) :
    (s.layout ipc).Reflag
      ((s.setSlot i
        { (s.isTable i).toEntryFields with
          ieBits := bits }).layout ipc) i := by
  have hSelf : ((s.setSlot i
      { (s.isTable i).toEntryFields with
        ieBits := bits }).layout ipc).table i =
      { (s.isTable i).toEntryFields with ieBits := bits } := by
    rw [IpcSpace.layout_setSlot]
    exact update_self ..
  refine ⟨by rfl, ?_, ?_, ?_, ?_,
    ?_⟩
  · intro j hNe
    rw [IpcSpace.layout_setSlot]
    exact update_of_ne hNe ..
  · rw [hSelf]
    exact hGen
  · rw [hSelf]
    exact hRight
  · rw [hSelf]
    rfl
  · rw [hSelf]
    rfl

/- A layout is a reflagged version of itself. -/
theorem reflag_refl
    {L L' : Layout}
    (hTable : L'.table = L.table)
    (hSize : L'.size = L.size)
    (i : Nat) :
    L.Reflag L' i := by
  refine ⟨hSize, ?_, ?_, ?_, ?_, ?_⟩
  · intro j _
    rw [hTable]
  · rw [hTable]
  · rw [hTable]
  · rw [hTable]
  · rw [hTable]

theorem SpaceInv.allocNode_spec
    {ipc : IpcParams}
    {s : IpcSpace}
    {name : Nat}
    (hInv : SpaceInv ipc none s)
    (hSlow : s.isFast = false)
    (hValid : 0 < name ∧ name < machPortDead)
    (hNone : s.treeFields name = none)
    (hSlot : 0 < machPortIndex name →
      machPortIndex name < s.isTableSize →
        (s.layout ipc).Used none (machPortIndex name) ∧
          ieBitsGen
              (s.isTable (machPortIndex name)).ieBits ≠
            machPortGen name) :
    Allocated ipc s (allocNode ipc s name) name
      (.node name) := by
  have hNames : ValidNames s.isTree.toList :=
    hInv.layout.valid
  unfold allocNode
  dsimp only
  split_ifs with hLt hLimit hHit
  · -- the slot of the index gets the collision flag
    apply hInv.allocated_of_insert _ hSlow hValid hNone hSlot
    · exact ⟨rfl, rfl, rfl, rfl, rfl⟩
    · have hSet := SameHash.setSlot
        { s with isTreeTotal := s.isTreeTotal + 1 }
        (machPortIndex name)
        { (s.isTable (machPortIndex name)).toEntryFields with
          ieBits := (s.isTable (machPortIndex name)).ieBits |||
            ieBitsCollision }
      exact ⟨hSet.slots, hSet.size, hSet.addr, hSet.ihgb,
        hSet.hash⟩
    · rfl
    · exact hInv.tree
    · rfl
    · exact reflag_setSlot ipc
        { s with isTreeTotal := s.isTreeTotal + 1 } _
        (ieBitsGen_setCollision _) (ieBitsRight_setCollision _)
    · intro hGe
      omega
    · intro _
      rw [IpcSpace.layout_setSlot]
      unfold Layout.setSlot
      dsimp only
      rw [update_self]
      exact ieBitsHasCollision_setCollision _
    · intro hGe
      omega
    · intro _
      rfl
  · -- the index occurs in the tree
    rcases treeCollision_spec
      (s := { s with isTreeTotal := s.isTreeTotal + 1 })
      hInv.tree hNames name with ⟨hIff, tree, hEq, hList, hWF⟩
    have hColl := hIff.mp hHit
    rw [hEq]
    apply hInv.allocated_of_insert
      { s with
        isTree := tree
        isTreeTotal := s.isTreeTotal + 1 }
      hSlow hValid hNone hSlot
      ⟨rfl, rfl, rfl, rfl, rfl⟩ ⟨rfl, rfl, rfl, rfl, rfl⟩
      hList hWF rfl
    · apply reflag_refl <;> rfl
    · intro _
      rfl
    · intro h
      exact absurd h hLt
    · intro _ _ hNot
      exact absurd hColl hNot
    · intro _
      rfl
  · -- the index is new
    rcases treeCollision_spec
      (s := { s with isTreeTotal := s.isTreeTotal + 1 })
      hInv.tree hNames name with ⟨hIff, tree, hEq, hList, hWF⟩
    have hNot : ¬ (s.layout ipc).Collides
        (machPortIndex name) := by
      intro h
      exact hHit (hIff.mpr h)
    rw [hEq]
    apply hInv.allocated_of_insert
      { s with
        isTree := tree
        isTreeTotal := s.isTreeTotal + 1
        isTreeSmall := s.isTreeSmall + 1 }
      hSlow hValid hNone hSlot
      ⟨rfl, rfl, rfl, rfl, rfl⟩ ⟨rfl, rfl, rfl, rfl, rfl⟩
      hList hWF rfl
    · apply reflag_refl <;> rfl
    · intro _
      rfl
    · intro h
      exact absurd h hLt
    · intro _ _ _
      rfl
    · intro h
      exact absurd ⟨not_lt.mp hLt, hLimit, hNot⟩ h
  · -- the index is too large to be counted
    apply hInv.allocated_of_insert
      { s with isTreeTotal := s.isTreeTotal + 1 }
      hSlow hValid hNone hSlot
      ⟨rfl, rfl, rfl, rfl, rfl⟩ ⟨rfl, rfl, rfl, rfl, rfl⟩
      rfl hInv.tree rfl
    · apply reflag_refl <;> rfl
    · intro _
      rfl
    · intro h
      exact absurd h hLt
    · intro _ h _
      exact absurd h hLimit
    · intro _
      rfl

------
-- Deallocating
------

/- A name is gone; nothing else has changed. -/
structure Deallocated
    (ipc : IpcParams)
    (pend : Option EntryRef)
    (s s' : IpcSpace)
    (name : Nat) : Prop where
  inv : SpaceInv ipc none s'
  has :
    ∀ n c, (s'.layout ipc).Has none n c ↔
      (s.layout ipc).Has pend n c ∧ n ≠ name
  fast : s'.isFast = s.isFast

namespace SpaceInv

variable {ipc : IpcParams} {s : IpcSpace}
variable {pend : Option EntryRef} {name : Nat}

theorem layout_freeSlot
    {i : Nat}
    (hPos : 0 < i) :
    (freeSlot s i).layout ipc = (s.layout ipc).release i := by
  have hZero : ((s.setSlot i
      ⟨ieBitsGen (s.isTable i).ieBits,
        (s.isTable i).ieObject,
        (s.isTable 0).ieNext⟩).isTable 0) = s.isTable 0 := by
    unfold IpcSpace.setSlot
    dsimp only
    rw [update_of_ne (by omega)]
  unfold freeSlot
  rw [IpcSpace.layout_setSlot, IpcSpace.layout_setSlot, hZero]
  rfl

/- A slot without collisions goes to the free list. -/
theorem freeSlot_spec
    (hInv : SpaceInv ipc pend s)
    {fields : EntryFields}
    (hPend : pend = none ∨
      pend = some (.slot (machPortIndex name)))
    (hAt : (s.layout ipc).At pend name
      (.slot (machPortIndex name)) fields)
    (hObject : fields.ieObject = 0)
    (hColl : ¬ (s.layout ipc).Collides
      (machPortIndex name)) :
    Deallocated ipc pend s (freeSlot s (machPortIndex name))
      name := by
  rcases hAt with ⟨_, hPos, hLt, hUsed, hGen, hFields⟩
  have hLayout := @layout_freeSlot ipc s _ hPos
  have hRelease := hInv.layout.release hPend hPos hLt hUsed
    hColl
    (by
      rw [hFields]
      exact hObject)
  refine ⟨?_, ?_, rfl⟩
  · apply hInv.retable
    refine hLayout ▸ ?_
    exact hRelease
  · rw [hLayout]
    exact hInv.layout.has_release hPend hPos hColl rfl hGen

variable {fields : EntryFields}

section Delete

variable {small large : List (Nat × EntryFields)}
variable {entry : Nat × EntryFields}

theorem total_delete
    (hInv : SpaceInv ipc pend s)
    {s' : IpcSpace}
    (hTotal : s'.isTreeTotal = s.isTreeTotal - 1)
    (hMore : s.isTree.toList = small ++ entry :: large)
    (hLess : s'.isTree.toList = small ++ large) :
    s'.isTreeTotal = s'.isTree.toList.length := by
  rw [hTotal, hInv.total, hMore, hLess]
  simp only [length_append, length_cons]
  omega

theorem fast_delete
    (hInv : SpaceInv ipc pend s)
    (hMore : s.isTree.toList = small ++ entry :: large)
    {rest : List (Nat × EntryFields)}
    (hFast : s.isFast = true) :
    rest = [] := by
  have hNil := hInv.fast hFast
  rw [hMore] at hNil
  simp at hNil

end Delete

/- A space whose tree has lost a name. -/
theorem deallocated_of_delete
    {small large : List (Nat × EntryFields)}
    (hInv : SpaceInv ipc pend s)
    (s' : IpcSpace)
    (hPend : pend = none ∨ pend = some (.node name))
    (hMore : s.isTree.toList =
      small ++ (name, fields) :: large)
    (hLess : s'.isTree.toList = small ++ large)
    (hTree : s'.isTree.WellFormed)
    (hFrame : SameFrame s s')
    (hTotal : s'.isTreeTotal = s.isTreeTotal - 1)
    (hFlag : (s.layout ipc).Reflag (s'.layout ipc)
      (machPortIndex name))
    (hOut : s.isTableSize ≤ machPortIndex name →
      (s'.layout ipc).table (machPortIndex name) =
        (s.layout ipc).table (machPortIndex name))
    (hSet : machPortIndex name < s.isTableSize →
      (ieBitsHasCollision
          ((s'.layout ipc).table
            (machPortIndex name)).ieBits = true ↔
        (s'.layout ipc).Collides (machPortIndex name)))
    (hDrop : s.isTableSize ≤ machPortIndex name →
      machPortIndex name < (s.layout ipc).limit →
        ¬ (s'.layout ipc).Collides (machPortIndex name) →
          s'.isTreeSmall = s.isTreeSmall - 1)
    (hKeep : ¬ (s.isTableSize ≤ machPortIndex name ∧
        machPortIndex name < (s.layout ipc).limit ∧
        ¬ (s'.layout ipc).Collides (machPortIndex name)) →
      s'.isTreeSmall = s.isTreeSmall) :
    Deallocated ipc pend s s' name := by
  have hLimit := @limit_eq ipc s s' hFrame
  have hColl := @Layout.collides_node_iff (s'.layout ipc)
    (s.layout ipc) _ _ _ _ hLess hMore
  have hSmall : s'.isTreeSmall =
      (s'.layout ipc).smallIndices.card := by
    have hOld := hInv.small
    by_cases hRange : s.isTableSize ≤ machPortIndex name ∧
        machPortIndex name < (s.layout ipc).limit
    · rw [Layout.smallIndices_insert hFlag.size.symm
        hLimit.symm
        (by
          rw [hFlag.size, hLimit]
          exact hRange) hColl] at hOld
      by_cases hHit : (s'.layout ipc).Collides
          (machPortIndex name)
      · have hMem : machPortIndex name ∈
            (s'.layout ipc).smallIndices := by
          rw [Layout.mem_smallIndices, hFlag.size, hLimit]
          exact ⟨hHit, hRange⟩
        rw [Finset.insert_eq_of_mem hMem] at hOld
        rw [hKeep (fun h => h.2.2 hHit)]
        exact hOld
      · have hMem : machPortIndex name ∉
            (s'.layout ipc).smallIndices := by
          intro h
          exact hHit ((Layout.mem_smallIndices ..).mp h).1
        rw [Finset.card_insert_of_notMem hMem] at hOld
        rw [hDrop hRange.1 hRange.2 hHit, hOld]
        rfl
    · rw [hKeep (fun h => hRange ⟨h.1, h.2.1⟩), hOld,
        Layout.smallIndices_congr hFlag.size hLimit]
      intro j hLow hHigh
      refine (Layout.collides_node_of_ne hLess hMore ?_).symm
      intro h
      rw [h] at hLow hHigh
      exact hRange ⟨hLow, hHigh⟩
  have hLayout : LayoutInv none (s'.layout ipc) :=
    hInv.layout.removeNode hPend hMore hLess hFlag hOut hSet
  have hHas := hInv.layout.has_removeNode hPend hMore hLess
    hFlag
  exact ⟨hInv.reframe hFrame hLayout hTree
    (hInv.total_delete hTotal hMore hLess) hSmall
    (hInv.fast_delete hMore), hHas, hFrame.fast⟩

/- A name of the tree goes. -/
theorem freeNode_spec
    (hInv : SpaceInv ipc pend s)
    (hPend : pend = none ∨ pend = some (.node name))
    (hMem : (name, fields) ∈ (s.layout ipc).entries) :
    Deallocated ipc pend s (freeNode ipc s name) name := by
  rcases SplayTree.delete_spec hInv.tree
    (hInv.layout.sorted.lookup_of_mem hMem) with
    ⟨hWF, small, large, hMore, hLess⟩
  have hNames : ValidNames
      (s.isTree.delete name).toList := by
    intro entry hEntry
    rw [hLess] at hEntry
    apply hInv.layout.valid
    have h : entry ∈ s.isTree.toList := by
      rw [hMore]
      exact mem_middle_iff.mpr (Or.inl hEntry)
    exact h
  rcases treeCollision_spec
    (s :=
      { s with
        isTree := s.isTree.delete name
        isTreeTotal := s.isTreeTotal - 1 })
    hWF hNames name with ⟨hIff, tree, hEq, hList, hWF'⟩
  have hLess' : tree.toList = small ++ large :=
    hList.trans hLess
  have hFlagged : machPortIndex name < s.isTableSize →
      ieBitsHasCollision
        (s.isTable (machPortIndex name)).ieBits = true := by
    intro hLt
    have hIn : machPortIndex name = 0 ∨
        (s.layout ipc).Used pend (machPortIndex name) := by
      rcases Nat.eq_zero_or_pos (machPortIndex name) with
        h | h
      · exact Or.inl h
      · exact Or.inr (hInv.layout.tree_used (name, fields)
          hMem h hLt)
    exact (hInv.layout.coll _ hLt hIn).mpr ⟨_, hMem, rfl⟩
  unfold freeNode
  dsimp only
  rw [hEq]
  split_ifs with hLt hHit hLimit hHit
  · -- other names of the index remain
    apply hInv.deallocated_of_delete _ hPend hMore hLess'
      hWF'
    · exact ⟨rfl, rfl, rfl, rfl, rfl⟩
    · rfl
    · apply reflag_refl <;> rfl
    · intro _
      rfl
    · intro _
      constructor
      · intro _
        have h := hIff.mp hHit
        rw [← hList] at h
        exact h
      · intro _
        exact hFlagged hLt
    · intro h
      omega
    · intro _
      rfl
  · -- the last name of the index
    have hNot : ¬ ∃ entry ∈ tree.toList,
        machPortIndex entry.1 = machPortIndex name := by
      rw [hList]
      intro h
      exact hHit (hIff.mpr h)
    apply hInv.deallocated_of_delete _ hPend hMore hLess'
      hWF'
    · exact ⟨rfl, rfl, rfl, rfl, rfl⟩
    · rfl
    · have hClear := reflag_setSlot ipc
        { s with
          isTree := tree
          isTreeTotal := s.isTreeTotal - 1 }
        (machPortIndex name) (ieBitsGen_clearCollision _)
        (ieBitsRight_clearCollision _)
      exact ⟨hClear.size, hClear.same, hClear.gen,
        hClear.right, hClear.object, hClear.request⟩
    · intro h
      omega
    · intro _
      rw [IpcSpace.layout_setSlot]
      unfold Layout.setSlot
      dsimp only
      rw [update_self, ieBitsHasCollision_clearCollision]
      constructor
      · intro h
        cases h
      · intro h
        exact absurd h hNot
    · intro h
      omega
    · intro _
      rfl
  · -- a counted index that remains
    apply hInv.deallocated_of_delete _ hPend hMore hLess'
      hWF'
    · exact ⟨rfl, rfl, rfl, rfl, rfl⟩
    · rfl
    · apply reflag_refl <;> rfl
    · intro _
      rfl
    · intro h
      exact absurd h hLt
    · intro _ _ hNot
      have h := hIff.mp hHit
      rw [← hList] at h
      exact absurd h hNot
    · intro _
      rfl
  · -- a counted index that goes
    have hNot : ¬ ∃ entry ∈ tree.toList,
        machPortIndex entry.1 = machPortIndex name := by
      rw [hList]
      intro h
      exact hHit (hIff.mpr h)
    apply hInv.deallocated_of_delete _ hPend hMore hLess'
      hWF'
    · exact ⟨rfl, rfl, rfl, rfl, rfl⟩
    · rfl
    · apply reflag_refl <;> rfl
    · intro _
      rfl
    · intro h
      exact absurd h hLt
    · intro _ _ _
      rfl
    · intro h
      exact absurd ⟨not_lt.mp hLt, hLimit, hNot⟩ h
  · -- the index is too large to be counted
    apply hInv.deallocated_of_delete _ hPend hMore hLess hWF
    · exact ⟨rfl, rfl, rfl, rfl, rfl⟩
    · rfl
    · apply reflag_refl <;> rfl
    · intro _
      rfl
    · intro h
      exact absurd h hLt
    · intro _ h
      exact absurd h hLimit
    · intro _
      rfl

end SpaceInv

------
-- Refilling
------

/- Nothing changes but the reverse hash. -/
structure SameEntries (s s' : IpcSpace) : Prop where
  fields :
    ∀ i, (s'.isTable i).toEntryFields =
      (s.isTable i).toEntryFields
  frame : SameFrame s s'
  tree : s'.isTree = s.isTree
  total : s'.isTreeTotal = s.isTreeTotal
  small : s'.isTreeSmall = s.isTreeSmall

namespace SameEntries

variable {s s' s'' : IpcSpace}

theorem refl (s : IpcSpace) : SameEntries s s :=
  ⟨fun _ => rfl, ⟨rfl, rfl, rfl, rfl, rfl⟩, rfl, rfl, rfl⟩

theorem hashLocalInsert
    (s : IpcSpace)
    (obj i : Nat) :
    SameEntries s (ipcHashLocalInsert s obj i) := by
  unfold ipcHashLocalInsert
  split
  · exact refl s
  · exact ⟨fun _ => rfl, ⟨rfl, rfl, rfl, rfl, rfl⟩, rfl, rfl, rfl⟩

theorem hashGlobalDelete
    (ipc : IpcParams)
    (s : IpcSpace)
    (obj name : Nat) :
    SameEntries s (ipcHashGlobalDelete ipc s obj name) :=
  ⟨fun _ => rfl, ⟨rfl, rfl, rfl, rfl, rfl⟩, rfl, rfl, rfl⟩

theorem trans
    (h : SameEntries s s')
    (h' : SameEntries s' s'') :
    SameEntries s s'' :=
  { fields := fun i => (h'.fields i).trans (h.fields i)
    frame :=
      { active := h'.frame.active.trans h.frame.active
        size := h'.frame.size.trans h.frame.size
        next := h'.frame.next.trans h.frame.next
        fast := h'.frame.fast.trans h.frame.fast
        growing := h'.frame.growing.trans h.frame.growing }
    tree := h'.tree.trans h.tree
    total := h'.total.trans h.total
    small := h'.small.trans h.small }

/- A moved entry changes from one hash to the other. -/
theorem rehashMoved
    (ipc : IpcParams)
    (s : IpcSpace)
    (name : Nat)
    (fields : EntryFields) :
    SameEntries s (rehashMoved ipc s name fields) := by
  unfold Ipc.rehashMoved
  split_ifs
  · exact (hashGlobalDelete ipc s _ _).trans
      (hashLocalInsert _ _ _)
  · exact refl s

theorem layout_eq
    (ipc : IpcParams)
    (h : SameEntries s s') :
    s'.layout ipc = s.layout ipc := by
  unfold IpcSpace.layout
  rw [h.frame.size, h.frame.next, h.tree]
  simp only [Layout.mk.injEq, and_self, and_true]
  funext i
  exact h.fields i

end SameEntries

namespace SpaceInv

variable {ipc : IpcParams} {s : IpcSpace}
variable {pend : Option EntryRef} {name tname : Nat}

/- A space whose slot has been refilled. -/
theorem deallocated_of_refill
    {fields tentry : EntryFields}
    (hInv : SpaceInv ipc pend s)
    (s' : IpcSpace)
    (hPend : pend = none ∨
      pend = some (.slot (machPortIndex name)))
    (hAt : (s.layout ipc).At pend name
      (.slot (machPortIndex name)) fields)
    (hIndex : machPortIndex tname = machPortIndex name)
    (hRefill :
      (s.layout ipc).Refill (s'.layout ipc) tname tentry)
    (hTree : s'.isTree.WellFormed)
    (hFrame : SameFrame s s')
    (hTotal : s'.isTreeTotal = s.isTreeTotal - 1)
    (hSmall : s'.isTreeSmall = s.isTreeSmall) :
    Deallocated ipc pend s s' name := by
  rcases hAt with ⟨_, hPos, hLt, hUsed, hGen, _⟩
  rw [← hIndex] at hPend hPos hLt hUsed hGen
  have hLimit := @limit_eq ipc s s' hFrame
  rcases hRefill.more with ⟨small, large, hMore, hLess⟩
  have hIndices : (s'.layout ipc).smallIndices =
      (s.layout ipc).smallIndices := by
    apply Layout.smallIndices_congr hRefill.size hLimit
    intro j hLow _
    refine (Layout.collides_node_of_ne hLess hMore ?_).symm
    intro h
    omega
  have hMore' : s.isTree.toList =
      small ++ (tname, tentry) :: large := hMore
  have hLess' : s'.isTree.toList = small ++ large := hLess
  refine ⟨?_, ?_, hFrame.fast⟩
  · apply hInv.reframe hFrame
      (hInv.layout.refill hRefill hPend hPos hUsed) hTree
      (hInv.total_delete hTotal hMore' hLess') _
      (hInv.fast_delete hMore')
    rw [hSmall, hIndices]
    exact hInv.small
  · exact hInv.layout.has_refill hRefill hPend hPos hLt
      hIndex.symm hGen

end SpaceInv

/- The tree cut at an index into three. -/
structure CutAt
    (tree large collisions small : SplayTree EntryFields)
    (i : Nat) : Prop where
  list :
    tree.toList =
      small.toList ++ (collisions.toList ++ large.toList)
  large_wf : large.WellFormed
  collisions_wf : collisions.WellFormed
  small_wf : small.WellFormed
  large_index : ∀ a ∈ large.toList, i < machPortIndex a.1
  collisions_index :
    ∀ a ∈ collisions.toList, machPortIndex a.1 = i
  small_index : ∀ a ∈ small.toList, machPortIndex a.1 < i

/- Two splits cut a tree at an index. -/
theorem cutAt_split
    {tree : SplayTree EntryFields}
    (hTree : tree.WellFormed)
    (hLt : i + 1 < machIndexBound) :
    CutAt tree
      (tree.split (machPortMake (i + 1) 0)).1
      ((tree.split (machPortMake (i + 1) 0)).2.split
        (machPortMake i 0)).1
      ((tree.split (machPortMake (i + 1) 0)).2.split
        (machPortMake i 0)).2 i := by
  rcases SplayTree.split_spec hTree
    (machPortMake (i + 1) 0) with
    ⟨hLarge, hRest, hList, hBelow, hAbove⟩
  rcases SplayTree.split_spec hRest (machPortMake i 0) with
    ⟨hColl, hSmall, hList', hBelow', hAbove'⟩
  refine ⟨?_, hLarge, hColl, hSmall, ?_, ?_, ?_⟩
  · rw [hList, hList', append_assoc]
  · intro a ha
    have hGe := (hAbove a ha).not_gt
    rw [lt_machPortMake_zero_iff hLt] at hGe
    omega
  · intro a ha
    have hGe := (hAbove' a ha).not_gt
    have hIn := hBelow a
      (by
        rw [hList']
        exact mem_append_right _ ha)
    rw [lt_machPortMake_zero_iff (by omega)] at hGe
    rw [lt_machPortMake_zero_iff hLt] at hIn
    omega
  · intro a ha
    have hIn := hBelow' a ha
    rw [lt_machPortMake_zero_iff (by omega)] at hIn
    exact hIn

namespace CutAt

variable {tree large collisions small :
  SplayTree EntryFields}
variable {i : Nat}

/- The colliding names are those cut out. -/
theorem mem_iff
    (hCut : CutAt tree large collisions small i)
    {entry : Nat × EntryFields} :
    entry ∈ collisions.toList ↔
      entry ∈ tree.toList ∧ machPortIndex entry.1 = i := by
  rw [hCut.list, mem_append, mem_append]
  constructor
  · intro h
    exact ⟨Or.inr (Or.inl h), hCut.collisions_index _ h⟩
  · rintro ⟨h | h | h, hIndex⟩
    · have hLt := hCut.small_index _ h
      omega
    · exact h
    · have hLt := hCut.large_index _ h
      omega

/- Names of smaller index are smaller. -/
theorem lt_of_index_lt
    {a b : Nat × EntryFields}
    (h : machPortIndex a.1 < machPortIndex b.1) :
    a.1 < b.1 := by
  by_contra hCon
  have hMono := machPortIndex_mono (not_lt.mp hCon)
  omega

/- The parts go back together without one of the names. -/
theorem rejoin
    (hCut : CutAt tree large collisions small i)
    {rest : SplayTree EntryFields}
    (hRest : rest.WellFormed)
    (hSub : ∀ a ∈ rest.toList, a ∈ collisions.toList) :
    ((large.join rest).join small).WellFormed ∧
      ((large.join rest).join small).toList =
        small.toList ++ (rest.toList ++ large.toList) := by
  have hJoin := SplayTree.join_spec hCut.large_wf hRest
    (by
      intro a ha b hb
      apply lt_of_index_lt
      have hA := hCut.collisions_index a (hSub a ha)
      have hB := hCut.large_index b hb
      omega)
  have hJoin' := SplayTree.join_spec hJoin.1 hCut.small_wf
    (by
      intro a ha b hb
      apply lt_of_index_lt
      have hA := hCut.small_index a ha
      rw [hJoin.2] at hb
      rcases mem_append.mp hb with h | h
      · have hB := hCut.collisions_index b (hSub b h)
        omega
      · have hB := hCut.large_index b h
        omega)
  refine ⟨hJoin'.1, ?_⟩
  rw [hJoin'.2, hJoin.2]

/- The outer parts go back together. -/
theorem rejoin_nil
    (hCut : CutAt tree large collisions small i) :
    (large.join small).WellFormed ∧
      (large.join small).toList =
        small.toList ++ large.toList := by
  apply SplayTree.join_spec hCut.large_wf hCut.small_wf
  intro a ha b hb
  apply lt_of_index_lt
  have hA := hCut.small_index a ha
  have hB := hCut.large_index b hb
  omega

/- A colliding name has moved into its slot. -/
theorem refill
    {ipc : IpcParams}
    {s t : IpcSpace}
    {tname : Nat}
    {tentry : EntryFields}
    {front back : List (Nat × EntryFields)}
    (hCut : CutAt s.isTree large collisions small
      (machPortIndex tname))
    (bits : EntryBits)
    (hMore : collisions.toList =
      front ++ (tname, tentry) :: back)
    (hSize : t.isTableSize = s.isTableSize)
    (hList : t.isTree.toList =
      small.toList ++ ((front ++ back) ++ large.toList))
    (hTable : ∀ j, (t.isTable j).toEntryFields =
      if j = machPortIndex tname then
        { tentry with ieBits := bits }
      else (s.isTable j).toEntryFields)
    (hGen : ieBitsGen bits = machPortGen tname)
    (hRight : ieBitsRight bits = ieBitsRight tentry.ieBits)
    (hFlag : ieBitsHasCollision bits = true ↔
      front ++ back ≠ []) :
    (s.layout ipc).Refill (t.layout ipc) tname tentry := by
  have hSelf : (t.layout ipc).table (machPortIndex tname) =
      { tentry with ieBits := bits } :=
    (hTable _).trans (if_pos rfl)
  -- the names of the index are those still cut out
  have hColl : (t.layout ipc).Collides
      (machPortIndex tname) ↔ front ++ back ≠ [] := by
    constructor
    · rintro ⟨entry, hEntry, hIndex⟩ hNil
      have hMem : entry ∈ t.isTree.toList := hEntry
      rw [hList, hNil, nil_append, mem_append] at hMem
      rcases hMem with h | h
      · have hLt := hCut.small_index _ h
        omega
      · have hLt := hCut.large_index _ h
        omega
    · intro hNe
      rcases exists_mem_of_ne_nil _ hNe with ⟨entry, hEntry⟩
      have hIn : entry ∈ collisions.toList := by
        rw [hMore]
        exact mem_middle_iff.mpr (Or.inl hEntry)
      refine ⟨entry, ?_, hCut.collisions_index _ hIn⟩
      have hMem : entry ∈ t.isTree.toList := by
        rw [hList]
        simp only [mem_append] at hEntry ⊢
        exact Or.inr (Or.inl hEntry)
      exact hMem
  refine ⟨hSize, ?_, ?_, ?_, ?_, ?_⟩
  · intro j hNe
    exact (hTable j).trans (if_neg hNe)
  · rw [hSelf]
    exact hGen
  · rw [hSelf]
    unfold EntryFields.content
    rw [hRight]
  · rw [hSelf, hColl]
    exact hFlag
  · refine ⟨small.toList ++ front, back ++ large.toList,
      ?_, ?_⟩
    · have hOld : s.isTree.toList = _ := hCut.list
      refine hOld.trans ?_
      rw [hMore]
      simp only [append_assoc, cons_append]
    · refine hList.trans ?_
      simp only [append_assoc]

end CutAt

namespace SpaceInv

variable {ipc : IpcParams} {s : IpcSpace}
variable {pend : Option EntryRef} {name : Nat}
variable {fields : EntryFields}

/- Which name a slot takes over, and what that changes. -/
structure TakesOver
    (ipc : IpcParams)
    (s s' : IpcSpace)
    (tname : Nat)
    (tentry : EntryFields) : Prop where
  mem : (tname, tentry) ∈ (s.layout ipc).entries
  refill :
    (s.layout ipc).Refill (s'.layout ipc) tname tentry
  wf : s'.isTree.WellFormed
  frame : SameFrame s s'
  total : s'.isTreeTotal = s.isTreeTotal - 1
  small : s'.isTreeSmall = s.isTreeSmall
  hash :
    SameHash
      (rehashMoved ipc
        (s.setSlot (machPortIndex tname)
          { tentry with
            ieBits := tentry.ieBits ||| machPortGen tname })
        tname tentry) s'

/- One of the colliding names moves into the slot. -/
theorem moveCollision_takesOver
    (hInv : SpaceInv ipc pend s)
    (hAt : (s.layout ipc).At pend name
      (.slot (machPortIndex name)) fields)
    (hColl : (s.layout ipc).Collides (machPortIndex name)) :
    ∃ tname tentry,
      machPortIndex tname = machPortIndex name ∧
        TakesOver ipc s
          (moveCollision ipc s (machPortIndex name)) tname
          tentry := by
  have hBound : machPortIndex name + 1 < machIndexBound := by
    have hLt : machPortIndex name < (s.layout ipc).size :=
      hAt.2.2.1
    have hSize := hInv.layout.size_lt
    omega
  have hCut := cutAt_split hInv.tree hBound
  unfold moveCollision
  dsimp only
  generalize
    (s.isTree.split (machPortMake
      (machPortIndex name + 1) 0)).2.split
        (machPortMake (machPortIndex name) 0) = middle
    at hCut ⊢
  generalize middle.1 = collisions at hCut ⊢
  cases hPick : collisions.pick with
  | none =>
      exfalso
      have hNil := SplayTree.pick_eq_none_iff.mp hPick
      rcases hColl with ⟨entry, hMem, hIndex⟩
      have hIn := hCut.mem_iff.mpr ⟨hMem, hIndex⟩
      rw [hNil] at hIn
      cases hIn
  | some picked =>
      rcases picked with ⟨tname, tentry⟩
      have hIn := SplayTree.mem_of_pick_eq_some hPick
      have hTree := hCut.mem_iff.mp hIn
      rcases SplayTree.delete_spec hCut.collisions_wf
        (hCut.collisions_wf.sorted.lookup_of_mem hIn) with
        ⟨hWF, front, back, hMore, hLess⟩
      have hBits := hInv.layout.bits _ hTree.1
      have hTnameGen := ieBitsGen_machPortGen tname
      have hSub : ∀ a ∈ (collisions.delete tname).toList,
          a ∈ collisions.toList := by
        intro a ha
        rw [hLess] at ha
        rw [hMore]
        exact mem_middle_iff.mpr (Or.inl ha)
      -- the slot filled, whatever happens to the hashes
      have hIndex : machPortIndex tname =
          machPortIndex name := hTree.2
      have hSame := SameEntries.rehashMoved ipc
        (s.setSlot (machPortIndex tname)
          { tentry with
            ieBits := tentry.ieBits ||| machPortGen tname })
        tname tentry
      refine ⟨tname, tentry, hIndex, ?_⟩
      rw [← hIndex] at hCut ⊢
      dsimp only
      generalize hFilled :
        (if ieBitsType tentry.ieBits = machPortTypeSend then
          _ else _ : IpcSpace) = s2
      have hMoved : rehashMoved ipc
          (s.setSlot (machPortIndex tname)
            { tentry with
              ieBits :=
                tentry.ieBits ||| machPortGen tname })
          tname tentry = s2 := hFilled
      rw [hMoved] at hSame
      have hSlot : ∀ j, (s2.isTable j).toEntryFields =
          if j = machPortIndex tname then
            { tentry with
              ieBits := tentry.ieBits ||| machPortGen tname }
          else (s.isTable j).toEntryFields := by
        intro j
        rw [hSame.fields j]
        unfold IpcSpace.setSlot
        dsimp only
        rw [update_apply]
        split_ifs <;> rfl
      split_ifs with hAgain
      · -- other colliding names go back to the tree
        have hJoin := hCut.rejoin hWF hSub
        have hNe : front ++ back ≠ [] := by
          intro hNil
          rw [hNil, ← SplayTree.pick_eq_none_iff] at hLess
          rw [hLess] at hAgain
          cases hAgain
        refine ⟨hTree.1, ?_, ?_, ?_, ?_, ?_, ?_⟩
        · apply hCut.refill (tentry.ieBits |||
            machPortGen tname ||| ieBitsCollision) hMore
          · exact hSame.frame.size
          · exact hJoin.2.trans (by rw [hLess])
          · intro j
            unfold IpcSpace.setSlot
            dsimp only
            rw [update_apply]
            split_ifs with hj
            · rw [hSlot, if_pos rfl]
            · rw [hSlot, if_neg hj]
          · rw [ieBitsGen_setCollision]
            exact ieBitsGen_or_gen hBits hTnameGen
          · rw [ieBitsRight_setCollision]
            exact ieBitsRight_or_gen _ _ hTnameGen
          · simp only [ieBitsHasCollision_setCollision,
              true_iff]
            exact hNe
        · exact hJoin.1
        · exact ⟨hSame.frame.active, hSame.frame.size,
            hSame.frame.next, hSame.frame.fast,
            hSame.frame.growing⟩
        · exact congrArg (fun n => n - 1) hSame.total
        · exact hSame.small
        · rw [hMoved]
          have hSet := SameHash.setSlot s2
            (machPortIndex tname)
            { (s2.isTable
                (machPortIndex tname)).toEntryFields with
              ieBits :=
                (s2.isTable (machPortIndex tname)).ieBits |||
                  ieBitsCollision }
          exact ⟨hSet.slots, hSet.size, hSet.addr, hSet.ihgb,
            hSet.hash⟩
      · -- no colliding names are left
        have hJoin := hCut.rejoin_nil
        have hNil : front ++ back = [] := by
          rw [← hLess]
          apply SplayTree.pick_eq_none_iff.mp
          simpa using hAgain
        refine ⟨hTree.1, ?_, ?_, ?_, ?_, ?_, ?_⟩
        · apply hCut.refill (tentry.ieBits |||
            machPortGen tname) hMore
          · exact hSame.frame.size
          · rw [hNil]
            exact hJoin.2
          · exact hSlot
          · exact ieBitsGen_or_gen hBits hTnameGen
          · exact ieBitsRight_or_gen _ _ hTnameGen
          · rw [ieBitsHasCollision_or_gen hBits hTnameGen]
            simp [hNil]
        · exact hJoin.1
        · exact ⟨hSame.frame.active, hSame.frame.size,
            hSame.frame.next, hSame.frame.fast,
            hSame.frame.growing⟩
        · exact congrArg (fun n => n - 1) hSame.total
        · exact hSame.small
        · rw [hMoved]
          exact ⟨rfl, rfl, rfl, rfl, rfl⟩

/- The slot takes a colliding name over. -/
theorem moveCollision_spec
    (hInv : SpaceInv ipc pend s)
    (hPend : pend = none ∨
      pend = some (.slot (machPortIndex name)))
    (hAt : (s.layout ipc).At pend name
      (.slot (machPortIndex name)) fields)
    (hColl : (s.layout ipc).Collides (machPortIndex name)) :
    Deallocated ipc pend s
      (moveCollision ipc s (machPortIndex name)) name := by
  rcases hInv.moveCollision_takesOver hAt hColl with
    ⟨tname, tentry, hIndex, hTakes⟩
  exact hInv.deallocated_of_refill _ hPend hAt hIndex
    hTakes.refill hTakes.wf hTakes.frame hTakes.total
    hTakes.small

end SpaceInv

------
-- Deallocating and Storing
------

/- Store what an entry denotes through a pointer to it. -/
def IpcSpace.assign
    (s : IpcSpace)
    (ref : EntryRef)
    (content : Content) : IpcSpace :=
  s.store ref
    ⟨ieBitsWithRight (s.fields ref).ieBits content.right,
      content.object, content.request⟩

/- A content that a caller may store. -/
def Content.Typed (content : Content) : Prop :=
  ieBitsRight content.right = content.right ∧
    content.type ≠ 0

instance (content : Content) : Decidable content.Typed :=
  inferInstanceAs (Decidable (_ ∧ _))

/- A name has a new content; nothing else has changed. -/
structure Assigned
    (ipc : IpcParams)
    (pend : Option EntryRef)
    (s s' : IpcSpace)
    (name : Nat)
    (ref : EntryRef)
    (content : Content) : Prop where
  inv : SpaceInv ipc none s'
  kept : ∃ fields, (s'.layout ipc).At none name ref fields
  has :
    ∀ n c, (s'.layout ipc).Has none n c ↔
      if n = name then c = content
      else (s.layout ipc).Has pend n c
  fast : s'.isFast = s.isFast

namespace SpaceInv

variable {ipc : IpcParams} {s : IpcSpace}
variable {pend : Option EntryRef} {name : Nat} {ref : EntryRef}
variable {fields : EntryFields}

section

variable (hInv : SpaceInv ipc pend s)
variable (hPend : pend = none ∨ pend = some ref)
variable (hAt : (s.layout ipc).At pend name ref fields)
include hInv hPend hAt

/- `ipc_entry_dealloc` on an entry without an object. -/
theorem dealloc_spec
    (hObject : fields.ieObject = 0) :
    Deallocated ipc pend s (ipcEntryDealloc ipc s name ref)
      name := by
  unfold ipcEntryDealloc
  dsimp only
  cases ref with
  | slot i =>
      have hi : i = machPortIndex name := hAt.1
      subst hi
      have hLt : machPortIndex name < s.isTableSize :=
        hAt.2.2.1
      have hUsed := hAt.2.2.2.1
      have hIn : inTable s name
          (.slot (machPortIndex name)) = true := by
        unfold inTable
        simp [hLt]
      have hFlag := hInv.layout.coll _ hLt (Or.inr hUsed)
      split_ifs with hFast hColl
      · apply hInv.freeSlot_spec hPend hAt hObject
        rintro ⟨entry, hMem, _⟩
        have hNil : (s.layout ipc).entries = [] :=
          hInv.fast hFast
        rw [hNil] at hMem
        cases hMem
      · exact hInv.moveCollision_spec hPend hAt
          (hFlag.mp hColl)
      · apply hInv.freeSlot_spec hPend hAt hObject
        intro h
        exact hColl (hFlag.mpr h)
  | node n =>
      have hn : n = name := hAt.1
      subst hn
      have hMem := hAt.2
      have hOut : ¬ inTable s n (.node n) = true := by
        unfold inTable
        simp
      have hSlow : ¬ s.isFast = true := by
        intro hFast
        have hNil : (s.layout ipc).entries = [] :=
          hInv.fast hFast
        rw [hNil] at hMem
        cases hMem
      rw [if_neg hSlow, if_neg hOut]
      exact hInv.freeNode_spec hPend hMem

/- A store into an entry that is in use or pending. -/
theorem assign_spec
    {content : Content}
    (hTyped : content.Typed) :
    Assigned ipc pend s (s.assign ref content) name ref
      content := by
  rcases hTyped with ⟨hRight, hType⟩
  cases ref with
  | slot i =>
      rcases hAt with ⟨hi, hPos, hLt, hUsed, hGen, _⟩
      subst hi
      have hLayout :
          (s.assign (.slot (machPortIndex name))
            content).layout ipc = _ :=
        IpcSpace.layout_setSlot ..
      -- what is stored in the slot
      generalize hStored : (⟨ieBitsWithRight
          (s.isTable (machPortIndex name)).ieBits
          content.right,
        content.object, content.request⟩ : EntryFields) =
          stored
      have hStoredType : ieBitsType stored.ieBits ≠ 0 := by
        rw [← hStored, ieBitsType_withRight]
        exact hType
      have hStoredGen : ieBitsGen stored.ieBits =
          ieBitsGen (s.isTable (machPortIndex name)).ieBits := by
        rw [← hStored]
        exact ieBitsGen_withRight ..
      have hContent : stored.content = content := by
        rw [← hStored]
        unfold EntryFields.content
        rw [ieBitsRight_withRight, hRight]
      have hFields : s.fields (.slot (machPortIndex name)) =
          (s.isTable (machPortIndex name)).toEntryFields := rfl
      rw [hFields, hStored] at hLayout
      have hStore := hInv.layout.storeSlot stored hPend hPos
        hUsed hStoredType hStoredGen
        (hStored ▸ ieBitsHasCollision_withRight ..)
      have hSelf := @update_self _ _ _
        (machPortIndex name) stored (s.layout ipc).table
      refine ⟨?_, ?_, ?_, rfl⟩
      · apply hInv.retable
        refine hLayout ▸ ?_
        exact hStore
      · rw [hLayout]
        refine ⟨_, rfl, hPos, hLt, Or.inl ?_, ?_, rfl⟩
        · unfold Layout.setSlot
          dsimp only
          rw [hSelf]
          exact hStoredType
        · unfold Layout.setSlot
          dsimp only
          rw [hSelf, hStoredGen]
          exact hGen
      · intro n c
        rw [hLayout, hInv.layout.has_storeSlot hPend hPos hLt
          hStoredType hGen (hStoredGen.trans hGen), hContent]
  | node n =>
      rcases hAt with ⟨hn, hMem⟩
      subst hn
      have hMem' : (n, fields) ∈ s.isTree.toList := hMem
      have hLookup : s.fields (.node n) = fields := by
        unfold IpcSpace.fields IpcSpace.treeFields
        dsimp only
        rw [hInv.tree.sorted.lookup_of_mem hMem']
        rfl
      have hBits := hInv.layout.bits _ hMem
      have hSpec := SplayTree.modify_spec hInv.tree n
        (fun _ => (⟨content.right, content.object,
          content.request⟩ : EntryFields))
      have hAssign : s.assign (.node n) content =
          { s with
            isTree := s.isTree.modify n (fun _ =>
              ⟨content.right, content.object,
                content.request⟩) } := by
        unfold IpcSpace.assign IpcSpace.store
        rw [hLookup, ieBitsWithRight_of_right _ hBits, hRight]
      have hLayout : (s.assign (.node n) content).layout ipc =
          (s.layout ipc).storeNode n
            ⟨content.right, content.object,
              content.request⟩ := by
        rw [hAssign]
        unfold IpcSpace.layout Layout.storeNode
        rw [hSpec.2]
      have hColl : ∀ j,
          ((s.assign (.node n) content).layout ipc).Collides
            j ↔ (s.layout ipc).Collides j := by
        intro j
        rw [hLayout]
        unfold Layout.Collides Layout.storeNode
        simp
      have hContent : EntryFields.content
          ⟨content.right, content.object,
            content.request⟩ = content := by
        unfold EntryFields.content
        rw [hRight]
      have hStore := hInv.layout.storeNode
        (⟨content.right, content.object,
          content.request⟩) hPend hType hRight
      have hIndices := @Layout.smallIndices_congr
        (s.layout ipc)
        ((s.assign (.node n) content).layout ipc)
        (by rfl) (by rfl)
        (fun j _ _ => hColl j)
      refine ⟨?_, ?_, ?_, by rw [hAssign]⟩
      · apply hInv.reframe (hAssign ▸ ⟨rfl, rfl, rfl, rfl, rfl⟩)
        · rw [hLayout]
          exact hStore
        · rw [hAssign]
          exact hSpec.1
        · rw [hAssign]
          rw [hSpec.2, length_map]
          exact hInv.total
        · rw [hIndices, hAssign]
          exact hInv.small
        · intro hFast
          rw [hAssign]
          rw [hSpec.2, hInv.fast hFast]
          rfl
      · rw [hLayout]
        exact ⟨_, rfl, mem_map.mpr ⟨(n, fields), hMem, rfl⟩⟩
      · intro other c
        rw [hLayout, hInv.layout.has_storeNode hPend hMem,
          hContent]

end

end SpaceInv

end Ipc

end OsfMach
