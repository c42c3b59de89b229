import OsfMach.Ipc.SpaceOps

/-
  Deallocating an entry keeps the reverse hash tables.

  The caller has unhashed the entry. A name that moves into
  its slot is hashed there.

  Key theorems include:
    * `SpaceInv.moves_of_refill`
    * `SpaceInv.dealloc_hashInv`
-/

------
-- Deallocating
------

namespace OsfMach

namespace Ipc

open Lib

namespace SpaceInv

variable {ipc : IpcParams} {s : IpcSpace}
variable {pend : Option EntryRef} {name : Nat}

/- A slot that goes to the free list. -/
theorem freeSlot_hashInv
    {i : Nat}
    (hView : HashView ipc s
      (viewDelete (s.layout ipc).Sends (.slot i))) :
    HashInv ipc (freeSlot s i) := by
  have hFree : HashInv ipc (s.setSlot i
      ⟨ieBitsGen (s.isTable i).ieBits,
        (s.isTable i).ieObject, (s.isTable 0).ieNext⟩) := by
    apply hView.setSlot_delete
    rw [ieBitsType_gen]
    exact machPortTypeSend_ne_none.symm
  exact hFree.setSlot_same rfl rfl

/- The tree loses an unhashed name. -/
theorem deleted_hashInv
    {s' : IpcSpace}
    {fields : EntryFields}
    {small large : List (Nat × EntryFields)}
    (hView : HashView ipc s
      (viewDelete (s.layout ipc).Sends (.node name)))
    (hSame : SameHash s s')
    (hMore : (s.layout ipc).entries =
      small ++ (name, fields) :: large)
    (hLess : (s'.layout ipc).entries = small ++ large)
    (hSorted : KeySorted (s.layout ipc).entries)
    (hType : ∀ i, ieBitsType (s'.isTable i).ieBits =
      ieBitsType (s.isTable i).ieBits)
    (hObject : ∀ i, (s'.isTable i).ieObject =
      (s.isTable i).ieObject) :
    HashInv ipc s' := by
  apply hView.congr hSame
  intro ref obj
  unfold viewDelete
  cases ref with
  | slot i =>
      have hSlot : (s'.layout ipc).Sends (.slot i) obj ↔
          (s.layout ipc).Sends (.slot i) obj := by
        unfold Layout.Sends IpcSpace.layout
        dsimp only
        rw [hSame.size, hType, hObject]
      rw [hSlot]
      simp
  | node n =>
      unfold Layout.Sends
      simp only [mem_remove_iff hMore hLess hSorted]
      constructor
      · rintro ⟨f, ⟨hMem, hNe⟩, hRest⟩
        exact ⟨⟨f, hMem, hRest⟩,
          fun h => hNe (EntryRef.node.inj h)⟩
      · rintro ⟨⟨f, hMem, hRest⟩, hNe⟩
        exact ⟨f, ⟨hMem, fun h => hNe (by rw [h])⟩, hRest⟩

/- A name of the tree is deallocated. -/
theorem freeNode_hashInv
    (hInv : SpaceInv ipc pend s)
    {fields : EntryFields}
    (hMem : (name, fields) ∈ (s.layout ipc).entries)
    (hView : HashView ipc s
      (viewDelete (s.layout ipc).Sends (.node name))) :
    HashInv ipc (freeNode ipc s name) := by
  rcases SplayTree.delete_spec hInv.tree
    (hInv.layout.sorted.lookup_of_mem hMem) with
    ⟨hWF, small, large, hMore, hLess⟩
  have hNames : ValidNames
      (s.isTree.delete name).toList := by
    intro entry hEntry
    rw [hLess] at hEntry
    apply hInv.layout.valid
    have h : entry ∈ s.isTree.toList := by
      rw [hMore]
      exact mem_middle_iff.mpr (Or.inl hEntry)
    exact h
  rcases @treeCollision_spec
    { s with
      isTree := s.isTree.delete name
      isTreeTotal := s.isTreeTotal - 1 }
    hWF hNames name with ⟨_, tree, hEq, hList, _⟩
  have hLess' : tree.toList = small ++ large :=
    hList.trans hLess
  have hSorted := hInv.layout.sorted
  -- the space without the name, whatever its counters are
  have hGone : ∀ t : SplayTree EntryFields,
      t.toList = small ++ large → ∀ total count,
      HashInv ipc
        { s with
          isTree := t
          isTreeTotal := total
          isTreeSmall := count } := by
    intro t ht total count
    exact deleted_hashInv hView ⟨rfl, rfl, rfl, rfl, rfl⟩
      hMore ht hSorted (fun _ => rfl) (fun _ => rfl)
  unfold freeNode
  dsimp only
  rw [hEq]
  split_ifs
  · exact hGone tree hLess' _ s.isTreeSmall
  · apply HashInv.setSlot_same
      (hGone tree hLess' (s.isTreeTotal - 1) s.isTreeSmall)
    · exact ieBitsType_clearCollision _
    · rfl
  · exact hGone tree hLess' _ s.isTreeSmall
  · exact hGone tree hLess' _ _
  · exact hGone _ hLess _ s.isTreeSmall

variable {ref : EntryRef} {fields : EntryFields}

/- A slot that takes a name over holds its right. -/
theorem moves_of_refill
    {L L' : Layout}
    (hRefill : L.Refill L' name fields)
    (hSorted : KeySorted L.entries) :
    L.Moves L' name fields := by
  have hContent := hRefill.content
  unfold EntryFields.content at hContent
  rw [Content.mk.injEq] at hContent
  rcases hRefill.more with ⟨small, large, hMore, hLess⟩
  refine ⟨hRefill.size, ?_, ?_, ?_⟩
  · intro j
    split_ifs with hj
    · rw [hj, ← ieBitsType_right, hContent.1, ieBitsType_right]
    · rw [hRefill.same j hj]
  · intro j
    split_ifs with hj
    · rw [hj]
      exact hContent.2.1
    · rw [hRefill.same j hj]
  · exact mem_remove_iff hMore hLess hSorted

/- A slot is deallocated by moving a name into it. -/
theorem moveCollision_hashInv
    (hInv : SpaceInv ipc pend s)
    (hAt : (s.layout ipc).At pend name
      (.slot (machPortIndex name)) fields)
    (hColl : (s.layout ipc).Collides (machPortIndex name))
    (hView : HashView ipc s
      (viewDelete (s.layout ipc).Sends
        (.slot (machPortIndex name)))) :
    HashInv ipc
      (moveCollision ipc s (machPortIndex name)) := by
  rcases hInv.moveCollision_takesOver hAt hColl with
    ⟨tname, tentry, hIndex, hTakes⟩
  have hSorted := hInv.layout.sorted
  have hPos : 0 < machPortIndex name := hAt.2.1
  have hLt : machPortIndex name < s.isTableSize := hAt.2.2.1
  rw [← hIndex] at hView hPos hLt
  have hStored := hView.congr
    (SameHash.setSlot s (machPortIndex tname)
      { tentry with
        ieBits := tentry.ieBits ||| machPortGen tname })
    (fun _ _ => Iff.rfl)
  have hMoved := hStored.rehashMoved
    (moves_of_refill hTakes.refill hSorted) hTakes.mem
    (by
      intro f hf
      have h := hSorted.lookup_of_mem hf
      rw [hSorted.lookup_of_mem hTakes.mem] at h
      exact (Option.some.inj h).symm)
    (by omega) rfl hLt
  exact hMoved.congr hTakes.hash (fun _ _ => Iff.rfl)

/- `ipc_entry_dealloc` on an entry that is not hashed. -/
theorem dealloc_hashInv
    (hInv : SpaceInv ipc pend s)
    (hAt : (s.layout ipc).At pend name ref fields)
    (hView : HashView ipc s
      (viewDelete (s.layout ipc).Sends ref)) :
    HashInv ipc (ipcEntryDealloc ipc s name ref) := by
  unfold ipcEntryDealloc
  dsimp only
  cases ref with
  | slot i =>
      have hi : i = machPortIndex name := hAt.1
      subst hi
      have hLt : machPortIndex name < s.isTableSize :=
        hAt.2.2.1
      have hUsed := hAt.2.2.2.1
      have hIn : inTable s name
          (.slot (machPortIndex name)) = true := by
        unfold inTable
        simp [hLt]
      have hFlag := hInv.layout.coll _ hLt (Or.inr hUsed)
      split_ifs with hFast hColl
      · exact freeSlot_hashInv hView
      · exact hInv.moveCollision_hashInv hAt
          (hFlag.mp hColl) hView
      · exact freeSlot_hashInv hView
  | node n =>
      have hn : n = name := hAt.1
      subst hn
      have hMem := hAt.2
      have hOut : ¬ inTable s n (.node n) = true := by
        unfold inTable
        simp
      have hSlow : ¬ s.isFast = true := by
        intro hFast
        have hNil : (s.layout ipc).entries = [] :=
          hInv.fast hFast
        rw [hNil] at hMem
        cases hMem
      rw [if_neg hSlow, if_neg hOut]
      exact hInv.freeNode_hashInv hMem hView

end SpaceInv

end Ipc

end OsfMach
