import OsfMach.Ipc.Grow

/-
  Growing the table keeps the reverse hash tables.

  The slots of the old table are hashed into the new one,
  and entries that move out of the tree change from one hash
  table to the other.

  Main declarations:
    * `viewSlots`
    * `growCopy_hashInv`
    * `travFold_growMove_hash`
    * `SpaceInv.growTo_hashInv`
-/

------
-- The Copied Table
------

namespace OsfMach

namespace Ipc

open List
open Lib

variable {ipc : IpcParams} {s : IpcSpace}

/- The view of the slots of a list and of all nodes. -/
def viewSlots
    (L : Layout)
    (slots : List Nat)
    (ref : EntryRef)
    (obj : Nat) : Prop :=
  L.Sends ref obj ∧ ∀ i, ref = .slot i → i ∈ slots

/- One slot is rehashed. -/
theorem growHash_view
    (s : IpcSpace)
    {i : Nat}
    {done : List Nat}
    (hZero :
      ieBitsType (s.isTable 0).ieBits ≠ machPortTypeSend)
    (hLt : i < s.isTableSize)
    (hNew : i ∉ done)
    (hView : HashView ipc s
      (viewSlots (s.layout ipc) done)) :
    HashView ipc (growHash s i)
      (viewSlots (s.layout ipc) (done ++ [i])) := by
  unfold growHash
  dsimp only
  split_ifs with hType
  · have hPos : i ≠ 0 := by
      intro h
      rw [h] at hType
      exact hZero hType
    have hInsert := hView.localInsert hPos hLt
      (by
        rintro o ⟨_, h⟩
        exact hNew (h i rfl)) (s.isTable i).ieObject
    apply hInsert.congr (SameHash.refl _)
    intro ref obj
    constructor
    · rintro ⟨hSends, hMem⟩
      by_cases hRef : ref = .slot i
      · subst hRef
        exact Or.inr ⟨rfl, hSends.2.2.symm⟩
      · refine Or.inl ⟨hSends, ?_⟩
        intro j hj
        have hIn := hMem j hj
        rw [mem_append, mem_singleton] at hIn
        rcases hIn with h | h
        · exact h
        · rw [h] at hj
          exact absurd hj hRef
    · rintro (⟨hSends, hMem⟩ | ⟨hRef, hObject⟩)
      · exact ⟨hSends, fun j hj =>
          mem_append_left _ (hMem j hj)⟩
      · subst hRef
        refine ⟨⟨hLt, hType, hObject.symm⟩, ?_⟩
        intro j hj
        rw [EntryRef.slot.inj hj]
        exact mem_append_right _ (mem_singleton_self _)
  · apply hView.congr (SameHash.refl _)
    intro ref obj
    constructor
    · rintro ⟨hSends, hMem⟩
      refine ⟨hSends, ?_⟩
      intro j hj
      have hIn := hMem j hj
      rw [mem_append, mem_singleton] at hIn
      rcases hIn with h | h
      · exact h
      · rw [hj, h] at hSends
        exact absurd hSends.2.1 hType
    · rintro ⟨hSends, hMem⟩
      exact ⟨hSends, fun j hj =>
        mem_append_left _ (hMem j hj)⟩

/- Rehashing the slots of a list, one after the other. -/
theorem foldl_growHash_view
    (ipc : IpcParams)
    (slots done : List Nat)
    (s : IpcSpace)
    (hNodup : (done ++ slots).Nodup)
    (hLt : ∀ i ∈ slots, i < s.isTableSize)
    (hZero :
      ieBitsType (s.isTable 0).ieBits ≠ machPortTypeSend)
    (hView : HashView ipc s
      (viewSlots (s.layout ipc) done)) :
    HashView ipc (slots.foldl growHash s)
      (viewSlots (s.layout ipc) (done ++ slots)) := by
  induction slots generalizing s done with
  | nil =>
      rw [append_nil]
      exact hView
  | cons i slots ih =>
      have hSame : SameEntries s (growHash s i) :=
        foldl_growHash [i] s
      have hLayout := hSame.layout_eq ipc
      -- the slot is hashed now if it is a send right
      have hStep : HashView ipc (growHash s i)
          (viewSlots (s.layout ipc) (done ++ [i])) := by
        apply growHash_view s hZero _ _ hView
        · exact hLt i (mem_cons_self ..)
        · intro hMem
          exact (nodup_append.mp hNodup).2.2 i hMem i
            (mem_cons_self ..) rfl
      have hTail := ih (done ++ [i]) (growHash s i)
        (by
          rw [append_assoc]
          exact hNodup)
        (by
          intro j hj
          rw [hSame.frame.size]
          exact hLt j (mem_cons_of_mem _ hj))
        (by
          rw [hSame.fields 0]
          exact hZero)
        (by
          rw [hLayout]
          exact hStep)
      rw [hLayout, append_assoc] at hTail
      exact hTail

/- The old slots are hashed in the new table. -/
theorem growCopy_hashInv
    (hHash : HashInv ipc s)
    (hZero :
      ieBitsType (s.isTable 0).ieBits ≠ machPortTypeSend)
    {size : Nat}
    (hPos : 0 < s.isTableSize)
    (hLe : s.isTableSize ≤ size)
    (next : Nat) :
    HashInv ipc
      ((List.range s.isTableSize).foldl growHash
        { s with
          isTable := growCopy s s.isTableSize size
          isTableSize := size
          isTableNext := next }) := by
  generalize hCopy :
    ({ s with
      isTable := growCopy s s.isTableSize size
      isTableSize := size
      isTableNext := next } : IpcSpace) = t
  have hSize : t.isTableSize = size := by rw [← hCopy]
  have hTable : ∀ i, t.isTable i =
      growCopy s s.isTableSize size i := by
    intro i
    rw [← hCopy]
  have hOld : ∀ i < s.isTableSize,
      t.isTable i = { s.isTable i with ieIndex := 0 } := by
    intro i hi
    rw [hTable]
    unfold growCopy
    rw [if_pos hi]
  have hNew : ∀ i < size, ¬ i < s.isTableSize →
      t.isTable i = IpcEntry.zero := by
    intro i hi hNot
    rw [hTable]
    unfold growCopy
    rw [if_neg hNot, if_pos hi]
  have hEmpty : ∀ i < size, t.hashSlots i = 0 := by
    intro i hi
    unfold IpcSpace.hashSlots
    by_cases h : i < s.isTableSize
    · rw [hOld i h]
    · rw [hNew i hi h]
      rfl
  have hNode : ∀ n o, (t.layout ipc).Sends (.node n) o ↔
      (s.layout ipc).Sends (.node n) o := by
    intro n o
    rw [← hCopy]
    rfl
  -- at first only the nodes are hashed
  have hStart : HashView ipc t
      (viewSlots (t.layout ipc) []) := by
    have hNone : ∀ i o,
        ¬ viewSlots (t.layout ipc) [] (.slot i) o := by
      rintro i o ⟨_, h⟩
      exact absurd (h i rfl) (by simp)
    have hNodes : ∀ n o,
        viewSlots (t.layout ipc) [] (.node n) o ↔
          (s.layout ipc).Sends (.node n) o := by
      intro n o
      unfold viewSlots
      rw [hNode]
      simp
    exact
      { single := by
          intro ref o o' h h'
          cases ref with
          | slot i => exact absurd h (hNone i o)
          | node n =>
              exact hHash.single (.node n) o o'
                ((hNodes n o).mp h) ((hNodes n o').mp h')
        zero := hNone 0
        slots := by
          refine ⟨fun _ => 0, ?_, fun i o h =>
            absurd h (hNone i o)⟩
          rw [hSize]
          exact Probing.valid_empty _ _ (by omega) hEmpty
        stored := by
          intro i hi
          constructor
          · rintro ⟨h, hh, hSlot⟩
            rw [hSize] at hh
            rw [hEmpty h hh] at hSlot
            exact absurd hSlot.symm hi
          · rintro ⟨o, h⟩
            exact absurd h (hNone i o)
        nodup := by
          rw [← hCopy]
          exact hHash.nodup
        bucket := by
          intro b n
          simp only [hNodes]
          rw [← hCopy]
          exact hHash.bucket b n
        count := by
          simp only [hNodes]
          rw [← hCopy]
          exact hHash.count }
  have hFold := foldl_growHash_view ipc
    (List.range s.isTableSize) [] t nodup_range
    (by
      intro i hi
      have hLt := mem_range.mp hi
      omega)
    (by
      rw [hOld 0 hPos]
      exact hZero) hStart
  have hSame := foldl_growHash (List.range s.isTableSize) t
  unfold HashInv
  rw [hSame.layout_eq ipc]
  apply hFold.congr (SameHash.refl _)
  intro ref obj
  constructor
  · intro hSends
    refine ⟨hSends, ?_⟩
    intro i hi
    subst hi
    rw [nil_append, mem_range]
    by_contra hNot
    rcases hSends with ⟨hLt, hType, _⟩
    have hIn : i < size := by
      rw [← hSize]
      exact hLt
    have hBlank := hNew i hIn hNot
    have hBits : ieBitsType (t.isTable i).ieBits =
        machPortTypeSend := hType
    rw [hBlank] at hBits
    exact absurd hBits (by decide)
  · exact fun h => h.1

------
-- Moving Entries
------

/- An entry placed in a new slot changes hash tables. -/
theorem rehashMoved_growView
    (limit : Nat)
    {k : Nat}
    {v : EntryFields}
    {front rest back : List (Nat × EntryFields)}
    (hSorted : KeySorted (front ++ ((k, v) :: rest ++ back)))
    (hIndex : 0 < machPortIndex k ∧
      machPortIndex k < s.isTableSize)
    (hFree : (s.isTable (machPortIndex k)).ieBits = 0)
    (hView : HashView ipc s
      (Layout.mk (fun i => (s.isTable i).toEntryFields)
        s.isTableSize limit
        (front ++ ((k, v) :: rest ++ back))).Sends) :
    HashView ipc
      (rehashMoved ipc
        (s.setSlot (machPortIndex k)
          { v with ieBits := v.ieBits ||| machPortGen k })
        k v)
      (Layout.mk
        (fun i => ((rehashMoved ipc
          (s.setSlot (machPortIndex k)
            { v with ieBits := v.ieBits ||| machPortGen k })
          k v).isTable i).toEntryFields)
        s.isTableSize limit
        (front ++ (rest ++ back))).Sends := by
  have hSame := SameEntries.rehashMoved ipc
    (s.setSlot (machPortIndex k)
      { v with ieBits := v.ieBits ||| machPortGen k }) k v
  have hMem : (k, v) ∈ front ++ ((k, v) :: rest ++ back) := by
    simp
  -- a slot without bits is no send right
  have hStored := @HashView.congr _ _ _ _
    (viewDelete
      (Layout.mk (fun i => (s.isTable i).toEntryFields)
        s.isTableSize limit
        (front ++ ((k, v) :: rest ++ back))).Sends
      (.slot (machPortIndex k))) hView
    (SameHash.setSlot s (machPortIndex k)
      { v with ieBits := v.ieBits ||| machPortGen k })
    (by
      intro ref obj
      constructor
      · exact fun h => h.1
      · intro h
        refine ⟨h, ?_⟩
        intro hRef
        subst hRef
        have hType : ieBitsType
            (s.isTable (machPortIndex k)).ieBits =
              machPortTypeSend := h.2.1
        rw [hFree] at hType
        exact absurd hType (by decide))
  apply hStored.rehashMoved _ hMem _ (by omega) rfl hIndex.2
  · refine ⟨rfl, ?_, ?_, ?_⟩
    · intro j
      dsimp only
      rw [hSame.fields, s.fields_setSlot]
      split_ifs with hj
      · exact ieBitsType_or_gen _ _ (ieBitsGen_machPortGen k)
      · rfl
    · intro j
      dsimp only
      rw [hSame.fields, s.fields_setSlot]
      split_ifs with hj
      · rfl
      · rfl
    · exact mem_remove_iff rfl rfl hSorted
  · intro f hf
    have h := hSorted.lookup_of_mem hf
    rw [hSorted.lookup_of_mem hMem] at h
    exact (Option.some.inj h).symm

/- One entry moves, or stays, in the hash tables. -/
theorem travFold_growMove_hash
    (ipc : IpcParams)
    (limit : Nat)
    (entries front back : List (Nat × EntryFields))
    (s : IpcSpace)
    (hMovable : Movable s entries)
    (hSorted : KeySorted (front ++ (entries ++ back)))
    (hIndex : ∀ e ∈ entries,
      0 < machPortIndex e.1 ∧
        machPortIndex e.1 < s.isTableSize)
    (hView : HashView ipc s
      (Layout.mk (fun i => (s.isTable i).toEntryFields)
        s.isTableSize limit
        (front ++ (entries ++ back))).Sends) :
    HashView ipc (travFold (growMove ipc) s entries).1
      (Layout.mk
        (fun i => ((travFold (growMove ipc) s
          entries).1.isTable i).toEntryFields)
        s.isTableSize limit
        (front ++ ((travFold (growMove ipc) s entries).2 ++
          back))).Sends := by
  induction entries generalizing s front with
  | nil => exact hView
  | cons entry rest ih =>
      rcases entry with ⟨k, v⟩
      have hHead := hIndex (k, v) (mem_cons_self ..)
      by_cases hFree :
        (s.isTable (machPortIndex k)).ieBits = 0
      · have hSame := SameEntries.rehashMoved ipc
          (s.setSlot (machPortIndex k)
            { v with ieBits := v.ieBits ||| machPortGen k })
          k v
        have hMoved := rehashMoved_growView limit hSorted
          hHead hFree hView
        simp only [travFold, growMove_free ipc s v hFree,
          if_true]
        generalize hs1 : rehashMoved ipc
          (s.setSlot (machPortIndex k)
            { v with ieBits := v.ieBits ||| machPortGen k })
          k v = s1 at hSame hMoved ⊢
        have hSize : s1.isTableSize = s.isTableSize :=
          hSame.frame.size
        rw [← hSize] at hMoved ⊢
        apply ih front { s1 with
          isTreeTotal := s1.isTreeTotal - 1 }
          (hMovable.place hSame)
        · exact hSorted.sublist
            ((sublist_cons_self ..).append_left front)
        · intro e he
          rw [hSize]
          exact hIndex e (mem_cons_of_mem _ he)
        · exact hMoved.congr ⟨rfl, rfl, rfl, rfl, rfl⟩
            (fun _ _ => Iff.rfl)
      · have hStep := growMove_taken ipc s v hFree
        have hTail := ih (front ++ [(k, v)])
          (s.setSlot (machPortIndex k)
            { (s.isTable (machPortIndex k)).toEntryFields with
              ieBits :=
                (s.isTable (machPortIndex k)).ieBits |||
                  ieBitsCollision })
          (hMovable.keep hFree)
          (by
            rw [append_assoc]
            exact hSorted)
          (fun e he => hIndex e (mem_cons_of_mem _ he))
          (by
            rw [append_assoc]
            apply hView.congr (SameHash.setSlot ..)
            intro ref obj
            apply Layout.sends_congr
            · rfl
            · intro i
              dsimp only
              rw [s.fields_setSlot]
              split_ifs with h
              · rw [h]
                exact ieBitsType_setCollision _
              · rfl
            · intro i
              dsimp only
              rw [s.fields_setSlot]
              split_ifs with h
              · rw [h]
              · rfl
            · rfl)
        rw [append_assoc] at hTail
        simp only [travFold, hStep]
        exact hTail

------
-- One Growth
------

/- New slots on the free list are no send rights. -/
theorem foldl_growFree_hashInv
    (slots : List Nat)
    (state : IpcSpace × Nat)
    (hHash : HashInv ipc state.1) :
    HashInv ipc (slots.foldl growFree state).1 := by
  induction slots generalizing state with
  | nil => exact hHash
  | cons i slots ih =>
      apply ih
      unfold growFree
      dsimp only
      split_ifs with hBits
      · apply hHash.setSlot_none
        · rw [hBits]
          decide
        · dsimp only
          decide
      · exact hHash

theorem growFreeAll_hashInv
    (hHash : HashInv ipc s)
    (osize size : Nat) :
    HashInv ipc (growFreeAll s osize size) := by
  have hFold := foldl_growFree_hashInv
    (List.range' osize (size - osize)).reverse
    (s, (s.isTable 0).ieNext) hHash
  exact hFold.setSlot_same rfl rfl

namespace SpaceInv

variable {ipc : IpcParams} {s : IpcSpace}

/- The work on the tree keeps the hash tables. -/
theorem grownTree_hashInv
    {s1 s2 : IpcSpace}
    {osize size nsize : Nat}
    {front move kept back : List (Nat × EntryFields)}
    (hInv : SpaceInv ipc none s)
    (hTree : GrownTree ipc s s1 s2 osize size nsize front
      move kept back)
    (hList : s1.isTree.toList = s.isTree.toList)
    (hPos : 0 < osize)
    (hSize : s1.isTableSize = size)
    (hHash : HashInv ipc s1) :
    HashInv ipc s2 := by
  have hOld := hTree.grown.old
  have hSorted : KeySorted (front ++ (move ++ back)) := by
    rw [← hOld]
    exact hInv.tree.sorted
  have hMoved := travFold_growMove_hash ipc
    (ipc.sizes.itsSize s1.isTableNext) move front back s1
    hTree.movable hSorted
    (by
      intro e he
      have hRange := hTree.grown.move_index e he
      omega)
    (by
      rw [← hOld, ← hList]
      exact hHash)
  have hNew := hTree.grown.new
  rw [hTree.kept_eq] at hNew
  rw [← hNew] at hMoved
  have hFrame := hTree.frame.size
  rcases hTree.swept with ⟨tree, count, hSwept⟩
  apply hMoved.congr
  · rw [hSwept]
    exact ⟨rfl, rfl, rfl, rfl, rfl⟩
  · intro ref obj
    apply Layout.sends_congr
    · exact hFrame
    · intro i
      rw [hSwept]
      rfl
    · intro i
      rw [hSwept]
      rfl
    · rfl

/- One growth keeps the hash tables. -/
theorem growTo_hashInv
    (hInv : SpaceInv ipc none s)
    (hHash : HashInv ipc s)
    {its : Nat}
    (hNext : s.isTableNext ≤ its)
    (hLast : its < ipc.sizes.last) :
    HashInv ipc (growTo ipc s its) := by
  have hNextPos := hInv.next_pos
  have hOsize := hInv.size_eq
  have hPos : 0 < s.isTableSize := hInv.layout.size_pos
  have hGrows : ipc.sizes.itsSize (s.isTableNext - 1) <
      ipc.sizes.itsSize its :=
    ipc.sizes.lt_of_lt (by omega) hLast
  have hLe' := ipc.sizes.le_next hLast
  have hBound := ipc.sizes.size_lt (i := its + 1) (by omega)
  unfold growTo
  rw [← hOsize] at hGrows ⊢
  have hCopied := copied_of_sameEntries
    (foldl_growHash (List.range s.isTableSize)
      { s with
        isTable := growCopy s s.isTableSize
          (ipc.sizes.itsSize its)
        isTableSize := ipc.sizes.itsSize its
        isTableNext := its + 1 })
  have hZero : ieBitsType (s.isTable 0).ieBits ≠
      machPortTypeSend := by
    have h : ieBitsType (s.isTable 0).ieBits = 0 :=
      hInv.layout.zero_type
    rw [h]
    exact machPortTypeSend_ne_none.symm
  have hFirst := growCopy_hashInv hHash hZero hPos hGrows.le
    (its + 1)
  rcases hInv.exists_grownTree hCopied hPos hGrows.le hLe'
    hBound with ⟨front, move, kept, back, hTree⟩
  apply growFreeAll_hashInv
  apply hInv.grownTree_hashInv hTree
  · rw [hCopied.tree]
  · exact hPos
  · exact hCopied.size_eq
  · exact hFirst

end SpaceInv

end Ipc

end OsfMach
