import OsfMach.Ipc.EntryOps
import OsfMach.Ipc.HashInv

/-
  Changes of a space and its reverse hash tables.

  Storing into entries changes no hash table. A tree entry
  that moves into its slot changes from the global hash to
  the local one.

  Main declarations:
    * `Layout.Moves`
    * `HashInv.setSlot_same`, `HashInv.setSlot_none`
    * `HashView.insertAt`, `HashView.deleteAt`
    * `HashView.rehashMoved`
-/

------
-- Changes of a Layout
------

namespace OsfMach

namespace Ipc

open Lib

variable {name : Nat} {fields : EntryFields}

namespace Layout

variable {L L' : Layout}

/- What the slots and the nodes say about send rights. -/
theorem sends_congr
    (hSize : L'.size = L.size)
    (hType : ∀ i, ieBitsType (L'.table i).ieBits =
      ieBitsType (L.table i).ieBits)
    (hObject : ∀ i, (L'.table i).ieObject =
      (L.table i).ieObject)
    (hEntries : L'.entries = L.entries)
    (ref : EntryRef)
    (obj : Nat) :
    L'.Sends ref obj ↔ L.Sends ref obj := by
  cases ref with
  | slot i =>
      unfold Sends
      dsimp only
      rw [hSize, hType, hObject]
  | node n =>
      unfold Sends
      rw [hEntries]

/- A store into a slot. -/
theorem sends_setSlot_iff
    (i : Nat)
    (fields : EntryFields)
    (ref : EntryRef)
    (obj : Nat) :
    (L.setSlot i fields).Sends ref obj ↔
      if ref = .slot i then
        i < L.size ∧
          ieBitsType fields.ieBits = machPortTypeSend ∧
          fields.ieObject = obj
      else L.Sends ref obj := by
  cases ref with
  | slot j =>
      by_cases hj : j = i
      · subst hj
        rw [if_pos rfl]
        unfold setSlot Sends
        dsimp only
        rw [Function.update_self]
      · have hNe : EntryRef.slot j ≠ .slot i := by
          intro h
          exact hj (EntryRef.slot.inj h)
        rw [if_neg hNe]
        unfold setSlot Sends
        dsimp only
        rw [Function.update_of_ne hj]
  | node n =>
      rfl

/- A claimed slot was free and has no type yet. -/
theorem sends_claim_iff
    {p i : Nat}
    {gen : EntryBits}
    (hOld : ieBitsType (L.table i).ieBits ≠
      machPortTypeSend)
    (hNew : ieBitsType gen ≠ machPortTypeSend)
    (ref : EntryRef)
    (obj : Nat) :
    (L.claim p i gen).Sends ref obj ↔ L.Sends ref obj := by
  unfold claim
  rw [sends_setSlot_iff]
  split_ifs with hi
  · subst hi
    constructor
    · intro h
      exact absurd h.2.1 hNew
    · intro h
      exact absurd h.2.1 hOld
  · rw [sends_setSlot_iff]
    split_ifs with hp
    · rw [hp]
      rfl
    · rfl

/- A name added to the tree has no type yet. -/
theorem sends_addNode_iff
    {name i : Nat}
    {small large : List (Nat × EntryFields)}
    (hFlag : L.Reflag L' i)
    (hLess : L.entries = small ++ large)
    (hMore : L'.entries =
      small ++ (name, ⟨0, 0, 0⟩) :: large)
    (ref : EntryRef)
    (obj : Nat) :
    L'.Sends ref obj ↔ L.Sends ref obj := by
  cases ref with
  | slot j =>
      have hObject : (L'.table j).ieObject =
          (L.table j).ieObject := by
        by_cases hj : j = i
        · rw [hj]
          exact hFlag.object
        · rw [hFlag.same j hj]
      unfold Sends
      dsimp only
      rw [hFlag.size, hFlag.type_eq, hObject]
  | node n =>
      unfold Sends
      rw [hMore, hLess]
      constructor
      · rintro ⟨f, hMem, hType, hObject⟩
        rcases mem_middle_iff.mp hMem with h | h
        · exact ⟨f, h, hType, hObject⟩
        · cases h
          exact absurd hType (by decide)
      · rintro ⟨f, hMem, hRest⟩
        exact ⟨f, mem_middle_iff.mpr (Or.inl hMem), hRest⟩

end Layout

namespace HashView

variable {ipc : IpcParams} {s : IpcSpace} {i : Nat}
variable {fields : EntryFields}

/- An unhashed slot that is made no send right. -/
theorem setSlot_delete
    (hView : HashView ipc s
      (viewDelete (s.layout ipc).Sends (.slot i)))
    (hType : ieBitsType fields.ieBits ≠ machPortTypeSend) :
    HashInv ipc (s.setSlot i fields) := by
  apply hView.congr (SameHash.setSlot s i fields)
  intro ref obj
  rw [IpcSpace.layout_setSlot, Layout.sends_setSlot_iff]
  split_ifs with hRef
  · constructor
    · intro h
      exact absurd h.2.1 hType
    · intro h
      exact absurd hRef h.2
  · constructor
    · intro h
      exact ⟨h, hRef⟩
    · intro h
      exact h.1

end HashView

namespace HashInv

variable {ipc : IpcParams} {s : IpcSpace} {i : Nat}
variable {fields : EntryFields}

/- A store that leaves type and object. -/
theorem setSlot_same
    (hHash : HashInv ipc s)
    (hType : ieBitsType fields.ieBits =
      ieBitsType (s.isTable i).ieBits)
    (hObject : fields.ieObject = (s.isTable i).ieObject) :
    HashInv ipc (s.setSlot i fields) := by
  apply HashView.congr hHash (SameHash.setSlot s i fields)
  intro ref obj
  rw [IpcSpace.layout_setSlot, Layout.sends_setSlot_iff]
  split_ifs with hRef
  · rw [hRef, hType, hObject]
    rfl
  · rfl

/- A store that leaves the slot no send right. -/
theorem setSlot_none
    (hHash : HashInv ipc s)
    (hOld : ieBitsType (s.isTable i).ieBits ≠
      machPortTypeSend)
    (hNew : ieBitsType fields.ieBits ≠ machPortTypeSend) :
    HashInv ipc (s.setSlot i fields) := by
  apply HashView.congr hHash (SameHash.setSlot s i fields)
  intro ref obj
  rw [IpcSpace.layout_setSlot, Layout.sends_setSlot_iff]
  split_ifs with hRef
  · rw [hRef]
    constructor
    · intro h
      exact absurd h.2.1 hNew
    · intro h
      exact absurd h.2.1 hOld
  · rfl

end HashInv

------
-- Hashing Entries by Name
------

namespace HashView

variable {ipc : IpcParams} {s : IpcSpace}
variable {pend : Option EntryRef} {view : EntryRef → Nat → Prop}
variable {name obj : Nat} {ref : EntryRef}
variable {fields : EntryFields}

/- `ipc_hash_insert` on an entry of the space. -/
theorem insertAt
    (hView : HashView ipc s view)
    (hAt : (s.layout ipc).At pend name ref fields)
    (hNew : ∀ o, ¬ view ref o)
    (obj : Nat) :
    HashView ipc (ipcHashInsert ipc s obj name ref)
      (viewInsert view ref obj) := by
  unfold ipcHashInsert inTable
  cases ref with
  | slot i =>
      rcases hAt with ⟨hi, hPos, hLt, _⟩
      subst hi
      have hLt' : machPortIndex name < s.isTableSize := hLt
      simp only [hLt', and_self, decide_true, if_true]
      exact hView.localInsert (by omega) hLt hNew obj
  | node n =>
      rcases hAt with ⟨hn, _⟩
      subst hn
      simp only [reduceCtorEq, and_false, decide_false,
        Bool.false_eq_true, if_false]
      exact hView.globalInsert hNew obj

/- `ipc_hash_delete` on an entry of the space. -/
theorem deleteAt
    (hView : HashView ipc s view)
    (hAt : (s.layout ipc).At pend name ref fields)
    (hIn : view ref obj)
    (hOther :
      ∀ j o, .slot j ≠ ref → view (.slot j) o →
        (s.isTable j).ieObject = o) :
    HashView ipc (ipcHashDelete ipc s obj name ref)
      (viewDelete view ref) := by
  unfold ipcHashDelete inTable
  cases ref with
  | slot i =>
      rcases hAt with ⟨hi, hPos, hLt, _⟩
      subst hi
      have hLt' : machPortIndex name < s.isTableSize := hLt
      simp only [hLt', and_self, decide_true, if_true]
      apply hView.localDelete hIn
      intro j o hj
      exact hOther j o (fun h => hj (EntryRef.slot.inj h))
  | node n =>
      rcases hAt with ⟨hn, _⟩
      subst hn
      simp only [reduceCtorEq, and_false, decide_false,
        Bool.false_eq_true, if_false]
      exact hView.globalDelete hIn

end HashView

------
-- Moving an Entry into the Table
------

/- A tree entry has moved into its slot. -/
structure Layout.Moves
    (L L' : Layout)
    (name : Nat)
    (fields : EntryFields) : Prop where
  size : L'.size = L.size
  type :
    ∀ j, ieBitsType (L'.table j).ieBits =
      if j = machPortIndex name then ieBitsType fields.ieBits
      else ieBitsType (L.table j).ieBits
  object :
    ∀ j, (L'.table j).ieObject =
      if j = machPortIndex name then fields.ieObject
      else (L.table j).ieObject
  node :
    ∀ n f, (n, f) ∈ L'.entries ↔
      (n, f) ∈ L.entries ∧ n ≠ name

theorem Layout.Moves.sends_iff
    {L L' : Layout}
    (hMoves : L.Moves L' name fields)
    (ref : EntryRef)
    (obj : Nat) :
    L'.Sends ref obj ↔
      (L.Sends ref obj ∧ ref ≠ .slot (machPortIndex name) ∧
        ref ≠ .node name) ∨
      (ref = .slot (machPortIndex name) ∧
        machPortIndex name < L.size ∧
        ieBitsType fields.ieBits = machPortTypeSend ∧
        fields.ieObject = obj) := by
  cases ref with
  | slot j =>
      unfold Sends
      dsimp only
      rw [hMoves.size, hMoves.type, hMoves.object]
      by_cases hj : j = machPortIndex name
      · subst hj
        simp
      · simp [hj]
  | node n =>
      unfold Sends
      simp only [hMoves.node]
      constructor
      · rintro ⟨f, ⟨hMem, hNe⟩, hRest⟩
        exact Or.inl ⟨⟨f, hMem, hRest⟩, by simp,
          fun h => hNe (EntryRef.node.inj h)⟩
      · rintro (⟨⟨f, hMem, hRest⟩, _, hNe⟩ | ⟨h, _⟩)
        · exact ⟨f, ⟨hMem, fun h => hNe (by rw [h])⟩,
            hRest⟩
        · cases h

/-
  The slot taken over is unhashed, whatever its type still
  says.
-/
theorem HashView.rehashMoved
    {ipc : IpcParams}
    {s : IpcSpace}
    {L L' : Layout}
    (hView : HashView ipc s
      (viewDelete L.Sends (.slot (machPortIndex name))))
    (hMoves : L.Moves L' name fields)
    (hMem : (name, fields) ∈ L.entries)
    (hSingle : ∀ f, (name, f) ∈ L.entries → f = fields)
    (hPos : machPortIndex name ≠ 0)
    (hSize : L.size = s.isTableSize)
    (hLt : machPortIndex name < s.isTableSize) :
    HashView ipc (rehashMoved ipc s name fields)
      L'.Sends := by
  unfold Ipc.rehashMoved
  split_ifs with hType
  · have hNode : L.Sends (.node name) fields.ieObject :=
      ⟨fields, hMem, hType, rfl⟩
    have hDelete := @HashView.globalDelete _ _ _ name
      fields.ieObject hView ⟨hNode, by simp⟩
    have hInsert := hDelete.localInsert hPos hLt
      (by
        rintro o ⟨⟨_, h⟩, _⟩
        exact h rfl) fields.ieObject
    apply hInsert.congr (SameHash.refl _)
    intro ref obj
    rw [hMoves.sends_iff, hSize]
    unfold viewInsert viewDelete
    simp only [hLt, hType, true_and, and_assoc,
      eq_comm (a := obj)]
  · apply hView.congr (SameHash.refl _)
    intro ref obj
    rw [hMoves.sends_iff]
    constructor
    · rintro (⟨h, hSlot, _⟩ | ⟨_, _, h, _⟩)
      · exact ⟨h, hSlot⟩
      · exact absurd h hType
    · rintro ⟨h, hSlot⟩
      refine Or.inl ⟨h, hSlot, ?_⟩
      intro hRef
      subst hRef
      rcases h with ⟨f, hIn, hSend, _⟩
      rw [hSingle f hIn] at hSend
      exact hType hSend

/- A name that goes out of a sorted list. -/
theorem mem_remove_iff
    {entries rest small large : List (Nat × EntryFields)}
    (hMore : entries = small ++ (name, fields) :: large)
    (hLess : rest = small ++ large)
    (hSorted : KeySorted entries)
    (n : Nat)
    (f : EntryFields) :
    (n, f) ∈ rest ↔ (n, f) ∈ entries ∧ n ≠ name := by
  rw [hMore] at hSorted
  rw [hMore, mem_middle_iff, hLess]
  constructor
  · intro hMem
    refine ⟨Or.inl hMem, ?_⟩
    intro hn
    rw [hn] at hMem
    have hGone := hSorted.lookup_remove name
    rw [if_pos rfl, hSorted.remove_middle.lookup_of_mem hMem]
      at hGone
    cases hGone
  · rintro ⟨h | h, hNe⟩
    · exact h
    · cases h
      exact absurd rfl hNe

end Ipc

end OsfMach
