import OsfMach.Ipc.DeallocHash

/-
  Stores through pointers to entries.

  A store to one entry leaves where the others are kept, and
  which of them are send rights. The reverse hash tables are
  no part of what the entries denote.

  Key theorems include:
    * `IpcSpace.store_comm`, `IpcSpace.store_eq_assign`
    * `SpaceInv.sends_store_iff`, `SpaceInv.at_store_other`
    * `SameEntries.spaceInv`
-/

------
-- Stores
------

namespace OsfMach

namespace Ipc

open Function
open Lib

namespace IpcSpace

/- Two entries are stored to in either order. -/
theorem store_comm
    (s : IpcSpace)
    {ref other : EntryRef}
    (hNe : ref ≠ other)
    (f g : EntryFields) :
    (s.store ref f).store other g =
      (s.store other g).store ref f := by
  cases ref with
  | slot i =>
      cases other with
      | slot j =>
          have hij : i ≠ j := fun h => hNe (by rw [h])
          unfold store setSlot
          dsimp only
          rw [update_of_ne hij.symm, update_of_ne hij,
            update_comm hij]
      | node n => rfl
  | node n =>
      cases other with
      | slot j => rfl
      | node m =>
          have hnm : n ≠ m := fun h => hNe (by rw [h])
          unfold store
          dsimp only
          rw [SplayTree.modify_comm hnm]

/- A store that keeps the generation and the collision bit. -/
theorem store_eq_assign
    (s : IpcSpace)
    (ref : EntryRef)
    {f : EntryFields}
    (hBits : f.ieBits &&& ~~~ieBitsRightMask =
      (s.fields ref).ieBits &&& ~~~ieBitsRightMask) :
    s.store ref f = s.assign ref f.content := by
  have hEq : ieBitsWithRight (s.fields ref).ieBits
      (ieBitsRight f.ieBits) = f.ieBits := by
    unfold ieBitsWithRight
    rw [← hBits]
    unfold ieBitsRight
    rw [BitVec.and_assoc, BitVec.and_self,
      ← BitVec.and_or_distrib_left, BitVec.or_comm,
      BitVec.or_not_self]
    exact BitVec.and_allOnes
  unfold assign EntryFields.content
  rw [hEq]

end IpcSpace

------
-- Other Entries
------

namespace SpaceInv

variable {ipc : IpcParams} {s : IpcSpace}
variable {pend : Option EntryRef} {name : Nat} {ref : EntryRef}
variable {fields : EntryFields}

section

variable (hInv : SpaceInv ipc pend s)
include hInv

theorem layout_storeNode
    (n : Nat)
    (f : EntryFields) :
    (s.store (.node n) f).layout ipc =
      (s.layout ipc).storeNode n f := by
  have hList := (SplayTree.modify_spec hInv.tree n
    (fun _ => f)).2
  unfold IpcSpace.store IpcSpace.layout Layout.storeNode
  rw [hList]

/- Which entries are send rights after a store. -/
theorem sends_store_iff
    (hAt : (s.layout ipc).At pend name ref fields)
    (f : EntryFields)
    (r : EntryRef)
    (obj : Nat) :
    ((s.store ref f).layout ipc).Sends r obj ↔
      if r = ref then
        ieBitsType f.ieBits = machPortTypeSend ∧
          f.ieObject = obj
      else (s.layout ipc).Sends r obj := by
  cases ref with
  | slot i =>
      have hLt : i < (s.layout ipc).size := hAt.2.2.1
      have hLayout := IpcSpace.layout_setSlot ipc s i f
      change ((s.setSlot i f).layout ipc).Sends r obj ↔ _
      rw [hLayout, Layout.sends_setSlot_iff]
      simp only [hLt, true_and]
  | node n =>
      rcases hAt with ⟨hn, hMem⟩
      subst hn
      rw [hInv.layout_storeNode]
      cases r with
      | slot i =>
          rfl
      | node m =>
          simp only [EntryRef.node.injEq]
          by_cases hm : m = n
          · subst hm
            rw [if_pos rfl]
            constructor
            · rintro ⟨g, hIn, hType, hObject⟩
              rcases List.mem_map.mp hIn with ⟨e, _, hEq⟩
              rcases e with ⟨k, old⟩
              rw [Prod.mk.injEq] at hEq
              rcases hEq with ⟨hk, hg⟩
              rw [if_pos hk] at hg
              subst hg
              exact ⟨hType, hObject⟩
            · rintro ⟨hType, hObject⟩
              refine ⟨f, List.mem_map.mpr ⟨_, hMem, ?_⟩,
                hType, hObject⟩
              rw [if_pos rfl]
          · rw [if_neg hm]
            constructor
            · rintro ⟨g, hIn, hRest⟩
              rcases List.mem_map.mp hIn with ⟨e, he, hEq⟩
              rcases e with ⟨k, old⟩
              rw [Prod.mk.injEq] at hEq
              rcases hEq with ⟨hk, hg⟩
              subst hk
              rw [if_neg hm] at hg
              subst hg
              exact ⟨old, he, hRest⟩
            · rintro ⟨g, hIn, hRest⟩
              refine ⟨g, List.mem_map.mpr ⟨_, hIn, ?_⟩, hRest⟩
              rw [if_neg hm]

/- Other entries stay where they are kept. -/
theorem at_store_other
    {f e : EntryFields}
    {n : Nat}
    {r : EntryRef}
    (hAt : (s.layout ipc).At pend n r e)
    (hNe : r ≠ ref) :
    ((s.store ref f).layout ipc).At pend n r e := by
  cases ref with
  | slot i =>
      change ((s.setSlot i f).layout ipc).At pend n r e
      rw [IpcSpace.layout_setSlot]
      cases r with
      | slot j =>
          have hj : j ≠ i := fun h => hNe (by rw [h])
          rcases hAt with ⟨hIndex, hPos, hLt, hUsed, hGen, he⟩
          have hSame : ((s.layout ipc).setSlot i f).table j =
              (s.layout ipc).table j :=
            update_of_ne hj _ _
          refine ⟨hIndex, hPos, hLt, ?_, ?_, ?_⟩
          · unfold Layout.Used
            rw [hSame]
            exact hUsed
          · rw [hSame]
            exact hGen
          · rw [hSame]
            exact he
      | node m => exact hAt
  | node m =>
      rw [hInv.layout_storeNode]
      cases r with
      | slot j => exact hAt
      | node k =>
          rcases hAt with ⟨hk, hMem⟩
          have hkm : n ≠ m := by
            intro h
            exact hNe (by rw [hk, h])
          refine ⟨hk, List.mem_map.mpr ⟨_, hMem, ?_⟩⟩
          rw [if_neg hkm]

end

end SpaceInv

/- An entry that is not pending needs no pending entry. -/
theorem Layout.At.settled
    {L : Layout}
    {pend ref : EntryRef}
    {name : Nat}
    {fields : EntryFields}
    (hAt : L.At (some pend) name ref fields)
    (hNe : ref ≠ pend) :
    L.At none name ref fields := by
  cases ref with
  | slot i =>
      rcases hAt with ⟨hIndex, hPos, hLt, hUsed, hRest⟩
      refine ⟨hIndex, hPos, hLt, ?_, hRest⟩
      rcases hUsed with h | h
      · exact .inl h
      · exact absurd (Option.some.inj h).symm hNe
  | node n => exact hAt

------
-- The Reverse Hash
------

namespace SameEntries

variable {ipc : IpcParams} {pend : Option EntryRef}
variable {s s' : IpcSpace}

theorem hashLocalDelete
    (s : IpcSpace)
    (obj i : Nat) :
    SameEntries s (ipcHashLocalDelete s obj i) := by
  unfold ipcHashLocalDelete
  split
  · exact refl s
  · exact ⟨fun _ => rfl, ⟨rfl, rfl, rfl, rfl, rfl⟩, rfl, rfl, rfl⟩

theorem hashInsert
    (ipc : IpcParams)
    (s : IpcSpace)
    (obj name : Nat)
    (entry : EntryRef) :
    SameEntries s (ipcHashInsert ipc s obj name entry) := by
  unfold ipcHashInsert
  split
  · exact hashLocalInsert s _ _
  · exact ⟨fun _ => rfl, ⟨rfl, rfl, rfl, rfl, rfl⟩, rfl, rfl, rfl⟩

theorem hashDelete
    (ipc : IpcParams)
    (s : IpcSpace)
    (obj name : Nat)
    (entry : EntryRef) :
    SameEntries s (ipcHashDelete ipc s obj name entry) := by
  unfold ipcHashDelete
  split
  · exact hashLocalDelete s _ _
  · exact hashGlobalDelete ipc s _ _

/- Hashing keeps the invariant of the entries. -/
theorem spaceInv
    (h : SameEntries s s')
    (hInv : SpaceInv ipc pend s) :
    SpaceInv ipc pend s' := by
  have hTree : s'.isTree.WellFormed := by
    rw [h.tree]
    exact hInv.tree
  exact hInv.congr (h.layout_eq ipc) hTree h.frame.active
    h.frame.growing h.frame.next h.total h.small h.frame.fast

theorem fields_eq
    (h : SameEntries s s')
    (ref : EntryRef) :
    s'.fields ref = s.fields ref := by
  cases ref with
  | slot i => exact h.fields i
  | node n =>
      unfold IpcSpace.fields IpcSpace.treeFields
      rw [h.tree]

end SameEntries

end Ipc

end OsfMach
