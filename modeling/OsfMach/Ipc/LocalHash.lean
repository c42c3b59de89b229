import OsfMach.Ipc.HashInv
import OsfMach.Lib.Runs

/-
  The local reverse hash on its own.

  Slots of the table are hashed under their objects and taken
  out again, in any order. Entries that are not hashed may be
  stored into, and hashed entries keep their objects.

  Main declarations:
    * `LocalHash`, `localHashStep`
    * `LocalHashInv`
    * `localHashStep_inv`
    * `localHash_lookup`
-/

------
-- Runs of the Local Hash
------

namespace OsfMach

namespace Ipc

open Function
open Lib

/- A space, and the slots that are hashed at this time. -/
structure LocalHash where
  space : IpcSpace
  hashed : List Nat

inductive LocalHashOp where
| store (index : Nat) (fields : EntryFields)
| insert (obj index : Nat)
| delete (obj index : Nat)

/-
  The callers hash an entry once, and take out entries that
  are hashed; the object is the one of the entry.
-/
def localHashStep
    (t : LocalHash) : LocalHashOp → Option LocalHash
| .store index fields =>
    if index ∈ t.hashed →
        fields.ieObject = (t.space.isTable index).ieObject then
      some { t with space := t.space.setSlot index fields }
    else none
| .insert obj index =>
    if index ≠ 0 ∧ index < t.space.isTableSize ∧
        index ∉ t.hashed ∧
        (t.space.isTable index).ieObject = obj then
      some
        { space := ipcHashLocalInsert t.space obj index
          hashed := index :: t.hashed }
    else none
| .delete obj index =>
    if index ∈ t.hashed ∧
        (t.space.isTable index).ieObject = obj then
      some
        { space := ipcHashLocalDelete t.space obj index
          hashed := t.hashed.erase index }
    else none

/- The slots that are hashed are found from their objects. -/
structure LocalHashInv (t : LocalHash) : Prop where
  pos : 0 < t.space.isTableSize
  nodup : t.hashed.Nodup
  nonzero : 0 ∉ t.hashed
  valid :
    Probing.Valid t.space.isTableSize t.space.hashHome
      t.space.hashSlots
  stored :
    ∀ i, i ≠ 0 →
      (Probing.Stored t.space.isTableSize t.space.hashSlots i
        ↔ i ∈ t.hashed)

------
-- Steps
------

section Steps

variable {t t' : LocalHash} {obj index : Nat}

section

variable (h : LocalHashInv t)
include h

/- Other entries keep their homes. -/
theorem LocalHashInv.store
    {fields : EntryFields}
    (hSame :
      index ∈ t.hashed →
        fields.ieObject = (t.space.isTable index).ieObject) :
    LocalHashInv
      { t with space := t.space.setSlot index fields } := by
  have hSlots : (t.space.setSlot index fields).hashSlots =
      t.space.hashSlots :=
    (SameHash.setSlot t.space index fields).slots
  refine ⟨h.pos, h.nodup, h.nonzero, ?_, ?_⟩
  · show Probing.Valid t.space.isTableSize
      (t.space.setSlot index fields).hashHome
      (t.space.setSlot index fields).hashSlots
    rw [hSlots]
    apply h.valid.rehome
    intro key hKey hStored
    have hIn := (h.stored key hKey).mp hStored
    unfold IpcSpace.hashHome IpcSpace.setSlot
    dsimp only
    by_cases hEq : key = index
    · rw [hEq, update_self]
      rw [hEq] at hIn
      rw [hSame hIn]
    · rw [update_of_ne hEq]
  · show ∀ i, i ≠ 0 →
      (Probing.Stored t.space.isTableSize
        (t.space.setSlot index fields).hashSlots i ↔
          i ∈ t.hashed)
    rw [hSlots]
    exact h.stored

/- The loop of an insertion ends at an empty slot. -/
theorem LocalHashInv.insert_ends
    (hPos : index ≠ 0)
    (hLt : index < t.space.isTableSize)
    (hNew : index ∉ t.hashed) :
    ∃ hindex < t.space.isTableSize,
      t.space.hashSlots hindex = 0 ∧
      Probing.insert t.space.isTableSize
          (fun _ => t.space.hashHome index)
          t.space.hashSlots index =
        some (update t.space.hashSlots hindex index) ∧
      Probing.Valid t.space.isTableSize t.space.hashHome
        (update t.space.hashSlots hindex index) := by
  rcases Probing.insert_spec h.valid hPos hLt
    (ihLocalHash_lt _ h.pos)
    (fun hStored => hNew ((h.stored index hPos).mp hStored))
    with ⟨hindex, hh, hEmpty, hInsert, hAfter⟩
  exact ⟨hindex, hh, hEmpty, hInsert, hAfter⟩

theorem LocalHashInv.insert
    (hPos : index ≠ 0)
    (hLt : index < t.space.isTableSize)
    (hNew : index ∉ t.hashed)
    (hObject : (t.space.isTable index).ieObject = obj) :
    LocalHashInv
      { space := ipcHashLocalInsert t.space obj index
        hashed := index :: t.hashed } := by
  rcases h.insert_ends hPos hLt hNew with
    ⟨hindex, hh, hEmpty, hInsert, hAfter⟩
  have hEq : ipcHashLocalInsert t.space obj index =
      t.space.setHashSlots
        (update t.space.hashSlots hindex index) := by
    unfold IpcSpace.hashHome at hInsert
    rw [hObject] at hInsert
    unfold ipcHashLocalInsert
    rw [hInsert]
  rw [hEq]
  refine ⟨h.pos, List.nodup_cons.mpr ⟨hNew, h.nodup⟩, ?_,
    hAfter, ?_⟩
  · intro hMem
    rcases List.mem_cons.mp hMem with hZero | hOld
    · exact hPos hZero.symm
    · exact h.nonzero hOld
  · intro i hi
    refine (Probing.stored_update_iff hh hEmpty index
      hi).trans ?_
    rw [h.stored i hi, List.mem_cons, or_comm]

/- The loops of a deletion end. -/
theorem LocalHashInv.delete_ends
    (hIn : index ∈ t.hashed) :
    ∃ slots,
      Probing.delete t.space.isTableSize t.space.hashHome
          t.space.hashSlots index =
        some slots ∧
      Probing.Valid t.space.isTableSize t.space.hashHome
        slots ∧
      ∀ k, k ≠ 0 →
        (Probing.Stored t.space.isTableSize slots k ↔
          Probing.Stored t.space.isTableSize
            t.space.hashSlots k ∧ k ≠ index) := by
  have hPos : index ≠ 0 := by
    intro hZero
    rw [hZero] at hIn
    exact h.nonzero hIn
  exact Probing.delete_spec h.valid hPos
    ((h.stored index hPos).mpr hIn)

end

/- The homes that the source computes when it deletes. -/
theorem deleteHome_eq
    (hObject : (t.space.isTable index).ieObject = obj) :
    (fun key =>
        if key = index then
          ihLocalHash obj t.space.isTableSize
        else t.space.hashHome key) =
      t.space.hashHome := by
  funext key
  split_ifs with hEq
  · unfold IpcSpace.hashHome
    rw [hEq, hObject]
  · rfl

theorem LocalHashInv.delete
    (h : LocalHashInv t)
    (hIn : index ∈ t.hashed)
    (hObject : (t.space.isTable index).ieObject = obj) :
    LocalHashInv
      { space := ipcHashLocalDelete t.space obj index
        hashed := t.hashed.erase index } := by
  rcases h.delete_ends hIn with
    ⟨slots, hDelete, hAfter, hIff⟩
  have hEq : ipcHashLocalDelete t.space obj index =
      t.space.setHashSlots slots := by
    unfold ipcHashLocalDelete
    rw [deleteHome_eq hObject, hDelete]
  rw [hEq]
  refine ⟨h.pos, h.nodup.erase index, ?_, hAfter, ?_⟩
  · intro hMem
    exact h.nonzero (List.mem_of_mem_erase hMem)
  · intro i hi
    refine (hIff i hi).trans ?_
    rw [h.stored i hi, h.nodup.mem_erase_iff, and_comm]

theorem localHashStep_inv
    (t : LocalHash)
    (op : LocalHashOp)
    (t' : LocalHash)
    (h : LocalHashInv t)
    (hStep : localHashStep t op = some t') :
    LocalHashInv t' := by
  unfold localHashStep at hStep
  cases op with
  | store index fields =>
      dsimp only at hStep
      split_ifs at hStep with hOk
      cases hStep
      exact h.store hOk
  | insert obj index =>
      dsimp only at hStep
      split_ifs at hStep with hOk
      cases hStep
      exact h.insert hOk.1 hOk.2.1 hOk.2.2.1 hOk.2.2.2
  | delete obj index =>
      dsimp only at hStep
      split_ifs at hStep with hOk
      cases hStep
      exact h.delete hOk.1 hOk.2

end Steps

------
-- Lookups
------

section Lookup

variable {t : LocalHash} {obj : Nat}

/- What a lookup returns is a slot that is hashed. -/
theorem LocalHashInv.lookup_some
    {name : Nat}
    {ref : EntryRef}
    (h : LocalHashInv t)
    (hLookup :
      ipcHashLocalLookup t.space obj = some (name, ref)) :
    ∃ i ∈ t.hashed, ref = .slot i ∧
      (t.space.isTable i).ieObject = obj ∧
      name = machPortMakeb i (t.space.isTable i).ieBits := by
  unfold ipcHashLocalLookup at hLookup
  split at hLookup
  · cases hLookup
  · rename_i i hSearch
    cases hLookup
    rcases Probing.search_some _ (ihLocalHash_lt obj h.pos)
      hSearch with ⟨hPos, hStored, hTest⟩
    exact ⟨i, (h.stored i hPos).mp hStored, rfl,
      eq_of_beq hTest, rfl⟩

/- An object with a slot that is hashed is found. -/
theorem LocalHashInv.lookup_isSome
    {i : Nat}
    (h : LocalHashInv t)
    (hIn : i ∈ t.hashed)
    (hObject : (t.space.isTable i).ieObject = obj) :
    (ipcHashLocalLookup t.space obj).isSome = true := by
  have hPos : i ≠ 0 := by
    intro hZero
    rw [hZero] at hIn
    exact h.nonzero hIn
  rcases @Probing.Valid.search_match _ _ _
    (fun j => (t.space.isTable j).ieObject == obj) h.valid _
    ((h.stored i hPos).mpr hIn) hPos
    (beq_iff_eq.mpr hObject) with ⟨q, _, _, _, hSearch⟩
  unfold IpcSpace.hashHome at hSearch
  rw [hObject] at hSearch
  unfold ipcHashLocalLookup
  rw [hSearch]
  rfl

end Lookup

/-
  The local hash of a table of any size, after any operations
  on an empty one: an object is found exactly when a slot
  with it was inserted and not deleted, and the loops of the
  three operations end.
-/
theorem localHash_lookup
    {s : IpcSpace}
    {ops : List LocalHashOp}
    {t : LocalHash}
    (hPos : 0 < s.isTableSize)
    (hEmpty :
      ∀ i < s.isTableSize, (s.isTable i).ieIndex = 0)
    (hExec : Runs.exec localHashStep ⟨s, []⟩ ops = some t) :
    (∀ obj, (ipcHashLocalLookup t.space obj).isSome = true ↔
      ∃ i ∈ t.hashed, (t.space.isTable i).ieObject = obj) ∧
    (∀ obj name ref,
      ipcHashLocalLookup t.space obj = some (name, ref) →
      ∃ i ∈ t.hashed, ref = .slot i ∧
        (t.space.isTable i).ieObject = obj ∧
        name = machPortMakeb i (t.space.isTable i).ieBits) ∧
    (∀ obj, ∃ h < t.space.isTableSize,
      Probing.seek t.space.isTableSize t.space.hashSlots
          (fun i => i == 0 ||
            (t.space.isTable i).ieObject == obj)
          t.space.isTableSize
          (ihLocalHash obj t.space.isTableSize) =
        some h) ∧
    (∀ i, i ≠ 0 → i < t.space.isTableSize →
      i ∉ t.hashed →
      (Probing.insert t.space.isTableSize
        (fun _ => t.space.hashHome i)
        t.space.hashSlots i).isSome = true) ∧
    (∀ i ∈ t.hashed,
      (Probing.delete t.space.isTableSize t.space.hashHome
        t.space.hashSlots i).isSome = true) := by
  have hStart : LocalHashInv ⟨s, []⟩ := by
    refine ⟨hPos, List.nodup_nil, List.not_mem_nil,
      Probing.valid_empty _ _ hPos hEmpty, ?_⟩
    intro i hi
    constructor
    · rintro ⟨q, hq, hSlot⟩
      exact absurd (hSlot.symm.trans (hEmpty q hq)) hi
    · intro hMem
      cases hMem
  have h : LocalHashInv t :=
    Runs.exec_preserves localHashStep_inv hStart hExec
  refine ⟨?_, ?_, ?_, ?_, ?_⟩
  · intro obj
    constructor
    · intro hSome
      rcases Option.isSome_iff_exists.mp hSome with
        ⟨⟨name, ref⟩, hLookup⟩
      rcases h.lookup_some hLookup with
        ⟨i, hIn, _, hObject, _⟩
      exact ⟨i, hIn, hObject⟩
    · rintro ⟨i, hIn, hObject⟩
      exact h.lookup_isSome hIn hObject
  · intro obj name ref hLookup
    exact h.lookup_some hLookup
  · intro obj
    exact h.valid.seek_ends (ihLocalHash_lt obj h.pos)
  · intro i hi hLt hNew
    rcases h.insert_ends hi hLt hNew with
      ⟨_, _, _, hInsert, _⟩
    rw [hInsert]
    rfl
  · intro i hIn
    rcases h.delete_ends hIn with ⟨slots, hDelete, _⟩
    rw [hDelete]
    rfl

/- Three objects that hash to the last of four slots. -/
def fourSlots : IpcSpace :=
  { isAddr := 0
    isActive := true
    isGrowing := false
    isTable := fun i => ⟨⟨0, 0x100 * i - 0x40, 0⟩, 0⟩
    isTableSize := 4
    isTableNext := 0
    isTree := SplayTree.empty
    isTreeTotal := 0
    isTreeSmall := 0
    isTreeHash := 0
    isFast := false
    ihgb := fun _ => [] }

/- The last of the three is found after the second is gone. -/
theorem localHash_lookup_clump :
    ∃ t, Runs.exec localHashStep ⟨fourSlots, []⟩
        [.insert 0xc0 1, .insert 0x1c0 2, .insert 0x2c0 3,
          .delete 0x1c0 2] = some t ∧
      (ipcHashLocalLookup t.space 0x2c0).isSome = true := by
  have hAll := fun t hExec =>
    (@localHash_lookup fourSlots
      [.insert 0xc0 1, .insert 0x1c0 2, .insert 0x2c0 3,
        .delete 0x1c0 2] t (by decide) (by decide) hExec).1
  exact ⟨_, rfl, (hAll _ rfl 0x2c0).mpr ⟨3, by decide, rfl⟩⟩

end Ipc

end OsfMach
