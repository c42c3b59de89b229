import OsfMach.Ipc.EntryInv

/-
  The invariant of the reverse hash tables of a space.

  A view says which entries are hashed, and under which
  object. Two tables keep a view: the slots are kept in the
  `ie_index` fields, the nodes in the buckets of the global
  hash. The view of a space are its send rights.

  Main declarations:
    * `HashView`, `SameHash`
    * `Layout.Sends`, `HashInv`, `OneSend`
    * `HashView.insert`, `HashView.delete`
    * `HashInv.lookup_iff`
-/

------
-- Views
------

namespace OsfMach

namespace Ipc

open Function
open Lib

/- The hash tables hold these entries for these objects. -/
structure HashView
    (ipc : IpcParams)
    (s : IpcSpace)
    (view : EntryRef → Nat → Prop) : Prop where
  single :
    ∀ ref obj obj', view ref obj → view ref obj' →
      obj = obj'
  zero : ∀ obj, ¬ view (.slot 0) obj
  slots :
    ∃ home, Probing.Valid s.isTableSize home s.hashSlots ∧
      ∀ i obj, view (.slot i) obj →
        home i = ihLocalHash obj s.isTableSize
  stored :
    ∀ i, i ≠ 0 →
      (Probing.Stored s.isTableSize s.hashSlots i ↔
        ∃ obj, view (.slot i) obj)
  nodup : ∀ b, (s.ihgb b).Nodup
  bucket :
    ∀ b name, name ∈ s.ihgb b ↔
      ∃ obj, view (.node name) obj ∧
        b = ihGlobalHash ipc s obj
  count :
    ∃ names : Finset Nat,
      (∀ name, name ∈ names ↔ ∃ obj, view (.node name) obj) ∧
        s.isTreeHash = names.card

/- The hash tables of two spaces are the same. -/
structure SameHash (s s' : IpcSpace) : Prop where
  slots : s'.hashSlots = s.hashSlots
  size : s'.isTableSize = s.isTableSize
  addr : s'.isAddr = s.isAddr
  ihgb : s'.ihgb = s.ihgb
  hash : s'.isTreeHash = s.isTreeHash

namespace SameHash

variable {s s' s'' : IpcSpace}

theorem refl (s : IpcSpace) : SameHash s s :=
  ⟨rfl, rfl, rfl, rfl, rfl⟩

theorem trans
    (h : SameHash s s')
    (h' : SameHash s' s'') :
    SameHash s s'' :=
  { slots := h'.slots.trans h.slots
    size := h'.size.trans h.size
    addr := h'.addr.trans h.addr
    ihgb := h'.ihgb.trans h.ihgb
    hash := h'.hash.trans h.hash }

/- Entries keep their hash fields when they are stored. -/
theorem setSlot
    (s : IpcSpace)
    (i : Nat)
    (fields : EntryFields) :
    SameHash s (s.setSlot i fields) := by
  refine ⟨?_, rfl, rfl, rfl, rfl⟩
  funext h
  unfold IpcSpace.hashSlots IpcSpace.setSlot
  dsimp only
  rw [update_apply]
  split_ifs with hEq
  · rw [hEq]
  · rfl

theorem store
    (s : IpcSpace)
    (ref : EntryRef)
    (fields : EntryFields) :
    SameHash s (s.store ref fields) := by
  cases ref with
  | slot i => exact setSlot s i fields
  | node name => exact ⟨rfl, rfl, rfl, rfl, rfl⟩

end SameHash

namespace HashView

variable {ipc : IpcParams} {s s' : IpcSpace}
variable {view view' : EntryRef → Nat → Prop}

theorem congr
    (hView : HashView ipc s view)
    (hSame : SameHash s s')
    (hIff : ∀ ref obj, view' ref obj ↔ view ref obj) :
    HashView ipc s' view' := by
  have hEq : view' = view := by
    funext ref obj
    exact propext (hIff ref obj)
  have hGlobal : ∀ obj, ihGlobalHash ipc s' obj =
      ihGlobalHash ipc s obj := by
    intro obj
    unfold ihGlobalHash
    rw [hSame.addr]
  subst hEq
  exact
    { single := hView.single
      zero := hView.zero
      slots := by
        rw [hSame.size, hSame.slots]
        exact hView.slots
      stored := by
        rw [hSame.size, hSame.slots]
        exact hView.stored
      nodup := by
        rw [hSame.ihgb]
        exact hView.nodup
      bucket := by
        intro b name
        simp only [hSame.ihgb, hGlobal]
        exact hView.bucket b name
      count := by
        rw [hSame.hash]
        exact hView.count }

/- Hashed slots are in the table. -/
theorem slot_lt
    (hView : HashView ipc s view)
    {i obj : Nat}
    (hSlot : view (.slot i) obj) :
    i ≠ 0 ∧ i < s.isTableSize := by
  have hPos : i ≠ 0 := by
    intro h
    rw [h] at hSlot
    exact hView.zero obj hSlot
  rcases hView.slots with ⟨home, hValid, _⟩
  exact ⟨hPos, hValid.stored_lt
    ((hView.stored i hPos).mpr ⟨obj, hSlot⟩)⟩

end HashView

------
-- The Table
------

/- Add an entry to a view. -/
def viewInsert
    (view : EntryRef → Nat → Prop)
    (ref : EntryRef)
    (obj : Nat)
    (r : EntryRef)
    (o : Nat) : Prop :=
  view r o ∨ (r = ref ∧ o = obj)

/- Remove an entry from a view. -/
def viewDelete
    (view : EntryRef → Nat → Prop)
    (ref r : EntryRef)
    (o : Nat) : Prop :=
  view r o ∧ r ≠ ref

theorem ihLocalHash_lt
    (obj : Nat)
    {size : Nat}
    (hPos : 0 < size) :
    ihLocalHash obj size < size :=
  Nat.mod_lt _ hPos

namespace HashView

variable {ipc : IpcParams} {s : IpcSpace}
variable {view : EntryRef → Nat → Prop}

/- A view with a new entry has one object for each. -/
theorem insert_single
    (hView : HashView ipc s view)
    {ref : EntryRef}
    (hNew : ∀ o, ¬ view ref o)
    (obj : Nat)
    (r : EntryRef)
    (o o' : Nat)
    (hIn : viewInsert view ref obj r o)
    (hIn' : viewInsert view ref obj r o') :
    o = o' := by
  rcases hIn with h | ⟨hr, h⟩
  · rcases hIn' with h' | ⟨hr', _⟩
    · exact hView.single r o o' h h'
    · rw [hr'] at h
      exact absurd h (hNew o)
  · rcases hIn' with h' | ⟨_, h'⟩
    · rw [hr] at h'
      exact absurd h' (hNew o')
    · rw [h, h']

/- `ipc_hash_local_insert`. -/
theorem localInsert
    (hView : HashView ipc s view)
    {i : Nat}
    (hPos : i ≠ 0)
    (hLt : i < s.isTableSize)
    (hNew : ∀ o, ¬ view (.slot i) o)
    (obj : Nat) :
    HashView ipc (ipcHashLocalInsert s obj i)
      (viewInsert view (.slot i) obj) := by
  rcases hView.slots with ⟨home, hValid, hHome⟩
  have hNot : ¬ Probing.Stored s.isTableSize s.hashSlots i := by
    rw [hView.stored i hPos]
    rintro ⟨o, ho⟩
    exact hNew o ho
  have hSizePos : 0 < s.isTableSize := by omega
  -- the homes with the new entry
  have hValid' := @Probing.Valid.rehome _ _
    (update home i (ihLocalHash obj s.isTableSize)) _ hValid
    (by
      intro key _ hStored
      apply update_of_ne
      intro hEq
      rw [hEq] at hStored
      exact hNot hStored)
  rcases Probing.insert_spec hValid' hPos hLt
    (by
      rw [update_self]
      exact ihLocalHash_lt obj hSizePos) hNot with
    ⟨h, hh, hEmpty, hInsert, hAfter⟩
  have hEq : ipcHashLocalInsert s obj i =
      s.setHashSlots (update s.hashSlots h i) := by
    unfold Probing.insert at hInsert
    rw [update_self] at hInsert
    unfold ipcHashLocalInsert Probing.insert
    rw [hInsert]
  rw [hEq]
  exact
    { single := hView.insert_single hNew obj
      zero := by
        rintro o (h | ⟨h, _⟩)
        · exact hView.zero o h
        · exact hPos (EntryRef.slot.inj h).symm
      slots := by
        refine ⟨_, hAfter, ?_⟩
        rintro j o (h | ⟨h, ho⟩)
        · have hNe : j ≠ i := by
            intro hji
            rw [hji] at h
            exact hNew o h
          rw [update_of_ne hNe]
          exact hHome j o h
        · rw [EntryRef.slot.inj h, update_self, ho]
          rfl
      stored := by
        intro j hj
        refine (Probing.stored_update_iff hh hEmpty i
          hj).trans ?_
        rw [hView.stored j hj]
        constructor
        · rintro (⟨o, ho⟩ | hji)
          · exact ⟨o, Or.inl ho⟩
          · exact ⟨obj, Or.inr ⟨by rw [hji], rfl⟩⟩
        · rintro ⟨o, h | ⟨h, _⟩⟩
          · exact Or.inl ⟨o, h⟩
          · exact Or.inr (EntryRef.slot.inj h)
      nodup := hView.nodup
      bucket := by
        intro b name
        refine (hView.bucket b name).trans ?_
        simp [viewInsert]
        rfl
      count := by
        rcases hView.count with ⟨names, hNames, hCard⟩
        refine ⟨names, ?_, hCard⟩
        intro name
        rw [hNames]
        simp [viewInsert] }

/- `ipc_hash_local_delete`. -/
theorem localDelete
    (hView : HashView ipc s view)
    {i obj : Nat}
    (hIn : view (.slot i) obj)
    (hOther :
      ∀ j o, j ≠ i → view (.slot j) o →
        (s.isTable j).ieObject = o) :
    HashView ipc (ipcHashLocalDelete s obj i)
      (viewDelete view (.slot i)) := by
  rcases hView.slots with ⟨home, hValid, hHome⟩
  rcases hView.slot_lt hIn with ⟨hPos, hLt⟩
  have hStored := (hView.stored i hPos).mpr ⟨obj, hIn⟩
  -- the homes that the source computes
  have hValid' := @Probing.Valid.rehome _ _
    (fun key =>
      if key = i then ihLocalHash obj s.isTableSize
      else s.hashHome key) _ hValid
    (by
      intro key hKey hKeyIn
      rcases (hView.stored key hKey).mp hKeyIn with ⟨o, ho⟩
      split_ifs with hEq
      · rw [hEq]
        exact (hHome i obj hIn).symm
      · unfold IpcSpace.hashHome
        rw [hOther key o hEq ho]
        exact (hHome key o ho).symm)
  rcases Probing.delete_spec hValid' hPos hStored with
    ⟨slots, hDelete, hAfter, hIff⟩
  have hEq : ipcHashLocalDelete s obj i =
      s.setHashSlots slots := by
    unfold ipcHashLocalDelete
    rw [hDelete]
  rw [hEq]
  exact
    { single := fun r o o' h h' =>
        hView.single r o o' h.1 h'.1
      zero := fun o h => hView.zero o h.1
      slots := by
        refine ⟨_, hAfter, ?_⟩
        rintro j o ⟨h, hNe⟩
        have hji : j ≠ i := by
          intro hji
          exact hNe (by rw [hji])
        rw [if_neg hji]
        unfold IpcSpace.hashHome
        rw [hOther j o hji h]
        rfl
      stored := by
        intro j hj
        refine (hIff j hj).trans ?_
        rw [hView.stored j hj]
        constructor
        · rintro ⟨⟨o, ho⟩, hNe⟩
          exact ⟨o, ho, fun h => hNe (EntryRef.slot.inj h)⟩
        · rintro ⟨o, ho, hNe⟩
          exact ⟨⟨o, ho⟩, fun h => hNe (by rw [h])⟩
      nodup := hView.nodup
      bucket := by
        intro b name
        refine (hView.bucket b name).trans ?_
        simp [viewDelete]
        rfl
      count := by
        rcases hView.count with ⟨names, hNames, hCard⟩
        refine ⟨names, ?_, hCard⟩
        intro name
        rw [hNames]
        simp [viewDelete] }

/- Tables without entries. -/
theorem empty
    (hPos : 0 < s.isTableSize)
    (hSlots : ∀ i, s.hashSlots i = 0)
    (hBuckets : ∀ b, s.ihgb b = [])
    (hHash : s.isTreeHash = 0) :
    HashView ipc s (fun _ _ => False) :=
  { single := fun _ _ _ h _ => h.elim
    zero := fun _ h => h
    slots := by
      refine ⟨fun _ => 0, ?_, fun _ _ h => h.elim⟩
      exact Probing.valid_empty _ _ hPos
        (fun i _ => hSlots i)
    stored := by
      intro i hi
      constructor
      · rintro ⟨h, _, hSlot⟩
        rw [hSlots] at hSlot
        exact absurd hSlot.symm hi
      · rintro ⟨_, h⟩
        exact h.elim
    nodup := by
      intro b
      rw [hBuckets]
      exact List.nodup_nil
    bucket := by
      intro b n
      rw [hBuckets]
      simp
    count := by
      refine ⟨∅, ?_, hHash⟩
      intro n
      simp }

------
-- The Buckets
------

variable {name obj : Nat}

/- `ipc_hash_global_insert`. -/
theorem globalInsert
    (hView : HashView ipc s view)
    (hNew : ∀ o, ¬ view (.node name) o)
    (obj : Nat) :
    HashView ipc (ipcHashGlobalInsert ipc s obj name)
      (viewInsert view (.node name) obj) := by
  have hOut : ∀ b, name ∉ s.ihgb b := by
    intro b hMem
    rcases (hView.bucket b name).mp hMem with ⟨o, ho, _⟩
    exact hNew o ho
  have hLists : ∀ b,
      (ipcHashGlobalInsert ipc s obj name).ihgb b =
        if b = ihGlobalHash ipc s obj then name :: s.ihgb b
        else s.ihgb b := by
    intro b
    unfold ipcHashGlobalInsert
    dsimp only
    rw [update_apply]
    split_ifs with hb
    · rw [hb]
    · rfl
  exact
    { single := hView.insert_single hNew obj
      zero := by
        rintro o (h | ⟨h, _⟩)
        · exact hView.zero o h
        · cases h
      slots := by
        rcases hView.slots with ⟨home, hValid, hHome⟩
        refine ⟨home, hValid, ?_⟩
        rintro j o (h | ⟨h, _⟩)
        · exact hHome j o h
        · cases h
      stored := by
        intro j hj
        refine (hView.stored j hj).trans ?_
        simp [viewInsert]
      nodup := by
        intro b
        rw [hLists]
        split_ifs
        · exact List.nodup_cons.mpr
            ⟨hOut b, hView.nodup b⟩
        · exact hView.nodup b
      bucket := by
        intro b n
        have hOld := hView.bucket b n
        rw [hLists]
        constructor
        · intro hMem
          split_ifs at hMem with hb
          · rcases List.mem_cons.mp hMem with h | h
            · exact ⟨obj, Or.inr ⟨by rw [h], rfl⟩, hb⟩
            · rcases hOld.mp h with ⟨o, ho, hB⟩
              exact ⟨o, Or.inl ho, hB⟩
          · rcases hOld.mp hMem with ⟨o, ho, hB⟩
            exact ⟨o, Or.inl ho, hB⟩
        · rintro ⟨o, ho | ⟨hn, ho⟩, hB⟩
          · have hMem := hOld.mpr ⟨o, ho, hB⟩
            split_ifs
            · exact List.mem_cons_of_mem _ hMem
            · exact hMem
          · rw [ho] at hB
            have hHere : b = ihGlobalHash ipc s obj := hB
            rw [EntryRef.node.inj hn, if_pos hHere]
            exact List.mem_cons_self ..
      count := by
        rcases hView.count with ⟨names, hNames, hCard⟩
        have hNot : name ∉ names := by
          rw [hNames]
          rintro ⟨o, ho⟩
          exact hNew o ho
        refine ⟨insert name names, ?_, ?_⟩
        · intro n
          rw [Finset.mem_insert, hNames]
          constructor
          · rintro (h | ⟨o, ho⟩)
            · exact ⟨obj, Or.inr ⟨by rw [h], rfl⟩⟩
            · exact ⟨o, Or.inl ho⟩
          · rintro ⟨o, ho | ⟨hn, _⟩⟩
            · exact Or.inr ⟨o, ho⟩
            · exact Or.inl (EntryRef.node.inj hn)
        · rw [Finset.card_insert_of_notMem hNot, ← hCard]
          rfl }

/- `ipc_hash_global_delete`. -/
theorem globalDelete
    (hView : HashView ipc s view)
    (hIn : view (.node name) obj) :
    HashView ipc (ipcHashGlobalDelete ipc s obj name)
      (viewDelete view (.node name)) := by
  have hLists : ∀ b,
      (ipcHashGlobalDelete ipc s obj name).ihgb b =
        if b = ihGlobalHash ipc s obj then
          (s.ihgb b).erase name
        else s.ihgb b := by
    intro b
    unfold ipcHashGlobalDelete
    dsimp only
    rw [update_apply]
    split_ifs with hb
    · rw [hb]
    · rfl
  exact
    { single := fun r o o' h h' =>
        hView.single r o o' h.1 h'.1
      zero := fun o h => hView.zero o h.1
      slots := by
        rcases hView.slots with ⟨home, hValid, hHome⟩
        exact ⟨home, hValid, fun j o h => hHome j o h.1⟩
      stored := by
        intro j hj
        refine (hView.stored j hj).trans ?_
        simp [viewDelete]
      nodup := by
        intro b
        rw [hLists]
        split_ifs
        · exact (hView.nodup b).erase name
        · exact hView.nodup b
      bucket := by
        intro b n
        have hOld := hView.bucket b n
        rw [hLists]
        constructor
        · intro hMem
          have hBoth : n ∈ s.ihgb b ∧ n ≠ name := by
            split_ifs at hMem with hb
            · exact ((hView.nodup b).mem_erase_iff.mp
                hMem).symm
            · refine ⟨hMem, ?_⟩
              intro hn
              rw [hn] at hMem
              rcases (hView.bucket b name).mp hMem with
                ⟨o, ho, hB⟩
              rw [hView.single _ _ _ ho hIn] at hB
              exact hb hB
          rcases hOld.mp hBoth.1 with ⟨o, ho, hB⟩
          exact ⟨o, ⟨ho, fun h =>
            hBoth.2 (EntryRef.node.inj h)⟩, hB⟩
        · rintro ⟨o, ⟨ho, hNe⟩, hB⟩
          have hMem := hOld.mpr ⟨o, ho, hB⟩
          split_ifs
          · exact (hView.nodup b).mem_erase_iff.mpr
              ⟨fun h => hNe (by rw [h]), hMem⟩
          · exact hMem
      count := by
        rcases hView.count with ⟨names, hNames, hCard⟩
        have hMem : name ∈ names :=
          (hNames name).mpr ⟨obj, hIn⟩
        refine ⟨names.erase name, ?_, ?_⟩
        · intro n
          rw [Finset.mem_erase, hNames]
          constructor
          · rintro ⟨hNe, o, ho⟩
            exact ⟨o, ho, fun h =>
              hNe (EntryRef.node.inj h)⟩
          · rintro ⟨o, ho, hNe⟩
            exact ⟨fun h => hNe (by rw [h]), o, ho⟩
        · rw [Finset.card_erase_of_mem hMem, ← hCard]
          rfl }

end HashView

------
-- The Send Rights of a Space
------

/- The entries of type send, with their objects. -/
def Layout.Sends (L : Layout) : EntryRef → Nat → Prop
| .slot i, obj =>
    i < L.size ∧
      ieBitsType (L.table i).ieBits = machPortTypeSend ∧
      (L.table i).ieObject = obj
| .node name, obj =>
    ∃ fields, (name, fields) ∈ L.entries ∧
      ieBitsType fields.ieBits = machPortTypeSend ∧
      fields.ieObject = obj

/- The hash tables hold the send rights of the space. -/
def HashInv (ipc : IpcParams) (s : IpcSpace) : Prop :=
  HashView ipc s (s.layout ipc).Sends

/- No two entries are send rights for the same object. -/
def Layout.OneSend (L : Layout) : Prop :=
  ∀ ref ref' obj, L.Sends ref obj → L.Sends ref' obj →
    ref = ref'

/- An entry moved into the table changes hash tables if it is hashed. -/
def rehashMoved
    (ipc : IpcParams)
    (s : IpcSpace)
    (name : Nat)
    (fields : EntryFields) : IpcSpace :=
  if ieBitsType fields.ieBits = machPortTypeSend then
    ipcHashLocalInsert
      (ipcHashGlobalDelete ipc s fields.ieObject name)
      fields.ieObject (machPortIndex name)
  else s

/- A type that an entry in use can have. -/
theorem machPortTypeSend_ne_none :
    machPortTypeSend ≠ machPortTypeNone := by
  decide

namespace SpaceInv

variable {ipc : IpcParams} {s : IpcSpace}
variable {pend : Option EntryRef} {ref : EntryRef} {obj : Nat}

/- A send right has a name. -/
theorem at_of_sends
    (hInv : SpaceInv ipc pend s)
    (hSends : (s.layout ipc).Sends ref obj) :
    ∃ name fields, (s.layout ipc).At pend name ref fields ∧
      ieBitsType fields.ieBits = machPortTypeSend ∧
      fields.ieObject = obj := by
  cases ref with
  | slot i =>
      rcases hSends with ⟨hLt, hType, hObject⟩
      have hPos : 0 < i := by
        apply Nat.pos_of_ne_zero
        intro hZero
        rw [hZero, hInv.layout.zero_type] at hType
        exact machPortTypeSend_ne_none hType.symm
      have hUsed : (s.layout ipc).Used pend i := by
        left
        rw [hType]
        exact machPortTypeSend_ne_none
      have hBound : i < machIndexBound :=
        hLt.trans hInv.layout.size_lt
      have hIndex := machPortIndex_make hBound
        (ieBitsGen ((s.layout ipc).table i).ieBits)
      refine ⟨machPortMakeb i
        ((s.layout ipc).table i).ieBits, _,
        ⟨hIndex.symm, hPos, hLt, hUsed, ?_, rfl⟩, hType,
        hObject⟩
      exact (machPortGen_make hBound (ieBitsGen_gen _)).symm
  | node name =>
      rcases hSends with ⟨fields, hMem, hType, hObject⟩
      exact ⟨name, fields, ⟨rfl, hMem⟩, hType, hObject⟩

/- The name of a send right. -/
theorem sends_of_at
    {name : Nat}
    {fields : EntryFields}
    (hAt : (s.layout ipc).At pend name ref fields)
    (hType : ieBitsType fields.ieBits = machPortTypeSend) :
    (s.layout ipc).Sends ref fields.ieObject := by
  cases ref with
  | slot i =>
      rcases hAt with ⟨_, _, hLt, _, _, hFields⟩
      subst hFields
      exact ⟨hLt, hType, rfl⟩
  | node n =>
      rcases hAt with ⟨hName, hMem⟩
      subst hName
      exact ⟨fields, hMem, hType, rfl⟩

end SpaceInv

------
-- Looking Objects Up
------

namespace HashInv

variable {ipc : IpcParams} {s : IpcSpace}
variable {pend : Option EntryRef} {name obj : Nat}

/- A hashed slot passes the test when it has the object. -/
theorem slot_sends
    (hHash : HashInv ipc s)
    {h : Nat}
    (hLt : h < s.isTableSize)
    (hFull : s.hashSlots h ≠ 0)
    (hTest : ((s.isTable (s.hashSlots h)).ieObject == obj) =
      true) :
    (s.layout ipc).Sends (.slot (s.hashSlots h)) obj := by
  rcases (hHash.stored _ hFull).mp ⟨h, hLt, rfl⟩ with
    ⟨o, hIn, hType, hObject⟩
  refine ⟨hIn, hType, ?_⟩
  exact eq_of_beq hTest

/- The table is searched without success. -/
theorem localLookup_none
    (hHash : HashInv ipc s)
    (hPos : 0 < s.isTableSize)
    (hNone : ∀ i, ¬ (s.layout ipc).Sends (.slot i) obj) :
    ipcHashLocalLookup s obj = none := by
  rcases hHash.slots with ⟨home, hValid, _⟩
  have hSearch : Probing.search s.isTableSize s.hashSlots
      (fun i => (s.isTable i).ieObject == obj)
      s.isTableSize (ihLocalHash obj s.isTableSize) =
      none := by
    apply hValid.search_eq_none (ihLocalHash_lt obj hPos)
    intro q hq hFull
    rw [Bool.eq_false_iff]
    intro hTest
    exact hNone _ (hHash.slot_sends hq hFull hTest)
  unfold ipcHashLocalLookup
  rw [hSearch]

/- The table is searched with success. -/
theorem localLookup_some
    (hHash : HashInv ipc s)
    (hOne : (s.layout ipc).OneSend)
    {i : Nat}
    (hSends : (s.layout ipc).Sends (.slot i) obj) :
    ipcHashLocalLookup s obj =
      some (machPortMakeb i (s.isTable i).ieBits,
        .slot i) := by
  rcases hHash.slots with ⟨home, hValid, hHome⟩
  rcases hHash.slot_lt hSends with ⟨hPos, _⟩
  have hObject : (s.isTable i).ieObject = obj := hSends.2.2
  have hSearch : Probing.search s.isTableSize s.hashSlots
      (fun j => (s.isTable j).ieObject == obj)
      s.isTableSize (home i) = some i := by
    apply hValid.search_eq_some
      ((hHash.stored i hPos).mpr ⟨obj, hSends⟩) hPos
    · rw [hObject]
      exact beq_self_eq_true obj
    · intro h hh hFull hTest
      exact EntryRef.slot.inj (hOne _ _ _
        (hHash.slot_sends hh hFull hTest) hSends)
  rw [hHome i obj hSends] at hSearch
  unfold ipcHashLocalLookup
  rw [hSearch]

section

variable (hInv : SpaceInv ipc pend s) (hHash : HashInv ipc s)
include hInv hHash

/- A node in a bucket passes the test when it is hashed. -/
theorem node_test_iff
    {b : Nat}
    (hMem : name ∈ s.ihgb b) :
    ((s.fields (.node name)).ieObject == obj) = true ↔
      (s.layout ipc).Sends (.node name) obj := by
  rcases (hHash.bucket b name).mp hMem with
    ⟨o, ⟨fields, hIn, hType, hObject⟩, _⟩
  have hFields := @SpaceInv.fields_of_at ipc pend s name
    (.node name) fields hInv ⟨rfl, hIn⟩
  rw [hFields, beq_iff_eq]
  constructor
  · intro h
    exact ⟨fields, hIn, hType, h⟩
  · intro h
    rw [hObject]
    exact hHash.single (.node name) o obj
      ⟨fields, hIn, hType, hObject⟩ h

/- The buckets are searched without success. -/
theorem globalLookup_none
    (hNone : ∀ n, ¬ (s.layout ipc).Sends (.node n) obj) :
    ipcHashGlobalLookup ipc s obj = (none, s) := by
  have hFind : (s.ihgb (ihGlobalHash ipc s obj)).find?
      (fun n => (s.fields (.node n)).ieObject == obj) =
      none := by
    rw [List.find?_eq_none]
    intro n hMem hTest
    exact hNone n ((node_test_iff hInv hHash hMem).mp hTest)
  unfold ipcHashGlobalLookup
  dsimp only
  rw [hFind]

/- The buckets are searched with success. -/
theorem globalLookup_some
    (hOne : (s.layout ipc).OneSend)
    (hSends : (s.layout ipc).Sends (.node name) obj) :
    (ipcHashGlobalLookup ipc s obj).1 =
      some (name, .node name) := by
  have hMem : name ∈ s.ihgb (ihGlobalHash ipc s obj) :=
    (hHash.bucket _ name).mpr ⟨obj, hSends, rfl⟩
  have hFind : (s.ihgb (ihGlobalHash ipc s obj)).find?
      (fun n => (s.fields (.node n)).ieObject == obj) =
      some name := by
    cases hFound : (s.ihgb (ihGlobalHash ipc s obj)).find?
        (fun n => (s.fields (.node n)).ieObject == obj) with
    | none =>
        rw [List.find?_eq_none] at hFound
        exact absurd
          ((node_test_iff hInv hHash hMem).mpr hSends)
          (hFound name hMem)
    | some n =>
        have hIn := List.mem_of_find?_eq_some hFound
        have hTest := List.find?_some hFound
        have hN := (node_test_iff hInv hHash hIn).mp hTest
        rw [EntryRef.node.inj (hOne _ _ _ hN hSends)]
  unfold ipcHashGlobalLookup
  dsimp only
  rw [hFind]

end

/- The count of the buckets tells whether to search them. -/
theorem treeHash_pos
    (hHash : HashInv ipc s)
    (hSends : (s.layout ipc).Sends (.node name) obj) :
    0 < s.isTreeHash := by
  rcases hHash.count with ⟨names, hNames, hCard⟩
  rw [hCard]
  exact Finset.card_pos.mpr
    ⟨name, (hNames name).mpr ⟨obj, hSends⟩⟩

section

variable (hInv : SpaceInv ipc pend s) (hHash : HashInv ipc s)
include hInv hHash

/- `ipc_hash_lookup` without success. -/
theorem lookup_none
    (hNone : ∀ ref, ¬ (s.layout ipc).Sends ref obj) :
    ipcHashLookup ipc s obj = (none, s) := by
  have hLocal := hHash.localLookup_none hInv.layout.size_pos
    (fun i => hNone (.slot i))
  unfold ipcHashLookup
  rw [hLocal]
  split_ifs
  · exact hHash.globalLookup_none hInv
      (fun n => hNone (.node n))
  · rfl

/- `ipc_hash_lookup` with success. -/
theorem lookup_some
    (hOne : (s.layout ipc).OneSend)
    {ref : EntryRef}
    {fields : EntryFields}
    (hAt : (s.layout ipc).At pend name ref fields)
    (hType : ieBitsType fields.ieBits = machPortTypeSend) :
    (ipcHashLookup ipc s fields.ieObject).1 =
      some (name, ref) := by
  have hSends := SpaceInv.sends_of_at hAt hType
  unfold ipcHashLookup
  cases ref with
  | slot i =>
      rcases hAt with ⟨hi, _, hLt, _, hGen, hFields⟩
      have hBound : i < machIndexBound :=
        hLt.trans hInv.layout.size_lt
      have hName : machPortMakeb i (s.isTable i).ieBits =
          name := by
        apply machPort_ext
        · exact (machPortIndex_make hBound _).trans hi
        · exact (machPortGen_make hBound
            (ieBitsGen_gen _)).trans hGen
      rw [hHash.localLookup_some hOne hSends, hName]
  | node n =>
      rcases hAt with ⟨hn, _⟩
      subst hn
      have hLocal : ipcHashLocalLookup s fields.ieObject =
          none := by
        apply hHash.localLookup_none hInv.layout.size_pos
        intro i hSlot
        cases hOne _ _ _ hSlot hSends
      rw [hLocal]
      rw [if_pos (hHash.treeHash_pos hSends)]
      exact hHash.globalLookup_some hInv hOne hSends

/- `ipc_hash_lookup` finds the one send right. -/
theorem lookup_iff
    (hOne : (s.layout ipc).OneSend)
    (ref : EntryRef) :
    (ipcHashLookup ipc s obj).1 = some (name, ref) ↔
      ∃ fields, (s.layout ipc).At pend name ref fields ∧
        ieBitsType fields.ieBits = machPortTypeSend ∧
        fields.ieObject = obj := by
  constructor
  · intro hFound
    by_cases hNone : ∀ r, ¬ (s.layout ipc).Sends r obj
    · rw [hHash.lookup_none hInv hNone] at hFound
      cases hFound
    · push Not at hNone
      rcases hNone with ⟨r, hSends⟩
      rcases hInv.at_of_sends hSends with
        ⟨n, fields, hAt, hType, hObject⟩
      have hSome := hHash.lookup_some hInv hOne hAt hType
      rw [hObject, hFound] at hSome
      cases hSome
      exact ⟨fields, hAt, hType, hObject⟩
  · rintro ⟨fields, hAt, hType, hObject⟩
    rw [← hObject]
    exact hHash.lookup_some hInv hOne hAt hType

/- The name found is the one that denotes a send right. -/
theorem lookup_name_iff
    (hOne : (s.layout ipc).OneSend) :
    (ipcHashLookup ipc s obj).1.map Prod.fst = some name ↔
      ∃ content, (s.layout ipc).Has pend name content ∧
        content.type = machPortTypeSend ∧
        content.object = obj := by
  rw [Option.map_eq_some_iff]
  constructor
  · rintro ⟨⟨n, ref⟩, hFound, hName⟩
    subst hName
    rcases (lookup_iff hInv hHash hOne ref).mp hFound with
      ⟨fields, hAt, hType, hObject⟩
    refine ⟨fields.content,
      Layout.has_iff.mpr ⟨ref, fields, hAt, rfl⟩, ?_,
      hObject⟩
    exact (ieBitsType_right _).trans hType
  · rintro ⟨content, hHas, hType, hObject⟩
    rcases Layout.has_iff.mp hHas with
      ⟨ref, fields, hAt, hContent⟩
    subst hContent
    refine ⟨(name, ref), ?_, rfl⟩
    exact (lookup_iff hInv hHash hOne ref).mpr
      ⟨fields, hAt, (ieBitsType_right _).symm.trans hType,
        hObject⟩

end

end HashInv

end Ipc

end OsfMach
