import OsfMach.Ipc.EntryRuns
import OsfMach.Ipc.DeallocHash

/-
  What a growth of the table leaves as it was.

  Names denote what they did, and objects are found under
  the names they were. An entry that moves from the tree into
  the table gets the generation of its name.

  Main declarations:
    * `IpcSpace.entry`, `SameEntry`
    * `SpaceInv.entry_eq_some_iff`
    * `HashInv.treeHash_eq`
    * `growTable_preserves_meaning`
-/

------
-- Entries of Names
------

namespace OsfMach

namespace Ipc

open Lib

variable {ipc : IpcParams} {s s' : IpcSpace}

/- The entry that a lookup of a name gives. -/
def IpcSpace.entry
    (s : IpcSpace)
    (name : Nat) : Option EntryFields :=
  let found := ipcEntryLookup s name
  found.1.map (fun ref => found.2.fields ref)

/-
  Two entries agree apart from the collision bit, and from
  the generation bits that tree entries leave clear.
-/
structure SameEntry
    (name : Nat)
    (fields fields' : EntryFields) : Prop where
  right :
    ieBitsRight fields'.ieBits = ieBitsRight fields.ieBits
  gen :
    ieBitsGen fields'.ieBits = ieBitsGen fields.ieBits ∨
      (ieBitsGen fields.ieBits = 0 ∧
        ieBitsGen fields'.ieBits = machPortGen name)
  object : fields'.ieObject = fields.ieObject
  request : fields'.ieRequest = fields.ieRequest

namespace SpaceInv

variable {ipc : IpcParams} {s : IpcSpace} {name : Nat}
variable {fields : EntryFields}

/- A lookup reads the entry that is kept for the name. -/
theorem entry_eq_some_iff
    (hInv : SpaceInv ipc none s)
    (hBounds : s.InBounds name)
    (hShadow : name ≠ shadowedName) :
    s.entry name = some fields ↔
      ∃ ref, (s.layout ipc).At none name ref fields := by
  have hSpec := @lookup_spec ipc none s name hInv
    (fun ref fields hAt => hInv.type_of_at hAt (by simp))
    (fun h => absurd h hShadow) hBounds
  rcases hInv.lookup_reshape name with
    ⟨tree, hState, hList, hWF⟩
  have hSame := SameNames.reshape hInv hList hWF
  have hRead : ∀ ref f,
      (s.layout ipc).At none name ref f →
        (ipcEntryLookup s name).2.fields ref = f := by
    intro ref f hAt
    rw [hState]
    apply hSame.inv.fields_of_at
    rw [IpcSpace.layout_reshape hList]
    exact hAt
  unfold IpcSpace.entry
  rw [Option.map_eq_some_iff]
  constructor
  · rintro ⟨ref, hFound, hFields⟩
    rcases (hSpec ref).mp hFound with ⟨f, hAt⟩
    rw [hRead ref f hAt] at hFields
    rw [hFields] at hAt
    exact ⟨ref, hAt⟩
  · rintro ⟨ref, hAt⟩
    exact ⟨ref, (hSpec ref).mpr ⟨fields, hAt⟩,
      hRead ref fields hAt⟩

/- The generation bits of an entry. -/
theorem gen_of_at
    (hInv : SpaceInv ipc none s)
    {ref : EntryRef}
    (hAt : (s.layout ipc).At none name ref fields) :
    (ieBitsGen fields.ieBits = machPortGen name ∧
        (s.layout ipc).InTable none name fields.content) ∨
      ieBitsGen fields.ieBits = 0 := by
  cases ref with
  | slot i =>
      rcases hAt with ⟨hi, hPos, hLt, hUsed, hGen, hFields⟩
      subst hi
      subst hFields
      exact Or.inl ⟨hGen, hPos, hLt, hUsed, hGen, rfl⟩
  | node n =>
      right
      rw [← hInv.layout.bits _ hAt.2, ieBitsGen_right]

end SpaceInv

/- Where names are kept after a change that keeps them. -/
theorem SameNames.entry_rel
    {name : Nat}
    (hInv : SpaceInv ipc none s)
    (hSame : SameNames ipc s s')
    (hBounds : s.InBounds name)
    (hBounds' : s'.InBounds name) :
    Option.Rel (SameEntry name) (s.entry name)
      (s'.entry name) := by
  by_cases hShadow : name = shadowedName
  · have hNone : s.entry name = none := by
      unfold IpcSpace.entry
      dsimp only
      rw [hShadow, hInv.lookup_shadowed]
      rfl
    have hNone' : s'.entry name = none := by
      unfold IpcSpace.entry
      dsimp only
      rw [hShadow, hSame.inv.lookup_shadowed]
      rfl
    rw [hNone, hNone']
    exact Option.Rel.none
  have hIff := fun f => @SpaceInv.entry_eq_some_iff ipc s
    name f hInv hBounds hShadow
  have hIff' := fun f => @SpaceInv.entry_eq_some_iff ipc s'
    name f hSame.inv hBounds' hShadow
  cases hOld : s.entry name with
  | none =>
      cases hNew : s'.entry name with
      | none => exact Option.Rel.none
      | some f' =>
          rcases (hIff' f').mp hNew with ⟨ref', hAt'⟩
          have hHas := (hSame.has name f'.content).mp
            (Layout.has_iff.mpr ⟨ref', f', hAt', rfl⟩)
          rcases Layout.has_iff.mp hHas with
            ⟨ref, f, hAt, _⟩
          have hSome := (hIff f).mpr ⟨ref, hAt⟩
          rw [hOld] at hSome
          cases hSome
  | some f =>
      rcases (hIff f).mp hOld with ⟨ref, hAt⟩
      have hHas := (hSame.has name f.content).mpr
        (Layout.has_iff.mpr ⟨ref, f, hAt, rfl⟩)
      rcases Layout.has_iff.mp hHas with
        ⟨ref', f', hAt', hContent⟩
      rw [(hIff' f').mpr ⟨ref', hAt'⟩]
      rw [Content.mk.injEq] at hContent
      refine Option.Rel.some
        ⟨hContent.1, ?_, hContent.2.1, hContent.2.2⟩
      rcases hInv.gen_of_at hAt with ⟨hGen, hTable⟩ | hGen
      · -- a name in the table stays there
        rcases hSame.table name _ hTable with
          ⟨hPos, hLt, hUsed, hGen', _⟩
        have hSlot : (s'.layout ipc).At none name
            (.slot (machPortIndex name)) _ :=
          ⟨rfl, hPos, hLt, hUsed, hGen', rfl⟩
        have hRef := hSame.inv.at_unique hAt' hSlot
        subst hRef
        rcases hAt' with ⟨_, _, _, _, _, hFields⟩
        left
        rw [← hFields, hGen]
        exact hGen'
      · rcases hSame.inv.gen_of_at hAt' with
          ⟨hGen', _⟩ | hGen'
        · exact Or.inr ⟨hGen, hGen'⟩
        · left
          rw [hGen, hGen']

------
-- Send Rights
------

/- The count of the buckets counts the sends of the tree. -/
theorem HashInv.treeHash_eq
    (hHash : HashInv ipc s)
    (hTree : s.isTree.WellFormed) :
    s.isTreeHash =
      (s.isTree.toList.filter (fun e =>
        ieBitsType e.2.ieBits = machPortTypeSend)).length := by
  rcases hHash.count with ⟨names, hNames, hCard⟩
  have hSorted := hTree.sorted
  have hNodup : ((s.isTree.toList.filter (fun e =>
      ieBitsType e.2.ieBits = machPortTypeSend)).map
        Prod.fst).Nodup := by
    have hKeys := hSorted.sublist
      (@List.filter_sublist _ (fun e =>
        ieBitsType e.2.ieBits = machPortTypeSend) _)
    exact List.Pairwise.map Prod.fst
      (fun a b hLt => Nat.ne_of_lt hLt) hKeys
  have hEq : names = ((s.isTree.toList.filter (fun e =>
      ieBitsType e.2.ieBits = machPortTypeSend)).map
        Prod.fst).toFinset := by
    ext n
    rw [hNames, List.mem_toFinset, List.mem_map]
    constructor
    · rintro ⟨obj, f, hMem, hType, _⟩
      exact ⟨(n, f), List.mem_filter.mpr
        ⟨hMem, by simpa using hType⟩, rfl⟩
    · rintro ⟨⟨m, f⟩, hMem, hName⟩
      rw [List.mem_filter] at hMem
      cases hName
      exact ⟨f.ieObject, f, hMem.1, by simpa using hMem.2,
        rfl⟩
  rw [hCard, hEq, List.toFinset_card_of_nodup hNodup,
    List.length_map]

/- Send rights of the same names have the same names. -/
theorem SameNames.oneSend
    (hSame : SameNames ipc s s')
    (hOne : (s.layout ipc).OneSend) :
    (s'.layout ipc).OneSend := by
  have hBack : ∀ ref obj, (s'.layout ipc).Sends ref obj →
      ∃ name fields r f,
        (s'.layout ipc).At none name ref fields ∧
          (s.layout ipc).At none name r f ∧
          (s.layout ipc).Sends r obj := by
    intro ref obj hSends
    rcases hSame.inv.at_of_sends hSends with
      ⟨name, fields, hAt, hType, hObject⟩
    have hHas := (hSame.has name fields.content).mp
      (Layout.has_iff.mpr ⟨ref, fields, hAt, rfl⟩)
    rcases Layout.has_iff.mp hHas with
      ⟨r, f, hAt', hContent⟩
    unfold EntryFields.content at hContent
    rw [Content.mk.injEq] at hContent
    have hType' : ieBitsType f.ieBits =
        machPortTypeSend := by
      rw [← ieBitsType_right, hContent.1, ieBitsType_right]
      exact hType
    have hSends' := SpaceInv.sends_of_at hAt' hType'
    rw [hContent.2.1, hObject] at hSends'
    exact ⟨name, fields, r, f, hAt, hAt', hSends'⟩
  intro ref ref' obj hSends hSends'
  rcases hBack ref obj hSends with
    ⟨n, f, r, g, hAt, hOld, hR⟩
  rcases hBack ref' obj hSends' with
    ⟨n', f', r', g', hAt', hOld', hR'⟩
  have hr := hOne r r' obj hR hR'
  subst hr
  have hn := Layout.at_name_unique hOld hOld'
  subst hn
  exact hSame.inv.at_unique hAt hAt'

/- An object is found under the name it was. -/
theorem SameNames.hashLookup_eq
    (hInv : SpaceInv ipc none s)
    (hHash : HashInv ipc s)
    (hOne : (s.layout ipc).OneSend)
    (hSame : SameNames ipc s s')
    (obj : Nat) :
    (ipcHashLookup ipc s' obj).1.map Prod.fst =
      (ipcHashLookup ipc s obj).1.map Prod.fst := by
  apply Option.ext
  intro n
  rw [HashInv.lookup_name_iff hInv hHash hOne,
    HashInv.lookup_name_iff hSame.inv (hSame.hash hHash)
      (hSame.oneSend hOne)]
  simp only [hSame.has]

------
-- Growth
------

/- A table that is further in the array is no smaller. -/
theorem TableSizes.size_mono
    (sizes : TableSizes)
    {i j : Nat}
    (hLe : i ≤ j)
    (hLast : j ≤ sizes.last) :
    sizes.itsSize (i - 1) ≤ sizes.itsSize (j - 1) := by
  by_cases hEq : i - 1 = j - 1
  · rw [hEq]
  · exact (sizes.lt_of_lt (by omega) (by omega)).le

/- The table is no smaller after a growth. -/
theorem SpaceInv.growTable_size_le
    (tableOk : Nat → Bool)
    (hInv : SpaceInv ipc none s)
    (target : Option Nat) :
    s.isTableSize ≤
      (ipcEntryGrowTable ipc tableOk s
        target).2.isTableSize := by
  have hGrow := hInv.growTable_spec tableOk target
  rw [hInv.size_eq, hGrow.inv.size_eq]
  apply ipc.sizes.size_mono
  · exact hInv.growLoop_next_le target _
  · exact hGrow.inv.next_le

/-
  A growth keeps the representation of the space and of its
  hash tables, the entry of every name, and the name of every
  object.
-/
theorem growTable_preserves_meaning
    (ipc : IpcParams)
    (tableOk : Nat → Bool)
    (s : IpcSpace)
    (target : Option Nat)
    (hInv : SpaceInv ipc none s)
    (hHash : HashInv ipc s)
    (hOne : (s.layout ipc).OneSend) :
    let s' := (ipcEntryGrowTable ipc tableOk s target).2
    SpaceReps ipc none s' ∧ SpaceInv ipc none s' ∧
      HashInv ipc s' ∧ (s'.layout ipc).OneSend ∧
      s'.isTreeHash =
        (s'.isTree.toList.filter (fun e =>
          ieBitsType e.2.ieBits =
            machPortTypeSend)).length ∧
      (∀ name, s.InBounds name →
        Option.Rel (SameEntry name) (s.entry name)
          (s'.entry name)) ∧
      ∀ obj, (ipcHashLookup ipc s' obj).1.map Prod.fst =
        (ipcHashLookup ipc s obj).1.map Prod.fst := by
  intro s'
  have hSame : SameNames ipc s s' :=
    hInv.growTable_spec tableOk target
  have hHash' := hSame.hash hHash
  have hSize : s.isTableSize ≤ s'.isTableSize :=
    hInv.growTable_size_le tableOk target
  refine ⟨hSame.inv.spaceReps, hSame.inv, hHash',
    hSame.oneSend hOne, hHash'.treeHash_eq hSame.inv.tree,
    ?_, hSame.hashLookup_eq hInv hHash hOne⟩
  intro name hBounds
  apply hSame.entry_rel hInv hBounds
  intro hFast
  rw [hSame.fast] at hFast
  exact (hBounds hFast).trans_le hSize

/- A send right with one user reference. -/
def sendContent : Content :=
  ⟨machPortTypeSend ||| 1#32, 64, 0⟩

/- A space with a tree entry that is yet to be hashed. -/
def sendSpace : IpcSpace :=
  (runOps smallParams smallSpace (fun _ => none)
    [.allocName (fun _ => true) true 0x505,
      .assign sendContent]).1.space

/- A space with a send right in the tree. -/
def hashedSpace : IpcSpace :=
  ipcHashInsert smallParams sendSpace 64 0x505 (.node 0x505)

theorem hashedSpace_spaceInv :
    SpaceInv smallParams none hashedSpace := by
  have hLegal : LegalRun smallParams (fun _ => True)
      smallSpace
      [.allocName (fun _ => true) true 0x505,
        .assign sendContent] :=
    ⟨⟨rfl, by decide, by decide⟩, trivial, ⟨rfl, by decide⟩,
      trivial, trivial⟩
  have hRun := (EntryReachable.runOps _
    (@EntryReachable.create smallParams (fun _ => True) 0 0
      false) hLegal).runInv (by decide)
  have hInv : SpaceInv smallParams none sendSpace := hRun.inv
  exact hInv.congr rfl hInv.tree rfl rfl rfl rfl rfl rfl

/- The send rights of the space. -/
theorem hashedSpace_sends_iff
    (ref : EntryRef)
    (obj : Nat) :
    (hashedSpace.layout smallParams).Sends ref obj ↔
      ref = .node 0x505 ∧ obj = 64 := by
  have hEntries : hashedSpace.isTree.toList =
      [(0x505, ⟨machPortTypeSend ||| 1#32, 64, 0⟩)] := by
    decide
  cases ref with
  | slot i =>
      constructor
      · rintro ⟨_, hType, _⟩
        have hInit : ieBitsType (initTable 4 i).ieBits =
            machPortTypeSend := hType
        rw [type_initTable] at hInit
        exact absurd hInit (by decide)
      · rintro ⟨h, _⟩
        cases h
  | node n =>
      unfold Layout.Sends IpcSpace.layout
      rw [hEntries]
      constructor
      · rintro ⟨f, hMem, _, hObject⟩
        rw [List.mem_singleton] at hMem
        cases hMem
        exact ⟨rfl, hObject.symm⟩
      · rintro ⟨hRef, hObj⟩
        cases hRef
        subst hObj
        exact ⟨_, List.mem_singleton_self _, by decide, rfl⟩

theorem hashedSpace_hashInv :
    HashInv smallParams hashedSpace := by
  have hEmpty : HashView smallParams sendSpace
      (fun _ _ => False) := by
    apply HashView.empty
    · decide
    · intro i
      have hTable : sendSpace.isTable = initTable 4 := rfl
      unfold IpcSpace.hashSlots initTable at *
      rw [hTable]
      dsimp only
      split_ifs <;> rfl
    · intro b
      rfl
    · rfl
  have hInsert := @HashView.globalInsert smallParams
    sendSpace _ 0x505 hEmpty (fun _ h => h) 64
  apply HashView.congr hInsert
  · exact SameHash.refl _
  · intro ref obj
    rw [hashedSpace_sends_iff]
    unfold viewInsert
    rw [false_or]

theorem hashedSpace_oneSend :
    (hashedSpace.layout smallParams).OneSend := by
  intro ref ref' obj h h'
  rw [hashedSpace_sends_iff] at h h'
  rw [h.1, h'.1]

/- The send right moves from the tree into the table. -/
theorem growTable_preserves_meaning_moved :
    Option.Rel (SameEntry 0x505) (hashedSpace.entry 0x505)
        ((ipcEntryGrowTable smallParams (fun _ => true)
          hashedSpace none).2.entry 0x505) ∧
      (hashedSpace.entry 0x505).isSome = true ∧
      (ipcHashLookup smallParams hashedSpace 64).1 =
        some (0x505, .node 0x505) ∧
      (ipcHashLookup smallParams
        (ipcEntryGrowTable smallParams (fun _ => true)
          hashedSpace none).2 64).1 =
        some (0x505, .slot 5) := by
  have hGrow := growTable_preserves_meaning smallParams
    (fun _ => true) hashedSpace none hashedSpace_spaceInv
    hashedSpace_hashInv hashedSpace_oneSend
  refine ⟨hGrow.2.2.2.2.2.1 0x505 ?_, by decide, by decide,
    by decide⟩
  intro hFast
  cases hFast

/- The moved entry gains the generation of its name. -/
theorem growTable_changes_generation :
    SpaceInv smallParams none hashedSpace ∧
      HashInv smallParams hashedSpace ∧
      (hashedSpace.layout smallParams).OneSend ∧
      (ipcEntryGrowTable smallParams (fun _ => true)
        hashedSpace none).1 = .success ∧
      (hashedSpace.entry 0x505).map (fun f =>
          f.ieBits &&& ~~~ieBitsCollision) =
        some 0x00010001#32 ∧
      ((ipcEntryGrowTable smallParams (fun _ => true)
          hashedSpace none).2.entry 0x505).map (fun f =>
            f.ieBits &&& ~~~ieBitsCollision) =
        some 0x05010001#32 :=
  ⟨hashedSpace_spaceInv, hashedSpace_hashInv,
    hashedSpace_oneSend, by decide, by decide, by decide⟩

end Ipc

end OsfMach
