import OsfMach.Ipc.GrowMeaning
import OsfMach.Ipc.RenameSteps

/-
  `ipc_object_rename` moves a right to a new name.

  On success the new name denotes the right, with the name
  that its object keeps of it and with its request; on an
  error nothing changes. A right with a request whose port
  died arrives as a dead name.

  Main declarations:
    * `RenamedRight`, `NotRenamed`
    * `Allocated.dealloc`, `Allocated.found_old`
    * `ipcObjectRename_moves_right`
-/

------
-- The New Entry
------

namespace OsfMach

namespace Ipc

open Lib

section Entries

variable {ipc : IpcParams} {s s' : IpcSpace} {name : Nat}
variable {ref : EntryRef}

/- Another shape of the tree. -/
theorem Allocated.reshape
    (h : Allocated ipc s s' name ref)
    {tree : SplayTree EntryFields}
    (hList : tree.toList = s'.isTree.toList)
    (hTree : tree.WellFormed) :
    Allocated ipc s { s' with isTree := tree } name ref := by
  have hLayout := @IpcSpace.layout_reshape ipc _ _ hList
  exact
    { inv := h.inv.reshape hList hTree
      valid := h.valid
      absent := h.absent
      kept := by
        rw [hLayout]
        exact h.kept
      has := by
        rw [hLayout]
        exact h.has
      fast := h.fast
      hash := by
        intro hHash
        unfold HashInv
        rw [hLayout]
        exact HashView.congr (h.hash hHash)
          ⟨rfl, rfl, rfl, rfl, rfl⟩ (fun _ _ => Iff.rfl) }

/- A new entry that is given up leaves nothing. -/
theorem Allocated.dealloc
    (h : Allocated ipc s s' name ref) :
    SpaceInv ipc none (ipcEntryDealloc ipc s' name ref) ∧
      (∀ n c,
        ((ipcEntryDealloc ipc s' name ref).layout ipc).Has
            none n c ↔
          (s.layout ipc).Has none n c) ∧
      (HashInv ipc s →
        HashInv ipc (ipcEntryDealloc ipc s' name ref)) ∧
      (ipcEntryDealloc ipc s' name ref).isFast = s.isFast := by
  rcases h.kept with ⟨fields, hAt⟩
  have hFresh : fields.content = Content.fresh := by
    rw [← h.inv.fields_of_at hAt]
    exact h.content_fresh
  have hDealloc := h.inv.dealloc_spec (.inr rfl) hAt
    (congrArg Content.object hFresh)
  refine ⟨hDealloc.inv, ?_, ?_, hDealloc.fast.trans h.fast⟩
  · intro n c
    rw [hDealloc.has, h.has]
    constructor
    · rintro ⟨hOld | ⟨hn, _⟩, hNe⟩
      · exact hOld
      · exact absurd hn hNe
    · intro hOld
      refine ⟨.inl hOld, ?_⟩
      rintro rfl
      exact h.absent c hOld
  · intro hHash
    apply h.inv.dealloc_hashInv hAt
    apply (h.hash hHash).congr (SameHash.refl _)
    intro r o
    constructor
    · exact fun h => h.1
    · intro hSends
      refine ⟨hSends, ?_⟩
      rintro rfl
      rcases h.inv.at_of_sends hSends with
        ⟨n, e, hAt', hType, _⟩
      rw [← h.inv.fields_of_at hAt',
        h.inv.fields_of_at hAt, ← Content.type_content,
        hFresh] at hType
      exact machPortTypeSend_ne_none hType.symm

/- In a space with a fixed table a new name is within it. -/
theorem Allocated.inBounds
    (h : Allocated ipc s s' name ref) :
    s'.InBounds name := by
  intro hFast
  rcases h.kept with ⟨fields, hAt⟩
  cases ref with
  | slot i =>
      rw [← hAt.1]
      exact hAt.2.2.1
  | node n =>
      have hNil : (s'.layout ipc).entries = [] :=
        h.inv.fast hFast
      have hMem := hAt.2
      rw [hNil] at hMem
      cases hMem

/- A space with a fixed table keeps its size. -/
theorem ipcEntryAllocName_size
    (tableOk : Nat → Bool)
    (iteOk : Bool)
    (hFast : s.isFast = true) :
    (ipcEntryAllocName ipc tableOk iteOk s
      name).2.2.isTableSize = s.isTableSize := by
  unfold ipcEntryAllocName
  rw [allocNameLoop_succ]
  unfold allocNameTurn
  dsimp only
  split
  · rfl
  split
  · rfl
  split
  · unfold allocSlot
    split <;> rfl
  · rfl

/- What a lookup finds beside a new entry. -/
theorem Allocated.found_old
    (h : Allocated ipc s s' name ref)
    {oname : Nat}
    (hNames : oname ≠ name)
    (hBounds : s'.InBounds oname)
    {oentry : EntryRef}
    (hFound : (ipcEntryLookup s' oname).1 = some oentry) :
    oname ≠ shadowedName ∧ oentry ≠ ref ∧
      ∃ fields,
        (s'.layout ipc).At (some ref) oname oentry fields := by
  rcases h.kept with ⟨new, hNew⟩
  have hApart : ∀ r e,
      (s'.layout ipc).At (some ref) oname r e → r ≠ ref := by
    rintro r e hAt rfl
    exact hNames (Layout.at_name_unique hAt hNew)
  have hShadow : oname ≠ shadowedName := by
    rintro rfl
    rw [h.inv.lookup_shadowed] at hFound
    cases hFound
  have hSpec := h.inv.lookup_spec
    (fun r e hAt => h.inv.type_of_at hAt
      (fun hEq => hApart r e hAt (Option.some.inj hEq).symm))
    (fun hEq => absurd hEq hShadow) hBounds oentry
  rcases hSpec.mp hFound with ⟨fields, hAt⟩
  exact ⟨hShadow, hApart _ _ hAt, fields, hAt⟩

end Entries

------
-- Renaming
------

/- A right has moved from the old name to the new one. -/
structure RenamedRight
    (ipc : IpcParams)
    (st t : RequestSpace)
    (oname nname : Nat)
    (c : Content) : Prop where
  names : oname ≠ nname
  was : st.space.found oname = some c
  free : st.space.found nname = none
  now : t.space.found nname = some (movedContent st c)
  gone : t.space.found oname = none
  others :
    ∀ n, n ≠ oname → n ≠ nname → st.space.InBounds n →
      t.space.found n = st.space.found n
  objects : t.objects = movedObjects st c nname
  tables : t.tables = movedTables st c nname
  ok : t.Ok ipc

/- No name, object or request has changed. -/
structure NotRenamed
    (ipc : IpcParams)
    (st t : RequestSpace) : Prop where
  found :
    ∀ n, st.space.InBounds n →
      t.space.found n = st.space.found n
  objects : t.objects = st.objects
  tables : t.tables = st.tables
  ok : st.space.isActive = true → t.Ok ipc

section Renames

variable {ipc : IpcParams} {st : RequestSpace} {s : IpcSpace}
variable {oname nname n : Nat}

/- A lookup in a space where nothing is pending. -/
theorem SpaceInv.found_bounded
    (hInv : SpaceInv ipc none s)
    (hBounds : s.InBounds n)
    (hNe : n ≠ shadowedName)
    (c : Content) :
    s.found n = some c ↔ (s.layout ipc).Has none n c :=
  hInv.found_iff hBounds
    (fun _ _ hAt => hInv.type_of_at hAt (by simp))
    (fun h => absurd h hNe) c

/- Lookups agree where the spaces denote the same. -/
theorem SpaceInv.found_congr
    {t : IpcSpace}
    (hInv : SpaceInv ipc none s)
    (hInv' : SpaceInv ipc none t)
    (hBounds : s.InBounds n)
    (hBounds' : t.InBounds n)
    (hHas : ∀ c, (t.layout ipc).Has none n c ↔
      (s.layout ipc).Has none n c) :
    t.found n = s.found n := by
  by_cases hNe : n = shadowedName
  · rw [hNe, hInv.found_shadowed, hInv'.found_shadowed]
  · apply Option.ext
    intro c
    exact (hInv'.found_bounded hBounds' hNe c).trans
      ((hHas c).trans
        (hInv.found_bounded hBounds hNe c).symm)

/- The same names, and nothing else that has changed. -/
theorem notRenamed_of
    (hOk : st.Ok ipc)
    (hInv : SpaceInv ipc none s)
    (hHash : HashInv ipc s)
    (hHas : ∀ n c, (s.layout ipc).Has none n c ↔
      (st.space.layout ipc).Has none n c)
    (hAddr : s.isAddr = st.space.isAddr)
    (hBounds : ∀ n, st.space.InBounds n → s.InBounds n) :
    NotRenamed ipc st (st.setSpace s) where
  found := by
    intro n hn
    exact hOk.inv.found_congr hInv hn (hBounds n hn)
      (hHas n)
  objects := rfl
  tables := rfl
  ok := fun _ =>
    { inv := hInv
      hash := hHash
      rights := by
        intro n c h
        exact (hOk.rights n c ((hHas n c).mp h)).setSpace
          hAddr }

/- In a space with a fixed table the bounds stay. -/
theorem inBounds_of_size
    (hFast : s.isFast = st.space.isFast)
    (hSize : st.space.isFast = true →
      s.isTableSize = st.space.isTableSize)
    (h : st.space.InBounds n) :
    s.InBounds n := by
  intro hF
  rw [hFast] at hF
  rw [hSize hF]
  exact h hF

theorem isAddr_giveUp
    (s : IpcSpace)
    (tree : SplayTree EntryFields)
    (ref : EntryRef) :
    (ipcEntryDealloc ipc { s with isTree := tree } nname
      ref).isAddr = s.isAddr := by
  rw [isAddr_entryDealloc]

/- A new entry is given up when there is nothing to rename. -/
theorem notRenamed_of_alloc
    {nentry : EntryRef}
    {tree : SplayTree EntryFields}
    (hOk : st.Ok ipc)
    (h : Allocated ipc st.space s nname nentry)
    (hAddr : s.isAddr = st.space.isAddr)
    (hSize : st.space.isFast = true →
      s.isTableSize = st.space.isTableSize)
    (hList : tree.toList = s.isTree.toList)
    (hTree : tree.WellFormed) :
    NotRenamed ipc st
      (st.setSpace (ipcEntryDealloc ipc
        { s with isTree := tree } nname nentry)) := by
  rcases (h.reshape hList hTree).dealloc with
    ⟨hInv, hHas, hHash, hFast⟩
  apply notRenamed_of hOk hInv (hHash hOk.hash) hHas
  · rw [isAddr_giveUp]
    exact hAddr
  · intro n hn
    refine inBounds_of_size hFast ?_ hn
    intro hF
    have hF' : ({ s with isTree := tree } : IpcSpace).isFast =
        true := h.fast.trans hF
    rw [ipcEntryDealloc_size ipc nname nentry hF']
    exact hSize hF

/- A right that has been moved is renamed. -/
theorem renamedRight_of
    {nentry oentry : EntryRef}
    {u : IpcSpace}
    {t : RequestSpace}
    {old : EntryFields}
    (hOk : st.Ok ipc)
    (h : Allocated ipc st.space u nname nentry)
    (hAddr : u.isAddr = st.space.isAddr)
    (hSize : st.space.isFast = true →
      u.isTableSize = st.space.isTableSize)
    (hNew : nname ≠ shadowedName)
    (hOld : oname ≠ shadowedName)
    (hBounds : st.space.InBounds oname)
    (hBounds' : st.space.InBounds nname)
    (hNames : oname ≠ nname)
    (hAt : (u.layout ipc).At (some nentry) oname oentry old)
    (hObjects : t.objects =
      movedObjects st old.content nname)
    (hTables : t.tables = movedTables st old.content nname)
    (hAddr' : t.space.isAddr = u.isAddr)
    (hDropped : Dropped ipc u t.space oname nname nentry
      (movedContent st old.content)) :
    RenamedRight ipc st t oname nname old.content := by
  have hHas : ∀ n c, n ≠ nname →
      ((u.layout ipc).Has (some nentry) n c ↔
        (st.space.layout ipc).Has none n c) := by
    intro n c hn
    rw [h.has]
    simp [hn]
  have hWas : (st.space.layout ipc).Has none oname
      old.content :=
    (hHas oname _ hNames).mp
      (Layout.has_iff.mpr ⟨oentry, old, hAt, rfl⟩)
  have hRight := hOk.rights oname old.content hWas
  have hIn : ∀ n, st.space.InBounds n → t.space.InBounds n := by
    intro n hn
    refine inBounds_of_size (hDropped.fast.trans h.fast) ?_ hn
    intro hF
    exact (hDropped.size (h.fast.trans hF)).trans (hSize hF)
  refine ⟨hNames, ?_, ?_, ?_, ?_, ?_, hObjects, hTables, ?_⟩
  · exact (hOk.inv.found_bounded hBounds hOld _).mpr hWas
  · apply Option.eq_none_iff_forall_not_mem.mpr
    intro c hFound
    exact h.absent c
      ((hOk.inv.found_bounded hBounds' hNew c).mp hFound)
  · apply (hDropped.inv.found_bounded (hIn _ hBounds') hNew
      _).mpr
    rw [hDropped.has, if_pos rfl]
    exact ⟨rfl, hNames.symm⟩
  · apply Option.eq_none_iff_forall_not_mem.mpr
    intro c hFound
    have hHasOld := (hDropped.inv.found_bounded
      (hIn _ hBounds) hOld c).mp hFound
    exact ((hDropped.has _ _).mp hHasOld).2 rfl
  · intro n hno hnn hn
    apply hOk.inv.found_congr hDropped.inv hn (hIn n hn)
    intro c
    rw [hDropped.has, if_neg hnn, hHas n c hnn]
    simp [hno]
  · refine ⟨hDropped.inv, hDropped.hash, ?_⟩
    intro n c hc
    rcases (hDropped.has n c).mp hc with ⟨hc', hno⟩
    have hSame := hAddr'.trans hAddr
    by_cases hnn : n = nname
    · rw [if_pos hnn] at hc'
      subst hnn
      rw [hc']
      exact hRight.moved hObjects hTables hSame
    · rw [if_neg hnn, hHas n c hnn] at hc'
      exact (hOk.rights n c hc').relabel hno
        (hRight.relabels hObjects hTables) hSame

end Renames

/-
  A success moves the right, or the dead name that it became,
  and an error leaves all as it was.
-/
theorem ipcObjectRename_moves_right
    (ipc : IpcParams)
    (tableOk : Nat → Bool)
    (iteOk : Bool)
    (st : RequestSpace)
    (hOk : st.space.isActive = true → st.Ok ipc)
    (oname nname : Nat)
    (hName : MachPortValid nname)
    (hBound : nname < machPortBound)
    (hShadow : nname ≠ shadowedName)
    (hFast : st.space.InBounds oname) :
    ∃ kr t,
      ipcObjectRename ipc st tableOk iteOk oname nname =
          .ok (kr, t) ∧
        if kr = .success then
          ∃ c, RenamedRight ipc st t oname nname c
        else NotRenamed ipc st t := by
  unfold ipcObjectRename
  by_cases hActive : st.space.isActive = true
  swap
  · rw [Bool.not_eq_true] at hActive
    rw [ipcEntryAllocName_inactive _ _ hActive]
    refine ⟨.invalidTask, st.setSpace st.space, rfl, ?_⟩
    refine ⟨fun _ _ => rfl, rfl, rfl, ?_⟩
    intro h
    rw [hActive] at h
    cases h
  have hState := hOk hActive
  have hValid : 0 < nname ∧ nname < machPortDead := by
    rcases hName with ⟨hNull, hDead⟩
    unfold machPortNull at hNull
    unfold machPortDead at hDead ⊢
    unfold machPortBound at hBound
    omega
  have hSpec := @SpaceInv.allocName_spec ipc tableOk iteOk
    st.space nname hState.inv hValid
  have hHasEntry := @ipcEntryAllocName_hasEntry ipc tableOk
    iteOk nname st.space
  have hAddr := isAddr_entryAllocName ipc st.space tableOk
    iteOk nname
  have hSize := fun hF => @ipcEntryAllocName_size ipc st.space
    nname tableOk iteOk hF
  generalize ipcEntryAllocName ipc tableOk iteOk st.space
    nname = out at hSpec hHasEntry hAddr hSize ⊢
  rcases out with ⟨kr, _ | nentry, u⟩
  · have hError : kr ≠ .success := by
      intro hKr
      cases hHasEntry hKr
    have hSame : SameNames ipc st.space u := hSpec
    refine ⟨kr, st.setSpace u, ?_, ?_⟩
    · cases kr with
      | success => exact absurd rfl hError
      | _ => rfl
    · rw [if_neg hError]
      exact notRenamed_of hState hSame.inv
        (hSame.hash hState.hash) hSame.has hAddr
        (fun n hn => inBounds_of_size hSame.fast hSize hn)
  rcases hSpec with ⟨hKr, ⟨hSame, fields, hAt⟩ | hAlloc⟩
  · subst hKr
    refine ⟨.nameExists, st.setSpace u, ?_, ?_⟩
    · dsimp only
      rw [if_pos (hSame.inv.inuse_of_at hAt)]
    · exact notRenamed_of hState hSame.inv
        (hSame.hash hState.hash) hSame.has hAddr
        (fun n hn => inBounds_of_size hSame.fast hSize hn)
  subst hKr
  dsimp only at hAddr hSize ⊢
  rw [if_neg (by
    rw [not_inuse_of_allocated hAlloc]
    exact Bool.false_ne_true)]
  by_cases hNames : oname = nname
  · refine ⟨.invalidName, _, if_pos hNames, ?_⟩
    exact notRenamed_of_alloc hState hAlloc hAddr hSize rfl
      hAlloc.inv.tree
  rw [if_neg hNames]
  rcases hAlloc.inv.lookup_reshape oname with
    ⟨tree, hTree, hList, hWF⟩
  have hBounds : u.InBounds oname :=
    inBounds_of_size hAlloc.fast hSize hFast
  have hOldFound := fun oentry =>
    @Allocated.found_old ipc st.space u nname nentry hAlloc
      oname hNames hBounds oentry
  generalize ipcEntryLookup u oname = found
    at hTree hOldFound ⊢
  rcases found with ⟨_ | oentry, u'⟩
  · subst hTree
    refine ⟨.invalidName, _, rfl, ?_⟩
    exact notRenamed_of_alloc hState hAlloc hAddr hSize hList
      hWF
  · subst hTree
    rcases hOldFound oentry rfl with
      ⟨hShadowed, hApart, old, hAt⟩
    have hAlloc' := hAlloc.reshape hList hWF
    have hLayout := @IpcSpace.layout_reshape ipc _ _ hList
    have hWas : (st.space.layout ipc).Has none oname
        old.content := by
      have hHas := (hAlloc.has oname old.content).mp
        (Layout.has_iff.mpr ⟨oentry, old, hAt, rfl⟩)
      rcases hHas with h | ⟨h, _⟩
      · exact h
      · exact absurd h hNames
    rcases hAlloc'.kept with ⟨new, hNew⟩
    have hTwo : TwoEntries ipc
        (st.setSpace { u with isTree := tree }).space oname
        oentry nname nentry old :=
      { inv := hAlloc'.inv
        names := hNames
        apart := hApart
        old := by
          change (({ u with isTree := tree } :
            IpcSpace).layout ipc).At _ _ _ _
          rw [hLayout]
          exact hAt
        new := by
          refine ⟨new, hNew, ?_⟩
          rw [← hAlloc'.inv.fields_of_at hNew]
          exact hAlloc'.content_fresh }
    rcases ipcRightRename_moves hTwo (hAlloc'.hash hState.hash)
      ((hState.rights oname _ hWas).setSpace hAddr) with
      ⟨t, hRun, hObjects, hTables, hAddr', hDropped⟩
    refine ⟨.success, t, hRun, ?_⟩
    refine ⟨old.content, renamedRight_of hState hAlloc' hAddr
      hSize hShadow hShadowed hFast ?_ hNames (hTwo.old)
      hObjects hTables hAddr' hDropped⟩
    intro hF
    rw [← hSize hF]
    exact hAlloc.inBounds (hAlloc.fast.trans hF)

------
-- A Right with a Request
------

/- A send right in the tree that has a request. -/
def requestFields : EntryFields :=
  ⟨machPortTypeSend ||| 1#32, 64, 1⟩

def requestedSpace : IpcSpace :=
  hashedSpace.store (.node 0x505) requestFields

/- The port of the right, alive or dead. -/
def requestState (ipActive : Bool) : RequestSpace where
  space := requestedSpace
  objects := fun a =>
    if a = 64 then
      some (.port { newPort 1 2 with
        ipActive := ipActive
        ipDnrequests := 128 })
    else none
  nextObject := 65
  tables := fun a =>
    if a = 128 then
      some ⟨2, fun i => if i = 1 then ⟨7, 0x505⟩ else ⟨0, 0⟩⟩
    else none

theorem hashedSpace_at :
    (hashedSpace.layout smallParams).At none 0x505
      (.node 0x505) ⟨machPortTypeSend ||| 1#32, 64, 0⟩ := by
  refine ⟨rfl, ?_⟩
  exact List.mem_singleton_self _

theorem requestedSpace_assigned :
    Assigned smallParams none hashedSpace requestedSpace 0x505
      (.node 0x505) requestFields.content := by
  have hAssign := hashedSpace_spaceInv.assign_spec (.inl rfl)
    hashedSpace_at
    (show requestFields.content.Typed by decide)
  exact hAssign

theorem requestState_ok
    (ipActive : Bool) :
    (requestState ipActive).Ok smallParams where
  inv := requestedSpace_assigned.inv
  hash := by
    apply hashedSpace_hashInv.congr
      (SameHash.store hashedSpace (.node 0x505) requestFields)
    intro r o
    change ((hashedSpace.store (.node 0x505)
      requestFields).layout smallParams).Sends r o ↔ _
    rw [hashedSpace_spaceInv.sends_store_iff hashedSpace_at,
      hashedSpace_sends_iff]
    by_cases hr : r = .node 0x505
    · simp only [hr, true_and]
      constructor
      · rintro ⟨_, h⟩
        exact h.symm
      · intro h
        exact ⟨by decide, h.symm⟩
    · rw [if_neg hr]
  rights := by
    intro n c hHas
    have hOld := (requestedSpace_assigned.has n c).mp hHas
    by_cases hn : n = 0x505
    · subst hn hOld
      refine ⟨.send (by decide) (by decide) (by decide)
        (by decide), fun _ => rfl, ?_, ?_⟩
      · intro hType
        exact absurd hType (by decide)
      · intro _
        refine ⟨by decide, fun _ => ?_⟩
        exact ⟨(by decide : (128 : Nat) ≠ iprNull), _, rfl,
          by decide, rfl⟩
    · rw [if_neg hn] at hOld
      rcases hOld with ⟨_, _, hUsed, _⟩ | ⟨f, hMem, _⟩
      · have hType := Layout.type_of_used hUsed
        have hInit : ieBitsType
            (initTable 4 (machPortIndex n)).ieBits ≠ 0 := hType
        exact absurd (type_initTable _ _) hInit
      · have hEntries : hashedSpace.isTree.toList =
            [(0x505, ⟨machPortTypeSend ||| 1#32, 64, 0⟩)] := by
          decide
        have hIn : (n, f) ∈ hashedSpace.isTree.toList := hMem
        rw [hEntries, List.mem_singleton] at hIn
        cases hIn
        exact absurd rfl hn

/- The port lives, and the right moves with its request. -/
theorem ipcObjectRename_moves_request :
    ∃ t,
      ipcObjectRename smallParams (requestState true)
          (fun _ => true) true 0x505 0x101 =
          .ok (.success, t) ∧
        ∃ c, RenamedRight smallParams (requestState true) t
          0x505 0x101 c := by
  rcases ipcObjectRename_moves_right smallParams
    (fun _ => true) true (requestState true)
    (fun _ => requestState_ok true) 0x505 0x101 (by decide)
    (by decide) (by decide) (fun h => by cases h) with
    ⟨kr, t, hRun, hResult⟩
  have hKr : (ipcObjectRename smallParams (requestState true)
      (fun _ => true) true 0x505 0x101).map Prod.fst =
        .ok .success := rfl
  rw [hRun] at hKr
  cases hKr
  exact ⟨t, hRun, hResult⟩

/- The port has died, and a dead name moves instead. -/
theorem ipcObjectRename_dead_request :
    (requestState false).Ok smallParams ∧
      (requestState false).space.found 0x505 =
        some ⟨machPortTypeSend ||| 1#32, 64, 1⟩ ∧
      (ipcObjectRename smallParams (requestState false)
          (fun _ => true) true 0x505 0x101).map
          (fun out => (out.1, out.2.space.found 0x101)) =
        .ok (.success,
          some ⟨machPortTypeDeadName ||| 2#32, 0, 0⟩) :=
  ⟨requestState_ok false, rfl, rfl⟩

end Ipc

end OsfMach
