import OsfMach.Ipc.RenameRight

/-
  The steps of a rename.

  A right without a request moves as it is. One with a request
  is readied first: its request is renamed when the port is
  alive, and it becomes a dead name when the port is not.

  Key theorems include:
    * `renameBack_alive`
    * `renameRequest_alive`, `renameRequest_died`
    * `ipcRightRename_moves`
-/

------
-- Entries and Contents
------

namespace OsfMach

namespace Ipc

open Function
open Lib

variable {s : IpcSpace} {addr : Nat}
variable {space name : Nat} {port : RightPort} {p : IpcPort}

theorem ieBitsUrefs_right
    (bits : EntryBits) :
    ieBitsUrefs (ieBitsRight bits) = ieBitsUrefs bits := by
  unfold ieBitsUrefs ieBitsRight
  rw [BitVec.and_assoc]
  congr 1

section Steps

variable {ipc : IpcParams} {st st' : RequestSpace}
variable {oname nname : Nat} {oentry nentry : EntryRef}
variable {old m : EntryFields} {c : Content}

/- An entry is what its content says. -/
theorem EntryOk.of_content
    (h : EntryOk space name port m.content.fields) :
    EntryOk space name port m := by
  have hType : ieBitsType m.content.fields.ieBits =
      ieBitsType m.ieBits := ieBitsType_right _
  have hUrefs : ieBitsUrefs m.content.fields.ieBits =
      ieBitsUrefs m.ieBits := ieBitsUrefs_right _
  rcases h with
    ⟨type, urefs, object, room⟩ |
      ⟨type, urefs, object, active, receiver, known⟩ |
      ⟨type, urefs, object, room, active, receiver, known⟩ |
      ⟨type, urefs, object⟩ | ⟨type, urefs, object⟩ |
      ⟨type, urefs, object, request⟩ <;>
    rw [hType] at type <;> rw [hUrefs] at urefs
  · rw [hUrefs] at room
    exact .send type urefs object room
  · exact .receive type urefs object active receiver known
  · rw [hUrefs] at room
    exact .sendReceive type urefs object room active receiver
      known
  · exact .sendOnce type urefs object
  · exact .portSet type urefs object
  · exact .deadName type urefs object request

theorem MayDie.of_content
    (h : MayDie m.content.fields) :
    MayDie m := by
  have hType : ieBitsType m.content.fields.ieBits =
      ieBitsType m.ieBits := ieBitsType_right _
  have hUrefs : ieBitsUrefs m.content.fields.ieBits =
      ieBitsUrefs m.ieBits := ieBitsUrefs_right _
  unfold MayDie at h ⊢
  rw [hType, hUrefs] at h
  exact h

/- The space is another one at the same address. -/
theorem RightOk.setSpace
    (h : RightOk st name c)
    (hAddr : s.isAddr = st.space.isAddr) :
    RightOk (st.setSpace s) name c :=
  { entry := by
      have hEntry := h.entry
      rw [← hAddr] at hEntry
      exact hEntry
    port := h.port
    pset := h.pset
    request := h.request }

------
-- Objects
------

theorem readPort_of
    (h : st.objects addr = some (.port p)) :
    st.readPort addr = .ok p := by
  unfold RequestSpace.readPort
  rw [h]

theorem readPset_of
    {s : IpcPset}
    (h : st.objects addr = some (.pset s)) :
    st.readPset addr = .ok s := by
  unfold RequestSpace.readPset
  rw [h]

theorem renamePort_of
    (h : st.objects addr = some (.port p))
    (hNull : addr ≠ ioNull)
    (hActive : p.ipActive = true)
    (hName : p.ipReceiverName = oname)
    (hSpace : p.ipReceiver = st.space.isAddr) :
    renamePort st addr oname nname =
      .ok (st.setObject addr
        (.port { p with ipReceiverName := nname })) := by
  unfold renamePort
  rw [ipcAssert_of hNull, readPort_of h]
  simp only [bind, Except.bind]
  rw [ipcAssert_of hActive, ipcAssert_of hName,
    ipcAssert_of hSpace]

theorem renamePset_of
    {s : IpcPset}
    (h : st.objects addr = some (.pset s))
    (hNull : addr ≠ ioNull)
    (hActive : s.ipsActive = true)
    (hName : s.ipsLocalName = oname) :
    renamePset st addr oname nname =
      .ok (st.setObject addr
        (.pset { s with ipsLocalName := nname })) := by
  unfold renamePset
  rw [ipcAssert_of hNull, readPset_of h]
  simp only [bind, Except.bind]
  rw [ipcAssert_of hActive, ipcAssert_of hName]

/- The space after a right has been hashed anew. -/
def rehash
    (ipc : IpcParams)
    (s : IpcSpace)
    (m : EntryFields)
    (oname : Nat)
    (oentry : EntryRef)
    (nname : Nat)
    (nentry : EntryRef) : IpcSpace :=
  if ieBitsType m.ieBits = machPortTypeSend then
    ipcHashInsert ipc
      (ipcHashDelete ipc s m.ieObject oname oentry)
      m.ieObject nname nentry
  else s

/- A port learns the new name of its receive right. -/
theorem renameBack_receive
    (hPort : st.objects m.ieObject =
      some (.port (st.portAt m.ieObject)))
    (hObjects : st'.objects = st.objects)
    (hType : ieBitsType m.ieBits = machPortTypeReceive ∨
      ieBitsType m.ieBits = machPortTypeSendReceive)
    (hNull : m.ieObject ≠ ioNull)
    (hActive : (st.portAt m.ieObject).ipActive = true)
    (hName : (st.portAt m.ieObject).ipReceiverName = oname)
    (hSpace : (st.portAt m.ieObject).ipReceiver =
      st'.space.isAddr) :
    ∃ st2,
      renameBack ipc st' m oname oentry nname nentry =
          .ok st2 ∧
        st2.objects =
          update st.objects m.ieObject
            ((st.objects m.ieObject).map
              (IpcObject.rename nname)) ∧
        st2.tables = st'.tables ∧ st2.space = st'.space := by
  have hSend : ieBitsType m.ieBits ≠ machPortTypeSend := by
    intro h
    rw [h] at hType
    exact absurd hType (by decide)
  unfold renameBack
  rw [if_neg hSend, if_pos hType]
  rw [← hObjects] at hPort
  rw [renamePort_of hPort hNull hActive hName hSpace]
  refine ⟨_, rfl, ?_, rfl, rfl⟩
  rw [← hObjects, hPort]
  rfl

/- The object of a right learns its new name. -/
theorem renameBack_alive
    (hOk : RightOk st oname m.content)
    (hAlive : ¬ st.Died m.content)
    (hObjects : st'.objects = st.objects)
    (hAddr : st'.space.isAddr = st.space.isAddr) :
    ∃ st2,
      renameBack ipc st' m oname oentry nname nentry =
          .ok st2 ∧
        st2.objects = movedObjects st m.content nname ∧
        st2.tables = st'.tables ∧
        st2.space =
          rehash ipc st'.space m oname oentry nname nentry := by
  have hType : m.content.type = ieBitsType m.ieBits :=
    Content.type_content m
  unfold rehash movedObjects
  rw [if_neg hAlive, hType]
  rcases hOk.entry.of_content with
    ⟨type, urefs, object, room⟩ |
      ⟨type, urefs, object, active, receiver, known⟩ |
      ⟨type, urefs, object, room, active, receiver, known⟩ |
      ⟨type, urefs, object⟩ | ⟨type, urefs, object⟩ |
      ⟨type, urefs, object, request⟩
  · rw [type, if_neg (by decide), if_pos rfl]
    unfold renameBack
    rw [if_pos type, ipcAssert_of (object_ne_null object).1]
    exact ⟨_, rfl, hObjects, rfl, rfl⟩
  · rw [type, if_pos (by decide), if_neg (by decide)]
    exact renameBack_receive
      (hOk.port (portRights_of_type (hType.trans type)
        (by decide)))
      hObjects (.inl type) (object_ne_null object).1 active
      known (receiver.trans hAddr.symm)
  · rw [type, if_pos (by decide), if_neg (by decide)]
    exact renameBack_receive
      (hOk.port (portRights_of_type (hType.trans type)
        (by decide)))
      hObjects (.inr type) (object_ne_null object).1 active
      known (receiver.trans hAddr.symm)
  · unfold renameBack
    rw [type, if_neg (by decide), if_neg (by decide),
      if_neg (by decide), if_pos (by decide)]
    exact ⟨st', rfl, hObjects, rfl, rfl⟩
  · rcases hOk.pset (hType.trans type) with
      ⟨s, hs, hActive, hLocal⟩
    have hSet : st.objects m.ieObject = some (.pset s) := hs
    unfold renameBack
    rw [type, if_neg (by decide), if_neg (by decide),
      if_pos rfl]
    rw [← hObjects] at hSet
    rw [renamePset_of hSet (object_ne_null object).1 hActive
      hLocal]
    refine ⟨_, rfl, ?_, rfl, rfl⟩
    change update st'.objects m.ieObject _ =
      update st.objects m.ieObject
        ((st.objects m.ieObject).map _)
    rw [← hObjects, hSet]
    rfl
  · unfold renameBack
    rw [type, if_neg (by decide), if_neg (by decide),
      if_neg (by decide), if_pos (by decide)]
    exact ⟨st', rfl, hObjects, rfl, rfl⟩

------
-- Requests
------

theorem renameRequest_plain
    (hFields : st.space.fields oentry = old)
    (hRequest : old.ieRequest = 0) :
    renameRequest ipc st oname oentry nname =
      .ok (old, st) := by
  unfold renameRequest
  rw [hFields, if_pos hRequest]

theorem ipcPortDnrename_of
    {p : IpcPort}
    {i : Nat}
    (hActive : p.ipActive = true)
    (h : st.HasRequest p i oname) :
    ∃ table, st.tables p.ipDnrequests = some table ∧
      ipcPortDnrename st p i oname nname =
        .ok (st.setTable p.ipDnrequests
          (table.rename i nname)) := by
  rcases h with ⟨hNull, table, hTable, hIndex, hSlot⟩
  refine ⟨table, hTable, ?_⟩
  have hRead : st.readSlot p.ipDnrequests i =
      .ok (table, table.slots i) := by
    unfold RequestSpace.readSlot
    rw [hTable]
    dsimp only
    rw [if_pos hIndex]
  unfold ipcPortDnrename
  rw [ipcAssert_of hActive, ipcAssert_of hNull, hRead]
  simp only [bind, Except.bind]
  rw [ipcAssert_of hSlot]
  rfl

/- What a right with a request is. -/
theorem RightOk.requested
    (h : RightOk st oname m.content)
    (hRequest : m.ieRequest ≠ 0) :
    m.ieBits &&& machPortTypePortRights ≠ 0 ∧
      m.ieObject ≠ ioNull ∧
      st.objects m.ieObject =
        some (.port (st.portAt m.ieObject)) := by
  have hAsk : m.content.request ≠ 0 := hRequest
  have hRights := (h.request hAsk).1
  have hBits : m.ieBits &&& machPortTypePortRights =
      m.content.right &&& machPortTypePortRights := by
    have hRight : ieBitsType m.content.right =
        ieBitsType m.ieBits := ieBitsType_right _
    rw [and_type (show machPortTypePortRights &&&
        ieBitsTypeMask = machPortTypePortRights by decide),
      ← hRight, ← and_type (by decide)]
  refine ⟨hBits ▸ hRights, ?_, h.port hRights⟩
  rcases h.entry.of_content with
    ⟨type, urefs, object, room⟩ |
      ⟨type, urefs, object, active, receiver, known⟩ |
      ⟨type, urefs, object, room, active, receiver, known⟩ |
      ⟨type, urefs, object⟩ | ⟨type, urefs, object⟩ |
      ⟨type, urefs, object, request⟩
  · exact (object_ne_null object).1
  · exact (object_ne_null object).1
  · exact (object_ne_null object).1
  · exact (object_ne_null object).1
  · exact (object_ne_null object).1
  · exact absurd request hRequest

/- The port is alive, and its slot gets the new name. -/
theorem renameRequest_alive
    (hOk : RightOk st oname m.content)
    (hFields : st.space.fields oentry = m)
    (hRequest : m.ieRequest ≠ 0)
    (hActive : (st.portAt m.ieObject).ipActive = true) :
    ∃ st1,
      renameRequest ipc st oname oentry nname =
          .ok (m, st1) ∧
        st1.objects = st.objects ∧
        st1.tables = movedTables st m.content nname ∧
        st1.space =
          st.space.store oentry { m with ieRequest := 0 } := by
  rcases hOk.requested hRequest with ⟨hRights, hNull, hPort⟩
  have hAsk : m.content.request ≠ 0 := hRequest
  rcases @ipcPortDnrename_of st oname nname _ _ hActive
    ((hOk.request hAsk).2 hActive) with
    ⟨table, hTable, hRename⟩
  have hCheck : checkEntry ipc st (st.portAt m.ieObject) oname
      oentry = .ok (false, st) := by
    unfold checkEntry
    rw [ipcRightCheck_active hActive]
    rfl
  refine ⟨(st.setTable (st.portAt m.ieObject).ipDnrequests
    (table.rename m.ieRequest nname)).setSpace
      (st.space.store oentry { m with ieRequest := 0 }),
    ?_, rfl, ?_, rfl⟩
  · unfold renameRequest
    rw [hFields, if_neg hRequest, ipcAssert_of hRights,
      ipcAssert_of hNull, readPort_of hPort]
    simp only [bind, Except.bind]
    rw [hCheck]
    dsimp only
    have hRun : ipcPortDnrename st (st.portAt m.ieObject)
        m.ieRequest oname nname = _ := hRename
    rw [hRun]
    rfl
  · unfold movedTables
    rw [if_pos ⟨hAsk, hActive⟩]
    have hMap : st.tables
        (st.portAt m.content.object).ipDnrequests =
          some table := hTable
    rw [hMap]
    rfl

/- The port has died, and the right is a dead name. -/
theorem renameRequest_died
    {pend : Option EntryRef}
    (hInv : SpaceInv ipc pend st.space)
    (hAt : (st.space.layout ipc).At pend oname oentry m)
    (hOk : RightOk st oname m.content)
    (hDied : st.Died m.content) :
    ∃ s st1,
      renameRequest ipc st oname oentry nname =
          .ok (⟨deadBits m.ieBits + 1, ioNull, 0⟩, st1) ∧
        st1.objects = movedObjects st m.content nname ∧
        st1.tables = st.tables ∧
        s = (if ieBitsType m.ieBits = machPortTypeSend then
            ipcHashDelete ipc st.space m.ieObject oname oentry
          else st.space) ∧
        st1.space = s.store oentry
          ⟨deadBits m.ieBits + 1, ioNull, 0⟩ := by
  have hFields := hInv.fields_of_at hAt
  have hRequest : m.ieRequest ≠ 0 := hDied.1
  have hDead : (st.portAt m.ieObject).right.ipActive =
      false := hDied.2
  rcases hOk.requested hRequest with ⟨hRights, hNull, hPort⟩
  have hMay : MayDie m := (hOk.mayDie hDied).of_content
  have hCheck := hMay.check hDead
  rw [if_neg hRequest] at hCheck
  generalize hs : (if ieBitsType m.ieBits = machPortTypeSend
    then ipcHashDelete ipc st.space m.ieObject oname oentry
    else st.space) = s
  have hApply : (if ieBitsType m.ieBits = machPortTypeSend
      then HashUpdate.delete else .keep).apply ipc st.space
        m.ieObject oname oentry = s := by
    rw [← hs]
    split <;> rfl
  have hSame : SameEntries st.space s := by
    rw [← hs]
    split
    · exact SameEntries.hashDelete ipc _ _ _ _
    · exact SameEntries.refl _
  have hAt' := hAt
  rw [← hSame.layout_eq ipc] at hAt'
  have hRead := (hSame.spaceInv hInv).fields_store_self hAt'
    ⟨deadBits m.ieBits + 1, ioNull, 0⟩
  refine ⟨s, (ipcPortRelease st m.ieObject
    (st.portAt m.ieObject)).setSpace
      (s.store oentry ⟨deadBits m.ieBits + 1, ioNull, 0⟩),
    ?_, ?_, rfl, rfl, rfl⟩
  · have hEntry : checkEntry ipc st (st.portAt m.ieObject)
        oname oentry =
        .ok (true, (ipcPortRelease st m.ieObject
          (st.portAt m.ieObject)).setSpace
            (s.store oentry
              ⟨deadBits m.ieBits + 1, ioNull, 0⟩)) := by
      unfold checkEntry
      rw [hFields, hCheck]
      simp only [bind, Except.bind, if_true]
      rw [hApply]
    unfold renameRequest
    rw [hFields, if_neg hRequest, ipcAssert_of hRights,
      ipcAssert_of hNull, readPort_of hPort]
    simp only [bind, Except.bind]
    rw [hEntry]
    dsimp only
    rw [if_pos rfl]
    have hNow : ((ipcPortRelease st m.ieObject
        (st.portAt m.ieObject)).setSpace
          (s.store oentry
            ⟨deadBits m.ieBits + 1, ioNull, 0⟩)).space.fields
        oentry = ⟨deadBits m.ieBits + 1, ioNull, 0⟩ := hRead
    rw [hNow]
    rw [ipcAssert_of (deadBits_succ_type hMay),
      ipcAssert_of rfl, ipcAssert_of rfl]
  · unfold movedObjects
    rw [if_pos hDied]
    rfl

------
-- The New Entry
------

theorem newBits_right
    {a b : EntryBits}
    (h : ieBitsRight a = 0) :
    ieBitsRight (a ||| ieBitsRight b) = ieBitsRight b := by
  rw [ieBitsRight_or, h, ieBitsRight_right]
  exact BitVec.zero_or

theorem newBits_rest
    (a b : EntryBits) :
    (a ||| ieBitsRight b) &&& ~~~ieBitsRightMask =
      a &&& ~~~ieBitsRightMask := by
  unfold ieBitsRight
  have hNone : ieBitsRightMask &&& ~~~ieBitsRightMask = 0 := by
    decide
  rw [BitVec.and_or_distrib_right, BitVec.and_assoc, hNone]
  simp

theorem ieBitsRight_toNat
    (bits : EntryBits) :
    (ieBitsRight bits).toNat = bits.toNat % 8388608 := by
  exact Nat.and_two_pow_sub_one_eq_mod _ 23

/- The generation has no part in what a dead name is. -/
theorem ieBitsRight_dead_succ
    (bits : EntryBits) :
    ieBitsRight (deadBits (ieBitsRight bits) + 1) =
      ieBitsRight (deadBits bits + 1) := by
  have hDead : ieBitsRight (deadBits (ieBitsRight bits)) =
      ieBitsRight (deadBits bits) := by
    unfold deadBits ieBitsRight
    rw [BitVec.and_or_distrib_right,
      BitVec.and_or_distrib_right]
    congr 1
    rw [BitVec.and_assoc, BitVec.and_assoc, BitVec.and_assoc]
    congr 1
  have hNat := congrArg BitVec.toNat hDead
  rw [ieBitsRight_toNat, ieBitsRight_toNat] at hNat
  apply BitVec.eq_of_toNat_eq
  rw [ieBitsRight_toNat, ieBitsRight_toNat, BitVec.toNat_add,
    BitVec.toNat_add]
  omega

theorem Content.typed_of_type
    (h : ieBitsType m.ieBits ≠ 0) :
    m.content.Typed := by
  refine ⟨ieBitsRight_right _, ?_⟩
  rw [Content.type_content]
  exact h

/- Every right has a type. -/
theorem EntryOk.type_ne_none
    (h : EntryOk space name port m) :
    ieBitsType m.ieBits ≠ 0 := by
  rcases h with
    ⟨type, _⟩ | ⟨type, _⟩ | ⟨type, _⟩ | ⟨type, _⟩ |
      ⟨type, _⟩ | ⟨type, _⟩ <;>
    rw [type] <;> decide

/- The fields that the new entry gets. -/
def newFields
    (s : IpcSpace)
    (m : EntryFields)
    (nentry : EntryRef) : EntryFields :=
  ⟨(s.fields nentry).ieBits ||| ieBitsRight m.ieBits,
    m.ieObject, m.ieRequest⟩

section TwoEntries

variable (h : TwoEntries ipc s oname oentry nname nentry old)

include h

theorem TwoEntries.fresh :
    ieBitsRight (s.fields nentry).ieBits = 0 := by
  rcases h.new with ⟨fields, hAt, hFresh⟩
  rw [h.inv.fields_of_at hAt]
  exact congrArg Content.right hFresh

theorem TwoEntries.newFields_content :
    (newFields s m nentry).content = m.content := by
  unfold newFields EntryFields.content
  rw [newBits_right h.fresh]

/- The right is in the new entry. -/
theorem TwoEntries.readied_new
    (hTyped : m.content.Typed) :
    Readied ipc s (s.store nentry (newFields s m nentry))
      oname oentry nname nentry old.content m.content := by
  have hContent := h.newFields_content (m := m)
  have hReadied := h.readied (f := newFields s m nentry)
    (newBits_rest _ _) (hContent ▸ hTyped)
  rw [hContent] at hReadied
  exact hReadied

/- The new entry reads the same after a store to the old one. -/
theorem TwoEntries.newFields_store
    (f : EntryFields) :
    (s.store oentry f).fields nentry = s.fields nentry := by
  rcases h.new with ⟨fields, hAt, _⟩
  rw [h.inv.fields_store_other hAt h.apart.symm,
    h.inv.fields_of_at hAt]

/- Both stores, the one to the old entry first. -/
theorem TwoEntries.readied_both
    (hTyped : m.content.Typed)
    {f : EntryFields}
    (hBits : f.ieBits &&& ~~~ieBitsRightMask =
      old.ieBits &&& ~~~ieBitsRightMask)
    (hOld : f.content.Typed) :
    Readied ipc s
      ((s.store oentry f).store nentry
        (newFields (s.store oentry f) m nentry))
      oname oentry nname nentry f.content m.content := by
  have hSame : newFields (s.store oentry f) m nentry =
      newFields s m nentry := by
    unfold newFields
    rw [h.newFields_store]
  rw [hSame, s.store_comm h.apart]
  apply (h.readied_new hTyped).store_old h.names h.apart _ hOld
  rw [h.inv.fields_store_other h.old h.apart]
  exact hBits

end TwoEntries

/- A right that lives is hashed where it moves to. -/
theorem Readied.view_alive
    {s w : IpcSpace}
    {x : Content}
    (hReadied : Readied ipc s w oname oentry nname nentry x
      m.content)
    (h : TwoEntries ipc s oname oentry nname nentry m)
    (hHash : HashInv ipc s)
    (hSame : SameHash s w) :
    SameEntries w
        (rehash ipc w m oname oentry nname nentry) ∧
      HashView ipc (rehash ipc w m oname oentry nname nentry)
        (movedView ipc s oentry nentry m.content) := by
  unfold rehash
  by_cases hSend : ieBitsType m.ieBits = machPortTypeSend
  · rw [if_pos hSend]
    refine ⟨(SameEntries.hashDelete ipc w _ _ _).trans
      (SameEntries.hashInsert ipc _ _ _ _), ?_⟩
    exact hReadied.view_rehashed h hHash hSame hSend
      ((Content.type_content m).trans hSend) rfl
  · rw [if_neg hSend]
    refine ⟨SameEntries.refl w, ?_⟩
    have hNew : m.content.type ≠ machPortTypeSend := by
      rw [Content.type_content]
      exact hSend
    exact (h.view_plain hHash hSend hNew).congr hSame
      (fun _ _ => Iff.rfl)

/- The rest of a rename, once the entries are ready. -/
theorem rename_finish
    {st1 st2 : RequestSpace}
    {x y : Content}
    (hActive : st.space.isActive = true)
    (hNames : oname ≠ nname)
    (hApart : oentry ≠ nentry)
    (hRequest : renameRequest ipc st oname oentry nname =
      .ok (m, st1))
    (hFresh : ieBitsRight (st1.space.fields nentry).ieBits = 0)
    (hReadied : Readied ipc s (moveEntry st1 m nentry).space
      oname oentry nname nentry x y)
    (hTyped : x.Typed)
    (hX : x.request = 0)
    (hBack : renameBack ipc (moveEntry st1 m nentry) m oname
      oentry nname nentry = .ok st2)
    (hSame : SameEntries (moveEntry st1 m nentry).space
      st2.space)
    (hView : HashView ipc st2.space
      (movedView ipc s oentry nentry y)) :
    ∃ t,
      ipcRightRename ipc st oname oentry nname nentry =
          .ok (.success, t) ∧
        t.objects = st2.objects ∧ t.tables = st2.tables ∧
        t.space.isAddr = st2.space.isAddr ∧
        Dropped ipc s t.space oname nname nentry y := by
  rcases hReadied.drop hNames hApart hTyped hX hSame hView
    with ⟨hNone, hDropped⟩
  have hDrop : dropEntry ipc st2 oname oentry =
      .ok (st2.setSpace (ipcEntryDealloc ipc
        (st2.space.store oentry
          { st2.space.fields oentry with ieObject := ioNull })
        oname oentry)) := by
    unfold dropEntry
    rw [ipcAssert_of hNone]
    rfl
  refine ⟨st2.setSpace (ipcEntryDealloc ipc
    (st2.space.store oentry
      { st2.space.fields oentry with ieObject := ioNull })
    oname oentry), ?_, rfl, rfl, ?_, hDropped⟩
  · unfold ipcRightRename
    rw [ipcAssert_of hActive, ipcAssert_of hNames, hRequest]
    simp only [bind, Except.bind]
    rw [ipcAssert_of hFresh]
    rw [hBack]
    dsimp only
    rw [hDrop]
  · change (ipcEntryDealloc ipc _ oname oentry).isAddr = _
    rw [isAddr_entryDealloc, isAddr_store]

------
-- Moving a Right
------

/- What is to be shown of a rename. -/
def Moves
    (ipc : IpcParams)
    (st : RequestSpace)
    (oname : Nat)
    (oentry : EntryRef)
    (nname : Nat)
    (nentry : EntryRef)
    (c : Content) : Prop :=
  ∃ t,
    ipcRightRename ipc st oname oentry nname nentry =
        .ok (.success, t) ∧
      t.objects = movedObjects st c nname ∧
      t.tables = movedTables st c nname ∧
      t.space.isAddr = st.space.isAddr ∧
      Dropped ipc st.space t.space oname nname nentry
        (movedContent st c)

variable
  (hTwo : TwoEntries ipc st.space oname oentry nname nentry old)
  (hHash : HashInv ipc st.space)
  (hOk : RightOk st oname old.content)

include hTwo hHash hOk

/- Without a request the right moves as it is. -/
theorem moves_plain
    (hRequest : old.ieRequest = 0) :
    Moves ipc st oname oentry nname nentry old.content := by
  have hAlive : ¬ st.Died old.content :=
    fun h => h.1 hRequest
  have hTyped : old.content.Typed :=
    Content.typed_of_type hOk.entry.of_content.type_ne_none
  have hReadied := hTwo.readied_new hTyped
  have hAddr : (moveEntry st old nentry).space.isAddr =
      st.space.isAddr := isAddr_store _ _ _
  rcases @renameBack_alive ipc st (moveEntry st old nentry)
    oname nname oentry nentry old hOk hAlive rfl hAddr with
    ⟨st2, hBack, hObjects, hTables, hSpace⟩
  rcases hReadied.view_alive hTwo hHash
    (SameHash.store _ _ _) with ⟨hSame, hView⟩
  have hSpace' : st2.space = rehash ipc
      (st.space.store nentry (newFields st.space old nentry))
      old oname oentry nname nentry := hSpace
  rcases rename_finish hTwo.inv.active hTwo.names hTwo.apart
    (renameRequest_plain (hTwo.inv.fields_of_at hTwo.old)
      hRequest) hTwo.fresh hReadied hTyped hRequest hBack
    (by rw [hSpace']; exact hSame)
    (by rw [hSpace']; exact hView) with
    ⟨t, hRun, hObjects', hTables', hAddr', hDropped⟩
  refine ⟨t, hRun, hObjects'.trans hObjects, ?_, ?_, ?_⟩
  · rw [hTables', hTables]
    unfold movedTables
    rw [if_neg (fun h => h.1 hRequest)]
    rfl
  · rw [hAddr', hSpace']
    unfold rehash
    split <;> simp
  · unfold movedContent
    rw [if_neg hAlive]
    exact hDropped

/- With a request for a live port both are renamed. -/
theorem moves_alive
    (hRequest : old.ieRequest ≠ 0)
    (hActive : (st.portAt old.ieObject).ipActive = true) :
    Moves ipc st oname oentry nname nentry old.content := by
  have hAlive : ¬ st.Died old.content := by
    rintro ⟨_, hDead⟩
    have hSame : (st.portAt old.ieObject).ipActive = false :=
      hDead
    rw [hActive] at hSame
    cases hSame
  have hTyped : old.content.Typed :=
    Content.typed_of_type hOk.entry.of_content.type_ne_none
  rcases @renameRequest_alive ipc st oname nname oentry old hOk
    (hTwo.inv.fields_of_at hTwo.old) hRequest hActive with
    ⟨st1, hRun1, hObjects1, hTables1, hSpace1⟩
  have hReadied := hTwo.readied_both (m := old) hTyped
    (f := { old with ieRequest := 0 }) rfl hTyped
  have hMoved : (moveEntry st1 old nentry).space =
      (st.space.store oentry
        { old with ieRequest := 0 }).store nentry
        (newFields (st.space.store oentry
          { old with ieRequest := 0 }) old nentry) := by
    unfold moveEntry newFields RequestSpace.setSpace
    rw [hSpace1]
  have hAddr : (moveEntry st1 old nentry).space.isAddr =
      st.space.isAddr := by
    rw [hMoved]
    simp
  rcases @renameBack_alive ipc st (moveEntry st1 old nentry)
    oname nname oentry nentry old hOk hAlive hObjects1 hAddr
    with ⟨st2, hBack, hObjects, hTables, hSpace⟩
  rw [hMoved] at hSpace
  rcases hReadied.view_alive hTwo hHash
    ((SameHash.store _ _ _).trans (SameHash.store _ _ _)) with
    ⟨hSame, hView⟩
  have hFresh : ieBitsRight (st1.space.fields nentry).ieBits =
      0 := by
    rw [hSpace1, hTwo.newFields_store]
    exact hTwo.fresh
  rw [← hMoved] at hReadied
  rcases rename_finish hTwo.inv.active hTwo.names hTwo.apart
    hRun1 hFresh hReadied hTyped rfl hBack
    (by rw [hSpace, hMoved]; exact hSame)
    (by rw [hSpace]; exact hView) with
    ⟨t, hRun, hObjects', hTables', hAddr', hDropped⟩
  refine ⟨t, hRun, hObjects'.trans hObjects, ?_, ?_, ?_⟩
  · rw [hTables', hTables]
    exact hTables1
  · rw [hAddr', hSpace]
    unfold rehash
    split <;> simp
  · unfold movedContent
    rw [if_neg hAlive]
    exact hDropped

/- A dead name has no object that knows it. -/
omit hTwo hHash hOk in
theorem renameBack_dead
    (hType : ieBitsType m.ieBits = machPortTypeDeadName) :
    renameBack ipc st' m oname oentry nname nentry =
      .ok st' := by
  unfold renameBack
  dsimp only
  rw [hType, if_neg (by decide), if_neg (by decide),
    if_neg (by decide), if_pos (by decide)]

/- With a request for a dead port a dead name moves. -/
theorem moves_died
    (hDied : st.Died old.content) :
    Moves ipc st oname oentry nname nentry old.content := by
  have hMay : MayDie old := (hOk.mayDie hDied).of_content
  have hType := deadBits_succ_type hMay
  rcases @renameRequest_died ipc st oname nname oentry old _
    hTwo.inv hTwo.old hOk hDied with
    ⟨s, st1, hRun1, hObjects1, hTables1, hs, hSpace1⟩
  generalize hd : (⟨deadBits old.ieBits + 1, ioNull, 0⟩ :
    EntryFields) = d at hRun1 hSpace1
  have hDeadType : ieBitsType d.ieBits =
      machPortTypeDeadName := by
    rw [← hd]
    exact hType
  have hContent : movedContent st old.content = d.content := by
    unfold movedContent
    rw [if_pos hDied, ← hd]
    unfold EntryFields.content
    rw [ieBitsRight_dead_succ]
  have hTyped : d.content.Typed := by
    apply Content.typed_of_type
    rw [hDeadType]
    decide
  have hNotSend : d.content.type ≠ machPortTypeSend := by
    rw [Content.type_content, hDeadType]
    decide
  have hEntries : SameEntries st.space s := by
    rw [hs]
    split
    · exact SameEntries.hashDelete ipc _ _ _ _
    · exact SameEntries.refl _
  have hView : HashView ipc s
      (movedView ipc st.space oentry nentry d.content) := by
    rw [hs]
    by_cases hSend : ieBitsType old.ieBits = machPortTypeSend
    · rw [if_pos hSend]
      exact hTwo.view_deleted hHash hSend hNotSend
    · rw [if_neg hSend]
      exact hTwo.view_plain hHash hSend hNotSend
  have hAddr : s.isAddr = st.space.isAddr := by
    rw [hs]
    split <;> simp
  have hTwo' := hTwo.congr hEntries
  have hLayout := hEntries.layout_eq ipc
  have hBits : d.ieBits &&& ~~~ieBitsRightMask =
      old.ieBits &&& ~~~ieBitsRightMask := by
    rw [← hd]
    rw [and_eq_of_shift (m := ~~~ieBitsRightMask) (by decide)
      (succ_shift hMay.room)]
    unfold deadBits
    rw [BitVec.and_or_distrib_right, and_clear (by decide)]
    have hNone : machPortTypeDeadName &&& ~~~ieBitsRightMask =
        0 := by decide
    rw [hNone]
    simp
  have hReadied := hTwo'.readied_both (m := d) hTyped hBits
    hTyped
  have hMoved : (moveEntry st1 d nentry).space =
      (s.store oentry d).store nentry
        (newFields (s.store oentry d) d nentry) := by
    unfold moveEntry newFields RequestSpace.setSpace
    rw [hSpace1]
  have hFresh : ieBitsRight (st1.space.fields nentry).ieBits =
      0 := by
    rw [hSpace1, hTwo'.newFields_store]
    exact hTwo'.fresh
  have hStored := hView.congr
    ((SameHash.store s oentry d).trans
      (SameHash.store _ nentry
        (newFields (s.store oentry d) d nentry)))
    (fun _ _ => Iff.rfl)
  have hSameView : movedView ipc st.space oentry nentry
      d.content = movedView ipc s oentry nentry d.content := by
    unfold movedView
    rw [hLayout]
  rw [hSameView] at hStored
  rw [← hMoved] at hReadied hStored
  have hNone : d.content.request = 0 := by
    rw [← hd]
    rfl
  rcases rename_finish hTwo.inv.active hTwo.names hTwo.apart
    hRun1 hFresh hReadied hTyped hNone
    (renameBack_dead hDeadType) (SameEntries.refl _) hStored
    with ⟨t, hRun, hObjects', hTables', hAddr', hDropped⟩
  refine ⟨t, hRun, hObjects'.trans hObjects1, ?_, ?_, ?_⟩
  · refine (hTables'.trans hTables1).trans ?_
    unfold movedTables
    rw [if_neg]
    rintro ⟨_, hLive⟩
    rw [hDied.2] at hLive
    cases hLive
  · rw [hAddr', hMoved]
    simp [hAddr]
  · rw [hContent]
    exact
      { inv := hDropped.inv
        hash := hDropped.hash
        has := by
          rw [← hLayout]
          exact hDropped.has
        fast := hDropped.fast.trans hEntries.frame.fast
        size := fun hFast =>
          (hDropped.size
            (hEntries.frame.fast.trans hFast)).trans
              hEntries.frame.size }

/- `ipc_right_rename` moves the right. -/
theorem ipcRightRename_moves :
    Moves ipc st oname oentry nname nentry old.content := by
  by_cases hRequest : old.ieRequest = 0
  · exact moves_plain hTwo hHash hOk hRequest
  · by_cases hActive :
      (st.portAt old.ieObject).ipActive = true
    · exact moves_alive hTwo hHash hOk hRequest hActive
    · rw [Bool.not_eq_true] at hActive
      exact moves_died hTwo hHash hOk ⟨hRequest, hActive⟩

end Steps

end Ipc

end OsfMach
