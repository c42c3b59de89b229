import OsfMach.Ipc.AllocateName
import OsfMach.Ipc.Rename
import OsfMach.Ipc.RenameSpace
import OsfMach.Ipc.RightInv
import OsfMach.Ipc.SpaceAddress

/-
  Rights and what their objects keep of their names.

  A receive right is known to its port by its name, a port
  set to itself, and a dead-name request to its slot. A
  rename changes these together with the entry.

  Main declarations:
    * `RightOk`, `RequestSpace.Ok`
    * `movedContent`, `movedObjects`, `movedTables`
    * `Relabels`
    * `RightOk.relabel`
    * `renameRequest_plain`, `renameRequest_alive`,
      `renameRequest_died`
-/

------
-- Rights and Objects
------

namespace OsfMach

namespace Ipc

open Function
open Lib

/- An entry with this content, whatever its generation. -/
def Content.fields (c : Content) : EntryFields :=
  ⟨c.right, c.object, c.request⟩

namespace RequestSpace

/- The port at an address. -/
def portAt (st : RequestSpace) (addr : Nat) : IpcPort :=
  match st.objects addr with
  | some (.port p) => p
  | _ => zeroPort

/- A slot of a port's table holds a request for a name. -/
def HasRequest
    (st : RequestSpace)
    (port : IpcPort)
    (index name : Nat) : Prop :=
  port.ipDnrequests ≠ iprNull ∧
    ∃ table, st.tables port.ipDnrequests = some table ∧
      index < table.elems ∧
      (table.slots index).iprName = name

end RequestSpace

/- A right, its object, and its request. -/
structure RightOk
    (st : RequestSpace)
    (name : Nat)
    (c : Content) : Prop where
  entry :
    EntryOk st.space.isAddr name (st.portAt c.object).right
      c.fields
  port :
    c.right &&& machPortTypePortRights ≠ 0 →
      st.objects c.object =
        some (.port (st.portAt c.object))
  pset :
    c.type = machPortTypePortSet →
      ∃ pset, st.objects c.object = some (.pset pset) ∧
        pset.ipsActive = true ∧ pset.ipsLocalName = name
  request :
    c.request ≠ 0 →
      c.right &&& machPortTypePortRights ≠ 0 ∧
        ((st.portAt c.object).ipActive = true →
          st.HasRequest (st.portAt c.object) c.request name)

/- The invariant of a space with its objects. -/
structure RequestSpace.Ok
    (ipc : IpcParams)
    (st : RequestSpace) : Prop where
  inv : SpaceInv ipc none st.space
  hash : HashInv ipc st.space
  rights :
    ∀ n c, (st.space.layout ipc).Has none n c → RightOk st n c

------
-- What a Rename Does
------

/- The right has a request for a port that died. -/
def RequestSpace.Died
    (st : RequestSpace)
    (c : Content) : Prop :=
  c.request ≠ 0 ∧ (st.portAt c.object).ipActive = false

instance (st : RequestSpace) (c : Content) :
    Decidable (st.Died c) :=
  inferInstanceAs (Decidable (_ ∧ _))

/-
  A right moves as it is, or as a dead name that has one
  more reference for the request.
-/
def movedContent (st : RequestSpace) (c : Content) : Content :=
  if st.Died c then
    ⟨ieBitsRight (deadBits c.right + 1), ioNull, 0⟩
  else c

def IpcObject.rename (name : Nat) : IpcObject → IpcObject
| .port p => .port { p with ipReceiverName := name }
| .pset s => .pset { s with ipsLocalName := name }

/- The types of rights that their objects know by name. -/
def knownByName (type : EntryBits) : Prop :=
  type = machPortTypeReceive ∨
    type = machPortTypeSendReceive ∨
    type = machPortTypePortSet

instance (type : EntryBits) : Decidable (knownByName type) :=
  inferInstanceAs (Decidable (_ ∨ _ ∨ _))

def movedObjects
    (st : RequestSpace)
    (c : Content)
    (nname : Nat) : Nat → Option IpcObject :=
  if st.Died c then
    (ipcPortRelease st c.object (st.portAt c.object)).objects
  else if knownByName c.type then
    update st.objects c.object
      ((st.objects c.object).map (IpcObject.rename nname))
  else st.objects

/- A request of a live port is for the new name. -/
def RequestTable.rename
    (table : RequestTable)
    (index name : Nat) : RequestTable :=
  table.set index { table.slots index with name := name }

def movedTables
    (st : RequestSpace)
    (c : Content)
    (nname : Nat) : Nat → Option RequestTable :=
  let port := st.portAt c.object
  if c.request ≠ 0 ∧ port.ipActive = true then
    update st.tables port.ipDnrequests
      ((st.tables port.ipDnrequests).map
        fun table => table.rename c.request nname)
  else st.tables

------
-- Relabelling
------

/-
  Objects and tables are as before, but for names that were
  the old one.
-/
structure Relabels
    (oname : Nat)
    (st t : RequestSpace) : Prop where
  ports :
    ∀ a p, st.objects a = some (.port p) →
      ∃ p', t.objects a = some (.port p') ∧
        p'.ipActive = p.ipActive ∧
        p'.ipReceiver = p.ipReceiver ∧
        p'.ipDnrequests = p.ipDnrequests ∧
        (p'.ipReceiverName = p.ipReceiverName ∨
          p.ipReceiverName = oname)
  psets :
    ∀ a s, st.objects a = some (.pset s) →
      ∃ s', t.objects a = some (.pset s') ∧
        s'.ipsActive = s.ipsActive ∧
        (s'.ipsLocalName = s.ipsLocalName ∨
          s.ipsLocalName = oname)
  tables :
    ∀ a table i, st.tables a = some table →
      ∃ table', t.tables a = some table' ∧
        table'.elems = table.elems ∧
        ((table'.slots i).iprName = (table.slots i).iprName ∨
          (table.slots i).iprName = oname)

section Relabelling

variable {st t : RequestSpace} {oname nname name : Nat}
variable {c : Content} {p : IpcPort}

theorem portAt_of
    {addr : Nat}
    (h : st.objects addr = some (.port p)) :
    st.portAt addr = p := by
  unfold RequestSpace.portAt
  rw [h]

theorem portRights_of_type
    {type : EntryBits}
    (h : ieBitsType c.fields.ieBits = type)
    (hType : type &&& machPortTypePortRights ≠ 0) :
    c.right &&& machPortTypePortRights ≠ 0 := by
  have hRight : ieBitsType c.right = type := h
  rw [and_of_type hRight _ (by decide)]
  exact hType

theorem portRights_of_receive
    (h : ieBitsType c.fields.ieBits = machPortTypeReceive ∨
      ieBitsType c.fields.ieBits = machPortTypeSendReceive) :
    c.right &&& machPortTypePortRights ≠ 0 := by
  rcases h with hType | hType
  · exact portRights_of_type hType (by decide)
  · exact portRights_of_type hType (by decide)

section

variable (h : RightOk st name c)
include h

/- The rights of other names stay in order. -/
theorem RightOk.relabel
    (hName : name ≠ oname)
    (hLabels : Relabels oname st t)
    (hAddr : t.space.isAddr = st.space.isAddr) :
    RightOk t name c := by
  have hPort : c.right &&& machPortTypePortRights ≠ 0 →
      t.objects c.object =
          some (.port (t.portAt c.object)) ∧
        (t.portAt c.object).ipActive =
          (st.portAt c.object).ipActive ∧
        (t.portAt c.object).ipReceiver =
          (st.portAt c.object).ipReceiver ∧
        (t.portAt c.object).ipDnrequests =
          (st.portAt c.object).ipDnrequests ∧
        ((t.portAt c.object).ipReceiverName =
            (st.portAt c.object).ipReceiverName ∨
          (st.portAt c.object).ipReceiverName = oname) := by
    intro hRights
    rcases hLabels.ports _ _ (h.port hRights) with
      ⟨p', hp', hRest⟩
    rw [portAt_of hp']
    exact ⟨hp', hRest⟩
  refine ⟨?_, fun hRights => (hPort hRights).1, ?_, ?_⟩
  · rw [hAddr]
    refine h.entry.ofPort fun hType active receiver known => ?_
    rcases hPort (portRights_of_receive hType) with
      ⟨_, hActive, hReceiver, _, hSame | hOld⟩
    · exact ⟨hActive.trans active, hReceiver.trans receiver,
        hSame.trans known⟩
    · exact absurd (known.symm.trans hOld) hName
  · intro hType
    rcases h.pset hType with ⟨s, hs, hActive, hLocal⟩
    rcases hLabels.psets _ _ hs with
      ⟨s', hs', hActive', hSame | hOld⟩
    · exact ⟨s', hs', hActive'.trans hActive,
        hSame.trans hLocal⟩
    · exact absurd (hLocal.symm.trans hOld) hName
  · intro hRequest
    rcases h.request hRequest with ⟨hRights, hHas⟩
    rcases hPort hRights with ⟨_, hActive, _, hTable, _⟩
    refine ⟨hRights, ?_⟩
    intro hLive
    rw [hActive] at hLive
    rcases hHas hLive with
      ⟨hNull, table, hAt, hIndex, hSlot⟩
    rcases hLabels.tables _ _ c.request hAt with
      ⟨table', hAt', hElems, hSame | hOld⟩
    · unfold RequestSpace.HasRequest
      rw [hTable]
      exact ⟨hNull, table', hAt', hElems ▸ hIndex,
        hSame.trans hSlot⟩
    · exact absurd (hSlot.symm.trans hOld) hName

------
-- The Moved Right
------

/- Only a send or send-once right outlives its port. -/
theorem RightOk.mayDie
    (hDied : st.Died c) :
    MayDie c.fields := by
  rcases hDied with ⟨hRequest, hDead⟩
  have hInactive {P : Prop}
      (hActive : (st.portAt c.object).right.ipActive = true) :
      P := by
    have hLive : (st.portAt c.object).ipActive = true :=
      hActive
    rw [hDead] at hLive
    cases hLive
  rcases h.entry with
    ⟨type, urefs, object, room⟩ |
      ⟨type, urefs, object, active, receiver, known⟩ |
      ⟨type, urefs, object, room, active, receiver, known⟩ |
      ⟨type, urefs, object⟩ | ⟨type, urefs, object⟩ |
      ⟨type, urefs, object, request⟩
  · exact .inl ⟨type, urefs, room⟩
  · exact hInactive active
  · exact hInactive active
  · exact .inr ⟨type, urefs⟩
  · have hRights := (h.request hRequest).1
    have hRight : ieBitsType c.right = machPortTypePortSet :=
      type
    rw [and_of_type hRight _ (by decide)] at hRights
    exact absurd hRights (by decide)
  · exact absurd request hRequest

/- A port set and a port are known to themselves by a name. -/
theorem RightOk.port_known
    (hKnown : knownByName c.type)
    (hPort : st.objects c.object = some (.port p)) :
    p.ipReceiverName = name := by
  have hEntry := h.entry
  rw [portAt_of hPort] at hEntry
  have hBear {type : EntryBits}
      (hType : ieBitsType c.fields.ieBits = type)
      (hReceive : type &&& machPortTypeReceive ≠ 0) :
      p.ipReceiverName = name :=
    (hEntry.receiver_facts
      ((bearing_of_type hType _).trans
        (decide_eq_true hReceive))).2.2.2
  rcases hKnown with hType | hType | hType
  · exact hBear hType (by decide)
  · exact hBear hType (by decide)
  · rcases h.pset hType with ⟨s, hs, _⟩
    rw [hPort] at hs
    cases hs

theorem RightOk.pset_known
    {pset : IpcPset}
    (hKnown : knownByName c.type)
    (hPset : st.objects c.object = some (.pset pset)) :
    pset.ipsLocalName = name := by
  have hNotPort {P : Prop} {type : EntryBits}
      (hType : c.type = type)
      (hRights : type &&& machPortTypePortRights ≠ 0) :
      P := by
    have hPort := h.port (portRights_of_type hType hRights)
    rw [hPset] at hPort
    cases hPort
  rcases hKnown with hType | hType | hType
  · exact hNotPort hType (by decide)
  · exact hNotPort hType (by decide)
  · rcases h.pset hType with ⟨s, hs, _, hLocal⟩
    rw [hPset] at hs
    cases hs
    exact hLocal

end

/- A rename changes no label but the old one. -/
theorem RightOk.relabels
    (h : RightOk st oname c)
    (hObjects : t.objects = movedObjects st c nname)
    (hTables : t.tables = movedTables st c nname) :
    Relabels oname st t := by
  refine ⟨?_, ?_, ?_⟩
  · intro a p hp
    rw [hObjects]
    unfold movedObjects
    split_ifs with hDied hKnown
    · unfold ipcPortRelease RequestSpace.setObject
      dsimp only
      by_cases ha : a = c.object
      · subst ha
        rw [update_self, portAt_of hp]
        exact ⟨_, rfl, rfl, rfl, rfl, .inl rfl⟩
      · rw [update_of_ne ha]
        exact ⟨p, hp, rfl, rfl, rfl, .inl rfl⟩
    · by_cases ha : a = c.object
      · subst ha
        rw [update_self, hp]
        exact ⟨_, rfl, rfl, rfl, rfl,
          .inr (h.port_known hKnown hp)⟩
      · rw [update_of_ne ha]
        exact ⟨p, hp, rfl, rfl, rfl, .inl rfl⟩
    · exact ⟨p, hp, rfl, rfl, rfl, .inl rfl⟩
  · intro a s hs
    rw [hObjects]
    unfold movedObjects
    split_ifs with hDied hKnown
    · unfold ipcPortRelease RequestSpace.setObject
      dsimp only
      by_cases ha : a = c.object
      · subst ha
        have hPort := h.port (h.request hDied.1).1
        rw [hs] at hPort
        cases hPort
      · rw [update_of_ne ha]
        exact ⟨s, hs, rfl, .inl rfl⟩
    · by_cases ha : a = c.object
      · subst ha
        rw [update_self, hs]
        exact ⟨_, rfl, rfl, .inr (h.pset_known hKnown hs)⟩
      · rw [update_of_ne ha]
        exact ⟨s, hs, rfl, .inl rfl⟩
    · exact ⟨s, hs, rfl, .inl rfl⟩
  · intro a table i hTable
    rw [hTables]
    unfold movedTables
    split_ifs with hLive
    · rcases (h.request hLive.1).2 hLive.2 with
        ⟨_, table', hAt, _, hSlot⟩
      by_cases ha : a = (st.portAt c.object).ipDnrequests
      · subst ha
        rw [hTable] at hAt
        cases hAt
        rw [update_self, hTable]
        refine ⟨_, rfl, rfl, ?_⟩
        by_cases hi : i = c.request
        · rw [hi]
          exact .inr hSlot
        · refine .inl ?_
          unfold RequestTable.rename RequestTable.set
          dsimp only
          rw [update_of_ne hi]
      · rw [update_of_ne ha]
        exact ⟨table, hTable, rfl, .inl rfl⟩
    · exact ⟨table, hTable, rfl, .inl rfl⟩

/- What a dead name is for a right. -/
theorem movedContent_died
    (h : RightOk st oname c)
    (hDied : st.Died c) :
    (movedContent st c).type = machPortTypeDeadName ∧
      (ieBitsUrefs (movedContent st c).right).toNat =
        (ieBitsUrefs c.right).toNat + 1 ∧
      (movedContent st c).object = ioNull ∧
      (movedContent st c).request = 0 := by
  have hMay := h.mayDie hDied
  unfold movedContent
  rw [if_pos hDied]
  refine ⟨?_, ?_, rfl, rfl⟩
  · have hType := deadBits_succ_type hMay
    exact (ieBitsType_right _).trans hType
  · have hUrefs := ieBitsUrefs_succ hMay.room
    rw [deadBits_urefs] at hUrefs
    have hRight : ∀ bits,
        ieBitsUrefs (ieBitsRight bits) = ieBitsUrefs bits := by
      intro bits
      unfold ieBitsUrefs ieBitsRight
      rw [BitVec.and_assoc]
      congr 1
    exact (congrArg BitVec.toNat (hRight _)).trans hUrefs

/- The right is in order under its new name. -/
theorem RightOk.moved
    (h : RightOk st oname c)
    (hObjects : t.objects = movedObjects st c nname)
    (hTables : t.tables = movedTables st c nname)
    (hAddr : t.space.isAddr = st.space.isAddr) :
    RightOk t nname (movedContent st c) := by
  by_cases hDied : st.Died c
  · rcases movedContent_died h hDied with
      ⟨hType, hUrefs, hObject, hRequest⟩
    have hNone : (movedContent st c).right &&&
        machPortTypePortRights = 0 := by
      rw [and_of_type hType _ (by decide)]
      decide
    refine ⟨.deadName hType ?_ hObject hRequest, ?_, ?_, ?_⟩
    · intro hZero
      have hNat : (ieBitsUrefs
          (movedContent st c).right).toNat = 0 :=
        congrArg BitVec.toNat hZero
      omega
    · intro hRights
      exact absurd hNone hRights
    · intro hSet
      rw [hType] at hSet
      exact absurd hSet (by decide)
    · intro hAsk
      exact absurd hRequest hAsk
  unfold movedContent
  rw [if_neg hDied]
  unfold movedObjects at hObjects
  rw [if_neg hDied] at hObjects
  have hPort : c.right &&& machPortTypePortRights ≠ 0 →
      t.objects c.object =
          some (.port (t.portAt c.object)) ∧
        (t.portAt c.object).ipActive =
          (st.portAt c.object).ipActive ∧
        (t.portAt c.object).ipReceiver =
          (st.portAt c.object).ipReceiver ∧
        (t.portAt c.object).ipDnrequests =
          (st.portAt c.object).ipDnrequests ∧
        (knownByName c.type →
          (t.portAt c.object).ipReceiverName = nname) := by
    intro hRights
    have hOld := h.port hRights
    by_cases hKnown : knownByName c.type
    · rw [if_pos hKnown] at hObjects
      have hNew : t.objects c.object =
          some (.port { st.portAt c.object with
            ipReceiverName := nname }) := by
        rw [hObjects, update_self, hOld]
        rfl
      rw [portAt_of hNew]
      exact ⟨hNew, rfl, rfl, rfl, fun _ => rfl⟩
    · rw [if_neg hKnown] at hObjects
      rw [← hObjects] at hOld
      rw [portAt_of hOld]
      exact ⟨hOld, rfl, rfl, rfl, fun hK => absurd hK hKnown⟩
  refine ⟨?_, fun hRights => (hPort hRights).1, ?_, ?_⟩
  · rw [hAddr]
    refine h.entry.ofPort fun hType active receiver _ => ?_
    rcases hPort (portRights_of_receive hType) with
      ⟨_, hActive, hReceiver, _, hName⟩
    exact ⟨hActive.trans active, hReceiver.trans receiver,
      hName (hType.imp_right .inl)⟩
  · intro hType
    rcases h.pset hType with ⟨s, hs, hActive, _⟩
    rw [if_pos (.inr (.inr hType))] at hObjects
    rw [hObjects, update_self, hs]
    exact ⟨_, rfl, hActive, rfl⟩
  · intro hRequest
    rcases h.request hRequest with ⟨hRights, hHas⟩
    refine ⟨hRights, ?_⟩
    rcases hPort hRights with ⟨_, hActive, _, hTable, _⟩
    intro hLive
    rw [hActive] at hLive
    rcases hHas hLive with ⟨hNull, table, hAt, hIndex, _⟩
    unfold movedTables at hTables
    rw [if_pos ⟨hRequest, hLive⟩] at hTables
    unfold RequestSpace.HasRequest
    rw [hTable, hTables, update_self, hAt]
    refine ⟨hNull, _, rfl, hIndex, ?_⟩
    unfold RequestTable.rename RequestTable.set
      IpcPortRequest.iprName
    dsimp only
    rw [update_self]

end Relabelling

end Ipc

end OsfMach
