import OsfMach.Ipc.Allocate
import OsfMach.Ipc.DnRequests

/-
  Renaming a right, from `ipc/ipc_object.c`.

  The new entry is allocated before the old one is looked up.
  The right then moves to it, with the name that its object
  keeps of it, and the old entry is deallocated.

  Key definitions include:
    * `RequestSpace`
    * `ipcPortDnrename`, `ipcRightRename`
    * `ipcObjectRename`
-/

------
-- Spaces with Requests
------

namespace OsfMach

namespace Ipc

open Lib

/-
  A space and its objects, with the tables of dead-name
  requests that are in memory.
-/
structure RequestSpace extends ObjectSpace where
  tables : Nat → Option RequestTable

/-
  A port as the operations on rights see it; `ipc_right_check`
  looks at none of the fields that are zero here.
-/
def IpcPort.right (p : IpcPort) : RightPort where
  ipActive := p.ipActive
  ipReceiver := p.ipReceiver
  ipReceiverName := p.ipReceiverName
  ipKotype := 0
  ipPdrequest := p.ipPdrequest ≠ 0
  ipSrights := p.ipSrights
  ipSorights := p.ipSorights
  ipMscount := p.ipMscount
  ipTimestamp := 0

namespace RequestSpace

section

variable (st : RequestSpace)

def setSpace
    (space : IpcSpace) : RequestSpace :=
  { st with space := space }

def setObject
    (addr : Nat)
    (object : IpcObject) : RequestSpace :=
  { st with
    objects :=
      Function.update st.objects addr (some object) }

def setTable
    (addr : Nat)
    (table : RequestTable) : RequestSpace :=
  { st with
    tables := Function.update st.tables addr (some table) }

def readPort
    (addr : Nat) : Except Trap IpcPort :=
  match st.objects addr with
  | some (.port p) => .ok p
  | _ => .error .wild

def readPset
    (addr : Nat) : Except Trap IpcPset :=
  match st.objects addr with
  | some (.pset s) => .ok s
  | _ => .error .wild

def readSlot
    (addr index : Nat) :
    Except Trap (RequestTable × IpcPortRequest) :=
  match st.tables addr with
  | some table =>
      if index < table.elems then .ok (table, table.slots index)
      else .error .wild
  | none => .error .wild

end

end RequestSpace

------
-- Requests
------

section Renaming

variable (ipc : IpcParams) (st : RequestSpace)

/- `ipc_port_dnrename`. -/
def ipcPortDnrename
    (port : IpcPort)
    (index oname nname : Nat) :
    Except Trap RequestSpace := do
  ipcAssert (port.ipActive = true)
  ipcAssert (port.ipDnrequests ≠ iprNull)
  let (table, slot) ← st.readSlot port.ipDnrequests index
  ipcAssert (slot.iprName = oname)
  .ok (st.setTable port.ipDnrequests
    (table.set index { slot with name := nname }))

/- `ipc_port_release`. The memory of objects stays here. -/
def ipcPortRelease
    (addr : Nat)
    (port : IpcPort) : RequestSpace :=
  st.setObject addr
    (.port { port with ioReferences := port.ioReferences - 1 })

/- What an operation on a right does to the reverse hash. -/
def HashUpdate.apply
    (hash : HashUpdate)
    (s : IpcSpace)
    (obj name : Nat)
    (entry : EntryRef) : IpcSpace :=
  match hash with
  | .keep => s
  | .insert => ipcHashInsert ipc s obj name entry
  | .delete => ipcHashDelete ipc s obj name entry

/- `ipc_right_check` on an entry of the space. -/
def checkEntry
    (port : IpcPort)
    (name : Nat)
    (entry : EntryRef) :
    Except Trap (Bool × RequestSpace) := do
  let object := (st.space.fields entry).ieObject
  let (dead, fields, hash) ←
    ipcRightCheck (st.space.fields entry) port.right
  if dead then
    let s := hash.apply ipc st.space object name entry
    .ok (true, (ipcPortRelease st object port).setSpace
      (s.store entry fields))
  else .ok (false, st)

/-
  The request of a right that moves: it is renamed too, or
  the port died and the right is a dead name now. Returns
  what is to move.
-/
def renameRequest
    (oname : Nat)
    (oentry : EntryRef)
    (nname : Nat) :
    Except Trap (EntryFields × RequestSpace) :=
  let old := st.space.fields oentry
  if old.ieRequest = 0 then .ok (old, st)
  else do
    ipcAssert (old.ieBits &&& machPortTypePortRights ≠ 0)
    ipcAssert (old.ieObject ≠ ioNull)
    let port ← st.readPort old.ieObject
    let (dead, st) ← checkEntry ipc st port oname oentry
    if dead then do
      let now := st.space.fields oentry
      ipcAssert (ieBitsType now.ieBits = machPortTypeDeadName)
      ipcAssert (now.ieRequest = 0)
      ipcAssert (now.ieObject = ioNull)
      .ok (⟨now.ieBits, ioNull, 0⟩, st)
    else do
      let st ← ipcPortDnrename st port old.ieRequest oname
        nname
      .ok (old, st.setSpace
        (st.space.store oentry { old with ieRequest := 0 }))

------
-- Objects
------

/- A port that its space knows by a name. -/
def renamePort
    (object oname nname : Nat) :
    Except Trap RequestSpace := do
  ipcAssert (object ≠ ioNull)
  let port ← st.readPort object
  ipcAssert (port.ipActive = true)
  ipcAssert (port.ipReceiverName = oname)
  ipcAssert (port.ipReceiver = st.space.isAddr)
  .ok (st.setObject object
    (.port { port with ipReceiverName := nname }))

/- A port set that its space knows by a name. -/
def renamePset
    (object oname nname : Nat) :
    Except Trap RequestSpace := do
  ipcAssert (object ≠ ioNull)
  let pset ← st.readPset object
  ipcAssert (pset.ipsActive = true)
  ipcAssert (pset.ipsLocalName = oname)
  .ok (st.setObject object
    (.pset { pset with ipsLocalName := nname }))

/- What a type of right keeps of its name. -/
def renameBack
    (old : EntryFields)
    (oname : Nat)
    (oentry : EntryRef)
    (nname : Nat)
    (nentry : EntryRef) : Except Trap RequestSpace :=
  let type := ieBitsType old.ieBits
  if type = machPortTypeSend then do
    ipcAssert (old.ieObject ≠ ioNull)
    .ok (st.setSpace
      (ipcHashInsert ipc
        (ipcHashDelete ipc st.space old.ieObject oname oentry)
        old.ieObject nname nentry))
  else if type = machPortTypeReceive ∨
      type = machPortTypeSendReceive then
    renamePort st old.ieObject oname nname
  else if type = machPortTypePortSet then
    renamePset st old.ieObject oname nname
  else if type = machPortTypeSendOnce ∨
      type = machPortTypeDeadName then .ok st
  else .error .panic

------
-- Rights
------

/- Give the new entry what the old one denotes. -/
def moveEntry
    (old : EntryFields)
    (nentry : EntryRef) : RequestSpace :=
  st.setSpace
    (st.space.store nentry
      ⟨(st.space.fields nentry).ieBits |||
          ieBitsRight old.ieBits,
        old.ieObject, old.ieRequest⟩)

/- Deallocate the old entry. -/
def dropEntry
    (oname : Nat)
    (oentry : EntryRef) : Except Trap RequestSpace := do
  ipcAssert ((st.space.fields oentry).ieRequest = 0)
  let s := st.space.store oentry
    { st.space.fields oentry with ieObject := ioNull }
  .ok (st.setSpace (ipcEntryDealloc ipc s oname oentry))

/- `ipc_right_rename`. -/
def ipcRightRename
    (oname : Nat)
    (oentry : EntryRef)
    (nname : Nat)
    (nentry : EntryRef) :
    Except Trap (KernReturn × RequestSpace) := do
  ipcAssert (st.space.isActive = true)
  ipcAssert (oname ≠ nname)
  let (old, st) ← renameRequest ipc st oname oentry nname
  ipcAssert
    (ieBitsRight (st.space.fields nentry).ieBits = 0)
  let st := moveEntry st old nentry
  let st ← renameBack ipc st old oname oentry nname nentry
  let st ← dropEntry ipc st oname oentry
  .ok (.success, st)

/- `ipc_object_rename`. -/
def ipcObjectRename
    (tableOk : Nat → Bool)
    (iteOk : Bool)
    (oname nname : Nat) :
    Except Trap (KernReturn × RequestSpace) :=
  match ipcEntryAllocName ipc tableOk iteOk st.space nname with
  | (.success, some nentry, s) =>
      if ipcRightInuse s nentry then
        .ok (.nameExists, st.setSpace s)
      else if oname = nname then
        .ok (.invalidName,
          st.setSpace (ipcEntryDealloc ipc s nname nentry))
      else
        match ipcEntryLookup s oname with
        | (none, s) =>
            .ok (.invalidName,
              st.setSpace (ipcEntryDealloc ipc s nname nentry))
        | (some oentry, s) =>
            ipcRightRename ipc (st.setSpace s) oname oentry
              nname nentry
  | (kr, _, s) => .ok (kr, st.setSpace s)

end Renaming

end Ipc

end OsfMach
