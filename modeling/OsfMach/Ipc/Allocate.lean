import OsfMach.Ipc.EntryRuns
import OsfMach.Ipc.Mqueue

/-
  Allocating rights in a space.

  A right is allocated under a name that the space picks or
  under one that the caller gives. Ports and port sets are
  objects, which are made before the entry; a dead name has
  no object.

  Key definitions include:
    * `IpcPort`, `IpcPset`, `ObjectSpace`
    * `ipcObjectAlloc`, `ipcObjectAllocName`
    * `machPortAllocateFull`, `machPortAllocateName`
-/

------
-- Objects
------

namespace OsfMach

namespace Ipc

open Lib

@[match_pattern] def machPortRightSend : Nat := 0
@[match_pattern] def machPortRightReceive : Nat := 1
@[match_pattern] def machPortRightSendOnce : Nat := 2
@[match_pattern] def machPortRightPortSet : Nat := 3
@[match_pattern] def machPortRightDeadName : Nat := 4

/-
  `struct ipc_port`, with the fields that an allocation sets.
  Pointers are addresses, and null pointers are zero.
-/
structure IpcPort where
  ioReferences : Nat
  ipActive : Bool
  ipNms : Bool
  ipReceiver : Nat
  ipReceiverName : Nat
  ipMscount : Nat
  ipSrights : Nat
  ipSorights : Nat
  ipNsrequest : Nat
  ipPdrequest : Nat
  ipDnrequests : Nat
  ipPset : Nat
  ipSeqno : Nat
  ipMsgcount : Nat
  ipQlimit : Nat
  ipSubsystem : Nat
  ipRt : Bool
deriving DecidableEq, Repr

/- `struct ipc_pset`, with the fields that are set. -/
structure IpcPset where
  ioReferences : Nat
  ipsActive : Bool
  ipsLocalName : Nat
deriving DecidableEq, Repr

inductive IpcObject where
| port (port : IpcPort)
| pset (pset : IpcPset)
deriving DecidableEq, Repr

/- After `bzero`. -/
def zeroPort : IpcPort :=
  ⟨0, false, false, 0, 0, 0, 0, 0, 0, 0, 0, 0, 0, 0, 0, 0,
    false⟩

def zeroPset : IpcPset := ⟨0, false, 0⟩

/- One reference for the entry, and active. -/
def IpcObject.activate : IpcObject → IpcObject
| .port p =>
    .port { p with
      ioReferences := 1
      ipActive := true }
| .pset p =>
    .pset { p with
      ioReferences := 1
      ipsActive := true }

/- `ipc_port_init`, for a space at an address. -/
def ipcPortInit
    (port : IpcPort)
    (space name : Nat) : IpcPort :=
  { port with
    ipReceiver := space
    ipReceiverName := name
    ipMscount := 0
    ipSrights := 0
    ipSorights := 0
    ipNsrequest := 0
    ipPdrequest := 0
    ipDnrequests := 0
    ipPset := 0
    ipSeqno := 0
    ipMsgcount := 0
    ipQlimit := machPortQlimitDefault
    ipSubsystem := 0
    ipRt := false
    ipNms := true }

/- A space, and the objects that there are. -/
structure ObjectSpace where
  space : IpcSpace
  objects : Nat → Option IpcObject
  nextObject : Nat

/- Whether there is memory for what is asked for. -/
structure AllocateAnswers where
  tableOk : Nat → Bool
  iteOk : Bool
  objectOk : Bool

namespace ObjectSpace

def setObject
    (st : ObjectSpace)
    (addr : Nat)
    (object : Option IpcObject) : ObjectSpace :=
  { st with objects := Function.update st.objects addr object }

/- `io_alloc`, and the clearing of the object. -/
def ioAlloc
    (env : AllocateAnswers)
    (st : ObjectSpace)
    (zero : IpcObject) : Option Nat × ObjectSpace :=
  if env.objectOk then
    (some st.nextObject,
      { st.setObject st.nextObject (some zero) with
        nextObject := st.nextObject + 1 })
  else (none, st)

end ObjectSpace

------
-- Entries for Objects
------

/- `ipc_right_inuse`. -/
def ipcRightInuse (s : IpcSpace) (entry : EntryRef) : Bool :=
  ieBitsType (s.fields entry).ieBits ≠ machPortTypeNone

/- Give an entry a right to an object. -/
def IpcSpace.enter
    (s : IpcSpace)
    (entry : EntryRef)
    (right : EntryBits)
    (object : Nat) : IpcSpace :=
  s.store entry
    ⟨(s.fields entry).ieBits ||| right, object,
      (s.fields entry).ieRequest⟩

/- Give an entry a dead name with one reference. -/
def IpcSpace.enterDead
    (s : IpcSpace)
    (entry : EntryRef) : IpcSpace :=
  s.store entry
    { s.fields entry with
      ieBits :=
        (s.fields entry).ieBits |||
          (machPortTypeDeadName ||| 1#32) }

section Objects

variable (ipc : IpcParams) (env : AllocateAnswers)
variable (st : ObjectSpace)

/- `ipc_object_alloc_dead`. -/
def ipcObjectAllocDead :
    KernReturn × Option Nat × ObjectSpace :=
  match ipcEntryAlloc ipc env.tableOk st.space with
  | (.success, some (name, entry), s) =>
      (.success, some name,
        { st with space := s.enterDead entry })
  | (kr, _, s) => (kr, none, { st with space := s })

/- `ipc_object_alloc`, of an object that is zero at first. -/
def ipcObjectAlloc
    (zero : IpcObject)
    (right : EntryBits) :
    KernReturn × Option (Nat × Nat) × ObjectSpace :=
  match st.ioAlloc env zero with
  | (none, st) => (.resourceShortage, none, st)
  | (some object, st) =>
      match ipcEntryAlloc ipc env.tableOk st.space with
      | (.success, some (name, entry), s) =>
          let s := s.enter entry right object
          (.success, some (name, object),
            { st with space := s }.setObject object
              (some zero.activate))
      | (kr, _, s) =>
          -- `io_free`
          (kr, none,
            { st with space := s }.setObject object none)

/- `ipc_object_alloc_name`. -/
def ipcObjectAllocName
    (zero : IpcObject)
    (right : EntryBits)
    (name : Nat) : KernReturn × Option Nat × ObjectSpace :=
  match st.ioAlloc env zero with
  | (none, st) => (.resourceShortage, none, st)
  | (some object, st) =>
      match ipcEntryAllocName ipc env.tableOk env.iteOk
          st.space name with
      | (.success, some entry, s) =>
          if ipcRightInuse s entry then
            -- `io_free`
            (.nameExists, none,
              { st with space := s }.setObject object none)
          else
            let s := s.enter entry right object
            (.success, some object,
              { st with space := s }.setObject object
                (some zero.activate))
      | (kr, _, s) =>
          -- `io_free`
          (kr, none,
            { st with space := s }.setObject object none)

------
-- Ports and Port Sets
------

/- A port that has been initialized. -/
def newPort (space name : Nat) : IpcPort :=
  ipcPortInit { zeroPort with ioReferences := 1, ipActive := true }
    space name

def newPset (name : Nat) : IpcPset := ⟨1, true, name⟩

/- `ipc_port_alloc`. -/
def ipcPortAlloc :
    KernReturn × Option (Nat × Nat) × ObjectSpace :=
  match ipcObjectAlloc ipc env st (.port zeroPort)
      machPortTypeReceive with
  | (.success, some (name, port), st) =>
      (.success, some (name, port),
        st.setObject port
          (some (.port (newPort st.space.isAddr name))))
  | out => out

/- `ipc_port_alloc_name`. -/
def ipcPortAllocName
    (name : Nat) : KernReturn × Option Nat × ObjectSpace :=
  match ipcObjectAllocName ipc env st (.port zeroPort)
      machPortTypeReceive name with
  | (.success, some port, st) =>
      (.success, some port,
        st.setObject port
          (some (.port (newPort st.space.isAddr name))))
  | out => out

/- `ipc_pset_alloc`. -/
def ipcPsetAlloc :
    KernReturn × Option (Nat × Nat) × ObjectSpace :=
  match ipcObjectAlloc ipc env st (.pset zeroPset)
      machPortTypePortSet with
  | (.success, some (name, pset), st) =>
      (.success, some (name, pset),
        st.setObject pset (some (.pset (newPset name))))
  | out => out

/- `ipc_pset_alloc_name`. -/
def ipcPsetAllocName
    (name : Nat) : KernReturn × Option Nat × ObjectSpace :=
  match ipcObjectAllocName ipc env st (.pset zeroPset)
      machPortTypePortSet name with
  | (.success, some pset, st) =>
      (.success, some pset,
        st.setObject pset (some (.pset (newPset name))))
  | out => out

------
-- Kernel Calls
------

/- `mach_port_qos_t`. -/
structure MachPortQos where
  name : Bool
  rt : Bool
deriving DecidableEq, Repr

/- The result, the name and the space. -/
structure Allocation where
  kr : KernReturn
  name : Nat
  st : ObjectSpace

/- What a port gets on request, when it was allocated. -/
def finishPort
    (qos : MachPortQos)
    (subsystem : Nat)
    (port : Nat)
    (st : ObjectSpace) : ObjectSpace :=
  match st.objects port with
  | some (.port p) =>
      let p := if qos.rt then { p with ipRt := true } else p
      let p :=
        if subsystem = 0 then p
        else { p with ipSubsystem := subsystem }
      st.setObject port (some (.port p))
  | _ => st

/- A receive right, under the name given if there is one. -/
def allocateReceive
    (subsystem : Nat)
    (qos : MachPortQos)
    (name : Nat) : Allocation :=
  if qos.name then
    match ipcPortAllocName ipc env st name with
    | (.success, some port, st) =>
        ⟨.success, name, finishPort qos subsystem port st⟩
    | (kr, _, st) => ⟨kr, name, st⟩
  else
    match ipcPortAlloc ipc env st with
    | (.success, some (name, port), st) =>
        ⟨.success, name, finishPort qos subsystem port st⟩
    | (kr, _, st) => ⟨kr, name, st⟩

def allocatePortSet
    (qos : MachPortQos)
    (name : Nat) : Allocation :=
  if qos.name then
    match ipcPsetAllocName ipc env st name with
    | (kr, _, st) => ⟨kr, name, st⟩
  else
    match ipcPsetAlloc ipc env st with
    | (kr, found, st) =>
        ⟨kr, (found.map Prod.fst).getD name, st⟩

/- A dead name. Here no name that was given is looked at. -/
def allocateDeadName (name : Nat) : Allocation :=
  match ipcObjectAllocDead ipc env st with
  | (kr, found, st) => ⟨kr, found.getD name, st⟩

/- The requests that are refused at once. -/
def refuseAllocation
    (machRt : Bool)
    (st : ObjectSpace)
    (right subsystem : Nat)
    (qos : MachPortQos)
    (name : Nat) : Option KernReturn :=
  if qos.name ∧ ¬ MachPortValid name then some .invalidValue
  else if qos.name ∧ st.space.isFast then some .failure
  else if subsystem ≠ 0 ∧ right ≠ machPortRightReceive then
    some .invalidValue
  else if qos.rt ∧ ¬ machRt then some .invalidArgument
  else if qos.rt ∧ right ≠ machPortRightReceive then
    some .invalidValue
  else none

/-
  `mach_port_allocate_full`. There may be no space, and the
  kernel may be without real-time ports.
-/
def machPortAllocateFull
    (machRt : Bool)
    (space : Option ObjectSpace)
    (right subsystem : Nat)
    (qos : MachPortQos)
    (name : Nat) :
    KernReturn × Nat × Option ObjectSpace :=
  match space with
  | none => (.invalidTask, name, none)
  | some st =>
      match refuseAllocation machRt st right subsystem qos
          name with
      | some kr => (kr, name, some st)
      | none =>
          let out :=
            match right with
            | machPortRightReceive =>
                allocateReceive ipc env st subsystem qos name
            | machPortRightPortSet =>
                allocatePortSet ipc env st qos name
            | machPortRightDeadName =>
                allocateDeadName ipc env st name
            | _ => ⟨.invalidValue, name, st⟩
          (out.kr, out.name, some out.st)

/- `qos_template`. -/
def qosTemplate : MachPortQos := ⟨false, false⟩

/- `mach_port_allocate_name`. -/
def machPortAllocateName
    (machRt : Bool)
    (space : Option ObjectSpace)
    (right name : Nat) : KernReturn × Option ObjectSpace :=
  match machPortAllocateFull ipc env machRt space right 0
      { qosTemplate with name := true } name with
  | (kr, _, space) => (kr, space)

end Objects

end Ipc

end OsfMach
