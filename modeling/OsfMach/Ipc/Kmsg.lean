import OsfMach.Ipc.Right
import OsfMach.Lib.Checked

/-
  Copying the body of a user's message in, from
  `ipc/ipc_kmsg.c` and `ipc/ipc_object.c`.

  The sender's space is its names. What a message holds is
  recorded: releasing anything else is a trap. What memory
  allocation and the user's memory answer is a parameter.

  Key definitions include:
    * `Sender`, `Held`, `Descriptor`
    * `ipcObjectCopyin`, `ipcObjectDestroy`
    * `ipcKmsgCleanBody`, `ipcKmsgCleanPartial`
    * `ipcKmsgCopyinBody`
-/

------
-- Messages and Senders
------

namespace OsfMach

namespace Ipc

open Function
open Lib
open Lib.Checked

inductive MachMsgReturn where
| success
| sendInvalidHeader
| sendInvalidDest
| sendInvalidReply
| sendInvalidNotify
| sendInvalidMemory
| sendInvalidRight
| sendInvalidType
| sendMsgTooSmall
| sendInvalidRtOolSize
| invalidRtDescriptor
| sendNoBuffer
| vmKernel
deriving DecidableEq, Repr

/- What a message holds. -/
inductive Held where
| right (object type : Nat)
| buffer (addr size : Nat)
| copy (addr : Nat)
| region (addr size : Nat)
deriving DecidableEq, Repr

@[match_pattern] abbrev machMsgPortDescriptor : Nat := 0
@[match_pattern] abbrev machMsgOolDescriptor : Nat := 1
@[match_pattern] abbrev machMsgOolPortsDescriptor : Nat := 2
@[match_pattern] abbrev machMsgOolVolatileDescriptor : Nat := 3

def machMsgPhysicalCopy : Nat := 0
def machMsgVirtualCopy : Nat := 1
def machMsgKallocCopyT : Nat := 4
def machMsgPageListCopyT : Nat := 5

/-
  `mach_msg_descriptor_t`. The address shares its place with
  the name of a port descriptor, and the size with the count
  of an array of ports.
-/
structure Descriptor where
  address : Nat
  size : Nat
  deallocate : Nat
  copy : Nat
  disposition : Nat
  type : Nat
deriving DecidableEq, Repr

namespace Descriptor

def name (d : Descriptor) : Nat := d.address

def count (d : Descriptor) : Nat := d.size

/- The length in bytes of an array of ports, in 32 bits. -/
def portsLength (d : Descriptor) : Nat :=
  d.count * 4 % 2 ^ 32

def isOol (d : Descriptor) : Bool :=
  d.type = machMsgOolDescriptor ∨
    d.type = machMsgOolVolatileDescriptor

end Descriptor

/- The ports of a message header that was copied in. -/
structure HeaderPorts where
  remotePort : Nat
  remoteType : Nat
  localPort : Nat
  localType : Nat
deriving DecidableEq, Repr

/-
  The space of the sender, the ports and what the message
  holds. `sends` and `onces` count the rights that neither the
  space nor the message has, and `notified` lists the ports
  that were sent their send-once rights back; `buffers` are
  words in memory.
  The descriptors that were reached are `touched`.
-/
structure Sender where
  isActive : Bool
  isAddr : Nat
  entries : Nat → Option EntryFields
  ports : Nat → RightPort
  held : List Held
  buffers : Nat → List Nat
  sends : Nat → Nat
  onces : Nat → Nat
  notified : List Nat
  asked : Nat
  nextAddr : Nat
  timestamp : Nat
  touched : List Nat

/- The answers to requests, and the words they read. -/
structure KmsgAnswers where
  grant : Nat → Bool
  word : Nat → Nat → Nat

/- Fixed when the system starts, and by the message. -/
structure KmsgConfig where
  rt : Bool
  msgOolSizeSmall : Nat
  ipcKmsgMaxVmSpace : Nat

inductive Stop where
| trap (t : Trap)
| ret (mr : MachMsgReturn)
deriving DecidableEq, Repr

abbrev KmsgProg := Checked Sender Stop

def pageSizeIpc : Nat := 4096

/- `round_page`, of a `vm_size_t`. -/
def roundPageIpc (x : Nat) : Nat :=
  (x + (pageSizeIpc - 1)) % 2 ^ 32 / pageSizeIpc * pageSizeIpc

namespace Sender

def setPort
    (s : Sender)
    (p : Nat)
    (port : RightPort) : Sender :=
  { s with ports := update s.ports p port }

def setEntry
    (s : Sender)
    (name : Nat)
    (entry : Option EntryFields) : Sender :=
  { s with entries := update s.entries name entry }

end Sender

def liftTrap
    {α : Type}
    (x : Except Trap α) : KmsgProg α :=
  lift (match x with
    | .ok a => .ok a
    | .error t => .error (.trap t))

/- Ask for the next answer. -/
def ask (env : KmsgAnswers) : KmsgProg Bool := do
  let s ← read
  change fun s => { s with asked := s.asked + 1 }
  pure (env.grant s.asked)

def acquire (h : Held) : KmsgProg Unit :=
  change fun s => { s with held := h :: s.held }

def releaseHeld (h : Held) : KmsgProg Unit := do
  let s ← read
  require (h ∈ s.held) (.trap .release)
  change fun s => { s with held := s.held.erase h }

/- An address in the kernel that is not in use. -/
def freshAddr (size : Nat) : KmsgProg Nat := do
  let s ← read
  change fun s => { s with nextAddr := s.nextAddr + size + 1 }
  pure s.nextAddr

------
-- Releasing Rights
------

/- `ipc_port_release_send`. -/
def ipcPortReleaseSend (p : Nat) : KmsgProg Unit := do
  let s ← read
  let port := s.ports p
  if port.ipActive then do
    require (0 < port.ipSrights) (.trap .assertion)
    change fun s => s.setPort p
      { port with ipSrights := port.ipSrights - 1 }
  else pure ()

/- `ipc_port_release_sonce`. -/
def ipcPortReleaseSonce (p : Nat) : KmsgProg Unit := do
  let s ← read
  let port := s.ports p
  require (0 < port.ipSorights) (.trap .assertion)
  change fun s => s.setPort p
    { port with ipSorights := port.ipSorights - 1 }

/-
  `ipc_notify_send_once`. Without memory the right is
  released; otherwise a message takes it to the port, where a
  dead port drops it.
-/
def ipcNotifySendOnce
    (env : KmsgAnswers)
    (p : Nat) : KmsgProg Unit := do
  let granted ← ask env
  if granted then
    change fun s => { s with notified := p :: s.notified }
  else ipcPortReleaseSonce p

/-
  `ipc_port_release_receive`. A port with a port-destroyed
  request is sent away, unless that would make a circle.
-/
def ipcPortReleaseReceive
    (env : KmsgAnswers)
    (p : Nat) : KmsgProg Unit := do
  let s ← read
  let port := s.ports p
  require (port.ipActive) (.trap .assertion)
  require (port.ipReceiverName = machPortNull)
    (.trap .assertion)
  require (port.ipMscount = 0) (.trap .assertion)
  let sent ← if port.ipPdrequest then ask env
    else pure false
  if sent then
    change fun s => s.setPort p
      { port with ipPdrequest := false }
  else
    change fun s =>
      { s.setPort p
          { port with
            ipPdrequest := false
            ipActive := false
            ipTimestamp := s.timestamp } with
        timestamp := s.timestamp + 1 }

/- `ipc_object_destroy`. -/
def ipcObjectDestroy
    (env : KmsgAnswers)
    (object msgtName : Nat) : KmsgProg Unit := do
  require (ioValid object) (.trap .release)
  releaseHeld (.right object msgtName)
  match msgtName with
  | machMsgTypePortSend => ipcPortReleaseSend object
  | machMsgTypePortSendOnce => ipcNotifySendOnce env object
  | machMsgTypePortReceive =>
      ipcPortReleaseReceive env object
  | _ => stop (.trap .panic)

------
-- Copying Rights in
------

/-
  Store what an operation left. The message acquires an
  object that is not dead; the entry is freed when nothing is
  left of it.
-/
def storeRight
    (name object msgtName : Nat)
    (out : RightOut) : KmsgProg Unit := do
  let type ← liftTrap (ipcObjectCopyinType msgtName)
  change fun s => (s.setPort object out.port).setEntry name
    (if ieBitsType out.entry.ieBits = machPortTypeNone then
      none
    else some out.entry)
  if out.kr = .success ∧ out.object ≠ ioDead then
    acquire (.right out.object type)
  else pure ()

/- `ipc_object_copyin`. -/
def ipcObjectCopyin
    (name msgtName : Nat) : KmsgProg (KernReturn × Nat) := do
  let s ← read
  if !s.isActive then pure (.invalidTask, ioNull)
  else
    match s.entries name with
    | none => pure (.invalidName, ioNull)
    | some entry => do
        let out ← liftTrap
          (ipcRightCopyin s.isAddr name entry
            (s.ports entry.ieObject) true msgtName)
        storeRight name entry.ieObject msgtName out
        pure (out.kr, out.object)

------
-- Cleaning up
------

/- Destroy an object that is neither null nor dead. -/
def destroyValid
    (env : KmsgAnswers)
    (msgtName object : Nat) : KmsgProg Unit :=
  if ioValid object then ipcObjectDestroy env object msgtName
  else pure ()

/- Destroy the valid objects of an array. -/
def destroyObjects
    (env : KmsgAnswers)
    (msgtName : Nat) : List Nat → KmsgProg Unit
| [] => pure ()
| object :: objects => do
    destroyValid env msgtName object
    destroyObjects env msgtName objects

/- `vm_map_copy_discard`, which does nothing without a copy. -/
def vmMapCopyDiscard (copy : Nat) : KmsgProg Unit :=
  if copy = 0 then pure () else releaseHeld (.copy copy)

/- Discard the out-of-line memory of a descriptor. -/
def cleanOol
    (cfg : KmsgConfig)
    (d : Descriptor) : KmsgProg Unit :=
  if d.size = 0 then
    require (d.address = 0) (.trap .assertion)
  else if d.copy = machMsgPhysicalCopy ∧
      d.size < cfg.msgOolSizeSmall then
    releaseHeld (.buffer d.address d.size)
  else vmMapCopyDiscard d.address

/-
  Destroy an array of ports. Where the count is larger than
  the array, or there is none, what is read is not its own.
-/
def cleanPorts
    (env : KmsgAnswers)
    (d : Descriptor) : KmsgProg Unit :=
  if d.count = 0 then pure ()
  else do
    require (d.address ≠ 0) (.trap .wild)
    let s ← read
    let objects := s.buffers d.address
    destroyObjects env d.disposition objects
    require (d.count ≤ objects.length) (.trap .wild)
    releaseHeld (.buffer d.address d.portsLength)

/- The body of the loop of `ipc_kmsg_clean_body`. -/
def cleanDescriptor
    (cfg : KmsgConfig)
    (env : KmsgAnswers)
    (d : Descriptor) : KmsgProg Unit :=
  match d.type with
  | machMsgPortDescriptor =>
      destroyValid env d.disposition d.name
  | machMsgOolVolatileDescriptor | machMsgOolDescriptor =>
      cleanOol cfg d
  | machMsgOolPortsDescriptor => cleanPorts env d
  | _ => pure ()

/- `ipc_kmsg_clean_body`, of the first descriptors. -/
def ipcKmsgCleanBody
    (cfg : KmsgConfig)
    (env : KmsgAnswers) : List Descriptor → KmsgProg Unit
| [] => pure ()
| d :: ds => do
    cleanDescriptor cfg env d
    ipcKmsgCleanBody cfg env ds

/- `vm_deallocate` of space in the copy map. -/
def releaseRegion (paddr length : Nat) : KmsgProg Unit :=
  if paddr ≠ 0 ∧ length ≠ 0 then
    releaseHeld (.region paddr length)
  else pure ()

/- Release the rights of the header and the space left. -/
def cleanHeader
    (env : KmsgAnswers)
    (header : HeaderPorts)
    (paddr length : Nat) : KmsgProg Unit := do
  ipcObjectDestroy env header.remotePort header.remoteType
  destroyValid env header.localType header.localPort
  releaseRegion paddr length

/- `ipc_kmsg_clean_partial`. -/
def ipcKmsgCleanPartial
    (cfg : KmsgConfig)
    (env : KmsgAnswers)
    (header : HeaderPorts)
    (ds : List Descriptor)
    (paddr length : Nat) : KmsgProg Unit := do
  cleanHeader env header paddr length
  ipcKmsgCleanBody cfg env ds

------
-- Sizing
------

def ikotPagingRequest : Nat := 9
def ikotDevice : Nat := 10

def ipcKobjectVmPageList (ikot : Nat) : Bool :=
  ikot = ikotPagingRequest || ikot = ikotDevice

def ipcKobjectVmPageSteal (ikot : Nat) : Bool :=
  ikot = ikotPagingRequest

def isIpcKobject (ikot : Nat) : Bool :=
  ikot ≠ 0

/- Clean up and return an error. -/
def failBody
    {α : Type}
    (cfg : KmsgConfig)
    (env : KmsgAnswers)
    (header : HeaderPorts)
    (ds : List Descriptor)
    (paddr length : Nat)
    (mr : MachMsgReturn) : KmsgProg α := do
  ipcKmsgCleanPartial cfg env header ds paddr length
  stop (.ret mr)

def touch (addr : Nat) : KmsgProg Unit :=
  change fun s => { s with touched := s.touched ++ [addr] }

/- Whether a descriptor's data is copied to the copy map. -/
def Descriptor.physical
    (cfg : KmsgConfig)
    (d : Descriptor) : Bool :=
  d.copy = machMsgPhysicalCopy ∧
    cfg.msgOolSizeSmall ≤ d.size ∧ d.deallocate = 0

/- The first pass: the space that physical copies need. -/
def sizingPass
    (cfg : KmsgConfig)
    (env : KmsgAnswers)
    (header : HeaderPorts)
    (pageLists : Bool) :
    List (Nat × Descriptor) → Nat → KmsgProg Nat
| [], spaceNeeded => pure spaceNeeded
| (addr, d) :: ds, spaceNeeded => do
    touch addr
    if d.isOol then do
      require (¬ (d.copy = machMsgPhysicalCopy ∧ pageLists))
        (.trap .assertion)
      if d.copy ≠ machMsgPhysicalCopy ∧
          d.copy ≠ machMsgVirtualCopy then
        failBody cfg env header [] 0 0 .sendInvalidType
      else if d.physical cfg then
        let spaceNeeded :=
          (spaceNeeded + roundPageIpc d.size) % 2 ^ 32
        if cfg.ipcKmsgMaxVmSpace < spaceNeeded then
          failBody cfg env header [] 0 0 .vmKernel
        else
          sizingPass cfg env header pageLists ds spaceNeeded
      else
        sizingPass cfg env header pageLists ds spaceNeeded
    else sizingPass cfg env header pageLists ds spaceNeeded

------
-- Conversion
------

/- Where the second pass is. -/
structure Progress where
  done : List Descriptor
  paddr : Nat
  spaceNeeded : Nat
  complex : Bool
  circular : Bool

/- An error, and the space that is given back with it. -/
structure Refusal where
  mr : MachMsgReturn
  paddr : Nat
  length : Nat

namespace Progress

def refuse
    (pr : Progress)
    (mr : MachMsgReturn) : Except Refusal Progress :=
  .error ⟨mr, pr.paddr, pr.spaceNeeded⟩

def accept
    (pr : Progress)
    (d : Descriptor) : Except Refusal Progress :=
  .ok { pr with done := pr.done ++ [d], complex := true }

end Progress

/- A receive right may make a circle of ports. -/
def checkCircular
    (env : KmsgAnswers)
    (type : Nat)
    (circular : Bool) : KmsgProg Bool :=
  if type = machMsgTypePortReceive then do
    let found ← ask env
    pure (circular || found)
  else pure circular

/- Convert a port descriptor. -/
def convertPort
    (env : KmsgAnswers)
    (pr : Progress)
    (d : Descriptor) :
    KmsgProg (Except Refusal Progress) := do
  let type ← liftTrap (ipcObjectCopyinType d.disposition)
  let d' := { d with disposition := type }
  if !ioValid d.name then pure (pr.accept d')
  else do
    let (kr, object) ← ipcObjectCopyin d.name d.disposition
    if kr ≠ .success then pure (pr.refuse .sendInvalidRight)
    else do
      let circular ← checkCircular env type pr.circular
      pure ({ pr with circular := circular }.accept
        { d' with address := object })

/- `copyin`, which refuses a range that wraps around. -/
def copyinUser
    (env : KmsgAnswers)
    (addr length : Nat) : KmsgProg Bool := do
  let granted ← ask env
  pure (granted && addr + length < 2 ^ 32)

/- A copy object is made of the user's memory. -/
def convertCopy
    (env : KmsgAnswers)
    (pr : Progress)
    (d : Descriptor) :
    KmsgProg (Except Refusal Progress) := do
  let granted ← ask env
  if !granted then pure (pr.refuse .sendInvalidMemory)
  else do
    let copy ← freshAddr 0
    acquire (.copy copy)
    pure (pr.accept { d with address := copy })

/- Small data is copied to memory from `kalloc`. -/
def convertSmall
    (cfg : KmsgConfig)
    (env : KmsgAnswers)
    (ikot : Nat)
    (pr : Progress)
    (d : Descriptor) :
    KmsgProg (Except Refusal Progress) := do
  require (¬ (isIpcKobject ikot ∧ cfg.rt)) (.trap .assertion)
  let granted ← ask env
  if !granted then pure (pr.refuse .vmKernel)
  else do
    let copied ← copyinUser env d.address d.size
    if !copied then pure (pr.refuse .sendInvalidMemory)
    else do
      let kaddr ← freshAddr d.size
      if isIpcKobject ikot then do
        acquire (.copy kaddr)
        pure (pr.accept { d with
          address := kaddr
          copy := machMsgKallocCopyT })
      else do
        acquire (.buffer kaddr d.size)
        pure (pr.accept { d with address := kaddr })

def acquireRegion (paddr length : Nat) : KmsgProg Unit :=
  if paddr ≠ 0 ∧ length ≠ 0 then
    acquire (.region paddr length)
  else pure ()

/- Data is copied to the space in the copy map. -/
def convertPhysical
    (env : KmsgAnswers)
    (pr : Progress)
    (d : Descriptor) :
    KmsgProg (Except Refusal Progress) := do
  let rounded := roundPageIpc d.size
  let copied ← copyinUser env d.address d.size
  if !copied then pure (pr.refuse .sendInvalidMemory)
  else do
    require (d.size ≤ pr.spaceNeeded) (.trap .wild)
    -- `vm_map_copyin` from the copy map
    let granted ← ask env
    if !granted then pure (pr.refuse .vmKernel)
    else do
      let copy ← freshAddr 0
      let left := pr.spaceNeeded - rounded
      releaseHeld (.region pr.paddr pr.spaceNeeded)
      acquireRegion (pr.paddr + rounded) left
      acquire (.copy copy)
      pure ({ pr with
        paddr := pr.paddr + rounded
        spaceNeeded := left }.accept { d with address := copy })

/- Convert a descriptor of out-of-line memory. -/
def convertOol
    (cfg : KmsgConfig)
    (env : KmsgAnswers)
    (ikot : Nat)
    (pr : Progress)
    (d : Descriptor) : KmsgProg (Except Refusal Progress) :=
  if d.deallocate ≠ 0 ∧ cfg.rt then
    pure (.error ⟨.invalidRtDescriptor, 0, 0⟩)
  else if d.size = 0 then
    pure (pr.accept { d with address := 0 })
  else if ipcKobjectVmPageList ikot then do
    -- `vm_map_copyin_page_list`
    require (¬ cfg.rt) (.trap .assertion)
    convertCopy env pr { d with copy := machMsgPageListCopyT }
  else if d.size < cfg.msgOolSizeSmall ∧
      d.copy = machMsgPhysicalCopy then
    convertSmall cfg env ikot pr d
  else if d.copy = machMsgPhysicalCopy ∧
      d.deallocate = 0 then
    convertPhysical env pr d
  else if cfg.rt then pure (pr.refuse .sendInvalidType)
  else convertCopy env pr d -- `vm_map_copyin`

/-
  What is undone when a port of an array is refused. The test
  is of the name that was refused, not of the object.
-/
def destroyBefore
    (env : KmsgAnswers)
    (port type : Nat) : List Nat → KmsgProg Unit
| [] => pure ()
| object :: objects =>
    if ioValid port then do
      ipcObjectDestroy env object type
      destroyBefore env port type objects
    else destroyBefore env port type objects

/-
  Convert the names of an array; `objects` are done. `none`
  is a refusal, with those undone.
-/
def convertNames
    (env : KmsgAnswers)
    (disposition type : Nat)
    (objects : List Nat)
    (circular : Bool) :
    List Nat → KmsgProg (Option (List Nat × Bool))
| [] => pure (some (objects, circular))
| port :: ports => do
    if !ioValid port then
      convertNames env disposition type (objects ++ [port])
        circular ports
    else do
      let (kr, object) ← ipcObjectCopyin port disposition
      if kr ≠ .success then do
        destroyBefore env port type objects
        pure none
      else do
        let circular ← checkCircular env type circular
        convertNames env disposition type
          (objects ++ [object]) circular ports

/-
  Read the names of an array into memory from `kalloc`. The
  length in bytes may be less than the count says.
-/
def readNames
    (env : KmsgAnswers)
    (d : Descriptor) :
    KmsgProg (Except MachMsgReturn (Nat × List Nat)) := do
  let length := d.portsLength
  let granted ← ask env
  if !granted then pure (.error .sendNoBuffer)
  else do
    let data ← freshAddr length
    acquire (.buffer data length)
    let s ← read
    let copied ← copyinUser env d.address length
    if !copied then do
      releaseHeld (.buffer data length)
      pure (.error .sendInvalidMemory)
    else
      pure (.ok (data,
        (List.range (length / 4)).map (env.word s.asked)))

/- Keep an array whose names were accepted. -/
def keepNames
    (pr : Progress)
    (d : Descriptor)
    (data type : Nat) :
    Option (List Nat × Bool) →
      KmsgProg (Except Refusal Progress)
| none => do
    releaseHeld (.buffer data d.portsLength)
    pure (pr.refuse .sendInvalidRight)
| some (objects, circular) => do
    -- the other names are past the end of the array
    require (d.count ≤ objects.length) (.trap .wild)
    change fun s => { s with
      buffers := update s.buffers data objects }
    pure ({ pr with circular := circular }.accept
      { d with
        address := data
        disposition := type })

/- Convert the names that were read. -/
def convertRead
    (env : KmsgAnswers)
    (pr : Progress)
    (d : Descriptor)
    (data : Nat)
    (names : List Nat) :
    KmsgProg (Except Refusal Progress) := do
  let type ← liftTrap (ipcObjectCopyinType d.disposition)
  let accepted ←
    convertNames env d.disposition type [] pr.circular names
  keepNames pr d data type accepted

/- Convert an array of ports. -/
def convertPorts
    (env : KmsgAnswers)
    (pr : Progress)
    (d : Descriptor) :
    KmsgProg (Except Refusal Progress) :=
  if d.portsLength = 0 then
    pure (pr.accept { d with address := 0 })
  else do
    match ← readNames env d with
    | .error mr => pure (pr.refuse mr)
    | .ok (data, names) => convertRead env pr d data names

/- The body of the loop of the second pass. -/
def convertDescriptor
    (cfg : KmsgConfig)
    (env : KmsgAnswers)
    (ikot : Nat)
    (pr : Progress)
    (d : Descriptor) : KmsgProg (Except Refusal Progress) :=
  match d.type with
  | machMsgPortDescriptor => convertPort env pr d
  | machMsgOolVolatileDescriptor | machMsgOolDescriptor =>
      convertOol cfg env ikot pr d
  | machMsgOolPortsDescriptor => convertPorts env pr d
  | _ => pure (pr.refuse .sendInvalidType)

/- The second pass; a refusal cleans up what was done. -/
def conversionPass
    (cfg : KmsgConfig)
    (env : KmsgAnswers)
    (header : HeaderPorts)
    (ikot : Nat) :
    List (Nat × Descriptor) → Progress → KmsgProg Progress
| [], pr => pure pr
| (addr, d) :: ds, pr => do
    touch addr
    match ← convertDescriptor cfg env ikot pr d with
    | .ok pr => conversionPass cfg env header ikot ds pr
    | .error no =>
        failBody cfg env header pr.done no.paddr no.length no.mr

------
-- The Body
------

def sizeofMachMsgHeader : Nat := 24
def sizeofMachMsgBody : Nat := 4
def sizeofMachMsgDescriptor : Nat := 12

/-
  The descriptors of a message whose header is at an address.
  The end is computed in 32 bits.
-/
def descriptorsStart (header : Nat) : Nat :=
  header + sizeofMachMsgHeader + sizeofMachMsgBody

def descriptorsEnd (header count : Nat) : Nat :=
  (descriptorsStart header +
    sizeofMachMsgDescriptor * count) % 2 ^ 32

/- The check counts the size in headers and not in bytes. -/
def descriptorsLimit (header size : Nat) : Nat :=
  (header + sizeofMachMsgHeader * size) % 2 ^ 32

/- The descriptors from the start to before the end. -/
def descriptorsOf
    (memory : Nat → Descriptor)
    (start stop : Nat) : List (Nat × Descriptor) :=
  (List.range ((stop - start + (sizeofMachMsgDescriptor - 1)) /
      sizeofMachMsgDescriptor)).map fun i =>
    let addr := start + sizeofMachMsgDescriptor * i
    (addr, memory addr)

/- Space for physical copies in the copy map. -/
def allocateSpace
    (cfg : KmsgConfig)
    (env : KmsgAnswers)
    (header : HeaderPorts)
    (spaceNeeded : Nat) : KmsgProg Nat :=
  if spaceNeeded = 0 then pure 0
  else if cfg.rt then
    failBody cfg env header [] 0 0 .sendInvalidRtOolSize
  else do
    -- `vm_allocate`
    let granted ← ask env
    if !granted then
      failBody cfg env header [] 0 0 .vmKernel
    else do
      let paddr ← freshAddr spaceNeeded
      acquire (.region paddr spaceNeeded)
      pure paddr

/- Whether the destination takes lists of pages. -/
def takesPageLists (ikot : Nat) : Bool :=
  ipcKobjectVmPageList ikot || ipcKobjectVmPageSteal ikot

/- The passes over the descriptors. -/
def copyinDescriptors
    (cfg : KmsgConfig)
    (env : KmsgAnswers)
    (header : HeaderPorts)
    (ds : List (Nat × Descriptor)) : KmsgProg Progress := do
  let s ← read
  let ikot := (s.ports header.remotePort).ipKotype
  let spaceNeeded ←
    sizingPass cfg env header (takesPageLists ikot) ds 0
  let paddr ← allocateSpace cfg env header spaceNeeded
  conversionPass cfg env header ikot ds
    ⟨[], paddr, spaceNeeded, false, false⟩

/-
  `ipc_kmsg_copyin_body`, of a message that is in memory at
  an address.
-/
def ipcKmsgCopyinBody
    (cfg : KmsgConfig)
    (env : KmsgAnswers)
    (header : HeaderPorts)
    (memory : Nat → Descriptor)
    (msgh msghSize descriptorCount : Nat) :
    KmsgProg Progress :=
  let saddr := descriptorsStart msgh
  let eaddr := descriptorsEnd msgh descriptorCount
  if eaddr ≤ saddr ∨
      descriptorsLimit msgh msghSize < eaddr then
    failBody cfg env header [] 0 0 .sendMsgTooSmall
  else
    copyinDescriptors cfg env header
      (descriptorsOf memory saddr eaddr)

end Ipc

end OsfMach
