import OsfMach.Ipc.RightDrop

/-
  Rights to ports, in the entries of all spaces and outside
  of them, and the operations on them in any order.

  A naked right is one in a message or in the kernel. The
  counts of naked rights are not in the code; neither is the
  log of what became of no-senders requests.

  Key definitions include:
    * `Holding`, `RequestLog`, `RightState`
    * `RightAction`, `rightStep`
-/

------
-- States
------

namespace OsfMach

namespace Ipc

open Function

/- An entry of a space, under its name. -/
structure Holding where
  space : Nat
  name : Nat
  entry : EntryFields
deriving DecidableEq, Repr

/- What became of the no-senders requests of a port. -/
structure RequestLog where
  -- requests that were made, by their send-once rights
  made : List Nat
  sent : List NoSenders
  -- returned as the previous request
  returned : List Nat
  -- thrown away with the port
  thrown : List Nat
deriving DecidableEq, Repr

def RequestLog.empty : RequestLog :=
  { made := [], sent := [], returned := [], thrown := [] }

/- Ports are known by their addresses. -/
structure RightState where
  ports : Nat → SenderPort
  entries : List Holding
  -- naked send, send-once and receive rights
  sends : Nat → Nat
  onces : Nat → Nat
  limbo : Nat → Bool
  log : Nat → RequestLog

/- A port before it is allocated. -/
def noPort : SenderPort :=
  { ipActive := false
    ipReceiver := 0
    ipReceiverName := machPortNull
    ipKotype := 0
    ipPdrequest := false
    ipSrights := 0
    ipSorights := 0
    ipMscount := 0
    ipTimestamp := 0
    ipNsrequest := none }

/- `ipc_port_init`. -/
def SenderPort.ipcPortInit (space name : Nat) : SenderPort :=
  { noPort with
    ipActive := true
    ipReceiver := space
    ipReceiverName := name }

/- Change or remove the entry at a position. -/
def putEntry
    (l : List Holding)
    (i : Nat)
    (e : Option EntryFields) : List Holding :=
  match l[i]? with
  | none => l
  | some h =>
      l.take i ++
        ((e.map fun x => { h with entry := x }).toList ++
          l.drop (i + 1))

/-
  The entries that `ipc_right_copyout` is given: a new one
  for the object, or for a send or receive right one that
  bears such a right already.
-/
def MayTake (e : EntryFields) (msgtName : Nat) : Prop :=
  e.ieBits &&& ieBitsRightMask = 0 ∧ e.ieRequest = 0 ∨
    msgtName ≠ machMsgTypePortSendOnce ∧
      e.ieBits &&& (machPortTypeSend ||| machPortTypeReceive) ≠
        0

instance
    (e : EntryFields)
    (msgtName : Nat) :
    Decidable (MayTake e msgtName) :=
  inferInstanceAs (Decidable (_ ∨ _))

namespace RightState

def start : RightState :=
  { ports := fun _ => noPort
    entries := []
    sends := fun _ => 0
    onces := fun _ => 0
    limbo := fun _ => false
    log := fun _ => .empty }

/- No entry of the space has the name yet. -/
def Unnamed (s : RightState) (space name : Nat) : Prop :=
  name ≠ machPortNull ∧
    ∀ h ∈ s.entries, ¬ (h.space = space ∧ h.name = name)

/- Nothing refers to an address where a port may be put. -/
def Unused (s : RightState) (p : Nat) : Prop :=
  ioValid p = true ∧ (s.ports p).ipActive = false ∧
    s.sends p = 0 ∧ s.onces p = 0 ∧ s.limbo p = false ∧
    ∀ h ∈ s.entries, h.entry.ieObject ≠ p

instance
    (s : RightState)
    (space name : Nat) :
    Decidable (s.Unnamed space name) :=
  inferInstanceAs (Decidable (_ ∧ _))

instance
    (s : RightState)
    (p : Nat) :
    Decidable (s.Unused p) :=
  inferInstanceAs (Decidable (_ ∧ _))

/- Put another entry into a space. -/
def add
    (s : RightState)
    (space name : Nat)
    (e : EntryFields) : RightState :=
  { s with entries := s.entries ++ [⟨space, name, e⟩] }

def setPort
    (s : RightState)
    (p : Nat)
    (port : SenderPort) : RightState :=
  { s with ports := update s.ports p port }

/- What is sent, and what is thrown away. -/
def record
    (s : RightState)
    (p : Nat)
    (notified : Option NoSenders)
    (thrown : Option Nat) : RightState :=
  { s with
    log := update s.log p
      { s.log p with
        sent := (s.log p).sent ++ notified.toList
        thrown := (s.log p).thrown ++ thrown.toList } }

/- The state after the right of an entry was dropped. -/
def dropped
    (s : RightState)
    (i : Nat)
    (p : Nat)
    (out : RightDrop) : RightState :=
  { (s.setPort p out.port).record p out.notified out.thrown with
    entries := putEntry s.entries i out.entry
    onces := update s.onces p
      (s.onces p + out.sendOnce.toNat)
    limbo := update s.limbo p (s.limbo p || out.backup) }

/- The counts of a port wrap after 32 bits. -/
def wrapPort
    (port : SenderPort)
    (right : RightPort) : SenderPort :=
  { port with
    toRightPort :=
      { right with
        ipMscount := right.ipMscount % mscountModulus } }

/- What a copied right counts as. -/
def took (out : RightOut) (type kind count : Nat) : Nat :=
  if out.kr = .success ∧ out.object ≠ ioDead ∧ type = kind
    then count
  else 0

/- The state after some rights of one type were copied in. -/
def copiedIn
    (s : RightState)
    (i : Nat)
    (p : Nat)
    (type count : Nat)
    (out : RightOut) : RightState :=
  { s.setPort p (wrapPort (s.ports p) out.port) with
    entries := putEntry s.entries i (some out.entry)
    sends := update s.sends p
      (s.sends p + took out type machMsgTypePortSend count)
    onces := update s.onces p
      (s.onces p + took out type machMsgTypePortSendOnce count)
    limbo := update s.limbo p
      (s.limbo p ||
        0 < took out type machMsgTypePortReceive count) }

/- Whether there is a naked right of a type. -/
def hasNaked
    (s : RightState)
    (p msgtName : Nat) : Bool :=
  match msgtName with
  | machMsgTypePortSend => 0 < s.sends p
  | machMsgTypePortSendOnce => 0 < s.onces p
  | machMsgTypePortReceive => s.limbo p
  | _ => false

/- A naked right of a type is used up. -/
def takeNaked
    (s : RightState)
    (p msgtName : Nat) : RightState :=
  match msgtName with
  | machMsgTypePortSend =>
      { s with
        sends := update s.sends p (s.sends p - 1) }
  | machMsgTypePortSendOnce =>
      { s with
        onces := update s.onces p (s.onces p - 1) }
  | machMsgTypePortReceive =>
      { s with limbo := update s.limbo p false }
  | _ => s

/- The state after a right was copied out. -/
def copiedOut
    (s : RightState)
    (i : Nat)
    (p : Nat)
    (msgtName : Nat)
    (out : CopyoutOut) : RightState :=
  let t :=
    { s.setPort p out.port with
      entries := putEntry s.entries i (some out.entry) }
  if out.kr = .success then t.takeNaked p msgtName else t

end RightState

------
-- Steps
------

inductive RightAction where
-- `ipc_port_alloc_name`, and entries of other kinds
| alloc (space name p : Nat) (bits : EntryBits)
| allocSet (space name pset : Nat) (bits : EntryBits)
| allocDead (space name : Nat) (bits : EntryBits)
-- an entry for an object, and one without a right
| getEntry (space name p : Nat) (bits : EntryBits)
| freeEntry (i : Nat)
| makeSend (p : Nat)
| copySend (p : Nat)
| releaseSend (p : Nat)
| makeSonce (p : Nat)
| releaseSonce (p : Nat)
| releaseReceive (p : Nat) (circular : Bool) (timestamp : Nat)
| nsrequest (p sync : Nat) (notify : Option Nat)
| pdrequest (p : Nat) (notify : Bool)
| copyoutDest (space p msgtName : Nat)
| check (i : Nat)
| dnrequest
    (i : Nat) (immediate notify : Bool) (slot : Option Nat)
| dealloc (i : Nat)
| delta
    (i right : Nat) (delta : EntryBits)
    (circular : Bool) (timestamp : Nat)
| destroy (i : Nat) (circular : Bool) (timestamp : Nat)
| clean (i : Nat) (circular : Bool) (timestamp : Nat)
| copyin (i msgtName : Nat) (deadok : Bool)
| copyinTwo (i : Nat)
| copyinUndo (i msgtName object : Nat) (soright : Bool)
| copyout (i msgtName : Nat) (overflow : Bool)
deriving DecidableEq, Repr

/- What an operation that drops a right does to its entry. -/
def dropAction
    (h : Holding)
    (port : SenderPort) :
    RightAction → Option (Except Trap RightDrop)
| .check _ => some do
    let (_, e, hash) ← ipcRightCheck h.entry port.toRightPort
    .ok (quietly .success (some e) port hash)
| .dnrequest _ immediate notify slot => some do
    let (kr, e, hash) ←
      ipcRightDnrequest h.entry port immediate notify slot
    .ok (quietly kr (some e) port hash)
| .dealloc _ =>
    some (ipcRightDealloc h.space h.name h.entry port)
| .delta _ right delta circular timestamp =>
    some (ipcRightDelta h.space h.name h.entry port right delta
      circular timestamp)
| .destroy _ circular timestamp =>
    some (ipcRightDestroy h.space h.entry port circular
      timestamp)
| .clean _ circular timestamp =>
    some (ipcRightClean h.space h.name h.entry port circular
      timestamp)
| _ => none

/- Where an action works on an entry. -/
def RightAction.position : RightAction → Option Nat
| .freeEntry i | .check i | .dnrequest i _ _ _ | .dealloc i
| .delta i _ _ _ _ | .destroy i _ _ | .clean i _ _
| .copyin i _ _ | .copyinTwo i | .copyinUndo i _ _ _
| .copyout i _ _ => some i
| _ => none

/- Actions on an entry, and on the port that it is of. -/
def entryStep
    (s : RightState)
    (i : Nat)
    (h : Holding)
    (a : RightAction) : Option RightState :=
  let e := h.entry
  let p := e.ieObject
  let port := s.ports p
  match a with
  | .freeEntry _ =>
      if ieBitsType e.ieBits = machPortTypeNone then
        some { s with entries := putEntry s.entries i none }
      else none
  | .copyin _ msgtName deadok =>
      if ieBitsType e.ieBits = machPortTypeNone then none
      else do
        let type ← (ipcObjectCopyinType msgtName).toOption
        let out ←
          (ipcRightCopyin h.space h.name e port.toRightPort
            deadok msgtName).toOption
        some (s.copiedIn i p type 1 out)
  | .copyinTwo _ =>
      if ieBitsType e.ieBits = machPortTypeNone then none
      else do
        let out ←
          (ipcRightCopyinTwo h.space h.name e
            port.toRightPort).toOption
        some (s.copiedIn i p machMsgTypePortSend 2 out)
  | .copyinUndo _ msgtName object soright => do
      -- the object is dead, and was copied in from the entry
      let type ← (ipcObjectCopyinType msgtName).toOption
      if object = ioDead ∨
          (s.ports object).ipActive = false ∧
            s.hasNaked object type = true then do
        let out ←
          (ipcRightCopyinUndo e (s.ports object) msgtName object
            soright).toOption
        let t :=
          { s with entries := putEntry s.entries i out.1 }
        some (if object = ioDead then t
          else t.takeNaked object type)
      else none
  | .copyout _ msgtName overflow =>
      if s.hasNaked p msgtName = true ∧ MayTake e msgtName
      then do
        let out ←
          (ipcRightCopyout e port h.space h.name msgtName
            overflow).toOption
        some (s.copiedOut i p msgtName out)
      else none
  | _ =>
      if ieBitsType e.ieBits = machPortTypeNone then none
      else do
        let run ← dropAction h port a
        let out ← run.toOption
        some (s.dropped i p out)

/- Actions on a port, and new entries. -/
def portStep
    (s : RightState)
    (a : RightAction) : Option RightState :=
  match a with
  | .alloc space name p bits =>
      if s.Unnamed space name ∧ s.Unused p ∧
          bits &&& ieBitsRightMask = 0 then
        some
          { (s.setPort p (.ipcPortInit space name)).add space
              name ⟨bits ||| machPortTypeReceive, p, 0⟩ with
            log := update s.log p .empty }
      else none
  | .allocSet space name pset bits =>
      if s.Unnamed space name ∧ ioValid pset = true ∧
          bits &&& ieBitsRightMask = 0 then
        some (s.add space name
          ⟨bits ||| machPortTypePortSet, pset, 0⟩)
      else none
  | .allocDead space name bits =>
      if s.Unnamed space name ∧
          bits &&& ieBitsRightMask = 0 then
        some (s.add space name
          ⟨bits ||| (machPortTypeDeadName ||| 1), ioNull, 0⟩)
      else none
  | .getEntry space name p bits =>
      if s.Unnamed space name ∧
          (s.ports p).ipActive = true ∧
          bits &&& ieBitsRightMask = 0 then
        some (s.add space name ⟨bits, p, 0⟩)
      else none
  | .makeSend p => do
      let port ← (s.ports p).ipcPortMakeSend.toOption
      some { s.setPort p port with
        sends := update s.sends p (s.sends p + 1) }
  | .copySend p =>
      if 0 < s.sends p then do
        let (port, got) ←
          (s.ports p).ipcPortCopySend.toOption
        some { s.setPort p port with
          sends :=
            update s.sends p (s.sends p + got.toNat) }
      else none
  | .releaseSend p =>
      if 0 < s.sends p then do
        let (port, notified) ←
          (s.ports p).ipcPortReleaseSend.toOption
        some { (s.setPort p port).record p notified none with
          sends := update s.sends p (s.sends p - 1) }
      else none
  | .makeSonce p => do
      let port ← (s.ports p).ipcPortMakeSonce.toOption
      some { s.setPort p port with
        onces := update s.onces p (s.onces p + 1) }
  | .releaseSonce p =>
      if 0 < s.onces p then do
        let port ← (s.ports p).ipcPortReleaseSonce.toOption
        some { s.setPort p port with
          onces := update s.onces p (s.onces p - 1) }
      else none
  | .releaseReceive p circular timestamp =>
      if s.limbo p = true then do
        let ended ←
          ((s.ports p).ipcPortReleaseReceive circular
            timestamp).toOption
        some
          { (s.setPort p ended.port).record p none
              ended.thrown with
            limbo := update s.limbo p ended.backup }
      else none
  | .nsrequest p sync notify => do
      let (port, notified, previous) ←
        ((s.ports p).ipcPortNsrequest sync notify).toOption
      some { s.setPort p port with
        log := update s.log p
          { s.log p with
            made := (s.log p).made ++ notify.toList
            sent := (s.log p).sent ++ notified.toList
            returned :=
              (s.log p).returned ++ previous.toList } }
  | .pdrequest p notify => do
      let port ← ((s.ports p).ipcPortPdrequest notify).toOption
      some (s.setPort p port)
  | .copyoutDest space p msgtName =>
      if s.hasNaked p msgtName = true then do
        let out ←
          ((s.ports p).ipcObjectCopyoutDest space
            msgtName).toOption
        let t :=
          (s.setPort p out.port).record p out.notified none
        -- the right of a notification is naked again
        some (if out.sendOnce then t
          else t.takeNaked p msgtName)
      else none
  | _ => none

/- A step of any space, or of the kernel. -/
def rightStep
    (s : RightState)
    (a : RightAction) : Option RightState :=
  match a.position with
  | none => portStep s a
  | some i =>
      (s.entries[i]?).bind fun h => entryStep s i h a

end Ipc

end OsfMach
