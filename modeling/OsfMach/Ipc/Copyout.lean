import OsfMach.Ipc.Kmsg

/-
  Copying the body of a message out, and the scatter list of
  the receiver, from `ipc/ipc_kmsg.c`.

  What the receiver's space and map answer is a parameter. A
  right that is installed and a copy that is mapped are no
  longer the message's. The words of the scatter list that
  are read and the regions that are overwritten are recorded.

  Key definitions include:
    * `Receiver`, `ScatterLog`
    * `ipcKmsgCheckScatter`
    * `ipcKmsgCopyoutObject`, `ipcKmsgCopyoutBody`
-/

------
-- Receivers
------

namespace OsfMach

namespace Ipc

open Lib
open Lib.Checked

def machMsgAllocate : Nat := 2
def machMsgOverwrite : Nat := 3

def machMsgIpcSpace : Nat := 0x2000
def machMsgVmSpace : Nat := 0x1000
def machMsgIpcKernel : Nat := 0x800
def machMsgVmKernel : Nat := 0x400
def machMsgInvalidRtDescriptor : Nat := 0x200

/- Scatter descriptors, each with its address. -/
abbrev ScatterList := List (Nat × Descriptor)

/-
  The addresses of the scatter descriptors that were read,
  and the descriptors of the message that were paired.
-/
structure ScatterLog where
  read : List Nat
  paired : List (Descriptor × (Nat × Descriptor))

def ScatterLog.init : ScatterLog := ⟨[], []⟩

/- Bytes that are written to a region of the receiver. -/
structure Overwrite where
  addr : Nat
  room : Nat
  length : Nat
deriving DecidableEq, Repr

/-
  What the message holds and the ports; the scatter list; the
  regions that were written, the rights that the space has
  got and the copies that the map has got.
-/
structure Receiver where
  message : Sender
  scatter : ScatterLog
  written : List Overwrite
  installed : List Held
  mapped : List Held

def Receiver.start (message : Sender) : Receiver :=
  ⟨message, ScatterLog.init, [], [], []⟩

/- The answer of `ipc_object_copyout`. -/
inductive CopyoutAnswer where
| success (name : Nat)
| invalidCapability
| resourceShortage
| noSpace
deriving DecidableEq, Repr

/- The answer of the receiver's map. -/
inductive MapAnswer where
| success (addr : Nat)
| resourceShortage
| noSpace
deriving DecidableEq, Repr

/-
  The answers: to requests for memory, in their order; of the
  space, for the objects of each descriptor; of the map, for
  each descriptor.
-/
structure CopyoutAnswers where
  memory : KmsgAnswers
  object : Nat → Nat → CopyoutAnswer
  map : Nat → MapAnswer

abbrev CopyoutProg := Checked Receiver Stop

def onMessage
    {α : Type}
    (x : KmsgProg α) : CopyoutProg α :=
  onPart Receiver.message
    (fun r s => { r with message := s }) x

def onScatter
    {α : Type}
    (x : Checked ScatterLog Stop α) : CopyoutProg α :=
  onPart Receiver.scatter
    (fun r l => { r with scatter := l }) x

------
-- Scatter Lists
------

section Scatter

variable {ε : Type}

def readScatter (addr : Nat) : Checked ScatterLog ε Unit :=
  change fun l => { l with read := l.read ++ [addr] }

def pairScatter
    (g : Descriptor)
    (s : Nat × Descriptor) : Checked ScatterLog ε Unit :=
  change fun l => { l with paired := l.paired ++ [(g, s)] }

def Descriptor.isPort (d : Descriptor) : Bool :=
  d.type = machMsgPortDescriptor

/- `SKIP_PORT_DESCRIPTORS`; at the end nothing is left. -/
def skipPortDescriptors :
    ScatterList → Checked ScatterLog ε ScatterList
| [] => pure []
| (addr, s) :: ss => do
    readScatter addr
    if s.isPort then skipPortDescriptors ss
    else pure ((addr, s) :: ss)

end Scatter

inductive ScatterError where
| invalidType
| scatterSmall
deriving DecidableEq, Repr

/- Compare a scatter descriptor with the message's. -/
def checkPair (g s : Descriptor) : Except ScatterError Unit :=
  if g.isOol then
    if !s.isOol then .error .invalidType
    else if s.copy = machMsgOverwrite ∧ s.size < g.size then
      .error .scatterSmall
    else .ok ()
  else if s.type ≠ machMsgOolPortsDescriptor then
    .error .invalidType
  else if s.copy = machMsgOverwrite ∧ s.count < g.count then
    .error .scatterSmall
  else .ok ()

/-
  `ipc_kmsg_check_scatter`, of the descriptors of the message
  and of a scatter list with this count.
-/
def ipcKmsgCheckScatter
    (count : Nat) :
    List Descriptor → ScatterList →
      Checked ScatterLog ScatterError Unit
| [], _ => pure ()
| g :: gs, ss =>
    if g.isPort then ipcKmsgCheckScatter count gs ss
    else do
      require (count ≠ 0) .scatterSmall
      match ← skipPortDescriptors ss with
      | [] => pure ()
      | s :: ss => do
          pairScatter g s
          lift (checkPair g s.2)
          ipcKmsgCheckScatter count gs ss

------
-- Answers
------

/- The bits of an error of the map. -/
def MapAnswer.bits : MapAnswer → Nat
| .success _ => 0
| .resourceShortage => machMsgVmKernel
| .noSpace => machMsgVmSpace

/- The space gets a right, which is then someone else's. -/
def giveRight (object type : Nat) : KmsgProg Unit := do
  releaseHeld (.right object type)
  change fun s => { s with
    sends :=
      if type = machMsgTypePortSend then
        Function.update s.sends object (s.sends object + 1)
      else s.sends
    onces :=
      if type = machMsgTypePortSendOnce then
        Function.update s.onces object (s.onces object + 1)
      else s.onces }

def install (object type : Nat) : CopyoutProg Unit := do
  onMessage (giveRight object type)
  change fun r =>
    { r with installed := .right object type :: r.installed }

/- The map gets a copy. -/
def mapCopy (copy : Nat) : CopyoutProg Unit := do
  onMessage (releaseHeld (.copy copy))
  change fun r => { r with mapped := .copy copy :: r.mapped }

def writeOver (w : Overwrite) : CopyoutProg Unit :=
  change fun r => { r with written := r.written ++ [w] }

------
-- Descriptors
------

/- `ipc_kmsg_copyout_object`, with the space's answer. -/
def ipcKmsgCopyoutObject
    (env : KmsgAnswers)
    (answer : CopyoutAnswer)
    (object msgtName : Nat) : CopyoutProg (Nat × Nat) :=
  if !ioValid object then pure (0, object)
  else
    match answer with
    | .success name => do
        install object msgtName
        pure (0, name)
    | .invalidCapability => do
        onMessage (ipcObjectDestroy env object msgtName)
        pure (0, ioDead)
    | .resourceShortage => do
        onMessage (ipcObjectDestroy env object msgtName)
        pure (machMsgIpcKernel, ioNull)
    | .noSpace => do
        onMessage (ipcObjectDestroy env object msgtName)
        pure (machMsgIpcSpace, ioNull)

/- Copy out the objects of an array, from one of them on. -/
def copyoutObjects
    (env : KmsgAnswers)
    (answers : Nat → CopyoutAnswer)
    (msgtName : Nat) :
    Nat → List Nat → CopyoutProg Nat
| _, [] => pure 0
| j, object :: objects => do
    let (mr, _) ←
      ipcKmsgCopyoutObject env (answers j) object msgtName
    let mrs ← copyoutObjects env answers msgtName (j + 1) objects
    pure (mr ||| mrs)

/- The region that a scatter descriptor gives. -/
def overwriteOf (s : Descriptor) : Option Descriptor :=
  if s.copy = machMsgOverwrite then some s else none

/- The scatter descriptor for a descriptor, and the rest. -/
def takeScatter
    (d : Descriptor)
    (ss : ScatterList) :
    CopyoutProg (Option Descriptor × ScatterList) := do
  match ← onScatter (skipPortDescriptors ss) with
  | [] => pure (none, [])
  | s :: ss => do
      onScatter (pairScatter d s)
      pure (overwriteOf s.2, ss)

def freeBuffer (d : Descriptor) (length : Nat) :
    CopyoutProg Unit :=
  onMessage (releaseHeld (.buffer d.address length))

/- Small data is copied out and its buffer freed. -/
def copyoutSmall
    (cfg : KmsgConfig)
    (answer : MapAnswer)
    (d : Descriptor)
    (region : Option Descriptor) :
    CopyoutProg (Nat × Descriptor) :=
  match region with
  | some s => do
      writeOver ⟨s.address, s.size, d.size⟩
      freeBuffer d d.size
      pure (0, { d with
        address := s.address
        copy := machMsgOverwrite })
  | none =>
      if cfg.rt then do
        freeBuffer d d.size
        pure (machMsgInvalidRtDescriptor,
          { d with address := 0, copy := machMsgAllocate })
      else
        -- `vm_allocate`
        match answer with
        | .success addr => do
            freeBuffer d d.size
            pure (0, { d with
              address := addr
              copy := machMsgAllocate })
        | no => do
            freeBuffer d d.size
            pure (no.bits, { d with
              address := 0
              copy := machMsgAllocate })

/- A copy is mapped, or overwrites a region. -/
def copyoutCopy
    (answer : MapAnswer)
    (d : Descriptor)
    (region : Option Descriptor) :
    CopyoutProg (Nat × Descriptor) :=
  match region with
  | some s => do
      writeOver ⟨s.address, s.size, d.size⟩
      -- `vm_map_copy_overwrite`
      match answer with
      | .success _ => do
          mapCopy d.address
          pure (0, { d with
            address := s.address
            copy := machMsgOverwrite })
      | no => do
          onMessage (vmMapCopyDiscard d.address)
          pure (no.bits, { d with
            address := 0
            copy := machMsgOverwrite })
  | none =>
      -- `vm_map_copyout`
      match answer with
      | .success addr => do
          mapCopy d.address
          pure (0, { d with
            address := addr
            copy := machMsgAllocate })
      | no => do
          onMessage (vmMapCopyDiscard d.address)
          pure (no.bits, { d with
            address := 0
            copy := machMsgAllocate })

/- Copy out out-of-line memory. -/
def copyoutOol
    (cfg : KmsgConfig)
    (answer : MapAnswer)
    (d : Descriptor)
    (region : Option Descriptor) :
    CopyoutProg (Nat × Descriptor) := do
  require (d.copy ≠ machMsgKallocCopyT) (.trap .assertion)
  require (d.copy ≠ machMsgPageListCopyT) (.trap .assertion)
  if d.address = 0 then pure (0, d)
  else if d.copy = machMsgPhysicalCopy ∧
      d.size < cfg.msgOolSizeSmall then
    copyoutSmall cfg answer d region
  else copyoutCopy answer d region

/- Copy out the ports of an array to where it goes. -/
def copyoutArray
    (env : KmsgAnswers)
    (answers : Nat → CopyoutAnswer)
    (d : Descriptor)
    (addr : Nat) : CopyoutProg (Nat × Descriptor) := do
  require (d.address ≠ 0) (.trap .wild)
  let r ← read
  let objects := r.message.buffers d.address
  require (d.count ≤ objects.length) (.trap .wild)
  let mr ← copyoutObjects env answers d.disposition 0
    (objects.take d.count)
  freeBuffer d d.portsLength
  pure (mr, { d with address := addr })

section

variable (cfg : KmsgConfig) (env : CopyoutAnswers)
variable (done rest : List Descriptor) (d : Descriptor)

/-
  Copy out an array of ports. When there is no space for it
  the whole body is cleaned.
-/
def copyoutPorts
    (region : Option Descriptor) :
    CopyoutProg (Nat × Descriptor) :=
  let answers := env.object done.length
  if d.portsLength = 0 then pure (0, d)
  else
    match region with
    | some s => do
        writeOver ⟨s.address, s.count * 4, d.portsLength⟩
        copyoutArray env.memory answers
          { d with copy := machMsgOverwrite } s.address
    | none =>
        if cfg.rt then do
          onMessage
            (ipcKmsgCleanBody cfg env.memory
              (done ++ d :: rest))
          pure (machMsgInvalidRtDescriptor,
            { d with address := 0 })
        else
          let d := { d with copy := machMsgAllocate }
          -- `vm_allocate`
          match env.map done.length with
          | .success addr =>
              copyoutArray env.memory answers d addr
          | no => do
              onMessage
                (ipcKmsgCleanBody cfg env.memory
                  (done ++ d :: rest))
              pure (no.bits, { d with address := 0 })

/-
  The body of the loop of `ipc_kmsg_copyout_body`, after the
  descriptors that are done.
-/
def copyoutDescriptor
    (ss : ScatterList) :
    CopyoutProg (Nat × Descriptor × ScatterList) :=
  match d.type with
  | machMsgPortDescriptor => do
      let (mr, name) ← ipcKmsgCopyoutObject env.memory
        (env.object done.length 0) d.name d.disposition
      pure (mr, { d with address := name }, ss)
  | machMsgOolVolatileDescriptor | machMsgOolDescriptor => do
      let (region, ss) ← takeScatter d ss
      let (mr, d) ←
        copyoutOol cfg (env.map done.length) d region
      pure (mr, d, ss)
  | machMsgOolPortsDescriptor => do
      let (region, ss) ← takeScatter d ss
      let (mr, d) ← copyoutPorts cfg env done rest d region
      pure (mr, d, ss)
  | _ => stop (.trap .panic)

end

/- What all descriptors but those of ports do. -/
def withRegion
    (d : Descriptor)
    (ss : ScatterList)
    (f : Option Descriptor → CopyoutProg (Nat × Descriptor)) :
    CopyoutProg (Nat × Descriptor × ScatterList) := do
  let (region, ss) ← takeScatter d ss
  let (mr, d) ← f region
  pure (mr, d, ss)

/- The loop, which goes on after errors. -/
def copyoutLoop
    (cfg : KmsgConfig)
    (env : CopyoutAnswers) :
    List Descriptor → List Descriptor → ScatterList → Nat →
      CopyoutProg (Nat × List Descriptor)
| done, [], _, mr => pure (mr, done)
| done, d :: rest, ss, mr => do
    let (bits, d, ss) ←
      copyoutDescriptor cfg env done rest d ss
    copyoutLoop cfg env (done ++ [d]) rest ss (mr ||| bits)

/-
  `ipc_kmsg_copyout_body`, of the descriptors of a message,
  with a scatter list, which may be empty.
-/
def ipcKmsgCopyoutBody
    (cfg : KmsgConfig)
    (env : CopyoutAnswers)
    (ds : List Descriptor)
    (ss : ScatterList) :
    CopyoutProg (Nat × List Descriptor) :=
  copyoutLoop cfg env [] ds ss 0

end Ipc

end OsfMach
