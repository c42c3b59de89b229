import OsfMach.Lib.Prog
import OsfMach.Vm.Map

/-
  Operations that allocate and remove addresses of a map,
  from `vm/vm_map.c`, as programs on the map.

  Each program is a whole call that no other call comes in
  between. A program is stuck where the source panics or
  would wait for another call. What the layers below answer
  is a parameter.

  Key definitions include:
    * `MapProg`, `VmAnswers`
    * `rangeAllocate`, `vmMapDelete`
-/

------
-- Programs on a Map
------

namespace OsfMach

namespace Vm

open Lib

abbrev MapProg := Prog VmMap

def protRead : Nat := 1
def protDefault : Nat := 3
def protAll : Nat := 7
def inheritShare : Nat := 0
def inheritCopy : Nat := 1
def inheritNone : Nat := 2
def inheritDefault : Nat := inheritCopy
def roundPage (x : Nat) : Nat :=
  truncPage ((x + (pageSize - 1)) % offsetModulus)

/-
  What the rest of the kernel answers during a call. An
  answer that is asked for in a loop depends on the turn.
-/
structure VmAnswers where
  -- flags of the map that other calls set
  wiringRequired : Bool
  waitForSpace : Bool
  -- whether a wait is interrupted
  interrupted : Bool
  -- fields of objects
  internal : MapObject → Bool
  symmetric : MapObject → Bool
  shadowed : MapObject → Bool
  objectSize : MapObject → Nat
  -- `vm_object_coalesce`, and the test before inserting pages
  coalesce : VmMapEntry → Bool
  -- `vm_object_allocate`
  allocate : Nat → Nat
  -- `vm_object_shadow`, which may find the object its own
  shadow : Nat → Option Nat
  -- `vm_fault_wire`, `vm_fault_copy` and continuations
  fault : Nat → KernReturn
  -- `vm_object_copy_quickly`: the object, and the needs of
  -- the source and of the copy to be copied
  copyQuickly : Nat → Option (MapObject × Bool × Bool)
  -- `vm_object_copy_slowly`, `vm_object_copy_strategically`
  copyObject : Nat → KernReturn × MapObject × Nat × Bool

namespace MapProg

/- The entry behind a pointer. -/
def deref (i : Option Nat) : MapProg VmMapEntry := do
  let m ← get
  match i.bind m.find with
  | some e => pure e
  | none => Prog.stuck

/- The addresses of an entry, or of the header. -/
def boundsOf (i : Option Nat) : MapProg (Nat × Nat) := do
  let m ← get
  match m.bounds i with
  | some b => pure b
  | none => Prog.stuck

def vmeNext (i : Option Nat) : MapProg (Option Nat) := do
  let m ← get
  pure (m.vmeNext i)

def vmePrev (i : Option Nat) : MapProg (Option Nat) := do
  let m ← get
  pure (m.vmePrev i)

def update
    (i : Nat)
    (f : VmMapEntry → VmMapEntry) : MapProg Unit :=
  modify fun m => m.modify i f

def lookupEntry
    (address : Nat) : MapProg (Bool × Option Nat) := do
  let m ← get
  let r := m.lookupEntry address
  set r.2.2
  pure (r.1, r.2.1)

def saveHint (i : Option Nat) : MapProg Unit :=
  modify fun m => m.saveHint i

/- `vm_map_clip_start`, less the reference to the object. -/
def clipStart (i start : Nat) : MapProg Unit := do
  let m ← get
  match (MapState.mk m fun _ => 0).clipStart i start with
  | some s => set s.map
  | none => Prog.stuck

def clipEnd (i stop : Nat) : MapProg Unit := do
  let m ← get
  match (MapState.mk m fun _ => 0).clipEnd i stop with
  | some s => set s.map
  | none => Prog.stuck

end MapProg

/- `vm_map_create`. -/
def vmMapCreate (min max : Nat) : VmMap :=
  { minOffset := min
    maxOffset := max
    entries := []
    nentries := 0
    size := 0
    hint := none
    firstFree := none
    nextEntry := 0 }

------
-- Finding Space
------

/- A range that is free, and the entry before it. -/
structure Place where
  insp : Option Nat
  start : Nat
  stop : Nat
deriving DecidableEq, Repr

inductive SpaceResult where
| found (place : Place)
| wraps
| full
deriving DecidableEq, Repr

/- `(start + mask) & ~mask` -/
def alignUp (start mask : Nat) : Nat :=
  ((start + mask) % offsetModulus) &&&
    (offsetModulus - 1 - mask)

/-
  The loop for a free range: the entry always precedes the
  proposed range, and the list is of the entries after it.
-/
def spaceFrom
    (max size mask : Nat) :
    Option Nat → Nat → List VmMapEntry → SpaceResult
| insp, start, [] =>
    let aligned := alignUp start mask
    let stop := (aligned + size) % offsetModulus
    if aligned < start then .wraps
    else if max < stop ∨ stop < aligned then .full
    else .found ⟨insp, aligned, stop⟩
| insp, start, next :: rest =>
    let aligned := alignUp start mask
    let stop := (aligned + size) % offsetModulus
    if aligned < start then .wraps
    else if max < stop ∨ stop < aligned then .full
    else if stop ≤ next.vmeStart then
      .found ⟨insp, aligned, stop⟩
    else spaceFrom max size mask (some next.entryId)
      next.vmeEnd rest

/- Look for space from the lowest hole on. -/
def spaceFromFree
    (size mask : Nat) : MapProg SpaceResult := do
  let m ← get
  match m.firstFree with
  | none =>
      pure (spaceFrom m.maxOffset size mask none m.minOffset
        m.entries)
  | some i => do
      let e ← MapProg.deref (some i)
      pure (spaceFrom m.maxOffset size mask (some i)
        e.vmeEnd (m.after (some i)))

/- The entry that `vm_map_find_space` makes. -/
def plainEntry (start stop : Nat) : VmMapEntry :=
  { entryId := 0
    vmeStart := start
    vmeEnd := stop
    object := .vmObject none
    offset := 0
    isShared := false
    inTransition := false
    needsWakeup := false
    behavior := .default
    needsCopy := false
    protection := protDefault
    maxProtection := protAll
    inheritance := inheritDefault
    wiredCount := 0
    userWiredCount := 0 }

/- Look for space from an address on. -/
def spaceAnywhere
    (size mask start : Nat) : MapProg SpaceResult := do
  let m ← get
  if start = m.minOffset then spaceFromFree size mask
  else do
    let r ← MapProg.lookupEntry start
    if r.1 then do
      let e ← MapProg.deref r.2
      pure (spaceFrom m.maxOffset size mask r.2 e.vmeEnd
        (m.after r.2))
    else
      pure (spaceFrom m.maxOffset size mask r.2 start
        (m.after r.2))

/-
  The choice of a range by `vm_map_enter` and by
  `vm_remap_range_allocate`.
-/
def rangeAllocate
    (a : VmAnswers)
    (address size mask : Nat)
    (anywhere : Bool) :
    MapProg (Except KernReturn Place) := do
  let m ← get
  if anywhere then
    let start :=
      if address < m.minOffset then m.minOffset else address
    if m.maxOffset < start then pure (.error .noSpace)
    else do
      match ← spaceAnywhere size mask start with
      | .found place => pure (.ok place)
      | .wraps => pure (.error .noSpace)
      | .full =>
          -- the thread waits until there is space
          if a.waitForSpace = true ∧
              size ≤ m.maxOffset - m.minOffset then
            Prog.stuck
          else pure (.error .noSpace)
  else if address &&& mask ≠ 0 then pure (.error .noSpace)
  else
    let stop := (address + size) % offsetModulus
    if address < m.minOffset ∨ m.maxOffset < stop ∨
        stop ≤ address then pure (.error .invalidAddress)
    else do
      let r ← MapProg.lookupEntry address
      if r.1 then pure (.error .noSpace)
      else
        match (m.after r.2).head? with
        | none => pure (.ok ⟨r.2, address, stop⟩)
        | some next =>
            if next.vmeStart < stop then
              pure (.error .noSpace)
            else pure (.ok ⟨r.2, address, stop⟩)

------
-- Entries
------

/- Clear the transition of the entries up to an address. -/
def clearTransition
    (stop : Nat)
    (f : VmMapEntry → VmMapEntry) :
    Nat → Option Nat → MapProg (Option Nat)
| 0, _ => Prog.stuck
| _ + 1, none => pure none
| fuel + 1, some i => do
    let e ← MapProg.deref (some i)
    if e.vmeStart < stop then do
      MapProg.update i fun x =>
        f { x with inTransition := false, needsWakeup := false }
      let next ← MapProg.vmeNext (some i)
      clearTransition stop f fuel next
    else pure (some i)

/- Give an entry a shadow of its object, if it needs one. -/
def shadowEntry
    (a : VmAnswers)
    (turn : Nat)
    (e : VmMapEntry) : VmMapEntry :=
  match a.shadow turn with
  | some o =>
      { e with
        object := .vmObject (some o)
        offset := 0
        needsCopy := false }
  | none => { e with needsCopy := false }

def allocateEntry
    (a : VmAnswers)
    (turn : Nat)
    (e : VmMapEntry) : VmMapEntry :=
  { e with
    object := .vmObject (some (a.allocate turn))
    offset := 0 }

------
-- Deleting a Range
------

structure DeleteFlags where
  kunwire : Bool
  interruptible : Bool
  waitForKwire : Bool
deriving DecidableEq, Repr

/- `vm_map_entry_delete`. -/
def entryDelete (e : VmMapEntry) : MapProg Unit :=
  modify fun m =>
    let unlinked := m.entryUnlink e
    { unlinked with
      size := unlinked.size - (e.vmeEnd - e.vmeStart) }

/- Take off the user wirings, and a kernel one with them. -/
def dropWiring
    (flags : DeleteFlags)
    (e : VmMapEntry) : VmMapEntry :=
  { e with
    wiredCount :=
      if flags.kunwire = true ∨ 0 < e.userWiredCount then
        e.wiredCount - 1
      else e.wiredCount
    userWiredCount := 0 }

/- Wait for an entry, which only an interrupt ends here. -/
def deleteWait
    (a : VmAnswers)
    (flags : DeleteFlags)
    (i : Nat) : MapProg KernReturn := do
  MapProg.update i fun x => { x with needsWakeup := true }
  if flags.interruptible = true ∧ a.interrupted = true then
    pure .aborted
  else Prog.stuck

/-
  The entry after the map was unlocked for the faults. The
  first time no time stamp is known, and it is looked up.
-/
def deleteAgain
    (stamped : Bool)
    (e : VmMapEntry) : MapProg (Option Nat) := do
  if stamped then do
    let prev ← MapProg.vmePrev (some e.entryId)
    MapProg.saveHint prev
    pure (some e.entryId)
  else do
    let r ← MapProg.lookupEntry e.vmeStart
    if r.1 then do
      let prev ← MapProg.vmePrev (some e.entryId)
      MapProg.saveHint prev
      pure r.2
    else MapProg.vmeNext r.2

/-
  The loop of `vm_map_delete` from an entry on. A retry of
  an entry goes past the test of the loop and the clipping.
-/
def deleteLoop
    (a : VmAnswers)
    (flags : DeleteFlags)
    (stop : Nat) :
    Nat → Bool → Bool → Option Nat → MapProg KernReturn
| 0, _, _, _ => Prog.stuck
| _ + 1, retry, _, none =>
    if retry then Prog.stuck else pure .success
| fuel + 1, retry, stamped, some i => do
    let e ← MapProg.deref (some i)
    if retry = true ∨ e.vmeStart < stop then do
      Prog.onlyIf (retry = false) (MapProg.clipEnd i stop)
      let e ← MapProg.deref (some i)
      if e.inTransition then deleteWait a flags i
      else if e.wiredCount ≠ 0 then do
        MapProg.update i (dropWiring flags)
        let e ← MapProg.deref (some i)
        if e.wiredCount ≠ 0 then
          if flags.waitForKwire then deleteWait a flags i
          else pure .failure
        else do
          MapProg.update i fun x =>
            { x with inTransition := true }
          let first ← deleteAgain stamped e
          let _ ← clearTransition e.vmeEnd id fuel first
          deleteLoop a flags stop fuel true true first
      else do
        let next ← MapProg.vmeNext (some i)
        entryDelete e
        deleteLoop a flags stop fuel false stamped next
    else pure .success

def vmMapDelete
    (a : VmAnswers)
    (flags : DeleteFlags)
    (fuel start stop : Nat) : MapProg KernReturn := do
  let r ← MapProg.lookupEntry start
  match r.1, r.2 with
  | true, some i => do
      MapProg.clipStart i start
      let prev ← MapProg.vmePrev (some i)
      MapProg.saveHint prev
      deleteLoop a flags stop fuel false false (some i)
  | true, none => Prog.stuck
  | false, prev => do
      let next ← MapProg.vmeNext prev
      deleteLoop a flags stop fuel false false next

end Vm

end OsfMach
