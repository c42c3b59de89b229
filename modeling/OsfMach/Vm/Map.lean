import Mathlib.Algebra.Group.Nat.Defs
import Mathlib.Data.List.Basic
import Mathlib.Logic.Function.Basic

/-
  Address maps, from `vm/vm_map.h` and `vm/vm_map.c`.

  A map is a list of entries, linked in the order of their
  addresses. Pointers to entries are numbers that no two
  entries share, and the header of the map is `none`. The
  reference counts are those of the objects and maps that
  entries refer to.

  Key definitions include:
    * `VmMapEntry`, `VmMap`, `MapState`
    * `VmMap.updateFirstFree`, `VmMap.lookupEntry`
    * `MapState.clipStart`, `MapState.clipEnd`
    * `vmMapProtect`, `vmMapInherit`, `vmMapBehaviorSet`,
      `vmMapSimplify`
-/

------
-- Entries and Maps
------

namespace OsfMach

namespace Vm

/- What an entry maps: an object, if any, or another map. -/
inductive MapObject where
| vmObject (object : Option Nat)
| subMap (map : Nat)
deriving DecidableEq, Repr

inductive VmBehavior where
| default
| random
| sequential
| rseqntl
deriving DecidableEq, Repr

/- `struct vm_map_entry`. -/
structure VmMapEntry where
  entryId : Nat
  vmeStart : Nat
  vmeEnd : Nat
  object : MapObject
  offset : Nat
  isShared : Bool
  inTransition : Bool
  needsWakeup : Bool
  behavior : VmBehavior
  needsCopy : Bool
  protection : Nat
  maxProtection : Nat
  inheritance : Nat
  wiredCount : Nat
  userWiredCount : Nat
deriving DecidableEq, Repr

/- `struct vm_map`, with a number for the next entry. -/
structure VmMap where
  minOffset : Nat
  maxOffset : Nat
  entries : List VmMapEntry
  nentries : Nat
  size : Nat
  hint : Option Nat
  firstFree : Option Nat
  nextEntry : Nat
deriving DecidableEq, Repr

/- A map that is locked, and the reference counts. -/
structure MapState where
  map : VmMap
  refCount : MapObject → Nat

inductive KernReturn where
| success
| invalidAddress
| invalidArgument
| protectionFailure
| noSpace
| failure
| aborted
| memoryError
| restartCopy
deriving DecidableEq, Repr

def pageSize : Nat := 4096

/- Offsets and addresses are unsigned 32-bit words. -/
def offsetModulus : Nat := 2 ^ 32

def truncPage (x : Nat) : Nat :=
  x - x % pageSize

namespace VmMapEntry

def isSubMap (e : VmMapEntry) : Bool :=
  match e.object with
  | .vmObject _ => false
  | .subMap _ => true

/- Offset of an address of the entry in its object. -/
def offsetAt (e : VmMapEntry) (a : Nat) : Nat :=
  (e.offset + (a - e.vmeStart)) % offsetModulus

end VmMapEntry

------
-- Links
------

namespace VmMap

def find (m : VmMap) (i : Nat) : Option VmMapEntry :=
  m.entries.find? fun e => e.entryId == i

/- The entries after an entry, or after the header. -/
def after (m : VmMap) : Option Nat → List VmMapEntry
| none => m.entries
| some i =>
    (m.entries.dropWhile fun e => e.entryId != i).tail

/- The entries before an entry, or before the header. -/
def before (m : VmMap) : Option Nat → List VmMapEntry
| none => m.entries
| some i => m.entries.takeWhile fun e => e.entryId != i

def vmeNext (m : VmMap) (i : Option Nat) : Option Nat :=
  (m.after i).head?.map VmMapEntry.entryId

def vmePrev (m : VmMap) (i : Option Nat) : Option Nat :=
  (m.before i).getLast?.map VmMapEntry.entryId

/- Change the fields of one entry. -/
def modify
    (m : VmMap)
    (i : Nat)
    (f : VmMapEntry → VmMapEntry) : VmMap :=
  { m with
    entries :=
      m.entries.map fun e =>
        if e.entryId = i then f e else e }

/- `_vm_map_entry_link`. -/
def entryLinkHdr
    (m : VmMap)
    (afterWhere : Option Nat)
    (e : VmMapEntry) : VmMap :=
  { m with
    nentries := m.nentries + 1
    entries :=
      match afterWhere with
      | none => e :: m.entries
      | some i =>
          m.entries.flatMap fun x =>
            if x.entryId = i then [x, e] else [x] }

/- `_vm_map_entry_unlink`. -/
def entryUnlinkHdr (m : VmMap) (i : Nat) : VmMap :=
  { m with
    nentries := m.nentries - 1
    entries := m.entries.filter fun e => e.entryId != i }

/-
  The loop of `UPDATE_FIRST_FREE` from an entry with the
  given addresses over the entries after it. The header
  follows the last entry, and it starts where the map does.
-/
def walkFirstFree
    (m : VmMap)
    (first : Option Nat)
    (start stop : Nat) :
    List VmMapEntry → Option Nat
| [] =>
    if truncPage m.minOffset = truncPage stop then none
    else first
| e :: rest =>
    if truncPage e.vmeStart = truncPage stop ∨
        truncPage e.vmeStart = truncPage start then
      m.walkFirstFree (some e.entryId) e.vmeStart e.vmeEnd
        rest
    else first

/- The addresses of an entry or of the header. -/
def bounds (m : VmMap) : Option Nat → Option (Nat × Nat)
| none => some (m.minOffset, m.maxOffset)
| some i =>
    (m.find i).map fun e => (e.vmeStart, e.vmeEnd)

def updateFirstFree
    (m : VmMap)
    (newFirstFree : Option Nat) : VmMap :=
  match m.bounds newFirstFree with
  | none => m
  | some (start, stop) =>
      { m with
        firstFree :=
          m.walkFirstFree newFirstFree start stop
            (m.after newFirstFree) }

/- `vm_map_entry_link`. -/
def entryLink
    (m : VmMap)
    (afterWhere : Option Nat)
    (e : VmMapEntry) : VmMap :=
  (m.entryLinkHdr afterWhere e).updateFirstFree m.firstFree

/-
  `vm_map_entry_unlink`: the entry before the first hole is
  looked for from before the entry, if it was there or
  after it.
-/
def entryUnlink
    (m : VmMap)
    (e : VmMapEntry) : VmMap :=
  match m.bounds m.firstFree with
  | none => m
  | some (start, _) =>
      let newFirstFree :=
        if e.vmeStart ≤ start then m.vmePrev (some e.entryId)
        else m.firstFree
      (m.entryUnlinkHdr e.entryId).updateFirstFree
        newFirstFree

def saveHint (m : VmMap) (i : Option Nat) : VmMap :=
  { m with hint := i }

------
-- Looking up an Address
------

/-
  The linear search of `vm_map_lookup_entry`. The entry
  before the ones searched is the answer if none is later.
-/
def searchEntry
    (address : Nat) :
    Option Nat → List VmMapEntry → Bool × Option Nat
| prev, [] => (false, prev)
| prev, e :: rest =>
    if address < e.vmeEnd then
      if e.vmeStart ≤ address then (true, some e.entryId)
      else (false, prev)
    else searchEntry address (some e.entryId) rest

/- The hint, or the first entry if that is the header. -/
def lookupFrom (m : VmMap) : Option Nat :=
  match m.hint with
  | none => m.vmeNext none
  | some i => some i

/-
  Find the entry that contains an address, or the one before
  it, from the hint on or from the first entry up to it.
-/
def lookupEntry
    (m : VmMap)
    (address : Nat) : Bool × Option Nat × VmMap :=
  match m.lookupFrom.bind m.find with
  | none =>
      -- the list is empty, and both loops end at once
      (false, m.vmePrev none, m.saveHint (m.vmePrev none))
  | some e =>
      if e.vmeStart ≤ address then
        if address < e.vmeEnd then (true, some e.entryId, m)
        else
          let r := searchEntry address
            (m.vmePrev (some e.entryId))
            (e :: m.after (some e.entryId))
          (r.1, r.2, m.saveHint r.2)
      else
        let r := searchEntry address none
          (m.before (some e.entryId) ++ [e])
        (r.1, r.2, m.saveHint r.2)

end VmMap

------
-- Clipping
------

/- `vm_object_reference` or `vm_map_reference`. -/
def referenceObject
    (refCount : MapObject → Nat)
    (object : MapObject) : MapObject → Nat :=
  if object = .vmObject none then refCount
  else
    Function.update refCount object (refCount object + 1)

/- `vm_object_deallocate` of an object with other holders. -/
def deallocateObject
    (refCount : MapObject → Nat)
    (object : MapObject) : MapObject → Nat :=
  if object = .vmObject none then refCount
  else
    Function.update refCount object (refCount object - 1)

namespace VmMap

/- Split off the front portion, as a new entry before. -/
def clipStartHdr
    (m : VmMap)
    (e : VmMapEntry)
    (start : Nat) : VmMap :=
  let new :=
    { e with entryId := m.nextEntry, vmeEnd := start }
  let clipped :=
    m.modify e.entryId fun x =>
      { x with
        offset :=
          (x.offset + (start - x.vmeStart)) % offsetModulus
        vmeStart := start }
  { clipped.entryLinkHdr (m.vmePrev (some e.entryId)) new
    with nextEntry := m.nextEntry + 1 }

/- Split off the end portion, as a new entry after. -/
def clipEndHdr
    (m : VmMap)
    (e : VmMapEntry)
    (stop : Nat) : VmMap :=
  let new :=
    { e with
      entryId := m.nextEntry
      vmeStart := stop
      offset :=
        (e.offset + (stop - e.vmeStart)) % offsetModulus }
  let clipped :=
    m.modify e.entryId fun x => { x with vmeEnd := stop }
  { clipped.entryLinkHdr (some e.entryId) new
    with nextEntry := m.nextEntry + 1 }

end VmMap

namespace MapState

def setMap (s : MapState) (m : VmMap) : MapState :=
  { s with map := m }

/- `vm_map_clip_start`. -/
def clipStart
    (s : MapState)
    (i start : Nat) : Option MapState :=
  match s.map.find i with
  | none => none
  | some e =>
      let clipped :=
        if e.vmeStart < start then
          { map := s.map.clipStartHdr e start
            refCount :=
              referenceObject s.refCount e.object }
        else s
      some (clipped.setMap
        (clipped.map.updateFirstFree clipped.map.firstFree))

/- `vm_map_clip_end`. -/
def clipEnd
    (s : MapState)
    (i stop : Nat) : Option MapState :=
  match s.map.find i with
  | none => none
  | some e =>
      let clipped :=
        if stop < e.vmeEnd then
          { map := s.map.clipEndHdr e stop
            refCount :=
              referenceObject s.refCount e.object }
        else s
      some (clipped.setMap
        (clipped.map.updateFirstFree clipped.map.firstFree))

end MapState

------
-- Operations on Ranges
------

/-
  The loop of the range operations: from an entry on, clip
  each entry to the range and change its fields.
-/
def applyRange
    (stop : Nat)
    (f : VmMapEntry → VmMapEntry) :
    Nat → MapState → Option Nat → Option MapState
| 0, _, _ => none
| _ + 1, s, none => some s
| fuel + 1, s, some i =>
    match s.map.find i with
    | none => none
    | some e =>
        if e.vmeStart < stop then
          match s.clipEnd i stop with
          | none => none
          | some s =>
              let s := s.setMap (s.map.modify i f)
              applyRange stop f fuel s
                (s.map.vmeNext (some i))
        else some s

/-
  The first pass of `vm_map_protect`, which changes nothing,
  over the entries from the one at the start.
-/
def protectCheck
    (stop newProt : Nat) :
    Nat → List VmMapEntry → KernReturn
| prev, [] =>
    if prev < stop then .invalidAddress else .success
| prev, e :: rest =>
    if e.vmeStart < stop then
      if e.isSubMap then .invalidArgument
      else if e.vmeStart ≠ prev then .invalidAddress
      else if newProt &&& e.maxProtection ≠ newProt then
        .protectionFailure
      else protectCheck stop newProt e.vmeEnd rest
    else if prev < stop then .invalidAddress
    else .success

/- What `vm_map_protect` does to an entry. -/
def protectEntry
    (newProt : Nat)
    (setMax : Bool)
    (e : VmMapEntry) : VmMapEntry :=
  if setMax then
    { e with
      maxProtection := newProt
      protection := newProt &&& e.protection }
  else { e with protection := newProt }

def vmMapProtect
    (fuel : Nat)
    (s : MapState)
    (start stop newProt : Nat)
    (setMax : Bool) : Option (KernReturn × MapState) :=
  match s.map.lookupEntry start with
  | (false, _, m) => some (.invalidAddress, s.setMap m)
  | (true, none, _) => none
  | (true, some i, m) =>
      match m.find i with
      | none => none
      | some e =>
          match protectCheck stop newProt e.vmeStart
              (e :: m.after (some i)) with
          | .success =>
              match (s.setMap m).clipStart i start with
              | none => none
              | some s =>
                  (applyRange stop
                    (protectEntry newProt setMax) fuel s
                    (some i)).map fun s => (.success, s)
          | error => some (error, s.setMap m)

/- `VM_MAP_RANGE_CHECK`. -/
def rangeClamp
    (m : VmMap)
    (start stop : Nat) : Nat × Nat :=
  let start :=
    if start < m.minOffset then m.minOffset else start
  let stop :=
    if m.maxOffset < stop then m.maxOffset else stop
  (if stop < start then stop else start, stop)

def inheritEntry
    (newInheritance : Nat)
    (e : VmMapEntry) : VmMapEntry :=
  { e with inheritance := newInheritance }

def vmMapInherit
    (fuel : Nat)
    (s : MapState)
    (start stop newInheritance : Nat) :
    Option (KernReturn × MapState) :=
  let range := rangeClamp s.map start stop
  let found := s.map.lookupEntry range.1
  let s := s.setMap found.2.2
  let loop (s : MapState) (entry : Option Nat) :=
    (applyRange range.2 (inheritEntry newInheritance) fuel s
      entry).map fun s => (KernReturn.success, s)
  match found.1, found.2.1 with
  | true, none => none
  | true, some i =>
      match s.clipStart i range.1 with
      | none => none
      | some s => loop s (some i)
  | false, prev => loop s (s.map.vmeNext prev)

/- The walk of `vm_map_range_check` over adjacent entries. -/
def rangeAdjacent
    (stop : Nat) : Nat → List VmMapEntry → Bool
| _, [] => false
| prev, e :: rest =>
    if prev = e.vmeStart then
      if stop ≤ e.vmeEnd then true
      else rangeAdjacent stop e.vmeEnd rest
    else false

/- The entry at the start of a range without holes. -/
def vmMapRangeCheck
    (m : VmMap)
    (start stop : Nat) : Option Nat × VmMap :=
  if start < m.minOffset ∨ m.maxOffset < stop ∨
      stop < start then (none, m)
  else
    match m.lookupEntry start with
    | (true, some i, m) =>
        match m.find i with
        | none => (none, m)
        | some e =>
            if stop ≤ e.vmeEnd then (some i, m)
            else if rangeAdjacent stop e.vmeEnd
                (m.after (some i)) then (some i, m)
            else (none, m)
    | (_, _, m) => (none, m)

/- The behaviors that there are. -/
def VmBehavior.decode : Nat → Option VmBehavior
| 0 => some .default
| 1 => some .random
| 2 => some .sequential
| 3 => some .rseqntl
| _ => none

def behaviorEntry
    (newBehavior : VmBehavior)
    (e : VmMapEntry) : VmMapEntry :=
  { e with behavior := newBehavior }

def vmMapBehaviorSet
    (fuel : Nat)
    (s : MapState)
    (start stop newBehavior : Nat) :
    Option (KernReturn × MapState) :=
  match VmBehavior.decode newBehavior with
  | none => some (.invalidArgument, s)
  | some b =>
      match vmMapRangeCheck s.map start stop with
      | (none, m) => some (.invalidAddress, s.setMap m)
      | (some i, m) =>
          match (s.setMap m).clipStart i start with
          | none => none
          | some s =>
              (applyRange stop (behaviorEntry b) fuel s
                (some i)).map fun s => (.success, s)

------
-- Merging Entries
------

/- What both tests of `vm_map_simplify` compare. -/
def mergeable (low high : VmMapEntry) : Bool :=
  low.vmeEnd == high.vmeStart &&
    low.inheritance == high.inheritance &&
    low.protection == high.protection &&
    low.maxProtection == high.maxProtection &&
    low.behavior == high.behavior &&
    low.wiredCount == high.wiredCount &&
    low.userWiredCount == high.userWiredCount &&
    low.inTransition == false &&
    high.inTransition == false &&
    low.needsCopy == high.needsCopy &&
    low.object == high.object &&
    (low.offset + (low.vmeEnd - low.vmeStart)) %
      offsetModulus == high.offset

/- Unlink `high` and extend `low` over it. -/
def mergeEntries
    (s : MapState)
    (low high : VmMapEntry) : MapState :=
  let unlinked := s.map.entryUnlink high
  let extended :=
    unlinked.modify low.entryId fun x =>
      { x with vmeEnd := high.vmeEnd }
  { map := extended.updateFirstFree extended.firstFree
    refCount := deallocateObject s.refCount high.object }

/- The first half: merge the entry into the one before. -/
def simplifyLower
    (s : MapState)
    (start : Nat) : MapState :=
  match s.map.lookupEntry start with
  | (true, some i, m) =>
      match m.find i, (m.vmePrev (some i)).bind m.find with
      | some this, some prev =>
          if prev.isShared == false &&
              prev.isSubMap == false &&
              this.isShared == false &&
              this.isSubMap == false &&
              mergeable prev this then
            mergeEntries
              (s.setMap (m.saveHint (some prev.entryId)))
              prev this
          else s.setMap m
      | _, _ => s.setMap m
  | (_, _, m) => s.setMap m

/-
  The second half: merge the entry after into this one. The
  flags of the entry after are tested twice, and those of
  this one are not.
-/
def simplifyUpper
    (s : MapState)
    (start : Nat) : MapState :=
  match s.map.lookupEntry start with
  | (true, some i, m) =>
      match m.find i, (m.vmeNext (some i)).bind m.find with
      | some this, some next =>
          if next.isShared == false &&
              next.isSubMap == false &&
              next.isShared == false &&
              next.isSubMap == false &&
              mergeable this next then
            mergeEntries (s.setMap m) this next
          else s.setMap m
      | _, _ => s.setMap m
  | (_, _, m) => s.setMap m

def vmMapSimplify
    (s : MapState)
    (start : Nat) : MapState :=
  simplifyUpper (simplifyLower s start) start

end Vm

end OsfMach
