import OsfMach.Vm.MapCopy
import OsfMach.Vm.MapSteps
import OsfMach.Lib.Runs

/-
  Copying a range in while other threads change the map, from
  `vm_map_copyin_common` in `vm/vm_map.c`.

  The call gives up the lock of the map when it allocates an
  entry and when it copies an object that cannot be copied at
  once. What it finds when it has the lock again is any map
  that other threads may leave, with the number of times that
  they locked it. What the object layer answers is part of
  each step.

  References are counted for the call alone. Those of entries
  that clipping makes belong to the map.

  Key definitions include:
    * `RefLedger`, `Relock`, `CopyinState`
    * `copyinStart`, `copyinStep`
-/

------
-- References
------

namespace OsfMach

namespace Vm

/- How many references a call has taken and not given back. -/
abbrev RefLedger := MapObject → Int

namespace RefLedger

def zero : RefLedger :=
  fun _ => 0

/- `vm_object_reference`. -/
def take (h : RefLedger) (o : MapObject) : RefLedger :=
  if o = .vmObject none then h
  else Function.update h o (h o + 1)

/- `vm_object_deallocate`. -/
def drop (h : RefLedger) (o : MapObject) : RefLedger :=
  if o = .vmObject none then h
  else Function.update h o (h o - 1)

/- `vm_map_copy_discard` of a list of entries. -/
def discard
    (h : RefLedger)
    (l : List VmMapEntry) : RefLedger :=
  l.foldl (fun h e => h.drop e.object) h

end RefLedger

------
-- Locking Again
------

/-
  What a thread finds when it locks the map for writing again:
  how often others locked it, and the map they left.
-/
structure Relock where
  others : Nat
  found : VmMap
  ok : others ≠ 0 → MapOk found

/- The time stamp of a map, which each locking increments. -/
def timestampModulus : Nat := 2 ^ 32

namespace Relock

/- `version.main_timestamp + 1 == src_map->timestamp`. -/
def sameStamp (r : Relock) : Bool :=
  r.others % timestampModulus = 0

/- Only others that locked the map changed it. -/
def Follows (r : Relock) (m : VmMap) : Prop :=
  r.others = 0 → r.found = m

instance (r : Relock) (m : VmMap) :
    Decidable (r.Follows m) :=
  inferInstanceAs (Decidable (_ → _))

theorem Follows.mapOk
    {r : Relock}
    {m : VmMap}
    (h : r.Follows m)
    (hMap : MapOk m) :
    MapOk r.found := by
  by_cases hAlone : r.others = 0
  · rw [h hAlone]
    exact hMap
  · exact r.ok hAlone

end Relock

------
-- States
------

/-
  An entry on its way into the copy. The pointers `src_entry`
  and `tmp_entry` are the same there.
-/
structure CopyinWork where
  src : Nat
  new : VmMapEntry
  srcObject : MapObject
  srcOffset : Nat
  srcSize : Nat
  wasWired : Bool
deriving DecidableEq, Repr

inductive CopyinPhase where
-- the top of the loop, and whether `new_entry` is there
| top (tmp : Option Nat) (hasNew : Bool)
-- the label `RestartCopy`
| restart (w : CopyinWork)
-- a copy is made without the lock
| blocked (w : CopyinWork)
-- the copy is complete, and the source is deleted
| deleting
| done (result : KernReturn) (copy : Option VmMapCopy)
deriving DecidableEq, Repr

/- An entry of the copy, and where it was taken from. -/
structure CopyinLink where
  new : VmMapEntry
  object : MapObject
  offset : Nat
  -- the map as it was when it was last locked
  locked : VmMap
deriving DecidableEq, Repr

structure CopyinState where
  map : VmMap
  phase : CopyinPhase
  copy : VmMapCopy
  srcStart : Nat
  held : RefLedger
  -- what the code does not know: the map when it was locked,
  -- and the entries that were linked
  locked : VmMap
  linked : List CopyinLink

------
-- Parts of the Loop
------

namespace VmMap

/- `vm_map_clip_start`, less the reference of the new entry. -/
def clipStartAt (m : VmMap) (i start : Nat) : Option VmMap :=
  ((MapState.mk m fun _ => 0).clipStart i start).map
    MapState.map

def clipEndAt (m : VmMap) (i stop : Nat) : Option VmMap :=
  ((MapState.mk m fun _ => 0).clipEnd i stop).map
    MapState.map

/-
  The entry at an address, which is clipped to start there.
  Without a result there is no such pointer.
-/
def startEntry
    (m : VmMap)
    (start : Nat) : Option (Option (Nat × VmMap)) :=
  match m.lookupEntry start with
  | (true, some i, m) =>
      (m.clipStartAt i start).map fun m => some (i, m)
  | (true, none, _) => none
  | (false, _, _) => some none

end VmMap

namespace CopyinArgs

def srcStart (args : CopyinArgs) : Nat :=
  truncPage args.srcAddr

/- The end of the range, in 32 bits. -/
def srcEnd (args : CopyinArgs) : Nat :=
  roundPage (args.srcAddr + args.len)

/- The test of the protection at the top of the loop. -/
def unreadable (args : CopyinArgs) (e : VmMapEntry) : Bool :=
  (e.protection &&& protRead == 0 && !args.useMaxprot) ||
    e.maxProtection &&& protRead == 0

/- `VM_PROT_READ == VM_PROT_NONE`. -/
def readIsNone : Nat :=
  if protRead = 0 then 1 else 0

/-
  The test of the protection after the second lookup. The
  comparison comes before the conjunction of bits there.
-/
def unreadableAgain
    (args : CopyinArgs)
    (e : VmMapEntry) : Bool :=
  (e.protection &&& readIsNone != 0 && !args.useMaxprot) ||
    e.maxProtection &&& readIsNone != 0

end CopyinArgs

namespace CopyinState

def isDone (s : CopyinState) : Bool :=
  match s.phase with
  | .done _ _ => true
  | _ => false

/- `RETURN` of an error. What was linked is given back. -/
def fail
    (s : CopyinState)
    (kr : KernReturn) : CopyinState :=
  { s with
    phase := .done kr none
    held := s.held.discard s.copy.entries }

/-
  `CopySuccessful`: link the new entry, and go on with the
  next one of the source unless this was the last.
-/
def link
    (args : CopyinArgs)
    (s : CopyinState)
    (w : CopyinWork) : Option CopyinState :=
  let s : CopyinState :=
    { s with
      copy := s.copy.link w.new
      srcStart := w.new.vmeEnd
      linked := s.linked ++
        [⟨w.new, w.srcObject, w.srcOffset, s.locked⟩] }
  if args.srcEnd ≤ s.srcStart ∧ args.srcEnd ≠ 0 then
    some { s with
      phase :=
        if args.srcDestroy then .deleting
        else .done .success (some s.copy) }
  else
    let next := s.map.vmeNext (some w.src)
    (s.map.bounds next).map fun b =>
      if b.1 ≠ s.srcStart then s.fail .invalidAddress
      else { s with phase := .top next false }

/- Look the start up again after the map was changed. -/
def lookAgain
    (s : CopyinState)
    (r : Relock) : Option CopyinState :=
  (r.found.startEntry s.srcStart).map fun look =>
    match look with
    | none => { s with map := r.found }.fail .invalidAddress
    | some (i, m) =>
        { s with map := m, phase := .top (some i) true }

/- The top of the loop, from the test of the protection. -/
def enter
    (args : CopyinArgs)
    (internal : Bool)
    (s : CopyinState)
    (i : Nat) : Option CopyinState :=
  (s.map.find i).bind fun e =>
    if args.unreadable e then
      some (s.fail .protectionFailure)
    else
      (s.map.clipEndAt i args.srcEnd).bind fun m =>
        (m.find i).bind fun e =>
          let w : CopyinWork :=
            { src := i
              new := entryCopy e
              srcObject := e.object
              srcOffset := e.offset
              srcSize := e.vmeEnd - s.srcStart
              wasWired := e.wiredCount != 0 }
          if args.srcDestroy = true ∧
              (e.object = .vmObject none ∨ internal = true)
          then
            link args { s with
              map := m, held := s.held.take e.object } w
          else some { s with map := m, phase := .restart w }

/- A copy-on-write obligation of the source entry. -/
def obliges (src : Nat) (m : VmMap) : VmMap :=
  m.modify src fun x => { x with needsCopy := true }

/-
  `RestartCopy`: `vm_object_copy_quickly` of no object or of
  one with the symmetric strategy, or else the map is given
  up, with another reference to the object.
-/
def quickly
    (args : CopyinArgs)
    (symmetric : Bool)
    (s : CopyinState)
    (w : CopyinWork) : Option CopyinState :=
  if w.wasWired = false ∧ w.new.object = .vmObject none then
    link args s
      { w with new := { w.new with needsCopy := false } }
  else if w.wasWired = false ∧ symmetric = true then
    link args
      { s with
        map := obliges w.src s.map
        held := s.held.take w.new.object }
      { w with new := { w.new with needsCopy := true } }
  else if w.srcObject = .vmObject none then
    -- what is asserted
    none
  else
    some { s with
      phase := .blocked
        { w with new := { w.new with needsCopy := false } }
      held := s.held.take w.srcObject }

end CopyinState

------
-- Steps
------

/-
  What `vm_object_copy_slowly` returns for a wired entry, and
  `vm_object_copy_strategically` for another.
-/
inductive CopyResult where
| success (object : MapObject) (offset : Nat)
    (needsCopy : Bool)
| restart
| failed (kr : KernReturn)
deriving DecidableEq, Repr

inductive CopyinInput where
-- a new entry is allocated
| alloc (r : Relock)
-- whether the object of the entry is internal
| enter (internal : Bool)
-- whether the object has the symmetric strategy
| quickly (symmetric : Bool)
-- a copy was made without the lock
| copied (result : CopyResult) (r : Relock)
-- `vm_map_delete` of the source
| deleted (r : Relock)

namespace CopyinState

/- The entry after a copy of its object. -/
def copiedEntry
    (w : CopyinWork)
    (result : CopyResult) : VmMapEntry :=
  match result with
  | .success object offset needsCopy =>
      if w.wasWired then
        { w.new with
          object := object, offset := 0, needsCopy := false }
      else
        { w.new with
          object := object
          offset := offset
          needsCopy := needsCopy }
  | _ => w.new

/- The references after a copy of an object. -/
def copiedHeld
    (held : RefLedger)
    (w : CopyinWork)
    (result : CopyResult) : RefLedger :=
  match result with
  | .success object _ _ => (held.take object).drop w.srcObject
  | _ => held.drop w.srcObject

section

variable (args : CopyinArgs) (s : CopyinState)

/- `VerificationSuccessful`. -/
def verified
    (w : CopyinWork)
    (result : CopyResult) : Option CopyinState :=
  match result with
  | .restart => some { s with phase := .restart w }
  | _ => link args s w

/-
  The second lookup: the entry may have become shorter, and
  may be another one.
-/
def verify
    (r : Relock)
    (w : CopyinWork)
    (result : CopyResult) : Option CopyinState :=
  (r.found.startEntry s.srcStart).bind fun look =>
    match look with
    | none =>
        some ({ s with map := r.found }.fail .invalidAddress)
    | some (i, m) =>
        (m.find i).bind fun e =>
          let s := { s with map := m }
          let failed :=
            some { s with
              phase := .top (some i) true
              held := s.held.drop w.new.object }
          if args.unreadableAgain e then failed
          else
            let w :=
              { w with
                src := i
                srcSize :=
                  if e.vmeEnd < w.new.vmeEnd then
                    e.vmeEnd - s.srcStart
                  else w.srcSize
                new :=
                  { w.new with
                    vmeEnd := min w.new.vmeEnd e.vmeEnd } }
            if e.object ≠ w.srcObject ∨
                e.offset ≠ w.srcOffset then failed
            else verified args s w result

/- The map is locked again after a copy. -/
def copied
    (w : CopyinWork)
    (result : CopyResult)
    (r : Relock) : Option CopyinState :=
  let s := { s with map := r.found, locked := r.found }
  match result with
  | .failed kr =>
      if kr = .success ∨ kr = .restartCopy then none
      else some (s.fail kr)
  | _ =>
      let w := { w with new := copiedEntry w result }
      let s := { s with held := copiedHeld s.held w result }
      if r.sameStamp then verified args s w result
      else verify args s r w result

end

end CopyinState

def copyinStep
    (args : CopyinArgs)
    (s : CopyinState)
    (input : CopyinInput) : Option CopyinState :=
  match s.phase, input with
  | .top tmp false, .alloc r =>
      if r.Follows s.map then
        let s := { s with locked := r.found }
        if r.sameStamp then
          some { s with map := r.found, phase := .top tmp true }
        else s.lookAgain r
      else none
  | .top (some i) true, .enter internal =>
      s.enter args internal i
  | .restart w, .quickly symmetric =>
      s.quickly args symmetric w
  | .blocked w, .copied result r =>
      -- only copying by the strategy can be started again
      if r.Follows s.map ∧
          (w.wasWired = true → result ≠ .restart) then
        s.copied args w result r
      else none
  | .deleting, .deleted r =>
      some { s with
        map := r.found
        phase := .done .success (some s.copy) }
  | _, _ => none

/- A call that returns before there is a copy. -/
def copyinReturn
    (m : VmMap)
    (kr : KernReturn) : CopyinState :=
  { map := m
    phase := .done kr none
    copy := ⟨.entryList, 0, 0, [], 0⟩
    srcStart := 0
    held := .zero
    locked := m
    linked := [] }

/-
  The call up to the loop. The map is the one that is found
  when it is locked first.
-/
def copyinStart
    (args : CopyinArgs)
    (m : VmMap) : Option CopyinState :=
  if args.len = 0 then some (copyinReturn m .success)
  else if args.srcEnd ≤ args.srcStart ∧
      (args.srcEnd < args.srcStart ∨ args.srcStart ≠ 0) then
    some (copyinReturn m .invalidAddress)
  else
    (m.startEntry args.srcStart).map fun look =>
      match look with
      | none => copyinReturn m .invalidAddress
      | some (i, m') =>
          { map := m'
            phase := .top (some i) true
            copy :=
              ⟨.entryList, args.srcAddr, args.len, [], 0⟩
            srcStart := args.srcStart
            held := .zero
            locked := m
            linked := [] }

end Vm

end OsfMach
