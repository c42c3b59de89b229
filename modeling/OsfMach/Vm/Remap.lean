import OsfMach.Vm.MapFork
import OsfMach.Vm.Copyin

/-
  Extracting the entries of a range from a map, from
  `vm_remap_extract` in `vm/vm_map.c`.

  The entries are shared with the source, or copied. Where a
  copy cannot be made at once the map is given up, and what
  the call finds when it has it again is any map. How often
  the call holds the lock of the map is counted.

  Key definitions include:
    * `ExtractArgs`, `RemapState`
    * `remapStart`, `remapStep`
-/

------
-- States
------

namespace OsfMach

namespace Vm

structure ExtractArgs where
  addr : Nat
  size : Nat
  copy : Bool
  inheritance : Nat
deriving DecidableEq, Repr

namespace ExtractArgs

def srcStart (args : ExtractArgs) : Nat :=
  truncPage args.addr

/- The end of the range, in 32 bits. -/
def srcEnd (args : ExtractArgs) : Nat :=
  roundPage (args.srcStart + args.size)

end ExtractArgs

/- A new entry, and the source entry that it is made from. -/
structure RemapWork where
  src : Nat
  new : VmMapEntry
  object : MapObject
  -- `tmp_size`
  size : Nat
deriving DecidableEq, Repr

inductive RemapPhase where
-- the test of the loop
| top
-- the label `RestartCopy`, where a copy is to be made
| restart (w : RemapWork)
-- a copy is made without the lock
| blocked (w : RemapWork)
| done (result : KernReturn)
deriving DecidableEq, Repr

/- A new entry, with its source in the map that was locked. -/
structure RemapLink where
  new : VmMapEntry
  src : VmMapEntry
  locked : VmMap
deriving DecidableEq, Repr

structure RemapState where
  map : VmMap
  phase : RemapPhase
  -- the entries of `map_header`
  chain : List VmMapEntry
  mapped : Nat
  srcStart : Nat
  curProtection : Nat
  maxProtection : Nat
  result : KernReturn
  held : RefLedger
  -- what the code does not know: how often it has the lock,
  -- and where the entries come from
  locks : Int
  linked : List RemapLink

namespace RemapState

/- The end of the call, from `vm_map_unlock` on. -/
def finish
    (s : RemapState)
    (kr : KernReturn) : RemapState :=
  if kr = .success then
    { s with phase := .done kr, locks := s.locks - 1 }
  else
    { s with
      phase := .done kr
      locks := s.locks - 1
      held := s.held.discard s.chain
      chain := [] }

/- `_vm_map_entry_link`, and what follows it in the loop. -/
def link
    (s : RemapState)
    (w : RemapWork) : Option RemapState :=
  (s.map.find w.src).map fun e =>
    { s with
      phase := .top
      chain := s.chain ++ [w.new]
      curProtection := s.curProtection &&& e.protection
      maxProtection := s.maxProtection &&& e.maxProtection
      mapped := s.mapped + w.size
      srcStart := (s.srcStart + w.size) % offsetModulus
      linked := s.linked ++ [⟨w.new, e, s.map⟩] }

/- How much of an entry is mapped. -/
def tmpSize
    (args : ExtractArgs)
    (s : RemapState)
    (e : VmMapEntry) : Nat :=
  if e.vmeEnd < args.srcEnd then
    args.size - s.mapped - (args.srcEnd - e.vmeEnd)
  else args.size - s.mapped

/- The new entry of a source entry with the right object. -/
def work
    (args : ExtractArgs)
    (s : RemapState)
    (i size : Nat)
    (e : VmMapEntry) : RemapWork :=
  { src := i
    new :=
      { entryCopy e with
        vmeStart := s.mapped
        vmeEnd := s.mapped + size
        inheritance := args.inheritance
        offset :=
          (e.offset + (s.srcStart - e.vmeStart)) %
            offsetModulus }
    object := e.object
    size := size }

/- A turn of the loop, up to where a copy is to be made. -/
def turn
    (args : ExtractArgs)
    (a : VmAnswers)
    (s : RemapState) : Option RemapState :=
  if s.mapped = args.size then some (s.finish s.result)
  else
    match s.map.lookupEntry s.srcStart with
    | (false, _, m) =>
        some ({ s with map := m }.finish .invalidAddress)
    | (true, none, _) => none
    | (true, some i, m) =>
        (m.find i).bind fun e =>
          if s.srcStart < e.vmeStart ∨
              s.mapped ≠ 0 ∧ s.srcStart ≠ e.vmeStart then
            some ({ s with map := m }.finish .invalidAddress)
          else
            let size := s.tmpSize args e
            let m := m.modify i (shareObject a 0 true)
            (m.find i).bind fun e =>
              let w := s.work args i size e
              let s :=
                { s with map := m, held := s.held.take e.object }
              if args.copy then
                some { s with phase := .restart w }
              else
                { s with
                  map := m.modify i fun x =>
                    { x with isShared := true } }.link
                  { w with new := { w.new with
                    isShared := true, needsCopy := false } }

/- `RestartCopy`: a copy at once, or the map is given up. -/
def quickly
    (s : RemapState)
    (w : RemapWork)
    (quick : Option (MapObject × Bool × Bool)) :
    Option RemapState :=
  (s.map.find w.src).bind fun e =>
    match e.wiredCount, quick with
    | 0, some (object, srcNeedsCopy, newNeedsCopy) =>
        { s with
          map :=
            if srcNeedsCopy then
              CopyinState.obliges w.src s.map
            else s.map
          held := (s.held.take object).drop w.object }.link
          { w with new := { w.new with
            object := object
            isShared := false
            needsCopy := newNeedsCopy } }
    | _, _ =>
        some { s with
          phase := .blocked
            { w with new := { w.new with isShared := false } }
          locks := s.locks - 1 }

/- The new entry after a copy of the object. -/
def copiedNew
    (new : VmMapEntry)
    (wired : Bool)
    (result : CopyResult) : VmMapEntry :=
  match result with
  | .success object offset needsCopy =>
      if wired then
        { new with
          object := object, offset := 0, needsCopy := false }
      else
        { new with
          object := object
          offset := offset
          needsCopy := needsCopy }
  | _ => new

/- The references after a copy of the object. -/
def copiedHeld
    (held : RefLedger)
    (w : RemapWork)
    (result : CopyResult) : RefLedger :=
  match result with
  | .success object _ _ => (held.take object).drop w.object
  | _ => held.drop w.object

/-
  The end of a copy that was made without the lock. A copy
  that failed leaves the loop with the map given up.
-/
def copied
    (s : RemapState)
    (w : RemapWork)
    (wired : Bool)
    (result : CopyResult)
    (r : Relock) : Option RemapState :=
  let s := { s with held := copiedHeld s.held w result }
  match result with
  | .failed kr =>
      if kr = .success ∨ kr = .restartCopy then none
      else some (s.finish kr)
  | _ =>
      let new := copiedNew w.new wired result
      let s :=
        { s with
          map := r.found
          locks := s.locks + 1
          result := .success }
      if r.sameStamp then
        match result with
        | .restart =>
            -- the result stays if the copy is then made at once
            some { s with
              phase := .restart { w with new := new }
              result := .restartCopy
              held := s.held.take w.object }
        | _ => s.link { w with new := new }
      else
        some { s with
          phase := .top, held := s.held.drop new.object }

/- What the source entry says after the map was given up. -/
def ReadsWired
    (s : RemapState)
    (w : RemapWork)
    (wired : Bool)
    (r : Relock) : Prop :=
  r.others = 0 →
    (s.map.find w.src).map (fun e => e.wiredCount != 0) =
      some wired

instance
    (s : RemapState)
    (w : RemapWork)
    (wired : Bool)
    (r : Relock) :
    Decidable (s.ReadsWired w wired r) :=
  inferInstanceAs (Decidable (_ → _))

end RemapState

------
-- Steps
------

inductive RemapInput where
-- what the object layer answers when the object is shared
| turn (a : VmAnswers)
-- `vm_object_copy_quickly`
| quickly (quick : Option (MapObject × Bool × Bool))
-- a copy was made without the lock
| copied (wired : Bool) (result : CopyResult) (r : Relock)

def remapStep
    (args : ExtractArgs)
    (s : RemapState)
    (input : RemapInput) : Option RemapState :=
  match s.phase, input with
  | .top, .turn a => s.turn args a
  | .restart w, .quickly quick => s.quickly w quick
  | .blocked w, .copied wired result r =>
      -- only copying by the strategy can be started again
      if r.Follows s.map ∧ s.ReadsWired w wired r ∧
          (wired = true → result ≠ .restart) then
        s.copied w wired result r
      else none
  | _, _ => none

/- The call up to the loop, on the map that it locks. -/
def remapStart
    (args : ExtractArgs)
    (m : VmMap) : RemapState :=
  { map := m
    phase := .top
    chain := []
    mapped := 0
    srcStart := args.srcStart
    curProtection := protAll
    maxProtection := protAll
    result := .success
    held := .zero
    locks := 1
    linked := [] }

end Vm

end OsfMach
