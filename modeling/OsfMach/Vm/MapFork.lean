import OsfMach.Vm.MapCopy

/-
  Sharing the object of an entry, and copying an entry into
  the map of a new task, from `vm/vm_map.c`.

  Key definitions include:
    * `shareObject`, `forkCopy`
-/

------
-- Remapping
------

namespace OsfMach

namespace Vm

open Lib

/-
  The right object to share: a new one, the one at hand, or
  a shadow. Only `vm_remap` asks whether it is internal.
-/
def shareObject
    (a : VmAnswers)
    (turn : Nat)
    (remap : Bool)
    (e : VmMapEntry) : VmMapEntry :=
  if e.object = .vmObject none then allocateEntry a turn e
  else if a.symmetric e.object = false then e
  else if e.needsCopy = true ∨
      a.shadowed e.object = true ∨
      (remap = false ∨ a.internal e.object = true) ∧
        e.isShared = false ∧
        e.vmeEnd - e.vmeStart < a.objectSize e.object then
    shadowEntry a turn e
  else e

/- Link the entries of a chain one after the other. -/
def linkChain
    (address : Nat) :
    Option Nat → List VmMapEntry → MapProg (Option Nat)
| insp, [] => pure insp
| insp, e :: rest => do
    let m ← get
    set
      { m.entryLink insp
          { e with
            entryId := m.nextEntry
            vmeStart := e.vmeStart + address
            vmeEnd := e.vmeEnd + address }
        with nextEntry := m.nextEntry + 1 }
    linkChain address (some m.nextEntry) rest

------
-- Forking
------

/- `vm_map_entry_link` of a new entry after the last one. -/
def VmMap.linkLast (m : VmMap) (e : VmMapEntry) : VmMap :=
  { m.entryLink (m.vmePrev none)
      { e with entryId := m.nextEntry }
    with nextEntry := m.nextEntry + 1 }

/-
  The entry that a failed copy goes on with. A test of the
  protection that does nothing is left out: it compares the
  bits of no protection at all.
-/
def forkSkip (start : Nat) : MapProg (Option Nat) := do
  let r ← MapProg.lookupEntry start
  if r.1 then pure r.2 else MapProg.vmeNext r.2

/- The entry after a range that was copied. -/
def forkNext (start : Nat) : MapProg (Option Nat) := do
  let r ← MapProg.lookupEntry start
  match r.1, r.2 with
  | true, some i => do
      MapProg.clipStart i start
      pure (some i)
  | true, none => Prog.stuck
  | false, prev => MapProg.vmeNext prev

/-
  `vm_map_fork_copy`: the entry to go on with, the new map,
  and the size that was copied.
-/
def forkCopy
    (a : VmAnswers)
    (fuel : Nat)
    (e : VmMapEntry)
    (newMap : VmMap) :
    MapProg (Option Nat × VmMap × Nat) := do
  let size := e.vmeEnd - e.vmeStart
  let r ← vmMapCopyinCommon a fuel
    { srcAddr := e.vmeStart
      len := size
      srcDestroy := false
      useMaxprot := true
      kernelMap := false }
  match r.1, r.2 with
  | .success, some copy => do
      let next ← forkNext (e.vmeStart + size)
      pure (next,
        newMap.copyInsert (newMap.vmePrev none) copy, size)
  | .success, none => Prog.stuck
  | _, _ => do
      let next ← forkSkip e.vmeStart
      pure (next, newMap, 0)

/- What a region of the old map becomes in the new one. -/
def forkEntry
    (a : VmAnswers)
    (fuel : Nat)
    (e : VmMapEntry)
    (newMap : VmMap) :
    MapProg (Option Nat × VmMap × Nat) := do
  let size := e.vmeEnd - e.vmeStart
  if e.inheritance = inheritShare then do
    MapProg.update e.entryId (shareObject a fuel false)
    let e ← MapProg.deref (some e.entryId)
    MapProg.update e.entryId fun x =>
      { x with isShared := true }
    let next ← MapProg.vmeNext (some e.entryId)
    pure (next,
      newMap.linkLast { entryCopy e with isShared := true },
      size)
  else if e.inheritance = inheritCopy then
    match e.wiredCount, a.copyQuickly fuel with
    | 0, some (object, srcNeedsCopy, newNeedsCopy) => do
        Prog.onlyIf
          (srcNeedsCopy = true ∧ e.needsCopy = false)
          (MapProg.update e.entryId fun x =>
            { x with needsCopy := true })
        let next ← MapProg.vmeNext (some e.entryId)
        pure (next,
          newMap.linkLast { entryCopy e with
            object := object, needsCopy := newNeedsCopy },
          size)
    | _, _ => forkCopy a fuel e newMap
  else do
    let next ← MapProg.vmeNext (some e.entryId)
    pure (next, newMap, 0)

end Vm

end OsfMach
