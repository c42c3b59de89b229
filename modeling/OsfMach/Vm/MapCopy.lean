import OsfMach.Vm.MapProg

/-
  Copies of ranges of addresses, from `vm/vm_map.c`, and
  taking a copy of a range.

  A copy is a chain of entries that are linked into a map
  under new numbers.

  Key definitions include:
    * `VmMapCopy`
    * `vmMapCopyinCommon`
-/

------
-- Copies
------

namespace OsfMach

namespace Vm

open Lib

inductive CopyKind where
| entryList
| object (object : Option Nat)
| pageList
| kernelBuffer
deriving DecidableEq, Repr

/- `struct vm_map_copy`. -/
structure VmMapCopy where
  kind : CopyKind
  offset : Nat
  size : Nat
  entries : List VmMapEntry
  nentries : Nat
deriving DecidableEq, Repr

/- `vm_map_copy_entry_link` at the end of the chain. -/
def VmMapCopy.link
    (copy : VmMapCopy)
    (e : VmMapEntry) : VmMapCopy :=
  { copy with
    entries := copy.entries ++ [e]
    nentries := copy.nentries + 1 }

/- `vm_map_entry_copy`. -/
def entryCopy (e : VmMapEntry) : VmMapEntry :=
  { e with
    isShared := false
    needsWakeup := false
    inTransition := false
    wiredCount := 0
    userWiredCount := 0 }

------
-- Copying a Range in
------

/-
  Copy the object of an entry for a new one, which starts
  as it stands here.
-/
def copyObject
    (a : VmAnswers)
    (src : VmMapEntry) :
    Nat → VmMapEntry →
      MapProg (Except KernReturn VmMapEntry)
| 0, _ => Prog.stuck
| fuel + 1, new =>
    match src.wiredCount, a.copyQuickly fuel with
    | 0, some (object, srcNeedsCopy, newNeedsCopy) => do
        Prog.onlyIf
          (srcNeedsCopy = true ∧ src.needsCopy = false)
          (MapProg.update src.entryId fun x =>
            { x with needsCopy := true })
        pure (.ok { new with
          object := object, needsCopy := newNeedsCopy })
    | wired, _ =>
        match a.copyObject fuel with
        | (.success, object, offset, needsCopy) =>
            if wired = 0 then
              pure (.ok { new with
                object := object
                offset := offset
                needsCopy := needsCopy })
            else
              pure (.ok { new with
                object := object
                offset := 0
                needsCopy := false })
        | (.restartCopy, _) => copyObject a src fuel new
        | (error, _) => pure (.error error)

/- What a copy of an entry in the source map becomes. -/
def copyinEntry
    (a : VmAnswers)
    (srcDestroy : Bool)
    (fuel : Nat)
    (src : VmMapEntry) :
    MapProg (Except KernReturn VmMapEntry) :=
  if srcDestroy = true ∧
      (src.object = .vmObject none ∨
        a.internal src.object = true) then
    -- the reference to the object moves to the copy
    pure (.ok (entryCopy src))
  else copyObject a src fuel (entryCopy src)

/- The loop of `vm_map_copyin_common` from an entry on. -/
def copyinLoop
    (a : VmAnswers)
    (srcDestroy useMaxprot : Bool)
    (srcEnd : Nat) :
    Nat → Option Nat → VmMapCopy →
      MapProg (KernReturn × VmMapCopy)
| 0, _, _ => Prog.stuck
| fuel + 1, tmp, copy => do
    let e ← MapProg.deref tmp
    if e.protection &&& protRead = 0 ∧ useMaxprot = false ∨
        e.maxProtection &&& protRead = 0 then
      pure (.protectionFailure, copy)
    else do
      MapProg.clipEnd e.entryId srcEnd
      let e ← MapProg.deref tmp
      match ← copyinEntry a srcDestroy fuel e with
      | .error kr => pure (kr, copy)
      | .ok new =>
          -- an end of zero stands for the top of the space
          if srcEnd ≤ new.vmeEnd ∧ srcEnd ≠ 0 then
            pure (.success, copy.link new)
          else do
            let next ← MapProg.vmeNext tmp
            let b ← MapProg.boundsOf next
            if b.1 ≠ new.vmeEnd then
              pure (.invalidAddress, copy.link new)
            else
              copyinLoop a srcDestroy useMaxprot srcEnd fuel
                next (copy.link new)

structure CopyinArgs where
  srcAddr : Nat
  len : Nat
  srcDestroy : Bool
  useMaxprot : Bool
  -- whether the source is the map of the kernel
  kernelMap : Bool
deriving DecidableEq, Repr

def vmMapCopyinCommon
    (a : VmAnswers)
    (fuel : Nat)
    (args : CopyinArgs) :
    MapProg (KernReturn × Option VmMapCopy) :=
  let srcStart := truncPage args.srcAddr
  let srcEnd := roundPage (args.srcAddr + args.len)
  if args.len = 0 then pure (.success, none)
  else if srcEnd ≤ srcStart ∧
      (srcEnd < srcStart ∨ srcStart ≠ 0) then
    pure (.invalidAddress, none)
  else do
    let r ← MapProg.lookupEntry srcStart
    match r.1, r.2 with
    | true, some i => do
        MapProg.clipStart i srcStart
        let result ← copyinLoop a args.srcDestroy
          args.useMaxprot srcEnd fuel (some i)
          { kind := .entryList
            offset := args.srcAddr
            size := args.len
            entries := []
            nentries := 0 }
        if result.1 = .success then do
          Prog.onlyIf (args.srcDestroy = true) do
            let _ ← vmMapDelete a
              ⟨args.kernelMap, false, false⟩ fuel srcStart
              srcEnd
          pure (.success, some result.2)
        else pure (result.1, none)
    | true, none => Prog.stuck
    | false, _ => pure (.invalidAddress, none)

------
-- Copying out
------

/- The entries of a chain with numbers from a first one. -/
def numberFrom : Nat → List VmMapEntry → List VmMapEntry
| _, [] => []
| n, e :: rest =>
    { e with entryId := n } :: numberFrom (n + 1) rest

/- `vm_map_copy_insert`. -/
def VmMap.copyInsert
    (m : VmMap)
    (insp : Option Nat)
    (copy : VmMapCopy) : VmMap :=
  let chain := numberFrom m.nextEntry copy.entries
  let linked :=
    { m with
      entries :=
        match insp with
        | none => chain ++ m.entries
        | some i =>
            m.entries.flatMap fun (x : VmMapEntry) =>
              if x.entryId = i then x :: chain else [x]
      nentries := m.nentries + copy.nentries
      nextEntry := m.nextEntry + chain.length }
  linked.updateFirstFree m.firstFree

end Vm

end OsfMach
