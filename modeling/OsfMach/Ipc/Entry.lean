import OsfMach.Ipc.Space

/-
  The entries of a space, from `ipc/ipc_entry.c` and
  `ipc/ipc_space.c`.

  The routines run with the space locked. Where the source
  allocates memory, the outcome of the allocation is an
  argument: `tableOk` says, for each position in the array
  of sizes, whether a table of that size can be had, and
  `iteOk` whether a tree entry can be had.

  Key definitions include:
    * `ipcSpaceCreate`
    * `ipcEntryLookup`, `ipcEntryGet`, `ipcEntryAlloc`
    * `ipcEntryAllocName`, `ipcEntryDealloc`
    * `ipcEntryGrowTable`
-/

------
-- Creating a Space
------

namespace OsfMach

namespace Ipc

open Lib

/- The free list of a new table runs upwards. -/
def initTable (size index : Nat) : IpcEntry :=
  if index < size then
    ⟨⟨ieBitsGenMask, 0,
      if index = size - 1 then 0 else index + 1⟩, 0⟩
  else IpcEntry.zero

/-
  `ipc_space_create`. The field `is_fast` is set by the
  creator; `initial` is a position in the array of sizes.
-/
def ipcSpaceCreate
    (ipc : IpcParams)
    (isAddr initial : Nat)
    (isFast : Bool) : IpcSpace :=
  { isAddr := isAddr
    isActive := true
    isGrowing := false
    isTable := initTable (ipc.sizes.itsSize initial)
    isTableSize := ipc.sizes.itsSize initial
    isTableNext := initial + 1
    isTree := SplayTree.empty
    isTreeTotal := 0
    isTreeSmall := 0
    isTreeHash := 0
    isFast := isFast
    ihgb := fun _ => [] }

------
-- Finding Entries
------

/- `ipc_entry_tree_collision`. -/
def ipcEntryTreeCollision
    (s : IpcSpace)
    (name : Nat) : Bool × IpcSpace :=
  let bounds := s.isTree.bounds name
  let lower := bounds.1
  let upper := bounds.2.1
  let index := machPortIndex name
  ((lower ≠ machPortLargest ∧ machPortIndex lower = index) ∨
      (upper ≠ machPortSmallest ∧
        machPortIndex upper = index),
    { s with isTree := bounds.2.2 })

/- Look a name up in the tree. -/
def treeLookup
    (s : IpcSpace)
    (name : Nat) : Option EntryRef × IpcSpace :=
  let found := s.isTree.lookup name
  (found.1.map (fun _ => .node name),
    { s with isTree := found.2 })

/- `ipc_entry_lookup`. -/
def ipcEntryLookup
    (s : IpcSpace)
    (name : Nat) : Option EntryRef × IpcSpace :=
  let index := machPortIndex name
  let bits := (s.isTable index).ieBits
  if s.isFast then
    if ieBitsGen bits ≠ machPortGen name ∨
        ieBitsType bits = machPortTypeNone then (none, s)
    else (some (.slot index), s)
  else if index < s.isTableSize then
    if ieBitsGen bits ≠ machPortGen name then
      if ieBitsHasCollision bits then treeLookup s name
      else (none, s)
    else if ieBitsType bits = machPortTypeNone then (none, s)
    else (some (.slot index), s)
  else if s.isTreeTotal = 0 then (none, s)
  else treeLookup s name

------
-- Allocating Entries
------

/- `ipc_entry_get`; `none` is `KERN_NO_SPACE`. -/
def ipcEntryGet
    (s : IpcSpace) : Option (Nat × EntryRef) × IpcSpace :=
  let firstFree := (s.isTable 0).ieNext
  if firstFree = 0 then (none, s)
  else
    let freeEntry := s.isTable firstFree
    let gen := ieBitsNewGen freeEntry.ieBits
    let s := s.setSlot 0
      { (s.isTable 0).toEntryFields with
        ieRequest := freeEntry.ieNext }
    let s := s.setSlot firstFree
      ⟨gen, freeEntry.ieObject, 0⟩
    (some (machPortMake firstFree gen, .slot firstFree), s)

/-
  The search for a target size: the first size that is large
  enough. Returns the previous size and the position.
-/
def growTarget
    (sizes : TableSizes)
    (target : Nat) : Nat → Nat → Nat → Nat × Nat
| 0, psize, its => (psize, its)
| fuel + 1, psize, its =>
    if psize ≠ sizes.itsSize its ∧
        sizes.itsSize its < target then
      growTarget sizes target fuel (sizes.itsSize its)
        (its + 1)
    else (psize, its)

/- The grown table before entries move into it. -/
def growCopy
    (s : IpcSpace)
    (osize size : Nat)
    (index : Nat) : IpcEntry :=
  if index < osize then
    { s.isTable index with ieIndex := 0 }
  else if index < size then IpcEntry.zero
  else s.isTable index

/- Put an old entry into the reverse hash table. -/
def growHash
    (s : IpcSpace)
    (index : Nat) : IpcSpace :=
  let entry := s.isTable index
  if ieBitsType entry.ieBits = machPortTypeSend then
    ipcHashLocalInsert s entry.ieObject index
  else s

/-
  Move a tree entry into the table, unless its slot is taken
  by an entry moved before.
-/
def growMove
    (ipc : IpcParams)
    (s : IpcSpace)
    (name : Nat)
    (tentry : EntryFields) : IpcSpace × Bool :=
  let index := machPortIndex name
  let entry := s.isTable index
  if entry.ieBits ≠ 0 then
    (s.setSlot index
      { entry.toEntryFields with
        ieBits := entry.ieBits ||| ieBitsCollision }, false)
  else
    let s := s.setSlot index
      { tentry with
        ieBits := tentry.ieBits ||| machPortGen name }
    let s :=
      if ieBitsType tentry.ieBits = machPortTypeSend then
        ipcHashLocalInsert
          (ipcHashGlobalDelete ipc s tentry.ieObject name)
          tentry.ieObject index
      else s
    ({ s with isTreeTotal := s.isTreeTotal - 1 }, true)

/- Count the entries that differ in index from the last. -/
def growCount
    (count : Nat × Nat)
    (name : Nat)
    (_ : EntryFields) : (Nat × Nat) × Bool :=
  let nindex := machPortIndex name
  if nindex ≠ count.2 then ((count.1 + 1, nindex), false)
  else (count, false)

/-
  Cut the tree into four regions, move entries of the second
  into the table, count the third, and join the regions.
-/
def growTree
    (ipc : IpcParams)
    (s : IpcSpace)
    (osize size nsize : Nat) : IpcSpace :=
  let large := s.isTree.split (machPortMake nsize 0)
  let small := large.2.split (machPortMake size 0)
  let move := small.2.split (machPortMake osize 0)
  let ignore := move.2
  let moved := move.1.traverse (growMove ipc) s
  let s := moved.1
  let counted := small.1.traverse growCount (0, 0)
  let tree := large.1.join counted.2
  let tree := tree.join moved.2
  let tree := tree.join ignore
  { s with isTree := tree, isTreeSmall := counted.1.1 }

/- Add an unused new entry in front of the free list. -/
def growFree
    (state : IpcSpace × Nat)
    (index : Nat) : IpcSpace × Nat :=
  let entry := state.1.isTable index
  if entry.ieBits = 0 then
    (state.1.setSlot index
      ⟨ieBitsGenMask, entry.ieObject, state.2⟩, index)
  else state

/-
  The new part of the table, from the last slot down to the
  first.
-/
def growFreeAll
    (s : IpcSpace)
    (osize size : Nat) : IpcSpace :=
  let slots := (List.range' osize (size - osize)).reverse
  let freed := slots.foldl growFree
    (s, (s.isTable 0).ieNext)
  freed.1.setSlot 0
    { (freed.1.isTable 0).toEntryFields with
      ieRequest := freed.2 }

/- Replace the table by one of the size at `its`. -/
def growTo
    (ipc : IpcParams)
    (s : IpcSpace)
    (its : Nat) : IpcSpace :=
  let osize := ipc.sizes.itsSize (s.isTableNext - 1)
  let size := ipc.sizes.itsSize its
  let nsize := ipc.sizes.itsSize (its + 1)
  let s :=
    { s with
      isTable := growCopy s osize size
      isTableSize := size
      isTableNext := its + 1 }
  let s := (List.range osize).foldl growHash s
  let s :=
    if 0 < s.isTreeTotal then growTree ipc s osize size nsize
    else s
  growFreeAll s osize size

/- The sizes that a growth looks at. -/
def growSearch
    (ipc : IpcParams)
    (s : IpcSpace) : Option Nat → Nat × Nat
| none =>
    (ipc.sizes.itsSize (s.isTableNext - 1), s.isTableNext)
| some target =>
    growTarget ipc.sizes target ipc.sizes.last
      (ipc.sizes.itsSize (s.isTableNext - 1)) s.isTableNext

/-
  One turn of `ipc_entry_grow_table`; the table stays as it
  is unless the return code says `none`.
-/
def growTurn
    (ipc : IpcParams)
    (tableOk : Nat → Bool)
    (s : IpcSpace)
    (target : Option Nat) :
    Option KernReturn × IpcSpace :=
  if s.isGrowing then (some .success, s)
  else
    let osize := ipc.sizes.itsSize (s.isTableNext - 1)
    let found := growSearch ipc s target
    let its := found.2
    let size := ipc.sizes.itsSize its
    if target.any (fun target => target ≤ osize) then
      (some .success, s)
    else if target.isSome ∧ found.1 = size then
      (some .noSpace, s)
    else if osize = size then (some .noSpace, s)
    else if tableOk its then
      if s.isActive then (none, growTo ipc s its)
      else (some .success, s)
    else (some .resourceShortage, s)

/-
  `ipc_entry_grow_table`: grow again while that saves space.
-/
def growLoop
    (ipc : IpcParams)
    (tableOk : Nat → Bool)
    (target : Option Nat) :
    Nat → IpcSpace → KernReturn × IpcSpace
| 0, s => (.success, s)
| fuel + 1, s =>
    match growTurn ipc tableOk s target with
    | (some kr, s) => (kr, s)
    | (none, s) =>
        let nsize := ipc.sizes.itsSize s.isTableNext
        if 0 < s.isTreeSmall ∧
            (nsize - s.isTableSize) * sizeofIpcEntry <
              s.isTreeSmall * sizeofIpcTreeEntry then
          growLoop ipc tableOk target fuel s
        else (.success, s)

def ipcEntryGrowTable
    (ipc : IpcParams)
    (tableOk : Nat → Bool)
    (s : IpcSpace)
    (target : Option Nat) : KernReturn × IpcSpace :=
  growLoop ipc tableOk target (ipc.sizes.last + 1) s

/-
  One turn of the loop of `ipc_entry_alloc`, where `again` is
  the next turn.
-/
def allocTurn
    (ipc : IpcParams)
    (tableOk : Nat → Bool)
    (again : IpcSpace →
      KernReturn × Option (Nat × EntryRef) × IpcSpace)
    (s : IpcSpace) :
    KernReturn × Option (Nat × EntryRef) × IpcSpace :=
  if s.isActive then
    match ipcEntryGet s with
    | (some found, s) => (.success, some found, s)
    | (none, s) =>
        match ipcEntryGrowTable ipc tableOk s none with
        | (.success, s) => again s
        | (kr, s) => (kr, none, s)
  else (.invalidTask, none, s)

/- The loop of `ipc_entry_alloc`. -/
def allocLoop
    (ipc : IpcParams)
    (tableOk : Nat → Bool) :
    Nat → IpcSpace →
      KernReturn × Option (Nat × EntryRef) × IpcSpace
| 0, s => (.noSpace, none, s)
| fuel + 1, s =>
    allocTurn ipc tableOk (allocLoop ipc tableOk fuel) s

/- `ipc_entry_alloc`. -/
def ipcEntryAlloc
    (ipc : IpcParams)
    (tableOk : Nat → Bool)
    (s : IpcSpace) :
    KernReturn × Option (Nat × EntryRef) × IpcSpace :=
  allocLoop ipc tableOk (ipc.sizes.last + 2) s

/- Rip a free entry out of the free list and claim it. -/
def allocSlot
    (s : IpcSpace)
    (index : Nat)
    (gen : EntryBits) : IpcSpace :=
  match IndexChain.pred (fun i => (s.isTable i).ieNext) index
      s.isTableSize 0 with
  | none => s
  | some freeIndex =>
      let next := (s.isTable index).ieNext
      let s := s.setSlot freeIndex
        { (s.isTable freeIndex).toEntryFields with
          ieRequest := next }
      s.setSlot index ⟨gen, (s.isTable index).ieObject, 0⟩

/- Enter a new name into the tree. -/
def allocNode
    (ipc : IpcParams)
    (s : IpcSpace)
    (name : Nat) : IpcSpace :=
  let index := machPortIndex name
  let s := { s with isTreeTotal := s.isTreeTotal + 1 }
  let s :=
    if index < s.isTableSize then
      let entry := s.isTable index
      s.setSlot index
        { entry.toEntryFields with
          ieBits := entry.ieBits ||| ieBitsCollision }
    else if index < ipc.sizes.itsSize s.isTableNext then
      let collides := ipcEntryTreeCollision s name
      if collides.1 then collides.2
      else
        { collides.2 with
          isTreeSmall := collides.2.isTreeSmall + 1 }
    else s
  { s with isTree := s.isTree.insert name ⟨0, 0, 0⟩ }

/-
  One turn of the loop of `ipc_entry_alloc_name`, where
  `again` is the next turn; `treeEntry` says whether a tree
  entry has been allocated.
-/
def allocNameTurn
    (ipc : IpcParams)
    (tableOk : Nat → Bool)
    (iteOk : Bool)
    (name : Nat)
    (again : Bool → IpcSpace →
      KernReturn × Option EntryRef × IpcSpace)
    (treeEntry : Bool)
    (s : IpcSpace) :
    KernReturn × Option EntryRef × IpcSpace :=
  let index := machPortIndex name
  let gen := machPortGen name
  let bits := (s.isTable index).ieBits
  if s.isActive = false then (.invalidTask, none, s)
  else if 0 < index ∧ index < s.isTableSize ∧
      ieBitsType bits ≠ 0 ∧ ieBitsGen bits = gen then
    (.success, some (.slot index), s)
  else if 0 < index ∧ index < s.isTableSize ∧
      ieBitsType bits = 0 then
    (.success, some (.slot index), allocSlot s index gen)
  else if s.isFast then (.failure, none, s)
  else
    let found :=
      if 0 < s.isTreeTotal then treeLookup s name
      else (none, s)
    let s := found.2
    if found.1.isSome then (.success, found.1, s)
    else
      let nsize := ipc.sizes.itsSize s.isTableNext
      if s.isTableSize ≤ index ∧ index < nsize ∧
          (nsize - s.isTableSize) * sizeofIpcEntry <
            (s.isTreeSmall + 1) * sizeofIpcTreeEntry then
        match ipcEntryGrowTable ipc tableOk s none with
        | (.success, s) => again treeEntry s
        | (kr, s) => (kr, none, s)
      else if treeEntry then
        (.success, some (.node name), allocNode ipc s name)
      else if iteOk then again true s
      else (.resourceShortage, none, s)

/- The loop of `ipc_entry_alloc_name`. -/
def allocNameLoop
    (ipc : IpcParams)
    (tableOk : Nat → Bool)
    (iteOk : Bool)
    (name : Nat) :
    Nat → Bool → IpcSpace →
      KernReturn × Option EntryRef × IpcSpace
| 0, _, s => (.resourceShortage, none, s)
| fuel + 1, treeEntry, s =>
    allocNameTurn ipc tableOk iteOk name
      (allocNameLoop ipc tableOk iteOk name fuel)
      treeEntry s

/- `ipc_entry_alloc_name`. -/
def ipcEntryAllocName
    (ipc : IpcParams)
    (tableOk : Nat → Bool)
    (iteOk : Bool)
    (s : IpcSpace)
    (name : Nat) :
    KernReturn × Option EntryRef × IpcSpace :=
  allocNameLoop ipc tableOk iteOk name (ipc.sizes.last + 3)
    false s

------
-- Deallocating Entries
------

/- Put a slot in front of the free list. -/
def freeSlot
    (s : IpcSpace)
    (index : Nat) : IpcSpace :=
  let entry := s.isTable index
  let s := s.setSlot index
    ⟨ieBitsGen entry.ieBits, entry.ieObject,
      (s.isTable 0).ieNext⟩
  s.setSlot 0
    { (s.isTable 0).toEntryFields with ieRequest := index }

section

variable (ipc : IpcParams) (s : IpcSpace)

/-
  Refill a slot from the tree. The colliding names are cut
  out of the tree, one of them moves into the slot, and the
  others are put back.
-/
def moveCollision
    (index : Nat) : IpcSpace :=
  let large := s.isTree.split (machPortMake (index + 1) 0)
  let middle := large.2.split (machPortMake index 0)
  let collisions := middle.1
  let small := middle.2
  match collisions.pick with
  | none => s
  | some (tname, tentry) =>
      let s := s.setSlot index
        { tentry with
          ieBits := tentry.ieBits ||| machPortGen tname }
      let s :=
        if ieBitsType tentry.ieBits = machPortTypeSend then
          ipcHashLocalInsert
            (ipcHashGlobalDelete ipc s tentry.ieObject tname)
            tentry.ieObject index
        else s
      let collisions := collisions.delete tname
      let s := { s with isTreeTotal := s.isTreeTotal - 1 }
      if collisions.pick.isSome then
        let s := s.setSlot index
          { (s.isTable index).toEntryFields with
            ieBits := (s.isTable index).ieBits |||
              ieBitsCollision }
        { s with
          isTree := (large.1.join collisions).join small }
      else { s with isTree := large.1.join small }

/- Take a name out of the tree. -/
def freeNode
    (name : Nat) : IpcSpace :=
  let index := machPortIndex name
  let s :=
    { s with
      isTree := s.isTree.delete name
      isTreeTotal := s.isTreeTotal - 1 }
  if index < s.isTableSize then
    let collides := ipcEntryTreeCollision s name
    let s := collides.2
    if collides.1 then s
    else
      s.setSlot index
        { (s.isTable index).toEntryFields with
          ieBits := (s.isTable index).ieBits &&&
            ~~~ieBitsCollision }
  else if index < ipc.sizes.itsSize s.isTableNext then
    let collides := ipcEntryTreeCollision s name
    let s := collides.2
    if collides.1 then s
    else { s with isTreeSmall := s.isTreeSmall - 1 }
  else s

/- `ipc_entry_dealloc`. -/
def ipcEntryDealloc
    (name : Nat)
    (entry : EntryRef) : IpcSpace :=
  let index := machPortIndex name
  if s.isFast then freeSlot s index
  else if inTable s name entry then
    if ieBitsHasCollision (s.isTable index).ieBits then
      moveCollision ipc s index
    else freeSlot s index
  else freeNode ipc s name

end

end Ipc

end OsfMach
