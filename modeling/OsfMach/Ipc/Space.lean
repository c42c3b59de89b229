import OsfMach.Ipc.Names
import OsfMach.Ipc.SplayTraverse
import OsfMach.Lib.Probing
import OsfMach.Lib.IndexChain

/-
  Spaces of capabilities and their reverse hash tables, from
  `ipc/ipc_space.h`, `ipc/ipc_entry.h` and `ipc/ipc_hash.c`.

  A space holds its entries in a table and in a splay tree.
  A pointer to an entry is a slot of the table or a node of
  the tree. The reverse hash of the table is kept in the
  `ie_index` fields; the global hash holds tree entries in
  buckets, of which a space keeps its own entries.

  Key definitions include:
    * `IpcEntry`, `IpcSpace`, `EntryRef`
    * `TableSizes`, `IpcParams`
    * `ipcHashLookup`, `ipcHashInsert`, `ipcHashDelete`
-/

------
-- Data
------

namespace OsfMach

namespace Ipc

open Function
open Lib

/- Return codes of the kernel calls. -/
inductive KernReturn where
| success
| failure
| noSpace
| resourceShortage
| invalidTask
| invalidArgument
| invalidName
| invalidRight
| invalidValue
| invalidCapability
| urefsOverflow
| nameExists
| rightExists
| notInSet
| notReceiver
deriving DecidableEq, Repr

/- What an entry says about its right. -/
structure EntryFields where
  ieBits : EntryBits
  ieObject : Nat
  ieRequest : Nat
deriving DecidableEq, Repr

/-
  `struct ipc_entry`. The link `ie_next` of a free entry
  shares its place with `ie_request`; `ie_index` belongs to
  the reverse hash and not to the entry.
-/
structure IpcEntry extends EntryFields where
  ieIndex : Nat
deriving DecidableEq, Repr

/- The link of a free entry. -/
def IpcEntry.ieNext (entry : IpcEntry) : Nat :=
  entry.ieRequest

/- A cleared entry. -/
def IpcEntry.zero : IpcEntry := ⟨⟨0, 0, 0⟩, 0⟩

def sizeofIpcEntry : Nat := 16

def sizeofIpcTreeEntry : Nat := 32

/-
  `ipc_table_entries`. The sizes increase strictly, except
  that the last two are the same, and no size is too large
  for an index.
-/
structure TableSizes where
  itsSize : Nat → Nat
  last : Nat
  last_pos : 0 < last
  size_pos : 0 < itsSize 0
  strict : ∀ i, i + 1 < last → itsSize i < itsSize (i + 1)
  flat : itsSize last = itsSize (last - 1)
  le_dead : itsSize last ≤ machPortIndex machPortDead

/- What is fixed when the system starts. -/
structure IpcParams where
  sizes : TableSizes
  ipcHashGlobalMask : Nat

/- Pointers to entries: into the table or into the tree. -/
inductive EntryRef where
| slot (index : Nat)
| node (name : Nat)
deriving DecidableEq, Repr

/-
  `struct ipc_space`. `isAddr` is its address, which the
  global hash reads. `isTableNext` points into the array of
  table sizes. `ihgb` holds, for each bucket of the global
  hash, the names of the tree entries of this space; entries
  of other spaces never match and keep their order.
-/
structure IpcSpace where
  isAddr : Nat
  isActive : Bool
  isGrowing : Bool
  isTable : Nat → IpcEntry
  isTableSize : Nat
  isTableNext : Nat
  isTree : SplayTree EntryFields
  isTreeTotal : Nat
  isTreeSmall : Nat
  isTreeHash : Nat
  isFast : Bool
  ihgb : Nat → List Nat

namespace IpcSpace

/- The entries of the tree by name. -/
def treeFields (s : IpcSpace) (name : Nat) : Option EntryFields :=
  s.isTree.toList.lookup name

/- Read through a pointer to an entry. -/
def fields (s : IpcSpace) : EntryRef → EntryFields
| .slot index => (s.isTable index).toEntryFields
| .node name => (s.treeFields name).getD ⟨0, 0, 0⟩

/- Store the fields of a slot of the table. -/
def setSlot
    (s : IpcSpace)
    (index : Nat)
    (fields : EntryFields) : IpcSpace :=
  { s with
    isTable := update s.isTable index
      { s.isTable index with toEntryFields := fields } }

/- Store through a pointer to an entry. -/
def store
    (s : IpcSpace)
    (ref : EntryRef)
    (fields : EntryFields) : IpcSpace :=
  match ref with
  | .slot index => s.setSlot index fields
  | .node name =>
      { s with
        isTree := s.isTree.modify name (fun _ => fields) }

end IpcSpace

------
-- The Local Reverse Hash
------

/- `IH_LOCAL_HASH`. -/
def ihLocalHash (obj size : Nat) : Nat :=
  (obj >>> 6) % size

namespace IpcSpace

/- The hash table in the `ie_index` fields. -/
def hashSlots (s : IpcSpace) (hindex : Nat) : Nat :=
  (s.isTable hindex).ieIndex

/- Where the object of a table entry hashes to. -/
def hashHome (s : IpcSpace) (index : Nat) : Nat :=
  ihLocalHash (s.isTable index).ieObject s.isTableSize

/- Store a new hash table. -/
def setHashSlots
    (s : IpcSpace)
    (slots : Nat → Nat) : IpcSpace :=
  { s with
    isTable := fun hindex =>
      { s.isTable hindex with ieIndex := slots hindex } }

end IpcSpace

/- `ipc_hash_local_lookup`. -/
def ipcHashLocalLookup
    (s : IpcSpace)
    (obj : Nat) : Option (Nat × EntryRef) :=
  match Probing.search s.isTableSize s.hashSlots
      (fun index => (s.isTable index).ieObject == obj)
      s.isTableSize (ihLocalHash obj s.isTableSize) with
  | none => none
  | some index =>
      some (machPortMakeb index (s.isTable index).ieBits,
        .slot index)

/-
  `ipc_hash_local_insert`. The search for an empty slot ends
  because slot zero of the table is never hashed.
-/
def ipcHashLocalInsert
    (s : IpcSpace)
    (obj index : Nat) : IpcSpace :=
  match Probing.insert s.isTableSize
      (fun _ => ihLocalHash obj s.isTableSize)
      s.hashSlots index with
  | none => s
  | some slots => s.setHashSlots slots

/- `ipc_hash_local_delete`. -/
def ipcHashLocalDelete
    (s : IpcSpace)
    (obj index : Nat) : IpcSpace :=
  match Probing.delete s.isTableSize
      (fun key =>
        if key = index then ihLocalHash obj s.isTableSize
        else s.hashHome key)
      s.hashSlots index with
  | none => s
  | some slots => s.setHashSlots slots

------
-- The Global Reverse Hash
------

section

variable (ipc : IpcParams) (s : IpcSpace)

/- `IH_GLOBAL_HASH`. -/
def ihGlobalHash
    (obj : Nat) : Nat :=
  ((s.isAddr >>> 4) + (obj >>> 6)) &&& ipc.ipcHashGlobalMask

/- `ipc_hash_global_lookup`; what is found moves to front. -/
def ipcHashGlobalLookup
    (obj : Nat) : Option (Nat × EntryRef) × IpcSpace :=
  let bucket := ihGlobalHash ipc s obj
  match (s.ihgb bucket).find?
      (fun name => (s.fields (.node name)).ieObject == obj)
      with
  | none => (none, s)
  | some name =>
      (some (name, .node name),
        { s with
          ihgb := update s.ihgb bucket
            (name :: (s.ihgb bucket).erase name) })

/- `ipc_hash_global_insert`. -/
def ipcHashGlobalInsert
    (obj name : Nat) : IpcSpace :=
  let bucket := ihGlobalHash ipc s obj
  { s with
    isTreeHash := s.isTreeHash + 1
    ihgb := update s.ihgb bucket (name :: s.ihgb bucket) }

/- `ipc_hash_global_delete`. -/
def ipcHashGlobalDelete
    (obj name : Nat) : IpcSpace :=
  let bucket := ihGlobalHash ipc s obj
  { s with
    isTreeHash := s.isTreeHash - 1
    ihgb := update s.ihgb bucket
      ((s.ihgb bucket).erase name) }

end

------
-- Both Reverse Hashes
------

/- `ipc_hash_lookup`. -/
def ipcHashLookup
    (ipc : IpcParams)
    (s : IpcSpace)
    (obj : Nat) : Option (Nat × EntryRef) × IpcSpace :=
  match ipcHashLocalLookup s obj with
  | some found => (some found, s)
  | none =>
      if 0 < s.isTreeHash then ipcHashGlobalLookup ipc s obj
      else (none, s)

/- Is the entry the slot of its name in the table? -/
def inTable
    (s : IpcSpace)
    (name : Nat)
    (entry : EntryRef) : Bool :=
  machPortIndex name < s.isTableSize ∧
    entry = .slot (machPortIndex name)

/- `ipc_hash_insert`. -/
def ipcHashInsert
    (ipc : IpcParams)
    (s : IpcSpace)
    (obj name : Nat)
    (entry : EntryRef) : IpcSpace :=
  if inTable s name entry then
    ipcHashLocalInsert s obj (machPortIndex name)
  else ipcHashGlobalInsert ipc s obj name

/- `ipc_hash_delete`. -/
def ipcHashDelete
    (ipc : IpcParams)
    (s : IpcSpace)
    (obj name : Nat)
    (entry : EntryRef) : IpcSpace :=
  if inTable s name entry then
    ipcHashLocalDelete s obj (machPortIndex name)
  else ipcHashGlobalDelete ipc s obj name

end Ipc

end OsfMach
