import OsfMach.Pager.Segments
import Mathlib.Algebra.Group.Int.Defs

/-
  The maps from the clusters of an object to the clusters of
  paging segments, from `dp_backing_store.c`.

  A map is an array of `struct vs_map`, or an array of pointers
  to blocks of them. Memory that was allocated has the number
  of entries that fit, with any contents. Sizes are those of
  the `i386`: pages of 4096 bytes and a `struct vs_map` of
  eight. What `bs_commit` counts is left out.

  Key definitions include:
    * `VsMap`, `VsTable`
    * `psVstructCreate`, `psMapExtend`
    * `psVstructAllocatedSize`, `psVstructAllocatedPages`
-/

------
-- Entries
------

namespace OsfMach

namespace Pager

def vmPageSize : Nat := 4096
def vmPageShift : Nat := 12

/- The largest cluster has this many pages, as a shift. -/
def maxClusterShift : Nat := 3

def sizeofVsMap : Nat := 8
def sizeofPointer : Nat := 4

structure VsMap where
  vsmapEntry : Nat
  vsmapPsindex : Nat
  vsmapError : Bool
  vsmapBmap : Nat
  vsmapAlloc : Nat
deriving DecidableEq, Repr

def vsmEntryNull : Nat := 0x7fffff

/- An entry that `VSM_CLR` has cleared. -/
def VsMap.clr : VsMap :=
  { vsmapEntry := vsmEntryNull
    vsmapPsindex := 0
    vsmapError := false
    vsmapBmap := 0
    vsmapAlloc := 0 }

/- `VSM_ISCLR` and `VSM_ISERR`. -/
def VsMap.isclr (e : VsMap) : Bool :=
  e.vsmapEntry == vsmEntryNull && !e.vsmapError

def VsMap.iserr (e : VsMap) : Bool :=
  e.vsmapError

def atop (a : Nat) : Nat :=
  a / vmPageSize

def ptoa (p : Nat) : Nat :=
  (p * vmPageSize) % 2 ^ 32

def roundPage (a : Nat) : Nat :=
  (a + (vmPageSize - 1)) % 2 ^ 32 / vmPageSize * vmPageSize

------
-- Sizes
------

def clmapThreshold : Nat := 512

def clmapEntries : Nat :=
  clmapThreshold / sizeofVsMap

/- An `int` as an `unsigned int`. -/
def unsigned (n : Int) : Nat :=
  (n % 2 ^ 32).toNat

def clmapSize (ncls : Int) : Nat :=
  (unsigned ncls * sizeofVsMap) % 2 ^ 32

def indirectClmapEntries (ncls : Int) : Nat :=
  (unsigned (ncls - 1) / clmapEntries + 1) % 2 ^ 32

def indirectClmapSize (ncls : Int) : Nat :=
  (indirectClmapEntries ncls * sizeofPointer) % 2 ^ 32

/- `INDIRECT_CLMAP`. -/
def isIndirectClmap (size : Int) : Bool :=
  decide (clmapThreshold < clmapSize size)

------
-- Maps
------

/- A direct map, or an indirect map with its blocks. -/
inductive VsBlocks where
| direct (dmap : List VsMap)
| indirect (imap : List (Option (List VsMap)))
deriving DecidableEq, Repr

/- The fields of a `vstruct` that map its pages. -/
structure VsTable where
  vsClshift : Nat
  vsSize : Int
  vsMap : VsBlocks
deriving DecidableEq, Repr

/- The size of a cluster in pages. -/
def VsTable.vsclsize (vs : VsTable) : Nat :=
  2 ^ vs.vsClshift

/- What the memory for some bytes holds at first. -/
def junkMap (junk : Nat → VsMap) (size : Nat) : List VsMap :=
  (List.range (size / sizeofVsMap)).map junk

/- Clear `n` entries from index `i` on. -/
def vsmClrFrom
    (n i : Nat)
    (dmap : List VsMap) : Except Fault (List VsMap) :=
  if n = 0 ∨ i + n ≤ dmap.length then
    .ok (dmap.take i ++ List.replicate n VsMap.clr ++
      dmap.drop (i + n))
  else .error .outOfBounds

/- `vs_size` of an object of a size in bytes. -/
def vstructSize (clshift size : Nat) : Int :=
  let pages := unsigned ((atop (roundPage size) : Int) - 1)
  let ncls : Nat := (pages / 2 ^ clshift + 1) % 2 ^ 32
  if ncls < 2 ^ 31 then (ncls : Int) else (ncls : Int) - 2 ^ 32

/-
  Make the map of an object. Whether there is memory for the
  `vstruct` and for the map is an answer.
-/
def VsTable.psVstructCreate
    (clshift size : Nat)
    (vsMemory mapMemory : Bool)
    (junk : Nat → VsMap) : Except Fault (Option VsTable) :=
  if !vsMemory then .ok none
  else
    let vsSize := vstructSize clshift size
    if !mapMemory then .ok none
    else if isIndirectClmap vsSize then
      .ok (some
        { vsClshift := clshift
          vsSize := vsSize
          vsMap := .indirect (List.replicate
            (indirectClmapSize vsSize / sizeofPointer) none) })
    else
      match vsmClrFrom vsSize.toNat 0
          (junkMap junk (clmapSize vsSize)) with
      | .error e => .error e
      | .ok dmap =>
          .ok (some
            { vsClshift := clshift
              vsSize := vsSize
              vsMap := .direct dmap })

------
-- Extending
------

/- Copy the first entries of an array to the start of one. -/
def copyEntries {α : Type}
    (n : Nat)
    (new old : List α) : Except Fault (List α) :=
  if n ≤ old.length ∧ n ≤ new.length then
    .ok (old.take n ++ new.drop n)
  else .error .outOfBounds

/-
  Copy the entries of a direct map into a new one and clear
  the entries after them, up to `newdsize`.
-/
def extendDirect
    (vs : VsTable)
    (newDmap : List VsMap)
    (newdsize : Int) : Except Fault (List VsMap) :=
  match vs.vsMap with
  | .indirect _ =>
      -- The pointers are read as if they were entries.
      .error .outOfBounds
  | .direct dmap =>
      match copyEntries (clmapSize vs.vsSize / sizeofVsMap)
          newDmap dmap with
      | .error e => .error e
      | .ok copied =>
          vsmClrFrom (newdsize - vs.vsSize).toNat
            vs.vsSize.toNat copied

/-
  Extend a map. Whether there is memory for the new map, and
  for the first block of a new indirect map, is an answer.
-/
def psMapExtend
    (newSize : Int)
    (mapMemory blockMemory : Bool)
    (junk : Nat → VsMap)
    (vs : VsTable) : Except Fault (Bool × VsTable) :=
  if newSize ≤ vs.vsSize then .ok (true, vs)
  else if isIndirectClmap newSize then
    let newMapSize := indirectClmapSize newSize
    let oldMapSize := indirectClmapSize vs.vsSize
    match vs.vsMap with
    | .indirect imap =>
        if newMapSize = oldMapSize then
          .ok (true, { vs with vsSize := newSize })
        else if !mapMemory then .ok (false, vs)
        else
          match copyEntries (oldMapSize / sizeofPointer)
              (List.replicate (newMapSize / sizeofPointer) none)
              imap with
          | .error e => .error e
          | .ok imap =>
              .ok (true,
                { vs with
                  vsSize := newSize
                  vsMap := .indirect imap })
    | .direct _ =>
        if !mapMemory then .ok (false, vs)
        else if !blockMemory then .ok (false, vs)
        else
          match extendDirect vs (junkMap junk clmapThreshold)
              clmapEntries with
          | .error e => .error e
          | .ok block =>
              .ok (true,
                { vs with
                  vsSize := newSize
                  vsMap := .indirect (some block ::
                    List.replicate
                      (newMapSize / sizeofPointer - 1) none) })
  else if !mapMemory then .ok (false, vs)
  else
    match extendDirect vs (junkMap junk (clmapSize newSize))
        newSize with
    | .error e => .error e
    | .ok dmap =>
        .ok (true,
          { vs with vsSize := newSize, vsMap := .direct dmap })

------
-- Enumerating
------

section Walk

variable {σ : Type}

/- Visit `CLMAP_ENTRIES` entries of an array. -/
def walkEntries
    (visit : VsMap → σ → σ)
    (vsmap : List VsMap)
    (s : σ) : Except Fault σ :=
  if clmapEntries ≤ vsmap.length then
    .ok ((vsmap.take clmapEntries).foldl (fun s e => visit e s) s)
  else .error .outOfBounds

/- Visit a block of an indirect map, or go past it. -/
def walkBlock
    (visit : VsMap → σ → σ)
    (hole : σ → σ)
    (s : σ) : Option (List VsMap) → Except Fault σ
| none => .ok (hole s)
| some block => walkEntries visit block s

/-
  The loops of both enumerators. A direct map is taken to
  have `CLMAP_ENTRIES` entries.
-/
def walkMap
    (visit : VsMap → σ → σ)
    (hole : σ → σ)
    (vs : VsTable)
    (s : σ) : Except Fault σ :=
  match vs.vsMap with
  | .indirect imap =>
      let n := indirectClmapEntries vs.vsSize
      if n ≤ imap.length then
        (imap.take n).foldlM (walkBlock visit hole) s
      else .error .outOfBounds
  | .direct dmap => walkEntries visit dmap s

end Walk

/- Count the pages of an entry that are valid. -/
def countPages (clsize : Nat) (e : VsMap) (n : Nat) : Nat :=
  if e.isclr || e.iserr then n
  else
    (List.range clsize).foldl
      (fun n k => if e.vsmapBmap.testBit k then n + 1 else n) n

def psVstructAllocatedSize (vs : VsTable) : Except Fault Nat :=
  (walkMap (countPages vs.vsclsize) id vs 0).map ptoa

/- What has been counted, and the slots that were filled. -/
structure Tally where
  numPages : Nat
  offset : Nat
  pages : List Nat
deriving DecidableEq, Repr

namespace Tally

/- Go past some pages. -/
def skip (n : Nat) (t : Tally) : Tally :=
  { t with offset := (t.offset + vmPageSize * n) % 2 ^ 32 }

/- A slot is only filled below the last one. -/
def page
    (pagesSize : Nat)
    (valid : Bool)
    (t : Tally) : Tally :=
  skip 1
    (if valid then
      { t with
        numPages := t.numPages + 1
        pages :=
          if t.numPages + 1 < pagesSize then
            t.pages ++ [t.offset]
          else t.pages }
    else t)

def entry
    (clsize pagesSize : Nat)
    (e : VsMap)
    (t : Tally) : Tally :=
  if e.isclr || e.iserr then t.skip clsize
  else
    (List.range clsize).foldl
      (fun t k => t.page pagesSize (e.vsmapBmap.testBit k)) t

end Tally

def psVstructAllocatedPages
    (vs : VsTable)
    (pagesSize : Nat) : Except Fault (Nat × List Nat) :=
  (walkMap (Tally.entry vs.vsclsize pagesSize)
    (Tally.skip (clmapEntries * vs.vsclsize)) vs
    { numPages := 0, offset := 0, pages := [] }).map
      fun (t : Tally) => (t.numPages, t.pages)

end Pager

end OsfMach
