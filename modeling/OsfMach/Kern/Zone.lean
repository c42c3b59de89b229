import OsfMach.Lib.IndexChain
import OsfMach.Lib.Pages
import OsfMach.Lib.Runs
import Mathlib.Algebra.Group.Nat.Defs

/-
  The zone package, from `kern/zalloc.c`.

  One zone with the memory it takes from and gives back to
  the map of zones, and the threads that allocate from it.
  The free elements are linked through their first words.
  `zalloc` drops the lock of the zone while it gets memory:
  each section of it is a step. A page of which no part is
  allocated in the map is not mapped. Pages are numbered by
  address.

  Key definitions include:
    * `ZoneConfig`, `ZoneState`
    * `zcram`, `zallocLoop`, `zgetTake`, `zfree`
    * `zoneGc`
    * `zoneStep`
-/

------
-- Zones
------

namespace OsfMach

namespace Kern

open Function
open Lib

/- What does not change in a zone. -/
structure ZoneConfig where
  pageSize : Nat
  elemSize : Nat
  allocSize : Nat
  exhaustible : Bool
  collectable : Bool
  expandable : Bool
  splRoutine : Bool
  zoneMapMinAddress : Nat
  zoneMapMaxAddress : Nat
  page_pos : 0 < pageSize
  elem_pos : 0 < elemSize
  alloc_pos : 0 < allocSize

/-
  Where a thread is in `zalloc`, with the memory that it has
  taken and that is not in the zone yet.
-/
inductive ZonePhase where
| outside
| waiting
| expanding
| holding (space size : Nat)
| finishing (shortage : Bool)
| grown (space size : Nat)
| taken (space : Nat)
| starved
| counting (space : Nat)
deriving Repr

/-
  The zone, the words of memory, the pages of the map and
  their entries in the page table, the space that
  `zget_space` gives out next, and what was handed out.
-/
structure ZoneState (τ : Type) where
  freeElements : Nat
  curSize : Nat
  maxSize : Nat
  count : Int
  doingAlloc : Bool
  someoneWaits : Bool
  word : Nat → Nat
  mapped : Nat → Bool
  allocCount : Nat → Int
  inFreeList : Nat → Int
  zallocNextSpace : Nat
  zallocEndOfSpace : Nat
  phase : τ → ZonePhase
  out : List Nat

namespace ZoneConfig

def fromZoneMap (c : ZoneConfig) (addr : Nat) : Bool :=
  decide (c.zoneMapMinAddress ≤ addr ∧
    addr < c.zoneMapMaxAddress)

def roundPage (c : ZoneConfig) (size : Nat) : Nat :=
  (size + c.pageSize - 1) / c.pageSize * c.pageSize

/- The pages of a range, from the first to the last. -/
def pages (c : ZoneConfig) (addr size : Nat) : List Nat :=
  Pages.pages c.pageSize addr size

end ZoneConfig

section Operations

variable {τ : Type} (c : ZoneConfig)

------
-- The Page Table
------

/- `ZONE_PAGE_USED` and `ZONE_PAGE_UNUSED`. -/
def zonePageUsed : Int := 0

def zonePageUnused : Int := -1

section

variable (s : ZoneState τ)

def zonePageInit
    (addr size : Nat)
    (value : Int) : ZoneState τ :=
  { s with
    allocCount := fun p =>
      if p ∈ c.pages addr size then value else s.allocCount p
    inFreeList := fun p =>
      if p ∈ c.pages addr size then 0 else s.inFreeList p }

def zonePageAlloc
    (addr size : Nat) : ZoneState τ :=
  { s with
    allocCount := fun p =>
      if p ∈ c.pages addr size then
        if s.allocCount p = zonePageUnused then 1
        else s.allocCount p + 1
      else s.allocCount p }

def zonePageDealloc
    (addr size : Nat) : ZoneState τ :=
  { s with
    allocCount := fun p =>
      if p ∈ c.pages addr size then s.allocCount p - 1
      else s.allocCount p }

def zonePageFree
    (addr size : Nat) : ZoneState τ :=
  { s with
    inFreeList := fun p =>
      if p ∈ c.pages addr size then s.inFreeList p + 1
      else s.inFreeList p }

def zonePageInUse
    (addr size : Nat) : ZoneState τ :=
  { s with
    inFreeList := fun p =>
      if p ∈ c.pages addr size ∧ 0 < s.inFreeList p then
        s.inFreeList p - 1
      else s.inFreeList p }

def zonePageKeep
    (addr size : Nat) : ZoneState τ :=
  { s with
    inFreeList := fun p =>
      if p ∈ c.pages addr size then 0 else s.inFreeList p }

def zonePageCollectable
    (addr size : Nat) : Bool :=
  (c.pages addr size).any fun p =>
    s.inFreeList p == s.allocCount p

/- The pages that are free go on the list. -/
def zoneAddFreePageList
    (freeList : List Nat)
    (addr size : Nat) : ZoneState τ × List Nat :=
  let free := (c.pages addr size).filter fun p =>
    s.allocCount p == 0
  ({ s with
      allocCount := fun p =>
        if p ∈ free then zonePageUnused else s.allocCount p
      inFreeList := fun p =>
        if p ∈ free then 0 else s.inFreeList p },
    free.reverse ++ freeList)

end

------
-- Elements
------

/- `ADD_TO_ZONE`. -/
def addToZone
    (s : ZoneState τ)
    (element : Nat) : ZoneState τ :=
  { s with
    word := update s.word element s.freeElements
    freeElements := element
    count := s.count - 1 }

/- `REMOVE_FROM_ZONE`, whose element is handed out. -/
def removeFromZone (s : ZoneState τ) : Option (ZoneState τ) :=
  if s.freeElements = 0 then none
  else
    some { s with
      count := s.count + 1
      freeElements := s.word s.freeElements
      out := s.freeElements :: s.out }

/- One turn of the loop of `zcram`. -/
def zcramElement
    (s : ZoneState τ)
    (newmem : Nat) : ZoneState τ :=
  let s := addToZone s newmem
  let s :=
    if c.fromZoneMap newmem then zonePageAlloc c s newmem c.elemSize
    else s
  { s with
    count := s.count + 1
    curSize := s.curSize + c.elemSize }

def zcramLoop :
    Nat → ZoneState τ → Nat → Nat → ZoneState τ
| 0, s, _, _ => s
| fuel + 1, s, newmem, size =>
    if c.elemSize ≤ size then
      zcramLoop fuel (zcramElement c s newmem)
        (newmem + c.elemSize) (size - c.elemSize)
    else s

def zcram
    (s : ZoneState τ)
    (newmem size : Nat) : ZoneState τ :=
  zcramLoop c size s newmem size

------
-- The Map of Zones
------

/- Memory that `kernel_memory_allocate` may return. -/
def Allocatable (s : ZoneState τ) (space size : Nat) : Prop :=
  c.pageSize ∣ space ∧ 0 < space ∧
    c.zoneMapMinAddress ≤ space ∧
    space + size ≤ c.zoneMapMaxAddress ∧
    ∀ p ∈ c.pages space size, s.mapped p = false

instance (s : ZoneState τ) (space size : Nat) :
    Decidable (Allocatable c s space size) := by
  unfold Allocatable
  exact inferInstance

def kernelMemoryAllocate
    (s : ZoneState τ)
    (space size : Nat) : ZoneState τ :=
  { s with
    mapped := fun p =>
      if p ∈ c.pages space size then true else s.mapped p }

/- All pages with a part of the range are removed. -/
def kmemFree
    (s : ZoneState τ)
    (addr size : Nat) : ZoneState τ :=
  { s with
    mapped := fun p =>
      if p ∈ c.pages addr size then false else s.mapped p }

end Operations

------
-- Allocation
------

section Alloc

variable {τ : Type} [DecidableEq τ] (c : ZoneConfig)

def ZoneState.setPhase
    (s : ZoneState τ)
    (t : τ)
    (p : ZonePhase) : ZoneState τ :=
  { s with phase := update s.phase t p }

/-
  A turn of the loop of `zalloc`, up to where it drops the
  lock. A zone that is full and cannot grow is a panic.
-/
def zallocLoop
    (s : ZoneState τ)
    (t : τ) : Option (ZoneState τ) :=
  match removeFromZone s with
  | some s => some (s.setPhase t .outside)
  | none =>
      if s.doingAlloc then
        some { s.setPhase t .waiting with someoneWaits := true }
      else if s.maxSize < s.curSize + c.elemSize then
        if c.exhaustible then some (s.setPhase t .outside)
        else if c.expandable then
          some { s.setPhase t .expanding with
            maxSize := (s.maxSize + s.maxSize / 2) % 2 ^ 32
            doingAlloc := true }
        else none
      else some { s.setPhase t .expanding with doingAlloc := true }

/-
  The memory of a zone that is collectable. The result is
  what the map has, or nothing.
-/
def zallocSpace
    (s : ZoneState τ)
    (t : τ)
    (poolLow : Bool)
    (result : Option Nat) : Option (ZoneState τ) :=
  match result with
  | none => some (s.setPhase t (.finishing true))
  | some space =>
      let size := c.roundPage
        (if poolLow then c.elemSize else c.allocSize)
      if Allocatable c s space size then
        let s := kernelMemoryAllocate c s space size
        let s := zonePageInit c s space size zonePageUsed
        some (s.setPhase t (.holding space size))
      else none

/- The end of an expansion: waiting threads are woken up. -/
def allocDone (s : ZoneState τ) : ZoneState τ :=
  { s with doingAlloc := false, someoneWaits := false }

section

variable (s : ZoneState τ) (t : τ)

/-
  The section after the memory was crammed into the zone. A
  thread that finds nothing waits for pages, or goes on.
-/
def zallocFinish
    (shortage : Bool) : Option (ZoneState τ) :=
  let s := allocDone s
  if shortage ∧ s.freeElements = 0 then
    some (s.setPhase t .waiting)
  else zallocLoop c s t

/-
  The first part of `zget_space`: is there enough? Its sum is
  taken not to wrap, which it does for callers of all sizes.
-/
def zgetSpace
    (result : Option Nat) : Option (ZoneState τ) :=
  if s.zallocEndOfSpace < s.zallocNextSpace + c.elemSize then
    match result with
    | none => some (s.setPhase t .starved)
    | some space =>
        let size := c.roundPage c.elemSize
        if Allocatable c s space size then
          let s := kernelMemoryAllocate c s space size
          let s := zonePageInit c s space size zonePageUsed
          some (s.setPhase t (.grown space size))
        else none
  else
    some { s.setPhase t (.taken s.zallocNextSpace) with
      zallocNextSpace := s.zallocNextSpace + c.elemSize }

/- The second part, with new memory. -/
def zgetTake
    (newSpace spaceToAdd : Nat) : ZoneState τ :=
  if s.zallocEndOfSpace < s.zallocNextSpace + c.elemSize then
    let next :=
      if newSpace ≠ s.zallocEndOfSpace then newSpace
      else s.zallocNextSpace
    { s.setPhase t (.taken next) with
      zallocNextSpace := next + c.elemSize
      zallocEndOfSpace := newSpace + spaceToAdd }
  else
    kmemFree c
      { s.setPhase t (.taken s.zallocNextSpace) with
        zallocNextSpace := s.zallocNextSpace + c.elemSize }
      newSpace spaceToAdd

/- The section with a new element from `zget_space`. -/
def zallocTaken
    (space : Nat) : ZoneState τ :=
  { (allocDone s).setPhase t (.counting space) with
    count := s.count + 1
    curSize := s.curSize + c.elemSize
    out := space :: s.out }

end

------
-- Deallocation
------

/-
  `zfree`. When memory is low, an element of pages goes back
  to the map.
-/
def zfree
    (s : ZoneState τ)
    (elem : Nat)
    (poolLow : Bool) : Option (ZoneState τ) :=
  let s := { s with out := s.out.erase elem }
  if c.pageSize ≤ c.elemSize ∧ c.splRoutine = false ∧
      poolLow = true then
    if c.fromZoneMap elem then
      let s := zonePageInit c s elem c.elemSize zonePageUnused
      some (kmemFree c
        { s with
          count := s.count - 1
          curSize := s.curSize - c.elemSize }
        elem c.elemSize)
    else none
  else some (addToZone s elem)

------
-- Garbage Collection
------

/- The first loop counts the free elements on each page. -/
def gcCount : Nat → ZoneState τ → Nat → ZoneState τ
| 0, s, _ => s
| fuel + 1, s, elt =>
    if elt = 0 then s
    else
      let next := s.word elt
      if c.fromZoneMap elt then
        gcCount fuel (zonePageFree c s elt c.elemSize) next
      else gcCount fuel s next

structure GcState (τ : Type) where
  state : ZoneState τ
  last : Nat
  elt : Nat
  freePages : List Nat

/- An element that is taken off the list. -/
def gcUnlink (g : GcState τ) : GcState τ :=
  let next := g.state.word g.elt
  if g.elt = g.last then
    { g with
      state := { g.state with freeElements := next }
      last := next
      elt := next }
  else
    { g with
      state := { g.state with
        word := update g.state.word g.last next }
      elt := next }

/- One turn of the second loop. -/
def gcTurn (g : GcState τ) : GcState τ :=
  let keep := { g with
    last := g.elt, elt := g.state.word g.elt }
  if c.fromZoneMap g.elt = false then keep
  else if zonePageCollectable c g.state g.elt c.elemSize then
    let s := { g.state with
      curSize := g.state.curSize - c.elemSize }
    let s := zonePageInUse c s g.elt c.elemSize
    let s := zonePageDealloc c s g.elt c.elemSize
    let (s, freePages) :=
      zoneAddFreePageList c s g.freePages g.elt c.elemSize
    gcUnlink { g with state := s, freePages := freePages }
  else
    { keep with
      state := zonePageKeep c g.state g.elt c.elemSize }

def gcScan : Nat → GcState τ → Option (GcState τ)
| 0, g => if g.elt = 0 then some g else none
| fuel + 1, g =>
    if g.elt = 0 then some g
    else gcScan fuel (gcTurn c g)

/-
  `zone_gc` at this zone. The loops run over the list, which
  has fewer elements than the zone has bytes.
-/
def zoneGc (s : ZoneState τ) : Option (ZoneState τ) :=
  if c.collectable = false then some s
  else if s.curSize - s.count * c.elemSize ≤
      2 * (c.pageSize : Int) then some s
  else do
    let s := gcCount c s.curSize s s.freeElements
    let g ← gcScan c s.curSize
      { state := s
        last := s.freeElements
        elt := s.freeElements
        freePages := [] }
    some { g.state with
      mapped := fun p =>
        if p ∈ g.freePages then false else g.state.mapped p }

------
-- Actions
------

/- What the rest of the system may change. -/
structure ZoneOthers where
  mapped : Nat → Bool
  allocCount : Nat → Int
  zallocNextSpace : Nat
  zallocEndOfSpace : Nat

inductive ZoneAction (τ : Type) where
| zcram (newmem size : Nat)
| zalloc (t : τ)
| resume (t : τ)
| space (t : τ) (poolLow : Bool) (result : Option Nat)
| cram (t : τ)
| finish (t : τ)
| zgetSpace (t : τ) (result : Option Nat)
| zgetTake (t : τ)
| taken (t : τ)
| starved (t : τ)
| counted (t : τ)
| zget
| zfree (elem : Nat) (poolLow : Bool)
| zoneGc
| write (addr value : Nat)
| others (o : ZoneOthers)

def zoneStep
    (s : ZoneState τ)
    (a : ZoneAction τ) : Option (ZoneState τ) :=
  match a with
  | .zcram newmem size => some (zcram c s newmem size)
  | .zalloc t =>
      match s.phase t with
      | .outside => zallocLoop c s t
      | _ => none
  | .resume t =>
      match s.phase t with
      | .waiting => zallocLoop c s t
      | _ => none
  | .space t poolLow result =>
      match s.phase t with
      | .expanding =>
          if c.collectable then zallocSpace c s t poolLow result
          else none
      | _ => none
  | .cram t =>
      match s.phase t with
      | .holding space size =>
          some ((zcram c s space size).setPhase t
            (.finishing false))
      | _ => none
  | .finish t =>
      match s.phase t with
      | .finishing shortage => zallocFinish c s t shortage
      | _ => none
  | .zgetSpace t result =>
      match s.phase t with
      | .expanding =>
          if c.collectable then none else zgetSpace c s t result
      | _ => none
  | .zgetTake t =>
      match s.phase t with
      | .grown space size => some (zgetTake c s t space size)
      | _ => none
  | .taken t =>
      match s.phase t with
      | .taken space => some (zallocTaken c s t space)
      | _ => none
  | .starved t =>
      match s.phase t with
      | .starved => some ((allocDone s).setPhase t .waiting)
      | _ => none
  | .counted t =>
      match s.phase t with
      | .counting space =>
          some ((zonePageAlloc c s space c.elemSize).setPhase t
            .outside)
      | _ => none
  | .zget => some ((removeFromZone s).getD s)
  | .zfree elem poolLow => zfree c s elem poolLow
  | .zoneGc => zoneGc c s
  | .write addr value =>
      some { s with word := update s.word addr value }
  | .others o =>
      some { s with
        mapped := o.mapped
        allocCount := o.allocCount
        zallocNextSpace := o.zallocNextSpace
        zallocEndOfSpace := o.zallocEndOfSpace }

/- `zone_free_count`. -/
def zoneFreeCount (s : ZoneState τ) : Int :=
  ((s.curSize / c.elemSize : Nat) : Int) - s.count

end Alloc

end Kern

end OsfMach
