import OsfMach.Ipc.Kmsg

/-
  A port's table of dead-name requests.

  The first element of a table says where its free elements
  start and which of the sizes it has. The others hold a
  request, or are linked into the free list.

  Key definitions include:
    * `ipcTableFill`, `Filling`, `ipcTableFill_shape`
    * `RequestSizes`, `ipcTableDnrequests`
    * `ipcPortDngrow`
    * `DnInv`, `requests`
-/

------
-- Sizes
------

namespace OsfMach

namespace Ipc

open Lib
open Lib.Checked

/- First powers of two, up to the page size. -/
def fillPowers
    (num minsize elemsize : Nat) :
    Nat → Nat → List Nat → List Nat × Nat
| 0, size, its => (its, size)
| fuel + 1, size, its =>
    if its.length < num ∧ size < pageSizeIpc then
      fillPowers num minsize elemsize fuel (2 * size)
        (if minsize ≤ size then its ++ [size / elemsize]
        else its)
    else (its, size)

/- Then increments of a page, then two pages, up to eight. -/
def fillPages
    (num minsize elemsize : Nat) :
    Nat → Nat → Nat → Nat → List Nat → List Nat
| 0, _, _, _, its => its
| fuel + 1, period, incrsize, size, its =>
    if its.length < num then
      if period < 15 then
        fillPages num minsize elemsize fuel (period + 1)
          incrsize (size + incrsize)
          (if minsize ≤ size then its ++ [size / elemsize]
          else its)
      else
        fillPages num minsize elemsize fuel 0
          (if incrsize < pageSizeIpc * 8 then 2 * incrsize
          else incrsize)
          size its
    else its

/- `ipc_table_fill`, while sizes fit in 32 bits. -/
def ipcTableFill (num min elemsize : Nat) : List Nat :=
  let minsize := min * elemsize
  let (its, size) := fillPowers num minsize elemsize 32 1 []
  fillPages num minsize elemsize (2 * (num + min)) 0
    pageSizeIpc size its

/-
  What the loops of `ipcTableFill` keep, with the next size
  in bytes.
-/
structure Filling
    (num min elemsize : Nat)
    (its : List Nat)
    (size : Nat) : Prop where
  length : its.length ≤ num
  increasing : its.Pairwise (· < ·)
  min_le : ∀ n, n ∈ its → min ≤ n
  lt : ∀ n, n ∈ its → n < size / elemsize

section

variable {num min elemsize size size' : Nat}
variable {its : List Nat}

/- A size that is large enough makes the next one larger. -/
theorem Filling.turn
    (h : Filling num min elemsize its size)
    (hPos : 0 < elemsize)
    (hNum : its.length < num)
    (hLe : size ≤ size')
    (hStep : min * elemsize ≤ size →
      size + elemsize ≤ size') :
    Filling num min elemsize
      (if min * elemsize ≤ size then its ++ [size / elemsize]
      else its) size' := by
  have hKeep : size / elemsize ≤ size' / elemsize :=
    Nat.div_le_div_right hLe
  by_cases hMin : min * elemsize ≤ size
  · have hNext : size / elemsize < size' / elemsize := by
      rw [← Nat.succ_le_iff, Nat.succ_eq_add_one,
        ← Nat.add_div_right size hPos]
      exact Nat.div_le_div_right (hStep hMin)
    have hGe : min ≤ size / elemsize :=
      (Nat.le_div_iff_mul_le hPos).mpr hMin
    rw [if_pos hMin]
    refine ⟨?_, ?_, ?_, ?_⟩
    · simpa using Nat.succ_le_of_lt hNum
    · simpa [List.pairwise_append] using
        ⟨h.increasing, h.lt⟩
    · simpa [or_imp, forall_and] using ⟨h.min_le, hGe⟩
    · simpa [or_imp, forall_and] using
        ⟨fun n hn => (h.lt n hn).trans_le hKeep, hNext⟩
  · rw [if_neg hMin]
    exact ⟨h.length, h.increasing, h.min_le,
      fun n hn => (h.lt n hn).trans_le hKeep⟩

/- The fuel is enough to reach a page. -/
theorem fillPowers_spec
    (hPos : 0 < elemsize)
    (hMin : 0 < min)
    (fuel : Nat)
    (h : Filling num min elemsize its size)
    (hFuel : pageSizeIpc ≤ size * 2 ^ fuel) :
    let done := fillPowers num (min * elemsize) elemsize fuel
      size its
    Filling num min elemsize done.1 done.2 ∧
      (done.1.length = num ∨ pageSizeIpc ≤ done.2) := by
  induction fuel generalizing size its with
  | zero =>
      rw [pow_zero, mul_one] at hFuel
      exact ⟨h, Or.inr hFuel⟩
  | succ fuel ih =>
      rw [fillPowers]
      split
      case isTrue hGo =>
        have hElem : elemsize ≤ min * elemsize :=
          Nat.le_mul_of_pos_left elemsize hMin
        refine ih (h.turn hPos hGo.1 (by omega)
          fun hLe => by omega) ?_
        rwa [mul_comm 2, mul_assoc, ← Nat.pow_succ']
      case isFalse hGo =>
        have hLength := h.length
        exact ⟨h, by dsimp only; omega⟩

/-
  Every second turn adds a size, or takes a page off what is
  missing of the smallest one.
-/
theorem fillPages_spec
    (hPos : 0 < elemsize)
    (hPage : elemsize ≤ pageSizeIpc)
    (fuel period incrsize missing : Nat)
    (h : Filling num min elemsize its size)
    (hIncr : pageSizeIpc ≤ incrsize)
    (hMissing : min * elemsize ≤ size + missing * pageSizeIpc)
    (hFuel : 2 * (num - its.length + missing) +
      period / 15 ≤ fuel) :
    let done := fillPages num (min * elemsize) elemsize fuel
      period incrsize size its
    done.length = num ∧
      ∃ last, Filling num min elemsize done last := by
  have hLength := h.length
  induction fuel generalizing period incrsize missing size its
  with
  | zero => exact ⟨by dsimp only [fillPages]; omega, size, h⟩
  | succ fuel ih =>
      rw [fillPages]
      split
      case isTrue hGo =>
        split
        case isTrue hPeriod =>
          have hTurn : Filling num min elemsize _
              (size + incrsize) :=
            h.turn hPos hGo (by omega) fun _ => by omega
          split at hTurn
          case isTrue hMin =>
            rw [if_pos hMin]
            refine ih _ _ missing hTurn hIncr (by omega) ?_
              hTurn.length
            rw [List.length_append, List.length_singleton]
            omega
          case isFalse hMin =>
            rw [if_neg hMin]
            have hLess : missing ≠ 0 := by
              rintro rfl
              omega
            refine ih _ _ (missing - 1) hTurn hIncr ?_
              (by omega) hTurn.length
            rw [Nat.sub_one_mul]
            omega
        case isFalse hPeriod =>
          refine ih _ _ missing h ?_ hMissing (by omega)
            h.length
          split <;> omega
      case isFalse hGo => exact ⟨by omega, size, h⟩

/- The fuel of both loops is enough. -/
theorem ipcTableFill_spec
    (num min elemsize : Nat)
    (hMin : 1 ≤ min)
    (hPos : 1 ≤ elemsize)
    (hPage : elemsize ≤ pageSizeIpc) :
    (ipcTableFill num min elemsize).length = num ∧
      ∃ last, Filling num min elemsize
        (ipcTableFill num min elemsize) last := by
  have hStart : Filling num min elemsize [] 1 :=
    ⟨num.zero_le, by simp, by simp, by simp⟩
  have hPowers := fillPowers_spec hPos hMin 32 hStart
    (by decide)
  have hMissing := Nat.mul_le_mul_left min hPage
  exact fillPages_spec hPos hPage _ 0 pageSizeIpc min
    hPowers.1 le_rfl (by omega) (by omega)

end

/- `ipc_table_init`: the last two sizes are the same. -/
def withLastTwice (its : List Nat) (i : Nat) : Nat :=
  (its ++ [its.getD (its.length - 1) 0]).getD i 0

theorem withLastTwice_of_lt
    {its : List Nat}
    {i : Nat}
    (h : i < its.length) :
    withLastTwice its i = its[i] := by
  simp [withLastTwice, List.getElem?_append_left h, h]

theorem withLastTwice_flat
    {its : List Nat}
    (h : 0 < its.length) :
    withLastTwice its its.length =
      withLastTwice its (its.length - 1) := by
  have hLast : its.length - 1 < its.length := by omega
  rw [withLastTwice_of_lt hLast]
  simp [withLastTwice, List.getD, hLast]

theorem withLastTwice_strict
    {its : List Nat}
    (h : its.Pairwise (· < ·))
    (i : Nat)
    (hLt : i + 1 < its.length) :
    withLastTwice its i < withLastTwice its (i + 1) := by
  rw [withLastTwice_of_lt (i.lt_succ_self.trans hLt),
    withLastTwice_of_lt hLt]
  exact List.pairwise_iff_getElem.mp h i (i + 1) _ hLt
    i.lt_succ_self

/-
  The sizes are what growing a table relies on, with the last
  one twice.
-/
theorem ipcTableFill_shape
    (num min elemsize : Nat)
    (hNum : 1 ≤ num)
    (hMin : 1 ≤ min)
    (hPos : 1 ≤ elemsize)
    (hPage : elemsize ≤ pageSizeIpc) :
    let its := ipcTableFill num min elemsize
    let table := withLastTwice its
    its.length = num ∧ its.Pairwise (· < ·) ∧
      (∀ n, n ∈ its → min ≤ n) ∧
      (∀ i, i + 1 < num → table i < table (i + 1)) ∧
      table num = table (num - 1) := by
  intro its table
  obtain ⟨hLength, last, h⟩ :=
    ipcTableFill_spec num min elemsize hMin hPos hPage
  refine ⟨hLength, h.increasing, h.min_le, ?_, ?_⟩
  · intro i hLt
    exact withLastTwice_strict h.increasing i
      (hLt.trans_eq hLength.symm)
  · have hFlat : table its.length = table (its.length - 1) :=
      withLastTwice_flat (hNum.trans_eq hLength.symm)
    rwa [hLength] at hFlat

theorem ipcTableFill_shape_dnrequests :
    (ipcTableFill 63 2 8).Pairwise (· < ·) :=
  (ipcTableFill_shape 63 2 8 (by decide) (by decide)
    (by decide) (by decide)).2.1

/-
  The sizes of tables, from the smallest; the size of zero
  that ends them is left out. A table has room for more than
  its first element.
-/
structure RequestSizes where
  sizes : List Nat
  increasing : sizes.Pairwise (· < ·)
  two_le : ∀ n, n ∈ sizes → 2 ≤ n

/- The size at an index, and zero at the end. -/
def RequestSizes.itsSize (z : RequestSizes) (its : Nat) : Nat :=
  z.sizes.getD its 0

def ipcTableDnrequestsSize : Nat := 64

def sizeofIpcPortRequest : Nat := 8

def ipcTableDnrequests : RequestSizes where
  sizes := ipcTableFill (ipcTableDnrequestsSize - 1) 2
    sizeofIpcPortRequest
  increasing := (ipcTableFill_spec _ 2 _ (by decide)
    (by decide) (by decide)).2.choose_spec.increasing
  two_le := (ipcTableFill_spec _ 2 _ (by decide)
    (by decide) (by decide)).2.choose_spec.min_le

example :
    ipcTableDnrequests.sizes.take 10 =
      [2, 4, 8, 16, 32, 64, 128, 256, 512, 1024] := by
  decide

------
-- Tables
------

/-
  `struct ipc_port_request`. The index of the next free
  element shares its place with the send-once right, and the
  size of the table with the name.
-/
structure IpcPortRequest where
  notify : Nat
  name : Nat
deriving DecidableEq, Repr

namespace IpcPortRequest

def iprNext (r : IpcPortRequest) : Nat := r.notify

def iprSoright (r : IpcPortRequest) : Nat := r.notify

def iprName (r : IpcPortRequest) : Nat := r.name

/- The size of the table, as an index of the sizes. -/
def iprSize (r : IpcPortRequest) : Nat := r.name

end IpcPortRequest

/- A table in memory, with the number of its elements. -/
structure RequestTable where
  elems : Nat
  slots : Nat → IpcPortRequest

namespace RequestTable

def iprSize (t : RequestTable) : Nat := (t.slots 0).iprSize

/- The links of the free list. -/
def next (t : RequestTable) (i : Nat) : Nat :=
  (t.slots i).iprNext

def set
    (t : RequestTable)
    (i : Nat)
    (r : IpcPortRequest) : RequestTable :=
  { t with slots := Function.update t.slots i r }

end RequestTable

structure DnPort where
  ipActive : Bool
  ioReferences : Nat
  ioFreed : Bool
  ipDnrequests : Nat
deriving DecidableEq, Repr

/- A port, and the tables of requests that are in memory. -/
structure DnState where
  port : DnPort
  tables : Nat → Option RequestTable
  nextAddr : Nat

abbrev DnProg := Checked DnState Trap

def iprNull : Nat := 0

def setTable
    (addr : Nat)
    (t : Option RequestTable) : DnProg Unit :=
  change fun s => { s with
    tables := Function.update s.tables addr t }

def readTable (addr : Nat) : DnProg RequestTable := do
  let s ← read
  match s.tables addr with
  | some t => pure t
  | none => stop .wild

------
-- Growing
------

def itsSizeNone : Int := -1

/- The comparisons with sizes are of unsigned words. -/
def unsignedTarget (targetSize : Int) : Nat :=
  (targetSize % 2 ^ 32).toNat

/- How many of these sizes are smaller than a target. -/
def skipSizes (target : Nat) : List Nat → Nat
| [] => 0
| size :: sizes =>
    if size < target then skipSizes target sizes + 1 else 0

inductive GrowChoice where
| enough
| noSpace
| attempt (its : Nat)
deriving DecidableEq, Repr

/- The size after that of a table, or the first. -/
def nextIndex : Option Nat → Nat
| none => 0
| some oits => oits + 1

/- Which size to allocate, when the table has some size. -/
def chooseSize
    (z : RequestSizes)
    (old : Option Nat)
    (targetSize : Int) : GrowChoice :=
  let its := nextIndex old
  if targetSize = itsSizeNone then .attempt its
  else
    let target := unsignedTarget targetSize
    if old.any fun oits => target ≤ z.itsSize oits then .enough
    else
      let its := its + skipSizes target (z.sizes.drop its)
      if z.itsSize its = 0 then .noSpace else .attempt its

/-
  What other threads do while the port is not locked, whether
  there is memory, and what it contains.
-/
structure DngrowAnswers where
  meanwhile : DnState → DnState
  grant : Bool
  junk : Nat → IpcPortRequest

def onPort (f : DnPort → DnPort) : DnProg Unit :=
  change fun s => { s with port := f s.port }

def ipReference : DnProg Unit :=
  onPort fun p => { p with ioReferences := p.ioReferences + 1 }

def ipRelease : DnProg Unit := do
  let s ← read
  require (0 < s.port.ioReferences) .assertion
  onPort fun p => { p with ioReferences := p.ioReferences - 1 }

/- Unlock, and free what nothing refers to any more. -/
def ipCheckUnlock : DnProg Unit :=
  onPort fun p =>
    { p with ioFreed := p.ioFreed || p.ioReferences = 0 }

/- The index of the size of a table that is there. -/
def currentSize (table : Nat) : DnProg (Option Nat) :=
  if table = iprNull then pure none
  else do
    let t ← readTable table
    pure (some t.iprSize)

/- `it_dnrequests_alloc`. -/
def itDnrequestsAlloc
    (env : DngrowAnswers)
    (elems : Nat) : DnProg Nat := do
  if env.grant then do
    let s ← read
    change fun s => { s with nextAddr := s.nextAddr + 1 }
    setTable s.nextAddr (some ⟨elems, env.junk⟩)
    pure s.nextAddr
  else pure iprNull

def itDnrequestsFree (table : Nat) : DnProg Unit := do
  let _ ← readTable table
  setTable table none

/- Add the new elements to the free list. -/
def addFree (t : RequestTable) :
    Nat → Nat → Nat → RequestTable × Nat
| 0, _, free => (t, free)
| count + 1, i, free =>
    addFree (t.set i ⟨free, machPortNull⟩) count (i + 1) i

/- Copy the old table to the new one, and what is free. -/
def copyRequests
    (z : RequestSizes)
    (otable : Nat)
    (new : RequestTable) : DnProg (RequestTable × Nat × Nat) :=
  if otable = iprNull then pure (new, 1, 0)
  else do
    let old ← readTable otable
    let osize := z.itsSize old.iprSize
    require (osize ≤ old.elems ∧ osize ≤ new.elems) .wild
    let slots := fun i =>
      if 1 ≤ i ∧ i < osize then old.slots i else new.slots i
    pure ({ new with slots := slots }, osize, old.next 0)

/- The port gets the new table. -/
def replaceTable
    (z : RequestSizes)
    (otable ntable its : Nat) : DnProg Unit := do
  let new ← readTable ntable
  let (new, osize, free) ← copyRequests z otable new
  let nsize := z.itsSize its
  require (osize < nsize) .assertion
  require (nsize ≤ new.elems) .wild
  let (new, free) := addFree new (nsize - osize) osize free
  setTable ntable (some (new.set 0 ⟨free, its⟩))
  onPort fun p => { p with ipDnrequests := ntable }
  if otable = iprNull then pure ()
  else itDnrequestsFree otable

/- Nobody has grown the table, as far as this can see. -/
def unchangedTable (otable its : Nat) : DnProg Bool := do
  let s ← read
  if s.port.ipActive ∧ s.port.ipDnrequests = otable then do
    let size ← currentSize otable
    pure (size.all fun oits => oits + 1 = its)
  else pure false

section

variable (z : RequestSizes)

/- A table of a size, which is none at the end. -/
def allocSize
    (env : DngrowAnswers)
    (its : Nat) : DnProg Nat :=
  if z.itsSize its = 0 then pure iprNull
  else itDnrequestsAlloc env (z.itsSize its)

/- Take the new table, or free it. -/
def takeTable
    (otable ntable its : Nat) : DnProg KernReturn := do
  let same ← unchangedTable otable its
  if same then do
    replaceTable z otable ntable its
    pure .success
  else do
    ipCheckUnlock
    itDnrequestsFree ntable
    pure .success

/- Allocate a table, and lock the port again. -/
def allocTable
    (env : DngrowAnswers)
    (otable its : Nat) : DnProg KernReturn := do
  let ntable ← allocSize z env its
  if ntable = iprNull then do
    -- `ipc_port_release`
    ipRelease
    ipCheckUnlock
    pure .resourceShortage
  else do
    ipRelease
    takeTable z otable ntable its

/- Grow to a size, with the port unlocked for a while. -/
def growRequests
    (env : DngrowAnswers)
    (otable its : Nat) : DnProg KernReturn := do
  ipReference
  change env.meanwhile
  allocTable z env otable its

/- `ipc_port_dngrow`. -/
def ipcPortDngrow
    (env : DngrowAnswers)
    (targetSize : Int) : DnProg KernReturn := do
  let s ← read
  require s.port.ipActive .assertion
  let old ← currentSize s.port.ipDnrequests
  match chooseSize z old targetSize with
  | .enough => pure .success
  | .noSpace => pure .noSpace
  | .attempt its =>
      growRequests z env s.port.ipDnrequests its

end

------
-- Invariant
------

/- The free list of a table runs through these elements. -/
structure FreeRequests
    (t : RequestTable)
    (free : List Nat) : Prop where
  chain : IndexChain.Chain t.next 0 free
  nodup : free.Nodup
  lt : ∀ i, i ∈ free → i < t.elems
  mem_iff : ∀ i, i ≠ 0 → i < t.elems →
    (i ∈ free ↔ (t.slots i).iprName = machPortNull)

/- A table of one of the sizes, with its free list. -/
structure TableOk
    (z : RequestSizes)
    (t : RequestTable) : Prop where
  elems : z.itsSize t.iprSize = t.elems
  pos : 0 < t.elems
  free : ∃ free, FreeRequests t free

structure DnInv
    (z : RequestSizes)
    (s : DnState) : Prop where
  table : s.port.ipDnrequests ≠ iprNull →
    ∃ t, s.tables s.port.ipDnrequests = some t ∧ TableOk z t
  pos : 0 < s.nextAddr
  lt : ∀ addr t, s.tables addr = some t → addr < s.nextAddr

/- The request at an index, as its name and right. -/
def RequestTable.request
    (t : RequestTable)
    (i : Nat) : Option (Nat × Nat) :=
  if i ≠ 0 ∧ i < t.elems ∧
      (t.slots i).iprName ≠ machPortNull then
    some ((t.slots i).iprName, (t.slots i).iprSoright)
  else none

/- The table of a port, which may have none. -/
def DnState.table (s : DnState) : Option RequestTable :=
  if s.port.ipDnrequests = iprNull then none
  else s.tables s.port.ipDnrequests

/- The requests that are registered with a port. -/
def requests (s : DnState) (i : Nat) : Option (Nat × Nat) :=
  s.table.bind fun t => t.request i

/- How many elements its table has. -/
def tableSize (s : DnState) : Nat :=
  match s.table with
  | some t => t.elems
  | none => 0

end Ipc

end OsfMach
