import OsfMach.Lib.RoundRobin
import Mathlib.Algebra.Group.Nat.Defs

/-
  The paging segments of the default pager, from
  `dp_backing_store.c`.

  A pointer to a segment is its index in `paging_segments`:
  a segment is entered there when it is made and stays. An
  access outside the array, or to a null segment, is a fault.
  `ASSERT` is compiled out.

  Key definitions include:
    * `PagingSegment`, `Paging`
    * `psEnter`, `psSelectSegment`
    * `psDeallocateCluster`
-/

------
-- Segments
------

namespace OsfMach

namespace Pager

open Function
open Lib

def bsMaxpri : Nat := 4
def bsNopri : Int := -1
def bsFullpri : Int := -2
def maxNumPagingSegments : Nat := 31

def bsMinpri : Fin (bsMaxpri + 1) := 0

/- From `BS_MAXPRI` down to `BS_MINPRI`. -/
def priorities : List (Fin (bsMaxpri + 1)) :=
  [4, 3, 2, 1, 0]

structure BackingStore where
  bsPriority : Fin (bsMaxpri + 1)
  bsClsize : Nat
deriving DecidableEq, Repr

structure PagingSegment where
  psDevice : Nat
  psOffset : Nat
  psRecnum : Nat
  psPgnum : Nat
  psRecordShift : Nat
  psClshift : Nat
  psNcls : Nat
  psClcount : Nat
  psPgcount : Nat
  psHint : Nat
  psBmap : Nat → Bool
  psBs : BackingStore
  psGoingAway : Bool

/- The arrays of segments and of the last ones used. -/
structure Paging where
  pagingSegments : Nat → Option PagingSegment
  pagingSegmentMax : Nat
  pagingSegmentCount : Nat
  psSelectArray : Fin (bsMaxpri + 1) → Int

/- As the arrays are initialized. -/
def Paging.initial : Paging :=
  { pagingSegments := fun _ => none
    pagingSegmentMax := 0
    pagingSegmentCount := 0
    psSelectArray := fun _ => bsNopri }

inductive Fault where
| outOfBounds
| nullPointer
| panics
deriving DecidableEq, Repr

namespace Paging

variable (s : Paging)

def setSegment (j : Nat) (ps : PagingSegment) : Paging :=
  { s with
    pagingSegments := update s.pagingSegments j (some ps) }

def setSelect
    (i : Fin (bsMaxpri + 1))
    (v : Int) : Paging :=
  { s with
    psSelectArray := update s.psSelectArray i v }

/- Read the array at an index that may be outside of it. -/
def segmentAt (j : Int) : Except Fault (Option PagingSegment) :=
  if 0 ≤ j ∧ j < maxNumPagingSegments then
    .ok (s.pagingSegments j.toNat)
  else .error .outOfBounds

/- The segment a pointer points to. -/
def deref (j : Int) : Except Fault PagingSegment :=
  match s.segmentAt j with
  | .error e => .error e
  | .ok none => .error .nullPointer
  | .ok (some ps) => .ok ps

end Paging

------
-- Entering
------

/- The first null entry, if there is one. -/
def psFree (s : Paging) : Option Nat :=
  (List.range maxNumPagingSegments).find? fun i =>
    (s.pagingSegments i).isNone

/- Enter a segment, unless there is a shortage. -/
def psEnter (ps : PagingSegment) (s : Paging) : Option Paging :=
  match psFree s with
  | none => none
  | some i =>
      let p := ps.psBs.bsPriority
      some
        { s with
          pagingSegments :=
            update s.pagingSegments i (some ps)
          pagingSegmentMax :=
            if s.pagingSegmentMax < i then i
            else s.pagingSegmentMax
          pagingSegmentCount := s.pagingSegmentCount + 1
          psSelectArray :=
            if s.psSelectArray p = bsNopri then
              update s.psSelectArray p 0
            else s.psSelectArray }

------
-- Selecting
------

/- A cluster is reserved, by an `unsigned int` decremented. -/
def PagingSegment.reserve (ps : PagingSegment) : PagingSegment :=
  { ps with
    psClcount :=
      if ps.psClcount = 0 then 2 ^ 32 - 1
      else ps.psClcount - 1 }

/- In use, with a free cluster of a size at least as asked. -/
def PagingSegment.Suits
    (ps : PagingSegment)
    (shift : Nat) : Prop :=
  ps.psGoingAway = false ∧
    ps.psClcount ≠ 0 ∧
    shift ≤ ps.psClshift

instance
    (ps : PagingSegment)
    (shift : Nat) :
    Decidable (ps.Suits shift) := by
  unfold PagingSegment.Suits
  infer_instance

/- Whether the segment at an index is taken. -/
def psLook
    (s : Paging)
    (i : Fin (bsMaxpri + 1))
    (shift : Nat)
    (j : Int) : Except Fault Bool :=
  match s.segmentAt j with
  | .error e => .error e
  | .ok none => .ok false
  | .ok (some ps) =>
      .ok (decide (ps.psBs.bsPriority = i ∧ ps.Suits shift))

/- The scan of a priority, from the last segment used. -/
def psScan
    (s : Paging)
    (i : Fin (bsMaxpri + 1))
    (shift fuel : Nat) :
    Option (Except Fault (Option Int)) :=
  RoundRobin.scan (psLook s i shift) s.pagingSegmentMax
    (s.psSelectArray i) fuel

/-
  The loop over the priorities. Only `BS_NOPRI` is skipped.
  The scan at a priority starts after the last segment used.
-/
def psSelectFrom
    (shift fuel : Nat) :
    List (Fin (bsMaxpri + 1)) → Paging →
      Option (Except Fault (Option Nat × Paging))
| [], s => some (.ok (none, s))
| i :: rest, s =>
    if s.psSelectArray i = bsNopri then
      psSelectFrom shift fuel rest s
    else
      match psScan s i shift fuel with
      | none => none
      | some (.error e) => some (.error e)
      | some (.ok none) =>
          psSelectFrom shift fuel rest (s.setSelect i bsFullpri)
      | some (.ok (some j)) =>
          match s.deref j with
          | .error e => some (.error e)
          | .ok ps =>
              some (.ok (some j.toNat,
                (s.setSegment j.toNat ps.reserve).setSelect i j))

/-
  Select a segment and reserve a cluster of it. The result is
  that of at most `fuel` turns of each scan, if they end.
-/
def psSelectSegment
    (shift fuel : Nat)
    (s : Paging) :
    Option (Except Fault (Option Nat × Paging)) :=
  if s.pagingSegmentCount = 1 then
    -- The shift is only compared in an assertion.
    match s.deref s.pagingSegmentMax with
    | .error e => some (.error e)
    | .ok ps =>
        if ps.psGoingAway then some (.ok (none, s))
        else if ps.psClcount ≠ 0 then
          some (.ok (some s.pagingSegmentMax,
            s.setSegment s.pagingSegmentMax ps.reserve))
        else some (.ok (none, s))
  else if s.pagingSegmentCount = 0 then some (.ok (none, s))
  else psSelectFrom shift fuel priorities s

------
-- Clusters
------

/- A cluster is clear again and can be reserved. -/
def PagingSegment.freeCluster
    (ps : PagingSegment)
    (cluster : Nat) : PagingSegment :=
  { ps with
    psBmap := update ps.psBmap cluster false
    psClcount := (ps.psClcount + 1) % 2 ^ 32
    psHint :=
      if cluster / 8 < ps.psHint then cluster / 8
      else ps.psHint }

def psDeallocateCluster
    (j cluster : Nat)
    (s : Paging) : Except Fault Paging :=
  match s.deref j with
  | .error e => .error e
  | .ok ps =>
      if ps.psNcls ≤ cluster then .error .panics
      else
        let p := ps.psBs.bsPriority
        let s := s.setSegment j (ps.freeCluster cluster)
        -- Freeing space on a full priority resets the array.
        .ok (if s.psSelectArray p = bsFullpri then
          s.setSelect p 0 else s)

end Pager

end OsfMach
