import OsfMach.Pager.VsMap

/-
  Reading clusters of an object, from `dp_backing_store.c`.

  What a run does is the list of its calls. A device answers
  each call for the pages at an offset with an error or with
  some bytes, and never with more than were asked for. Memory
  after the page of `dpt_buffer` can be written. The clusters
  that are freed are only listed, and statistics and locks
  are left out.

  Key definitions include:
    * `psClmapFind`, `psClunmap`
    * `psReadDevice`, `vsObjectDataProvided`
    * `vsClusterRead`
-/

------
-- Looking up
------

namespace OsfMach

namespace Pager

/- The entry of a cluster, unless its block is null. -/
def VsTable.slot
    (vs : VsTable)
    (cluster : Nat) : Except Fault (Option VsMap) :=
  let inBlock := fun (block : List VsMap) =>
    match block[cluster % clmapEntries]? with
    | none => .error .outOfBounds
    | some e => .ok (some e)
  match vs.vsMap with
  | .direct dmap => inBlock dmap
  | .indirect imap =>
      match imap[cluster / clmapEntries]? with
      | none => .error .outOfBounds
      | some none => .ok none
      | some (some block) => inBlock block

def VsTable.setSlot
    (vs : VsTable)
    (cluster : Nat)
    (e : VsMap) : VsTable :=
  { vs with
    vsMap :=
      match vs.vsMap with
      | .direct dmap => .direct (dmap.set (cluster % clmapEntries) e)
      | .indirect imap =>
          .indirect (imap.modify (cluster / clmapEntries)
            fun b => b.map fun (block : List VsMap) =>
              block.set (cluster % clmapEntries) e) }

/- The cluster of an offset, and the page of it in there. -/
def VsTable.clusterOf (vs : VsTable) (offset : Nat) : Nat :=
  atop offset / vs.vsclsize

def VsTable.pageOf (vs : VsTable) (offset : Nat) : Nat :=
  atop offset % vs.vsclsize

structure Clmap where
  clPs : Nat
  clNumpages : Nat
  clBmap : Nat
deriving DecidableEq, Repr

/- Not there, with the error of an earlier write, or there. -/
inductive Found where
| absent (clError : Nat)
| found (actualOffset : Nat) (clmap : Clmap)
deriving DecidableEq, Repr

/- `ps_clmap` with `CL_FIND` and neither size nor error. -/
def psClmapFind
    (vs : VsTable)
    (offset : Nat) : Except Fault Found :=
  let cluster := vs.clusterOf offset
  if unsigned vs.vsSize ≤ cluster then .ok (.absent 0)
  else
    match vs.slot cluster with
    | .error e => .error e
    | .ok none => .ok (.absent 0)
    | .ok (some e) =>
        if e.iserr then .ok (.absent e.vsmapEntry)
        else if e.isclr then .ok (.absent 0)
        else
          let page := vs.pageOf offset
          .ok (.found
            ((ptoa e.vsmapEntry * vs.vsclsize +
              vmPageSize * page) % 2 ^ 32)
            { clPs := e.vsmapPsindex
              clNumpages := vs.vsclsize - page
              clBmap := e.vsmapBmap >>> page })

------
-- Calls
------

/- The buffer of the thread, or one that a call returned. -/
inductive Region where
| dptBuffer
| device (offset call length : Nat)
deriving DecidableEq, Repr

/- What a byte of a buffer is. -/
inductive Byte where
| stale
| zero
| device
deriving DecidableEq, Repr

inductive Call where
| deviceRead (devOffset bytesWanted : Nat)
| vmDeallocate (buffer : Region) (start size : Nat)
| psDeallocateCluster (psindex cluster : Nat)
| dataSupply
    (offset : Nat)
    (buffer : Region)
    (size : Nat)
    (bytes : Nat → Byte)
    (dealloc : Bool)
| dataUnavailable (offset size : Nat)
| dataError (offset size : Nat)

------
-- Unmapping
------

/- Clear bits of a map from one on. -/
def clearBits (bits start n : Nat) : Nat :=
  (List.range n).foldl
    (fun bits k =>
      if bits.testBit (start + k) then bits - 2 ^ (start + k)
      else bits) bits

def VsMap.clearPages
    (e : VsMap)
    (start n : Nat) : VsMap :=
  { e with
    vsmapBmap := clearBits e.vsmapBmap start n
    vsmapAlloc := clearBits e.vsmapAlloc start n }

/- The loop for some pages, of at most as many turns. -/
def psClunmap :
    Nat → Nat → Nat → VsTable →
      Except Fault (VsTable × List Call)
| 0, _, _, vs => .ok (vs, [])
| fuel + 1, offset, pages, vs =>
    if pages = 0 then .ok (vs, [])
    else
      let cluster := vs.clusterOf offset
      let next := fun n =>
        psClunmap fuel ((offset + vmPageSize * n) % 2 ^ 32)
          (pages - n)
      match vs.slot cluster with
      | .error e => .error e
      | .ok none => .ok (vs, [])
      | .ok (some e) =>
          if e.isclr then next 1 vs
          else
            let i := vs.pageOf offset
            let n := min (vs.vsclsize - i) pages
            let cleared := e.clearPages i n
            if cleared.vsmapAlloc = 0 then
              (next n (vs.setSlot cluster VsMap.clr)).map
                fun (r : VsTable × List Call) =>
                  (r.1, .psDeallocateCluster e.vsmapPsindex
                    e.vsmapEntry :: r.2)
            else next n (vs.setSlot cluster cleared)

------
-- Devices
------

/- The variables of `ps_read_device`. -/
structure Reading where
  call : Nat
  devOffset : Nat
  bytesWanted : Nat
  totalRead : Nat
  buffer : Region
  bytes : Nat → Byte
  calls : List Call

/- Write some bytes of one kind from a place on. -/
def setBytes
    (b : Byte)
    (start n : Nat)
    (bytes : Nat → Byte) : Nat → Byte :=
  fun i => if start ≤ i ∧ i < start + n then b else bytes i

/- The loop, of at most `fuel` turns. -/
def readLoop
    (device : Nat → Option Nat)
    (offset size recordShift : Nat) :
    Nat → Reading → Reading
| 0, r => r
| fuel + 1, r =>
    let r := { r with
      calls := r.calls ++ [.deviceRead r.devOffset r.bytesWanted] }
    let bytesRead := min ((device r.call).getD 0) r.bytesWanted
    let region := .device offset r.call bytesRead
    if bytesRead = 0 then r
    else if bytesRead = size then
      { r with
        totalRead := r.totalRead + bytesRead
        buffer := region
        bytes := setBytes .device 0 size fun _ => .stale }
    else
      let r :=
        { r with
          call := r.call + 1
          devOffset := (r.devOffset +
            bytesRead / 2 ^ (vmPageShift - recordShift)) % 2 ^ 32
          bytesWanted := r.bytesWanted - bytesRead
          totalRead := r.totalRead + bytesRead
          bytes := setBytes .device r.totalRead bytesRead r.bytes
          calls := r.calls ++ [.vmDeallocate region 0 bytesRead] }
      if r.bytesWanted = 0 then r
      else readLoop device offset size recordShift fuel r

/-
  Read into the buffer of the thread, for the pages of an
  object at an offset. The rest of the size is the residual.
-/
def psReadDevice
    (device : Nat → Option Nat)
    (ps : PagingSegment)
    (offset actualOffset size : Nat)
    (dpt : Nat → Byte) : Reading :=
  readLoop device offset size ps.psRecordShift size
    { call := 0
      devOffset := (ps.psOffset + actualOffset /
        2 ^ (vmPageShift - ps.psRecordShift)) % 2 ^ 32
      bytesWanted := size
      totalRead := 0
      buffer := .dptBuffer
      bytes := dpt
      calls := [] }

------
-- Reading clusters
------

inductive Kind where
| error
| unavailable
| valid (psindex actualOffset : Nat)
deriving DecidableEq, Repr

/- Pages that are answered for alike. -/
structure Run where
  offset : Nat
  size : Nat
  kind : Kind
deriving DecidableEq, Repr

/- Up to the next cluster boundary. -/
def localSize (clshift offset cnt : Nat) : Nat :=
  let clsize := vmPageSize * 2 ^ clshift
  min (((offset + clsize) % 2 ^ 32 / clsize * clsize +
    2 ^ 32 - offset) % 2 ^ 32) cnt

/-
  Count contiguous available or unavailable pages, with so
  many pages left.
-/
def countRun
    (bmap cnt : Nat) : Nat → Nat → Nat → Nat → Nat × Nat
| 0, _, size, unavail => (size, unavail)
| n + 1, i, size, unavail =>
    if size < cnt ∧ unavail < cnt then
      if bmap.testBit i then
        if unavail ≠ 0 then (size, unavail)
        else countRun bmap cnt n (i + 1) (size + vmPageSize) unavail
      else if size ≠ 0 then (size, unavail)
      else countRun bmap cnt n (i + 1) size (unavail + vmPageSize)
    else (size, unavail)

/- The first part of the loop: what comes next in the map. -/
def nextRun
    (vs : VsTable)
    (offset cnt : Nat) : Except Fault Run :=
  (psClmapFind vs offset).map fun (f : Found) =>
    match f with
    | .absent clError =>
        { offset := offset
          size := localSize vs.vsClshift offset cnt
          kind := if clError ≠ 0 then .error else .unavailable }
    | .found actualOffset clmap =>
        let counts := countRun clmap.clBmap cnt
          clmap.clNumpages 0 0 0
        if counts.1 = 0 then
          { offset := offset
            size := counts.2
            kind := .unavailable }
        else
          { offset := offset
            size := counts.1
            kind := .valid clmap.clPs actualOffset }

/- What a turn of the loop leaves. -/
structure ReadTurn where
  vs : VsTable
  dpt : Nat → Byte
  calls : List Call
  failed : Bool

def vsObjectDataProvided
    (buffer : Region)
    (bytes : Nat → Byte)
    (offset size : Nat)
    (vs : VsTable) : Except Fault (VsTable × List Call) :=
  (psClunmap (atop size) offset (atop size) vs).map
    fun (r : VsTable × List Call) =>
      (r.1, r.2 ++ [.dataSupply offset buffer size bytes
        (buffer != .dptBuffer)])

/- The residual without the bit of the page size. -/
def fillOf (residual : Nat) : Nat :=
  if residual.testBit vmPageShift then residual - vmPageSize
  else residual

/- Answer for pages that were read, or were to be. -/
def answerRead
    (vs : VsTable)
    (dpt : Nat → Byte)
    (offset size : Nat)
    (r : Reading) : Except Fault ReadTurn :=
  let residual := size - r.totalRead
  let dpt := if r.buffer = .dptBuffer then r.bytes else dpt
  if residual = 0 then
    (vsObjectDataProvided r.buffer r.bytes offset size vs).map
      fun (s : VsTable × List Call) =>
        { vs := s.1
          dpt := dpt
          calls := r.calls ++ s.2
          failed := false }
  else if residual = size then
    .ok
      { vs := vs
        dpt := dpt
        calls := r.calls ++ [.dataError offset size]
        failed := true }
  else
    let fill := fillOf residual
    let lsize := r.totalRead + fill
    let bytes := setBytes .zero r.totalRead fill r.bytes
    (vsObjectDataProvided r.buffer bytes offset lsize vs).map
      fun (s : VsTable × List Call) =>
        let rest := size - lsize
        { vs := s.1
          dpt := bytes
          calls := r.calls ++ s.2 ++
            (if rest = 0 then []
            else .dataError ((offset + lsize) % 2 ^ 32) rest ::
              -- The buffer is now after `dpt_buffer`.
              if residual = rest then []
              else [.vmDeallocate r.buffer lsize
                ((rest + 2 ^ 32 - residual) % 2 ^ 32)])
          failed := decide (rest ≠ 0) }

/- Answer for a run of pages. -/
def answerRun
    (segments : Nat → PagingSegment)
    (device : Nat → Nat → Option Nat)
    (vs : VsTable)
    (dpt : Nat → Byte)
    (run : Run) : Except Fault ReadTurn :=
  match run.kind with
  | .error => .ok ⟨vs, dpt, [.dataError run.offset run.size], false⟩
  | .unavailable =>
      .ok ⟨vs, dpt, [.dataUnavailable run.offset run.size], false⟩
  | .valid psindex actualOffset =>
      answerRead vs dpt run.offset run.size
        (psReadDevice (device run.offset) (segments psindex)
          run.offset actualOffset run.size dpt)

/- The loop, if at most `fuel` turns end it. -/
def vsClusterRead
    (segments : Nat → PagingSegment)
    (device : Nat → Nat → Option Nat) :
    Nat → Nat → Nat → VsTable → (Nat → Byte) →
      Option (Except Fault (List Call))
| 0, _, cnt, _, _ => if cnt = 0 then some (.ok []) else none
| fuel + 1, offset, cnt, vs, dpt =>
    if cnt = 0 then some (.ok [])
    else
      match (nextRun vs offset cnt).bind fun (run : Run) =>
          (answerRun segments device vs dpt run).map
            fun (t : ReadTurn) => (run, t) with
      | .error e => some (.error e)
      | .ok (run, t) =>
          if t.failed then some (.ok t.calls)
          else
            (vsClusterRead segments device fuel
              ((offset + run.size) % 2 ^ 32) (cnt - run.size)
              t.vs t.dpt).map
                fun (r : Except Fault (List Call)) =>
                  r.map fun (calls : List Call) =>
                    t.calls ++ calls

end Pager

end OsfMach
