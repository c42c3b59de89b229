import OsfMach.Pager.PageIn
import OsfMach.Pager.VsMapShape

/-
  Which requests for pages are answered completely.

  A run of valid pages ends the request, unless the device
  gives all of it but for less than a page. Of the others,
  only those go right of which nothing was read, or all but a
  page.

  Main declarations:
    * `Answered`, `PagedIn`
    * `unread`, `ReadWhen`
    * `answerRun_spec`
    * `vsClusterRead_answers_iff`
-/

------
-- Answers
------

namespace OsfMach

namespace Pager

open List

variable {vs : VsTable} {o n : Nat}
variable {calls : List Call} {run : Run}

/- The offsets of some pages. -/
def pagesFrom (offset n : Nat) : List Nat :=
  (List.range n).map fun i => (offset + vmPageSize * i) % 2 ^ 32

/- The pages that a call answers for. -/
def Call.answered : Call → List Nat
| .dataSupply offset _ size _ _
| .dataUnavailable offset size
| .dataError offset size => pagesFrom offset (atop size)
| _ => []

/- A buffer that the device returned, as a whole. -/
def Region.Owned
    (buffer : Region)
    (start size : Nat) : Prop :=
  start = 0 ∧
    match buffer with
    | .dptBuffer => False
    | .device _ _ length => size = length

/-
  Something of each page that is supplied was read, and what
  is deallocated is what the device returned.
-/
def Call.Right : Call → Prop
| .dataSupply _ buffer size bytes dealloc =>
    (∀ p < atop size, ∃ i < vmPageSize,
      bytes (vmPageSize * p + i) = .device) ∧
    (dealloc = true → buffer.Owned 0 size)
| .vmDeallocate buffer start size => buffer.Owned start size
| _ => True

/- Each page is answered for once, and truthfully. -/
structure Answered
    (calls : List Call)
    (offset cnt : Nat) : Prop where
  once : ∀ p ∈ pagesFrom offset (atop cnt),
    (calls.flatMap Call.answered).count p = 1
  right : ∀ c ∈ calls, c.Right

/- The request is answered, in as many turns as pages. -/
def PagedIn
    (segments : Nat → PagingSegment)
    (device : Nat → Nat → Option Nat)
    (offset cnt : Nat)
    (vs : VsTable)
    (dpt : Nat → Byte) : Prop :=
  ∃ calls,
    vsClusterRead segments device (atop cnt) offset cnt vs dpt =
      some (.ok calls) ∧
    Answered calls offset cnt

------
-- The condition
------

/- What a device leaves unread, from a call on. -/
def unread
    (device : Nat → Option Nat) : Nat → Nat → Nat → Nat
| 0, _, wanted => wanted
| fuel + 1, call, wanted =>
    let bytesRead := min ((device call).getD 0) wanted
    if bytesRead = 0 then wanted
    else unread device fuel (call + 1) (wanted - bytesRead)

def Run.residual
    (device : Nat → Nat → Option Nat)
    (run : Run) : Nat :=
  unread (device run.offset) run.size 0 run.size

/- The map after a run was supplied. -/
def Run.unmap (vs : VsTable) (run : Run) : VsTable :=
  match run.kind with
  | .valid _ _ =>
      match psClunmap (atop run.size) run.offset
          (atop run.size) vs with
      | .ok r => r.1
      | .error _ => vs
  | _ => vs

/- The runs of pages of a range, as the map has them. -/
def runsOf : Nat → Nat → Nat → VsTable → List Run
| 0, _, _, _ => []
| fuel + 1, offset, cnt, vs =>
    if cnt = 0 then []
    else
      match nextRun vs offset cnt with
      | .error _ => []
      | .ok run =>
          run :: runsOf fuel ((offset + run.size) % 2 ^ 32)
            (cnt - run.size) (run.unmap vs)

/-
  Less than a page of each run of valid pages is not read. Of
  the last run this can also be a page, or all of it.
-/
def ReadWhen
    (device : Nat → Nat → Option Nat) : List Run → Prop
| [] => True
| run :: rest =>
    (∀ psindex actualOffset,
      run.kind = .valid psindex actualOffset →
      run.residual device < vmPageSize ∨
        (rest = [] ∧
          (run.residual device = vmPageSize ∨
            run.residual device = run.size))) ∧
    ReadWhen device rest

------
-- Looking up
------

/- A table of the same shape. -/
structure VsTable.Alike (vs vs' : VsTable) : Prop where
  layout : vs'.Layout
  shift : vs'.vsClshift = vs.vsClshift
  size : vs'.vsSize = vs.vsSize

theorem VsTable.Layout.bounds
    (h : vs.Layout) :
    0 ≤ vs.vsSize ∧ vs.vsSize < 2 ^ 31 := by
  unfold Layout clmapEntries clmapThreshold sizeofVsMap at h
  split at h <;> omega

theorem VsTable.Layout.slot
    (h : vs.Layout)
    (cluster : Nat)
    (hIn : cluster < vs.vsSize) :
    ∃ e, vs.slot cluster = .ok e := by
  unfold Layout at h
  unfold VsTable.slot
  cases hMap : vs.vsMap with
  | direct dmap =>
      rw [hMap] at h
      rcases h with ⟨hSize, hSmall⟩
      have hLess : cluster % clmapEntries < dmap.length := by
        rw [Nat.mod_eq_of_lt (by omega)]
        omega
      dsimp only
      rw [List.getElem?_eq_getElem hLess]
      exact ⟨_, rfl⟩
  | indirect imap =>
      rw [hMap] at h
      rcases h with ⟨_, _, hLength, hBlocks⟩
      have hLess : cluster / clmapEntries < imap.length := by
        unfold clmapEntries clmapThreshold sizeofVsMap at *
        omega
      dsimp only
      rw [List.getElem?_eq_getElem hLess]
      cases hBlock : imap[cluster / clmapEntries] with
      | none => exact ⟨_, rfl⟩
      | some block =>
          have hFull : block.length = clmapEntries :=
            hBlocks (some block)
              (hBlock ▸ getElem_mem hLess)
          have hSlot : cluster % clmapEntries < block.length :=
            by
            rw [hFull]
            exact Nat.mod_lt _ (by decide)
          dsimp only
          rw [List.getElem?_eq_getElem hSlot]
          exact ⟨_, rfl⟩

theorem VsTable.Layout.setSlot
    (h : vs.Layout)
    (cluster : Nat)
    (e : VsMap) :
    vs.Alike (vs.setSlot cluster e) := by
  refine ⟨?_, rfl, rfl⟩
  unfold Layout at h ⊢
  unfold VsTable.setSlot
  cases hMap : vs.vsMap with
  | direct dmap =>
      rw [hMap] at h
      dsimp only
      rw [length_set]
      exact h
  | indirect imap =>
      rw [hMap] at h
      rcases h with ⟨hBig, hInt, hLength, hBlocks⟩
      refine ⟨hBig, hInt, ?_, ?_⟩
      · rw [length_modify]
        exact hLength
      · intro b hb
        rw [mem_iff_getElem] at hb
        rcases hb with ⟨i, hi, rfl⟩
        rw [length_modify] at hi
        have hOld := hBlocks imap[i] (getElem_mem hi)
        rw [getElem_modify]
        split_ifs
        · cases hBlock : imap[i] with
          | none => exact length_replicate
          | some block =>
              rw [hBlock] at hOld
              exact (length_set).trans hOld
        · exact hOld

------
-- Runs
------

theorem atop_mul (k : Nat) :
    atop (vmPageSize * k) = k := by
  exact Nat.mul_div_cancel_left k (by decide)

theorem pagesFrom_add
    (offset k n : Nat) :
    pagesFrom offset (k + n) =
      pagesFrom offset k ++
        pagesFrom ((offset + vmPageSize * k) % 2 ^ 32) n := by
  unfold pagesFrom
  rw [range_add, map_append, map_map]
  congr 1
  apply map_congr_left
  intro i _
  rw [Function.comp_apply, Nat.mod_add_mod, Nat.mul_add,
    Nat.add_assoc]

theorem pagesFrom_nodup
    (hn : n ≤ 2 ^ 20) :
    (pagesFrom (vmPageSize * o) n).Nodup := by
  apply List.Nodup.map_on _ nodup_range
  intro i hi j hj hSame
  rw [mem_range] at hi hj
  unfold vmPageSize at hSame
  omega

/- What is counted is of one kind, and is something. -/
theorem countRun_spec
    (bmap : Nat)
    (hPos : 0 < n)
    (fuel i a b : Nat)
    (hKind : a = 0 ∨ b = 0)
    (hLe : a + b ≤ n)
    (hSome : 0 < a + b + fuel) :
    ∃ a' b', countRun bmap (vmPageSize * n) fuel i
        (vmPageSize * a) (vmPageSize * b) =
          (vmPageSize * a', vmPageSize * b') ∧
      (a' = 0 ∨ b' = 0) ∧ 0 < a' + b' ∧ a' + b' ≤ n ∧
      a' + b' ≤ a + b + fuel := by
  have hDone : ∀ fuel, 0 < a + b →
      ∃ a' b', (vmPageSize * a, vmPageSize * b) =
          (vmPageSize * a', vmPageSize * b') ∧
        (a' = 0 ∨ b' = 0) ∧ 0 < a' + b' ∧ a' + b' ≤ n ∧
        a' + b' ≤ a + b + fuel :=
    fun fuel hPart => ⟨a, b, rfl, hKind, hPart, hLe, by omega⟩
  induction fuel generalizing i a b with
  | zero => exact hDone 0 (by omega)
  | succ fuel ih =>
      unfold countRun
      unfold vmPageSize at *
      split_ifs with hMore hBit hUnavail hSize
      · exact hDone _ (by omega)
      · rcases ih (i + 1) (a + 1) b (by omega) (by omega)
          (by omega) (fun _ _ => ⟨a + 1, b, rfl, by omega,
            by omega, by omega, by omega⟩) with
          ⟨a', b', hRun, hRest⟩
        exact ⟨a', b', hRun, by omega⟩
      · exact hDone _ (by omega)
      · rcases ih (i + 1) a (b + 1) (by omega) (by omega)
          (by omega) (fun _ _ => ⟨a, b + 1, rfl, by omega,
            by omega, by omega, by omega⟩) with
          ⟨a', b', hRun, hRest⟩
        exact ⟨a', b', hRun, by omega⟩
      · exact hDone _ (by omega)

theorem localSize_spec
    {clshift o n : Nat}
    (hShift : clshift ≤ maxClusterShift)
    (ho : o < 2 ^ 20)
    (hPos : 0 < n) :
    ∃ k, localSize clshift (vmPageSize * o) (vmPageSize * n) =
        vmPageSize * k ∧ 0 < k ∧ k ≤ n := by
  refine ⟨min (2 ^ clshift - o % 2 ^ clshift) n, ?_⟩
  unfold localSize vmPageSize
  dsimp only
  rcases cases_of_le_maxClusterShift hShift with
    rfl | rfl | rfl | rfl <;> omega

/- What a run is of, that comes next. -/
structure RunOf
    (vs : VsTable)
    (start n : Nat)
    (run : Run)
    (k : Nat) : Prop where
  offset : run.offset = start
  size : run.size = vmPageSize * k
  pos : 0 < k
  le : k ≤ n
  mapped : ∀ psindex actualOffset,
    run.kind = .valid psindex actualOffset →
    ∃ e, vs.slot (vs.clusterOf start) = .ok (some e) ∧
      e.isclr = false ∧ k ≤ vs.vsclsize - vs.pageOf start

theorem nextRun_spec
    (h : vs.Layout)
    (hShift : vs.vsClshift ≤ maxClusterShift)
    (ho : o < 2 ^ 20)
    (hPos : 0 < n) :
    ∃ run k, nextRun vs (vmPageSize * o) (vmPageSize * n) =
        .ok run ∧
      RunOf vs (vmPageSize * o) n run k := by
  rcases localSize_spec hShift ho hPos with
    ⟨k, hLocal, hSome, hLe⟩
  have hAbsent : ∀ clError, ∃ run k,
      Except.ok
        { offset := vmPageSize * o
          size := localSize vs.vsClshift (vmPageSize * o)
            (vmPageSize * n)
          kind := if clError ≠ 0 then .error
            else .unavailable } =
        (Except.ok run : Except Fault Run) ∧
      RunOf vs (vmPageSize * o) n run k := by
    intro clError
    refine ⟨_, k, rfl, rfl, hLocal, hSome, hLe, ?_⟩
    intro psindex actualOffset hKind
    split_ifs at hKind
  unfold nextRun psClmapFind
  dsimp only
  split_ifs with hOut
  · exact hAbsent 0
  rcases h.slot (vs.clusterOf (vmPageSize * o))
    (by
      have hBounds := h.bounds
      unfold unsigned at hOut
      omega) with ⟨e, hSlot⟩
  rw [hSlot]
  cases e with
  | none => exact hAbsent 0
  | some e =>
      dsimp only
      split_ifs with hErr hClr
      · exact hAbsent _
      · exact hAbsent 0
      have hPage : vs.pageOf (vmPageSize * o) < vs.vsclsize :=
        Nat.mod_lt _ (Nat.two_pow_pos _)
      rcases countRun_spec
        (e.vsmapBmap >>> vs.pageOf (vmPageSize * o)) hPos
        (vs.vsclsize - vs.pageOf (vmPageSize * o)) 0 0 0
        (.inl rfl) (by omega) (by omega) with
        ⟨a, b, hRun, hKind, hPart, hIn, hFit⟩
      rw [Nat.mul_zero] at hRun
      unfold Except.map
      dsimp only
      rw [hRun]
      split_ifs with hNone
      · have ha : a = 0 := by
          dsimp only [vmPageSize] at hNone
          omega
        refine ⟨_, b, rfl, rfl, rfl, by omega, by omega, ?_⟩
        intro _ _ hIs
        cases hIs
      · have hb : b = 0 ∧ 0 < a := by
          dsimp only [vmPageSize] at hNone
          omega
        refine ⟨_, a, rfl, rfl, rfl, hb.2, by omega, ?_⟩
        intro _ _ _
        exact ⟨e, hSlot, by simpa using hClr, by omega⟩

/- A call that neither answers nor frees what it should not. -/
def Call.Quiet (c : Call) : Prop :=
  c.answered = [] ∧ c.Right

/- A run of pages that is mapped is unmapped. -/
theorem psClunmap_spec
    {e : VsMap}
    {offset k j : Nat}
    (h : vs.Layout)
    (hSlot : vs.slot (vs.clusterOf offset) = .ok (some e))
    (hMapped : e.isclr = false)
    (hPos : 0 < j)
    (hIn : j ≤ k)
    (hFit : k ≤ vs.vsclsize - vs.pageOf offset) :
    ∃ vs' calls, psClunmap j offset j vs = .ok (vs', calls) ∧
      vs.Alike vs' ∧ ∀ c ∈ calls, c.Quiet := by
  cases j with
  | zero => omega
  | succ j =>
      have hNone : ∀ fuel offset vs, psClunmap fuel offset 0 vs =
          .ok (vs, []) := by
        intro fuel offset vs
        cases fuel <;> rfl
      unfold psClunmap
      dsimp only
      rw [if_neg (by omega), hSlot]
      dsimp only
      rw [if_neg (by simp [hMapped]),
        Nat.min_eq_right (by omega), Nat.sub_self, hNone, hNone]
      split_ifs
      · refine ⟨_, _, rfl, h.setSlot _ _, ?_⟩
        intro c hc
        rw [mem_singleton.mp hc]
        exact ⟨rfl, trivial⟩
      · exact ⟨_, _, rfl, h.setSlot _ _, by simp⟩

------
-- Reading
------

/- In the middle of reading some bytes. -/
structure Reading.Mid (size : Nat) (r : Reading) : Prop where
  buffer : r.buffer = .dptBuffer
  wanted : r.totalRead + r.bytesWanted = size
  bytes : ∀ i < r.totalRead, r.bytes i = .device
  quiet : ∀ c ∈ r.calls, c.Quiet

/- What was read, into one of the buffers. -/
structure Reading.Ends
    (size residual : Nat)
    (r : Reading) : Prop where
  total : r.totalRead + residual = size
  bytes : ∀ i < r.totalRead, r.bytes i = .device
  quiet : ∀ c ∈ r.calls, c.Quiet
  buffer : r.buffer = .dptBuffer ∨
    residual = 0 ∧ r.buffer.Owned 0 size

theorem readLoop_spec
    {device : Nat → Option Nat}
    {offset size recordShift : Nat}
    (fuel : Nat)
    (r : Reading)
    (h : r.Mid size)
    (hFuel : r.bytesWanted ≤ fuel) :
    (readLoop device offset size recordShift fuel r).Ends size
      (unread device fuel r.call r.bytesWanted) := by
  have hStop : r.Ends size r.bytesWanted :=
    ⟨h.wanted, h.bytes, h.quiet, .inl h.buffer⟩
  induction fuel generalizing r with
  | zero => exact hStop
  | succ fuel ih =>
      have hWanted := h.wanted
      have hQuiet : ∀ c ∈ r.calls ++
          [.deviceRead r.devOffset r.bytesWanted], c.Quiet := by
        intro c hc
        rcases mem_append.mp hc with hc | hc
        · exact h.quiet c hc
        · rw [mem_singleton.mp hc]
          exact ⟨rfl, trivial⟩
      unfold readLoop unread
      dsimp only
      split_ifs with hNone hAll hEnd
      · exact ⟨hWanted, h.bytes, hQuiet, .inl h.buffer⟩
      · -- the device's own buffer has all of it
        have hRest : r.bytesWanted -
            min ((device r.call).getD 0) r.bytesWanted = 0 := by
          omega
        rw [hRest]
        have hDone : unread device fuel (r.call + 1) 0 = 0 := by
          cases fuel <;> simp [unread]
        rw [hDone]
        refine ⟨by dsimp only; omega, ?_, hQuiet,
          .inr ⟨rfl, rfl, hAll.symm⟩⟩
        intro i hi
        dsimp only at hi ⊢
        exact if_pos (by omega)
      all_goals
        have hMid : Reading.Mid size
            { r with
              call := r.call + 1
              devOffset := (r.devOffset +
                min ((device r.call).getD 0) r.bytesWanted /
                  2 ^ (vmPageShift - recordShift)) % 2 ^ 32
              bytesWanted := r.bytesWanted -
                min ((device r.call).getD 0) r.bytesWanted
              totalRead := r.totalRead +
                min ((device r.call).getD 0) r.bytesWanted
              bytes := setBytes .device r.totalRead
                (min ((device r.call).getD 0) r.bytesWanted)
                r.bytes
              calls := r.calls ++
                [.deviceRead r.devOffset r.bytesWanted] ++
                [.vmDeallocate (.device offset r.call
                  (min ((device r.call).getD 0) r.bytesWanted)) 0
                  (min ((device r.call).getD 0)
                    r.bytesWanted)] } := by
          refine ⟨h.buffer, by dsimp only; omega, ?_, ?_⟩
          · intro i hi
            dsimp only at hi ⊢
            unfold setBytes
            split_ifs
            · rfl
            · exact h.bytes i (by omega)
          · intro c hc
            rcases mem_append.mp hc with hc | hc
            · exact hQuiet c hc
            · rw [mem_singleton.mp hc]
              exact ⟨rfl, rfl, rfl⟩
      · rw [hEnd]
        have hDone : unread device fuel (r.call + 1) 0 = 0 := by
          cases fuel <;> simp [unread]
        exact ⟨by dsimp only; omega, hMid.bytes,
          hMid.quiet, .inl hMid.buffer⟩
      · exact ih _ hMid (by dsimp only; omega)
          ⟨hMid.wanted, hMid.bytes, hMid.quiet,
            .inl hMid.buffer⟩

------
-- Answering
------

theorem answered_quiet
    (h : ∀ c ∈ calls, c.Quiet)
    (more : List Call) :
    (calls ++ more).flatMap Call.answered =
      more.flatMap Call.answered := by
  rw [flatMap_append,
    flatMap_eq_nil_iff.mpr (fun c hc => (h c hc).1),
    nil_append]

theorem right_quiet
    (h : ∀ c ∈ calls, c.Quiet)
    (more : List Call) :
    (∀ c ∈ calls ++ more, c.Right) ↔ ∀ c ∈ more, c.Right := by
  rw [forall_mem_append]
  exact and_iff_right (fun c hc => (h c hc).2)

/- What comes of a run of pages. -/
inductive Outcome
    (device : Nat → Nat → Option Nat)
    (vs : VsTable)
    (run : Run)
    (t : ReadTurn) : Prop where
| goes
    (hOn : t.failed = false)
    (hRight : ∀ c ∈ t.calls, c.Right)
    (hVs : t.vs = run.unmap vs)
    (hRead : ∀ psindex actualOffset,
      run.kind = .valid psindex actualOffset →
      run.residual device < vmPageSize)
| ends
    (psindex actualOffset : Nat)
    (hFailed : t.failed = true)
    (hRight : ∀ c ∈ t.calls, c.Right)
    (hKind : run.kind = .valid psindex actualOffset)
    (hPart : vmPageSize ≤ run.residual device)
    (hLast : run.residual device = vmPageSize ∨
      run.residual device = run.size)
    (hAlike : vs.Alike (run.unmap vs))
| wrong
    (psindex actualOffset : Nat)
    (hWrong : ¬ ∀ c ∈ t.calls, c.Right)
    (hKind : run.kind = .valid psindex actualOffset)
    (hPart : vmPageSize ≤ run.residual device)
    (hNeither : ¬ (run.residual device = vmPageSize ∨
      run.residual device = run.size))

theorem fillOf_cases
    (residual : Nat) :
    (fillOf residual + vmPageSize = residual) ∨
      (fillOf residual = residual ∧ residual ≠ vmPageSize) := by
  unfold fillOf
  split_ifs with hBit
  · have hLe := Nat.ge_two_pow_of_testBit hBit
    unfold vmPageShift at hLe
    unfold vmPageSize
    omega
  · right
    refine ⟨rfl, ?_⟩
    rintro rfl
    exact hBit (by decide)

theorem answerRead_spec
    {device : Nat → Nat → Option Nat}
    {dpt : Nat → Byte}
    {n k psindex actualOffset : Nat}
    {r : Reading}
    (h : vs.Layout)
    (hRun : RunOf vs run.offset n run k)
    (hKind : run.kind = .valid psindex actualOffset)
    (hRead : r.Ends run.size (run.residual device)) :
    ∃ t, answerRead vs dpt run.offset run.size r = .ok t ∧
      vs.Alike t.vs ∧
      t.calls.flatMap Call.answered = pagesFrom run.offset k ∧
      Outcome device vs run t := by
  rcases hRun.mapped _ _ hKind with ⟨e, hSlot, hMapped, hFit⟩
  have hSize := hRun.size
  have hPos := hRun.pos
  have hTotal := hRead.total
  have hResidual : run.size - r.totalRead =
      run.residual device := by omega
  rcases psClunmap_spec h hSlot hMapped hPos (le_refl k) hFit
    with ⟨vsAll, callsAll, hAll, hAlike, hQuiet⟩
  have hUnmap : run.unmap vs = vsAll := by
    unfold Run.unmap
    rw [hKind, hSize, atop_mul]
    rw [hAll]
  unfold answerRead vsObjectDataProvided
  dsimp only
  rw [hResidual]
  by_cases hFull : run.residual device = 0
  · -- all of it was read
    rw [if_pos hFull, hSize, atop_mul, hAll]
    refine ⟨_, rfl, hAlike, ?_,
      .goes rfl ?_ hUnmap.symm (fun _ _ _ => ?_)⟩
    · rw [answered_quiet hRead.quiet, answered_quiet hQuiet,
        flatMap_singleton]
      unfold Call.answered
      dsimp only
      rw [atop_mul]
    · rw [right_quiet hRead.quiet, right_quiet hQuiet,
        forall_mem_singleton]
      refine ⟨?_, ?_⟩
      · intro p hp
        rw [atop_mul] at hp
        refine ⟨0, by decide, hRead.bytes _ ?_⟩
        unfold vmPageSize at *
        omega
      · intro hDealloc
        rcases hRead.buffer with hIs | ⟨_, hOwned⟩
        · rw [hIs] at hDealloc
          exact absurd hDealloc (by decide)
        · rw [← hSize]
          exact hOwned
    · rw [hFull]
      decide
  rw [if_neg hFull]
  by_cases hNothing : run.residual device = run.size
  · -- nothing was read
    rw [if_pos hNothing]
    refine ⟨_, rfl, ⟨h, rfl, rfl⟩, ?_,
      .ends psindex actualOffset rfl ?_ hKind ?_
        (.inr hNothing) (hUnmap ▸ hAlike)⟩
    · rw [answered_quiet hRead.quiet, flatMap_singleton, hSize]
      unfold Call.answered
      dsimp only
      rw [atop_mul]
    · rw [right_quiet hRead.quiet, forall_mem_singleton]
      trivial
    · rw [hNothing, hSize]
      exact Nat.le_mul_of_pos_right _ hPos
  · rw [if_neg hNothing]
    have hBuffer : r.buffer = .dptBuffer := by
      rcases hRead.buffer with hIs | ⟨hNone, _⟩
      · exact hIs
      · exact absurd hNone hFull
    have hBytes : ∀ i < r.totalRead,
        setBytes .zero r.totalRead (fillOf (run.residual device))
          r.bytes i = .device := by
      intro i hi
      unfold setBytes
      rw [if_neg (by omega)]
      exact hRead.bytes i hi
    rcases fillOf_cases (run.residual device) with
      hFill | ⟨hFill, hNot⟩
    · -- the last page of the run is in error
      have hSupplied : r.totalRead +
          fillOf (run.residual device) =
            vmPageSize * (k - 1) := by
        rw [Nat.mul_sub, Nat.mul_one]
        omega
      have hSome : 0 < k - 1 := by
        unfold vmPageSize at *
        omega
      have hRest : run.size - vmPageSize * (k - 1) =
          vmPageSize := by
        omega
      rcases psClunmap_spec h hSlot hMapped hSome
        (Nat.sub_le k 1) hFit with
        ⟨vs', calls, hSome', hAlike', hQuiet'⟩
      rw [hSupplied, atop_mul, hSome', hRest,
        if_neg (by decide)]
      have hPages : pagesFrom run.offset k =
          pagesFrom run.offset (k - 1) ++ pagesFrom
            ((run.offset + vmPageSize * (k - 1)) % 2 ^ 32) 1 := by
        rw [← pagesFrom_add, Nat.sub_add_cancel hPos]
      have hOne : atop vmPageSize = 1 := by decide
      refine ⟨_, rfl, hAlike', ?_, ?_⟩
      · dsimp only
        rw [append_assoc, append_assoc,
          answered_quiet hRead.quiet, answered_quiet hQuiet',
          hPages]
        split_ifs <;> simp [Call.answered, atop_mul, hOne]
      · by_cases hPage : run.residual device = vmPageSize
        · refine .ends psindex actualOffset rfl ?_ hKind
            (by omega) (.inl hPage) (hUnmap ▸ hAlike)
          dsimp only
          rw [if_pos hPage, append_assoc, append_assoc,
            right_quiet hRead.quiet, right_quiet hQuiet']
          intro c hc
          rcases mem_append.mp hc with hc | hc
          · rw [mem_singleton.mp hc]
            refine ⟨?_, ?_⟩
            · intro p hp
              rw [atop_mul] at hp
              refine ⟨0, by decide, hBytes _ ?_⟩
              unfold vmPageSize at *
              omega
            · rw [hBuffer]
              intro hDealloc
              exact absurd hDealloc (by decide)
          · rw [mem_singleton.mp hc]
            trivial
        · refine .wrong psindex actualOffset ?_ hKind
            (by omega) (by omega)
          rw [if_neg hPage]
          intro hRight
          have hOwned := hRight (.vmDeallocate r.buffer
            (vmPageSize * (k - 1)) _) (mem_append_right _
              (mem_cons_of_mem _ mem_cons_self))
          rw [hBuffer] at hOwned
          exact hOwned.2
    · -- the rest of the run is filled with zeroes
      have hSupplied : r.totalRead +
          fillOf (run.residual device) = vmPageSize * k := by
        omega
      rw [hSupplied, hSize, atop_mul, hAll, Nat.sub_self,
        if_pos rfl]
      refine ⟨_, rfl, hAlike, ?_, ?_⟩
      · dsimp only
        rw [append_nil, answered_quiet hRead.quiet,
          answered_quiet hQuiet, flatMap_singleton]
        unfold Call.answered
        dsimp only
        rw [atop_mul]
      · by_cases hPart : run.residual device < vmPageSize
        · refine .goes rfl ?_ hUnmap.symm (fun _ _ _ => hPart)
          dsimp only
          rw [append_nil, right_quiet hRead.quiet,
            right_quiet hQuiet, forall_mem_singleton]
          refine ⟨?_, ?_⟩
          · intro p hp
            rw [atop_mul] at hp
            refine ⟨0, by decide, hBytes _ ?_⟩
            unfold vmPageSize at *
            omega
          · rw [hBuffer]
            intro hDealloc
            exact absurd hDealloc (by decide)
        · refine .wrong psindex actualOffset ?_ hKind
            (by omega) (by omega)
          dsimp only
          rw [append_nil, right_quiet hRead.quiet,
            right_quiet hQuiet, forall_mem_singleton]
          rintro ⟨hTrue, _⟩
          rw [atop_mul] at hTrue
          rcases hTrue (k - 1) (by omega) with ⟨i, hi, hByte⟩
          unfold setBytes at hByte
          rw [Nat.mul_sub, Nat.mul_one, if_pos (by
            omega)] at hByte
          cases hByte

/- What a turn of the loop does for a run. -/
theorem answerRun_spec
    (segments : Nat → PagingSegment)
    (device : Nat → Nat → Option Nat)
    (dpt : Nat → Byte)
    {start n k : Nat}
    (h : vs.Layout)
    (hRun : RunOf vs start n run k) :
    ∃ t, answerRun segments device vs dpt run = .ok t ∧
      vs.Alike t.vs ∧
      t.calls.flatMap Call.answered = pagesFrom start k ∧
      Outcome device vs run t := by
  have hStart := hRun.offset
  subst hStart
  unfold answerRun
  cases hKind : run.kind with
  | valid psindex actualOffset =>
      apply answerRead_spec h hRun hKind
      refine readLoop_spec run.size
        ⟨0, _, run.size, 0, .dptBuffer, dpt, []⟩ ?_ ?_
      · refine ⟨rfl, Nat.zero_add _, ?_, ?_⟩
        · intro i hi
          exact absurd hi (Nat.not_lt_zero i)
        · intro c hc
          cases hc
      · exact le_refl _
  | error | unavailable =>
      refine ⟨_, rfl, ⟨h, rfl, rfl⟩, ?_, .goes rfl ?_ ?_ ?_⟩
      · rw [flatMap_singleton, hRun.size]
        unfold Call.answered
        dsimp only
        rw [atop_mul]
      · rw [forall_mem_singleton]
        trivial
      · unfold Run.unmap
        rw [hKind]
      · intro _ _ hIs
        rw [hKind] at hIs
        cases hIs

------
-- Requests
------

theorem VsTable.Alike.runOf
    {vs vs' : VsTable}
    (h : vs.Alike vs')
    (hShift : vs.vsClshift ≤ maxClusterShift) :
    vs'.Layout ∧ vs'.vsClshift ≤ maxClusterShift :=
  ⟨h.layout, h.shift ▸ hShift⟩

theorem runsOf_nil
    (fuel : Nat)
    (h : vs.Layout)
    (hShift : vs.vsClshift ≤ maxClusterShift)
    (ho : o < 2 ^ 20)
    (hFuel : n ≤ fuel) :
    runsOf fuel (vmPageSize * o) (vmPageSize * n) vs = [] ↔
      n = 0 := by
  cases fuel with
  | zero => exact iff_of_true rfl (Nat.le_zero.mp hFuel)
  | succ fuel =>
      unfold runsOf
      by_cases hNone : n = 0
      · rw [if_pos (by rw [hNone, Nat.mul_zero])]
        exact iff_of_true rfl hNone
      · rcases nextRun_spec h hShift ho
          (Nat.pos_of_ne_zero hNone) with ⟨run, k, hNext, _⟩
        rw [if_neg (by unfold vmPageSize; omega), hNext]
        exact iff_of_false (cons_ne_nil _ _) hNone

/-
  The pages of a request are answered for in order, up to one.
  All of them are, and truthfully, under the condition.
-/
theorem vsClusterRead_spec
    (segments : Nat → PagingSegment)
    (device : Nat → Nat → Option Nat)
    (fuel : Nat)
    (vs : VsTable)
    (dpt : Nat → Byte)
    (h : vs.Layout)
    (hShift : vs.vsClshift ≤ maxClusterShift)
    (ho : o < 2 ^ 20)
    (hFuel : n ≤ fuel) :
    ∃ calls m,
      vsClusterRead segments device fuel (vmPageSize * o)
        (vmPageSize * n) vs dpt = some (.ok calls) ∧
      m ≤ n ∧
      calls.flatMap Call.answered =
        pagesFrom (vmPageSize * o) m ∧
      ((m = n ∧ ∀ c ∈ calls, c.Right) ↔
        ReadWhen device (runsOf fuel (vmPageSize * o)
          (vmPageSize * n) vs)) := by
  have hEmpty : n = 0 → ∃ calls m,
      some (Except.ok []) =
        (some (.ok calls) : Option (Except Fault _)) ∧
      m ≤ n ∧
      calls.flatMap Call.answered =
        pagesFrom (vmPageSize * o) m ∧
      ((m = n ∧ ∀ c ∈ calls, c.Right) ↔
        ReadWhen device []) := by
    rintro rfl
    exact ⟨[], 0, rfl, le_refl _, rfl,
      iff_of_true ⟨rfl, by simp⟩ trivial⟩
  induction fuel generalizing o n vs dpt with
  | zero =>
      unfold vsClusterRead runsOf
      rw [if_pos (by rw [Nat.le_zero.mp hFuel, Nat.mul_zero])]
      exact hEmpty (Nat.le_zero.mp hFuel)
  | succ fuel ih =>
      unfold vsClusterRead runsOf
      by_cases hNone : n = 0
      · rw [if_pos (by rw [hNone, Nat.mul_zero]),
          if_pos (by rw [hNone, Nat.mul_zero])]
        exact hEmpty hNone
      have hCnt : vmPageSize * n ≠ 0 := by
        unfold vmPageSize
        omega
      rw [if_neg hCnt, if_neg hCnt]
      rcases nextRun_spec h hShift ho (Nat.pos_of_ne_zero hNone)
        with ⟨run, k, hNext, hRun⟩
      rcases answerRun_spec segments device dpt h hRun with
        ⟨t, hTurn, hAlike, hPages, hOutcome⟩
      have hPos := hRun.pos
      have hLe := hRun.le
      -- the rest of the request
      have hOffset : (vmPageSize * o + vmPageSize * k) % 2 ^ 32 =
          vmPageSize * ((o + k) % 2 ^ 20) := by
        unfold vmPageSize
        omega
      have hSplit : ∀ m, pagesFrom (vmPageSize * o) k ++
          pagesFrom (vmPageSize * ((o + k) % 2 ^ 20)) m =
            pagesFrom (vmPageSize * o) (k + m) := by
        intro m
        rw [pagesFrom_add, hOffset]
      rw [hNext]
      unfold Except.bind
      dsimp only
      rw [hTurn]
      unfold Except.map
      dsimp only
      rw [hRun.size, ← Nat.mul_sub, hOffset]
      unfold ReadWhen
      rcases hAlike.runOf hShift with ⟨hLayout', hShift'⟩
      rcases ih (n := n - k) t.vs t.dpt hLayout' hShift'
          (Nat.mod_lt (o + k) (by decide)) (by omega) (by
            intro hDone
            exact ⟨[], 0, rfl, Nat.zero_le _, rfl,
              iff_of_true ⟨hDone.symm, by simp⟩ trivial⟩) with
        ⟨calls, m, hLoop, hm, hAnswers, hWhen⟩
      cases hOutcome with
      | goes hOn hRight hVs hRead =>
          rw [hOn, hLoop]
          refine ⟨_, k + m, rfl, by omega, ?_, ?_⟩
          · rw [flatMap_append, hPages, hAnswers, hSplit]
          · rw [forall_mem_append, ← hVs, ← hWhen]
            constructor
            · rintro ⟨hAll, _, hRight'⟩
              exact ⟨fun _ _ hKind => .inl (hRead _ _ hKind),
                by omega, hRight'⟩
            · rintro ⟨_, hAll, hRight'⟩
              exact ⟨by omega, hRight, hRight'⟩
      | ends psindex actualOffset hFailed hRight hKind hPart hIs
          hUnmap =>
          rcases hUnmap.runOf hShift with ⟨hLayout', hShift'⟩
          have hLast := runsOf_nil fuel (n := n - k) hLayout' hShift' (Nat.mod_lt (o + k) (by decide))
            (by omega)
          rw [hFailed]
          refine ⟨t.calls, k, rfl, hLe, hPages, ?_⟩
          constructor
          · rintro ⟨hAll, _⟩
            have hNil := hLast.mpr (by omega)
            rw [hNil]
            exact ⟨fun _ _ _ => .inr ⟨rfl, hIs⟩, trivial⟩
          · rintro ⟨hThis, _⟩
            rcases hThis _ _ hKind with hLess | ⟨hNil, _⟩
            · omega
            · have hEnd := hLast.mp hNil
              exact ⟨by omega, hRight⟩
      | wrong psindex actualOffset hWrong hKind hPart hNeither =>
          have hNot : ∀ P, ¬ (run.residual device < vmPageSize ∨
              P ∧ (run.residual device = vmPageSize ∨
                run.residual device = run.size)) := by
            rintro P (hLess | ⟨_, hIs⟩)
            · omega
            · exact hNeither hIs
          cases hFailed : t.failed with
          | true =>
              refine ⟨t.calls, k, rfl, hLe, hPages,
                iff_of_false (fun hAll => hWrong hAll.2)
                  (fun hAll => hNot _ (hAll.1 _ _ hKind))⟩
          | false =>
              rw [hLoop]
              refine ⟨_, k + m, rfl, by omega, ?_,
                iff_of_false ?_ (fun hAll => hNot _ (hAll.1 _ _ hKind))⟩
              · rw [flatMap_append, hPages, hAnswers, hSplit]
              · rintro ⟨_, hAll⟩
                exact hWrong (forall_mem_append.mp hAll).1

/- All the pages are answered for when as many are, in order. -/
theorem once_iff
    {o m n : Nat}
    (hm : m ≤ n)
    (hn : n ≤ 2 ^ 20) :
    (∀ p ∈ pagesFrom (vmPageSize * o) n,
      (pagesFrom (vmPageSize * o) m).count p = 1) ↔ m = n := by
  have hNodup := pagesFrom_nodup (o := o) hn
  constructor
  · intro hOnce
    by_contra hLess
    have hSplit := pagesFrom_add (vmPageSize * o) m (n - m)
    rw [Nat.add_sub_cancel' hm] at hSplit
    rw [hSplit] at hOnce hNodup
    have hFirst : (vmPageSize * o + vmPageSize * m) % 2 ^ 32 %
        2 ^ 32 ∈ pagesFrom
          ((vmPageSize * o + vmPageSize * m) % 2 ^ 32)
          (n - m) :=
      mem_map.mpr ⟨0, mem_range.mpr (by omega), rfl⟩
    have hCount := hOnce _ (mem_append_right _ hFirst)
    have hIn : _ ∈ pagesFrom (vmPageSize * o) m :=
      count_pos_iff.mp (hCount ▸ Nat.one_pos)
    exact (nodup_append.mp hNodup).2.2 _ hIn _ hFirst rfl
  · rintro rfl p hp
    exact count_eq_one_of_mem hNodup hp

/-
  A request is answered completely and truthfully just when
  the runs of its pages are read well enough.
-/
theorem vsClusterRead_answers_iff
    (segments : Nat → PagingSegment)
    (device : Nat → Nat → Option Nat)
    {offset cnt : Nat}
    {vs : VsTable}
    (dpt : Nat → Byte)
    (h : vs.Layout)
    (hShift : vs.vsClshift ≤ maxClusterShift)
    (hOffset : vmPageSize ∣ offset)
    (hWord : offset < 2 ^ 32)
    (hCnt : vmPageSize ∣ cnt)
    (hSize : cnt < 2 ^ 32) :
    PagedIn segments device offset cnt vs dpt ↔
      ReadWhen device (runsOf (atop cnt) offset cnt vs) := by
  rcases hOffset with ⟨o, rfl⟩
  rcases hCnt with ⟨n, rfl⟩
  unfold PagedIn
  rw [atop_mul]
  rcases vsClusterRead_spec segments device n (o := o) (n := n)
    vs dpt h hShift (by unfold vmPageSize at hWord; omega) (le_refl n)
    with ⟨calls, m, hRun, hm, hAnswers, hWhen⟩
  have hOnce := once_iff (o := o) hm
    (by unfold vmPageSize at hSize; omega)
  rw [hRun, ← hWhen]
  constructor
  · rintro ⟨_, ⟨⟩, hAll⟩
    have hCounts := hAll.once
    rw [hAnswers, atop_mul] at hCounts
    exact ⟨hOnce.mp hCounts, hAll.right⟩
  · rintro ⟨hAll, hRight⟩
    refine ⟨calls, rfl, ?_, hRight⟩
    rw [hAnswers, atop_mul]
    exact hOnce.mpr hAll

def noSegment : PagingSegment :=
  { psDevice := 0, psOffset := 0, psRecnum := 0, psPgnum := 0
    psRecordShift := 3, psClshift := 0, psNcls := 8
    psClcount := 8, psPgcount := 8, psHint := 0
    psBmap := fun _ => false
    psBs := { bsPriority := bsMinpri, bsClsize := 1 }
    psGoingAway := false }

/- A page in each of two clusters. -/
def twoClusters : VsTable :=
  { vsClshift := 0
    vsSize := 2
    vsMap := .direct [
      { VsMap.clr with
        vsmapEntry := 0, vsmapBmap := 1, vsmapAlloc := 1 },
      { VsMap.clr with
        vsmapEntry := 1, vsmapBmap := 1, vsmapAlloc := 1 }] }

/- The first page is read up to its last byte. -/
theorem vsClusterRead_answers_iff_short :
    PagedIn (fun _ => noSegment)
      (fun _ call => if call = 0 then some 4095 else none)
      0 4096 twoClusters (fun _ => .stale) := by
  have hLayout : twoClusters.Layout := ⟨rfl, by decide⟩
  apply (vsClusterRead_answers_iff (fun _ => noSegment) _
    (fun _ => .stale) hLayout (by decide) (by decide)
    (by decide) (by decide) (by decide)).mpr
  refine ⟨fun _ _ _ => .inl ?_, trivial⟩
  decide

/- Nothing is answered for after a page that is in error. -/
theorem vsClusterRead_not_answered :
    ¬ PagedIn (fun _ => noSegment) (fun _ _ => none)
      0 8192 twoClusters (fun _ => .stale) := by
  rintro ⟨calls, hRun, hAll⟩
  cases hRun
  exact absurd (hAll.once 4096 (by decide)) (by decide)

end Pager

end OsfMach
