import OsfMach.Ipc.DnTable

/-
  Growing a port's table of dead-name requests.

  Before the new table is taken the old one has to be one size
  smaller, so that a table that exists never grows by more
  than a size at once.

  Main declarations:
    * `Undisturbed`
    * `GrownRequests`, `WithinStep`
    * `growRequests_run`, `dngrow_success`
    * `dngrow_grows_iff`
-/

------
-- Growing
------

namespace OsfMach

namespace Ipc

open Function
open Lib
open Lib.Checked

variable {T : RequestTable} {u : DnState} {old : Option Nat}

/-
  Other threads leave a port active, with the table that it
  had, and free what this thread refers to neither.
-/
structure Undisturbed (s t : DnState) : Prop where
  active : t.port.ipActive = s.port.ipActive
  same : t.port.ipDnrequests = s.port.ipDnrequests
  table : t.tables s.port.ipDnrequests =
    s.tables s.port.ipDnrequests
  references : 0 < t.port.ioReferences
  nextAddr : s.nextAddr ≤ t.nextAddr
  lt : ∀ addr T, t.tables addr = some T → addr < t.nextAddr

def referenced (s : DnState) : DnState :=
  { s with
    port := { s.port with
      ioReferences := s.port.ioReferences + 1 } }

/- The new table as it comes, with a size of its own. -/
def freshTable
    (z : RequestSizes)
    (env : DngrowAnswers)
    (its : Nat) : RequestTable :=
  ⟨z.itsSize its, env.junk⟩

/- After a new table was allocated. -/
def allocated
    (z : RequestSizes)
    (env : DngrowAnswers)
    (its : Nat)
    (s : DnState) : DnState :=
  { s with
    tables := update s.tables s.nextAddr
      (some (freshTable z env its))
    nextAddr := s.nextAddr + 1 }

def released (s : DnState) : DnState :=
  { s with
    port := { s.port with
      ioReferences := s.port.ioReferences - 1 } }

section Runs

variable {z : RequestSizes} {env : DngrowAnswers} {its : Nat}
variable {s t : DnState}

theorem readTable_run
    {addr : Nat}
    (h : s.tables addr = some T) :
    readTable addr s = (.ok T, s) := by
  unfold readTable
  rw [read_bind, h]
  rfl

theorem DnState.table_of
    (h : s.table = some T) :
    s.port.ipDnrequests ≠ iprNull ∧
      s.tables s.port.ipDnrequests = some T := by
  unfold table at h
  by_cases hNull : s.port.ipDnrequests = iprNull
  · rw [if_pos hNull] at h
    cases h
  · rw [if_neg hNull] at h
    exact ⟨hNull, h⟩

theorem DnState.table_none
    (hInv : DnInv z s)
    (h : s.table = none) :
    s.port.ipDnrequests = iprNull := by
  unfold table at h
  by_contra hNot
  rw [if_neg hNot] at h
  rcases hInv.table hNot with ⟨T, hSome, _⟩
  rw [hSome] at h
  cases h

theorem DnInv.ok
    (hInv : DnInv z s)
    (h : s.table = some T) :
    TableOk z T := by
  rcases DnState.table_of h with ⟨hNot, hSome⟩
  rcases hInv.table hNot with ⟨T', hSome', hOk⟩
  rw [hSome] at hSome'
  injection hSome' with hEq
  exact hEq ▸ hOk

/- The size of the table that the port has. -/
theorem currentSize_run
    (hInv : DnInv z s)
    (hSame : t.tables s.port.ipDnrequests =
      s.tables s.port.ipDnrequests) :
    currentSize s.port.ipDnrequests t =
      (.ok (s.table.map RequestTable.iprSize), t) := by
  unfold currentSize
  cases hTable : s.table with
  | none =>
      rw [if_pos (DnState.table_none hInv hTable)]
      rfl
  | some T =>
      rcases DnState.table_of hTable with ⟨hNot, hSome⟩
      rw [if_neg hNot,
        bind_run (readTable_run (hSame.trans hSome))]
      rfl

theorem ipRelease_run
    (h : 0 < s.port.ioReferences) :
    ipRelease s = (.ok (), released s) := by
  unfold ipRelease
  rw [read_bind, bind_run (require_run h)]
  rfl

/- What others did, before the table is allocated. -/
theorem growRequests_start
    (otable : Nat) :
    growRequests z env otable its s =
      allocTable z env otable its
        (env.meanwhile (referenced s)) := rfl

/- Without memory, or a size, there is an error. -/
theorem allocTable_short
    (otable : Nat)
    (hReferences : 0 < s.port.ioReferences)
    (hShort : z.itsSize its = 0 ∨ env.grant = false) :
    (allocTable z env otable its s).1 =
      .ok .resourceShortage := by
  have hAlloc : allocSize z env its s = (.ok iprNull, s) := by
    unfold allocSize
    rcases hShort with hNone | hDenied
    · rw [if_pos hNone]
      rfl
    · unfold itDnrequestsAlloc
      rw [if_neg (Bool.eq_false_iff.mp hDenied), ite_self]
      rfl
  unfold allocTable
  rw [bind_run hAlloc, if_pos rfl,
    bind_run (ipRelease_run hReferences)]
  rfl

/- With them the new table is used, or freed. -/
theorem allocTable_long
    (otable : Nat)
    (hReferences : 0 < s.port.ioReferences)
    (hAddr : 0 < s.nextAddr)
    (hSize : z.itsSize its ≠ 0)
    (hGrant : env.grant = true) :
    allocTable z env otable its s =
      takeTable z otable s.nextAddr its
        (released (allocated z env its s)) := by
  have hAlloc : allocSize z env its s =
      (.ok s.nextAddr, allocated z env its s) := by
    unfold allocSize itDnrequestsAlloc
    rw [if_neg hSize, if_pos hGrant]
    rfl
  have hNot : s.nextAddr ≠ iprNull :=
    Nat.pos_iff_ne_zero.mp hAddr
  have hRelease : ipRelease (allocated z env its s) =
      (.ok (), released (allocated z env its s)) :=
    ipRelease_run hReferences
  unfold allocTable
  rw [bind_run hAlloc, if_neg hNot, bind_run hRelease]

/- The table that the port has is not the new one. -/
theorem Undisturbed.ne_new
    (hInv : DnInv z s)
    (hQuiet : Undisturbed s t) :
    s.port.ipDnrequests ≠ t.nextAddr := by
  by_cases hNull : s.port.ipDnrequests = iprNull
  · have hPos := hInv.pos
    have hLe := hQuiet.nextAddr
    rw [hNull]
    unfold iprNull
    omega
  · rcases hInv.table hNull with ⟨T, hSome, _⟩
    exact Nat.ne_of_lt
      (hQuiet.lt _ T (hQuiet.table.trans hSome))

/- It is still there when the port is locked again. -/
theorem Undisturbed.allocated_table
    (env : DngrowAnswers)
    (its : Nat)
    (hInv : DnInv z s)
    (hQuiet : Undisturbed s t) :
    (released (allocated z env its t)).tables
        s.port.ipDnrequests =
      s.tables s.port.ipDnrequests :=
  (update_of_ne (hQuiet.ne_new hInv) _ _).trans hQuiet.table

theorem allocated_new :
    (released (allocated z env its t)).tables t.nextAddr =
      some (freshTable z env its) :=
  update_self _ _ _

/- The check asks whether the table is one size smaller. -/
theorem unchangedTable_run
    (its : Nat)
    (hInv : DnInv z s)
    (hActive : u.port.ipActive = true)
    (hSame : u.port.ipDnrequests = s.port.ipDnrequests)
    (hTable : u.tables s.port.ipDnrequests =
      s.tables s.port.ipDnrequests) :
    unchangedTable s.port.ipDnrequests its u =
      (.ok ((s.table.map RequestTable.iprSize).all
        fun oits => oits + 1 = its), u) := by
  unfold unchangedTable
  rw [read_bind, if_pos ⟨hActive, hSame⟩,
    bind_run (currentSize_run hInv hTable)]
  rfl

theorem itDnrequestsFree_run
    {addr : Nat}
    (h : s.tables addr = some T) :
    itDnrequestsFree addr s = (.ok (), { s with
      tables := update s.tables addr none }) := by
  unfold itDnrequestsFree
  rw [bind_run (readTable_run h)]
  rfl

/- Nothing is taken of a table that may not grow. -/
theorem takeTable_refuses
    {otable ntable : Nat}
    (hCheck : unchangedTable otable its u = (.ok false, u))
    (hNew : u.tables ntable = some T)
    (hNe : u.port.ipDnrequests ≠ ntable) :
    ∃ v, takeTable z otable ntable its u = (.ok .success, v) ∧
      v.table = u.table := by
  let w : DnState := { u with
    port := { u.port with
      ioFreed := u.port.ioFreed || u.port.ioReferences = 0 } }
  have hUnlock : ipCheckUnlock u = (.ok (), w) := rfl
  have hSome : w.tables ntable = some T := hNew
  unfold takeTable
  rw [bind_run hCheck, if_neg Bool.false_ne_true,
    bind_run hUnlock, bind_run (itDnrequestsFree_run hSome)]
  refine ⟨_, rfl, ?_⟩
  unfold DnState.table
  dsimp only
  rw [update_of_ne hNe]

/- The old table is copied into the new one. -/
theorem copyRequests_run
    (new : RequestTable)
    (hInv : DnInv z s)
    (hTable : u.tables s.port.ipDnrequests =
      s.tables s.port.ipDnrequests)
    (hMore : firstNew s.table ≤ new.elems) :
    copyRequests z s.port.ipDnrequests new u =
      (.ok (copiedTable s.table new, firstNew s.table,
        freeHead s.table), u) := by
  unfold copyRequests
  cases hOld : s.table with
  | none =>
      rw [if_pos (DnState.table_none hInv hOld)]
      rfl
  | some T =>
      rcases DnState.table_of hOld with ⟨hNot, hSome⟩
      have hElems := (hInv.ok hOld).elems
      rw [hOld] at hMore
      rw [if_neg hNot,
        bind_run (readTable_run (hTable.trans hSome))]
      rw [hElems, bind_run (require_run ⟨Nat.le_refl _, hMore⟩)]
      rfl

/- The port has its new table, and the old one is freed. -/
theorem replaceTable_run
    {ntable : Nat}
    (hInv : DnInv z s)
    (hTable : u.tables s.port.ipDnrequests =
      s.tables s.port.ipDnrequests)
    (hNew : u.tables ntable = some (freshTable z env its))
    (hNe : s.port.ipDnrequests ≠ ntable)
    (hPos : ntable ≠ iprNull)
    (hMore : firstNew s.table < z.itsSize its) :
    ∃ v, replaceTable z s.port.ipDnrequests ntable its u =
        (.ok (), v) ∧
      v.table = some (grownTable s.table
        (freshTable z env its) its) := by
  have hCopy := copyRequests_run (freshTable z env its) hInv
    hTable (Nat.le_of_lt hMore)
  have hElems : z.itsSize its ≤
      (copiedTable s.table (freshTable z env its)).elems := by
    rw [copied_elems]
    exact Nat.le_refl _
  have hTaken : ∀ tables, DnState.table
      { u with
        port := { u.port with ipDnrequests := ntable }
        tables := tables } = tables ntable :=
    fun _ => if_neg hPos
  unfold replaceTable
  rw [bind_run (readTable_run hNew), bind_run hCopy]
  dsimp only
  rw [bind_run (require_run hMore),
    bind_run (require_run hElems)]
  by_cases hNull : s.port.ipDnrequests = iprNull
  · rw [if_pos hNull]
    refine ⟨_, rfl, (hTaken _).trans ?_⟩
    exact update_self _ _ _
  · rw [if_neg hNull]
    rcases hInv.table hNull with ⟨T, hSome, _⟩
    have hOld : update u.tables ntable
        (some (grownTable s.table (freshTable z env its) its))
          s.port.ipDnrequests = some T :=
      (update_of_ne hNe _ _).trans (hTable.trans hSome)
    refine ⟨_, itDnrequestsFree_run hOld, (hTaken _).trans ?_⟩
    exact (update_of_ne (Ne.symm hNe) _ _).trans
      (update_self _ _ _)

/- The run after a choice of a size that there is. -/
theorem growRequests_run
    (hInv : DnInv z s)
    (hActive : s.port.ipActive = true)
    (hQuiet : Undisturbed s (env.meanwhile (referenced s)))
    (hSize : z.itsSize its ≠ 0)
    (hMore : firstNew s.table < z.itsSize its)
    (hGrant : env.grant = true) :
    ∃ v, growRequests z env s.port.ipDnrequests its s =
        (.ok .success, v) ∧
      v.table =
        if (s.table.map RequestTable.iprSize).all
            fun oits => oits + 1 = its then
          some (grownTable s.table (freshTable z env its) its)
        else s.table := by
  have hAddr : 0 < (env.meanwhile (referenced s)).nextAddr :=
    Nat.lt_of_lt_of_le hInv.pos hQuiet.nextAddr
  have hNe := hQuiet.ne_new hInv
  have hTable := hQuiet.allocated_table env its hInv
  have hCheck := unchangedTable_run its hInv
    (u := released (allocated z env its
      (env.meanwhile (referenced s))))
    (hQuiet.active.trans hActive) hQuiet.same hTable
  rw [growRequests_start, allocTable_long _
    hQuiet.references hAddr hSize hGrant]
  cases hStep : (s.table.map RequestTable.iprSize).all
      fun oits => oits + 1 = its with
  | true =>
      rw [hStep] at hCheck
      rcases replaceTable_run hInv hTable allocated_new hNe
          (Nat.pos_iff_ne_zero.mp hAddr) hMore with
        ⟨v, hRun, hTaken⟩
      refine ⟨v, ?_, hTaken⟩
      unfold takeTable
      rw [bind_run hCheck, if_pos rfl, bind_run hRun]
      rfl
  | false =>
      rw [hStep] at hCheck
      have hPort : (released (allocated z env its
          (env.meanwhile (referenced s)))).port.ipDnrequests =
            s.port.ipDnrequests := hQuiet.same
      rcases takeTable_refuses hCheck allocated_new
          (hPort ▸ hNe) with ⟨v, hRun, hSame⟩
      refine ⟨v, hRun, hSame.trans ?_⟩
      unfold DnState.table
      rw [hPort, hTable]
      rfl

end Runs

------
-- Growing Enough
------

/- The size that the table of a port has, if it has one. -/
def DnState.size (s : DnState) : Option Nat :=
  s.table.map RequestTable.iprSize

/- The size of the next larger table. -/
def nextSize (z : RequestSizes) (s : DnState) : Nat :=
  z.itsSize (nextIndex s.size)

/-
  The table has the elements that were asked for, or those of
  the next size, every request has its place, name and right,
  and the new elements are free.
-/
structure GrownRequests
    (z : RequestSizes)
    (targetSize : Int)
    (s t : DnState) : Prop where
  enough : targetSize ≠ itsSizeNone →
    unsignedTarget targetSize ≤ tableSize t
  step : targetSize = itsSizeNone →
    tableSize s < tableSize t ∧ nextSize z s ≤ tableSize t
  kept : ∀ i request, requests s i = some request →
    requests t i = some request
  free : ∀ T, t.table = some T →
    ∃ free, FreeRequests T free ∧
      ∀ i, i ≠ 0 → tableSize s ≤ i → i < T.elems → i ∈ free

/- Whenever the growing succeeds it has grown. -/
def GrowsRequests
    (z : RequestSizes)
    (env : DngrowAnswers)
    (targetSize : Int)
    (s : DnState) : Prop :=
  ∀ t, ipcPortDngrow z env targetSize s = (.ok .success, t) →
    GrownRequests z targetSize s t

/-
  There is no table, or no target, or the next size is enough,
  or the growing fails.
-/
def WithinStep
    (z : RequestSizes)
    (env : DngrowAnswers)
    (targetSize : Int)
    (s : DnState) : Prop :=
  s.table = none ∨ targetSize = itsSizeNone ∨
    unsignedTarget targetSize ≤ tableSize s ∨
    unsignedTarget targetSize ≤ nextSize z s ∨
    env.grant = false ∨
    ∀ n, n ∈ z.sizes → n < unsignedTarget targetSize

section Growing

variable {z : RequestSizes} {env : DngrowAnswers}
variable {targetSize : Int} {its : Nat} {s t : DnState}

theorem tableSize_of
    (h : s.table = some T) :
    tableSize s = T.elems := by
  unfold tableSize
  rw [h]

theorem requests_of
    (h : s.table = some T)
    (i : Nat) :
    requests s i = T.request i := by
  unfold requests
  rw [h]
  rfl

theorem DnInv.oldFree
    (hInv : DnInv z s) :
    ∃ free, OldFree s.table free := by
  cases hTable : s.table with
  | none => exact ⟨[], rfl⟩
  | some T =>
      rcases (hInv.ok hTable).free with ⟨free, hFree⟩
      exact ⟨free, hFree, (hInv.ok hTable).pos⟩

theorem tableSize_le_firstNew :
    tableSize s ≤ firstNew s.table ∧
      firstNew s.table ≤ tableSize s + 1 := by
  unfold tableSize firstNew
  cases s.table with
  | none => exact ⟨Nat.zero_le 1, Nat.le_refl 1⟩
  | some T => exact ⟨Nat.le_refl _, Nat.le_succ _⟩

/- A table that is not touched keeps its requests. -/
theorem grown_of_same
    (hInv : DnInv z s)
    (hSame : t.table = s.table)
    (hTarget : targetSize ≠ itsSizeNone)
    (hEnough : unsignedTarget targetSize ≤ tableSize s) :
    GrownRequests z targetSize s t := by
  have hSize : tableSize t = tableSize s := by
    unfold tableSize
    rw [hSame]
  refine ⟨fun _ => hSize ▸ hEnough,
    fun hNone => absurd hNone hTarget, ?_, ?_⟩
  · intro i request hSome
    unfold requests at hSome ⊢
    rw [hSame]
    exact hSome
  · intro T hTable
    rw [hSame] at hTable
    rcases (hInv.ok hTable).free with ⟨free, hFree⟩
    refine ⟨free, hFree, fun i _ hLow hHigh => ?_⟩
    rw [tableSize_of hTable] at hLow
    omega

/- A table that is new has the requests of the old one. -/
theorem grown_of_new
    {new : RequestTable}
    (hInv : DnInv z s)
    (hTable : t.table = some (grownTable s.table new its))
    (hMore : firstNew s.table < new.elems)
    (hEnough : targetSize ≠ itsSizeNone →
      unsignedTarget targetSize ≤ new.elems)
    (hStep : targetSize = itsSizeNone →
      nextSize z s ≤ new.elems) :
    GrownRequests z targetSize s t := by
  rcases hInv.oldFree with ⟨free, hFree⟩
  have hSize : tableSize t = new.elems :=
    (tableSize_of hTable).trans grownTable_elems
  have hFirst := tableSize_le_firstNew (s := s)
  refine ⟨fun hSome => hSize ▸ hEnough hSome,
    fun hNone => ⟨?_, hSize ▸ hStep hNone⟩, ?_, ?_⟩
  · omega
  · intro i request hSome
    rw [requests_of hTable,
      grownTable_request hFree.pos (Nat.le_of_lt hMore)]
    exact hSome
  · intro T hEq
    rw [hTable] at hEq
    injection hEq with hSame
    subst hSame
    have hNew := grownTable_free its hFree
      (Nat.le_of_lt hMore)
    refine ⟨_, hNew, fun i hPos hLow hHigh => ?_⟩
    rw [grownTable_elems] at hHigh
    apply List.mem_append_left
    rw [List.mem_reverse, List.mem_range'_1]
    -- the first element of all holds the head of the list
    have hFrom : firstNew s.table ≤ i := by
      cases hOld : s.table with
      | none => exact Nat.one_le_iff_ne_zero.mpr hPos
      | some T =>
          rw [tableSize_of hOld] at hLow
          exact hLow
    omega

/- What the choice says when there is to be a new table. -/
structure Chosen
    (z : RequestSizes)
    (old : Option Nat)
    (targetSize : Int)
    (its : Nat) : Prop where
  untargeted : targetSize = itsSizeNone → its = nextIndex old
  targeted : targetSize ≠ itsSizeNone →
    its = nextIndex old + skipSizes (unsignedTarget targetSize)
        (z.sizes.drop (nextIndex old)) ∧
      z.itsSize its ≠ 0 ∧
      ∀ oits, old = some oits →
        z.itsSize oits < unsignedTarget targetSize

theorem chooseSize_attempt
    (h : chooseSize z old targetSize = .attempt its) :
    Chosen z old targetSize its := by
  unfold chooseSize at h
  dsimp only at h
  by_cases hNone : targetSize = itsSizeNone
  · rw [if_pos hNone] at h
    injection h with hEq
    exact ⟨fun _ => hEq.symm, fun hNot => absurd hNone hNot⟩
  · split_ifs at h with hEnough hZero
    injection h with hEq
    subst hEq
    refine ⟨fun hIs => absurd hIs hNone, fun _ =>
      ⟨rfl, hZero, fun oits hOld => ?_⟩⟩
    by_contra hNot
    apply hEnough
    rw [hOld]
    exact decide_eq_true (Nat.le_of_not_lt hNot)

theorem chooseSize_enough
    (h : chooseSize z old targetSize = .enough) :
    targetSize ≠ itsSizeNone ∧
      ∃ oits, old = some oits ∧
        unsignedTarget targetSize ≤ z.itsSize oits := by
  unfold chooseSize at h
  dsimp only at h
  split_ifs at h with hNone hEnough hZero
  refine ⟨hNone, ?_⟩
  cases old with
  | none => exact absurd hEnough Bool.false_ne_true
  | some oits => exact ⟨oits, rfl, of_decide_eq_true hEnough⟩

theorem chooseSize_noSpace
    (h : chooseSize z old targetSize = .noSpace) :
    z.itsSize (nextIndex old +
      skipSizes (unsignedTarget targetSize)
        (z.sizes.drop (nextIndex old))) = 0 := by
  unfold chooseSize at h
  dsimp only at h
  split_ifs at h with hNone hEnough hZero
  exact hZero

/- The call, by what is chosen. -/
theorem dngrow_start
    (hInv : DnInv z s)
    (hActive : s.port.ipActive = true) :
    ipcPortDngrow z env targetSize s =
      match chooseSize z s.size targetSize with
      | .enough => (.ok .success, s)
      | .noSpace => (.ok .noSpace, s)
      | .attempt its =>
          growRequests z env s.port.ipDnrequests its s := by
  unfold ipcPortDngrow
  rw [read_bind, bind_run (require_run hActive),
    bind_run (currentSize_run hInv rfl)]
  unfold DnState.size
  cases chooseSize z (s.table.map RequestTable.iprSize)
      targetSize with
  | enough => rfl
  | noSpace => rfl
  | attempt its => rfl

theorem DnInv.size_eq
    (hInv : DnInv z s)
    {oits : Nat}
    (h : s.size = some oits) :
    tableSize s = z.itsSize oits ∧ z.itsSize oits ≠ 0 := by
  unfold DnState.size at h
  cases hTable : s.table with
  | none =>
      rw [hTable] at h
      cases h
  | some T =>
      rw [hTable] at h
      injection h with hEq
      have hOk := hInv.ok hTable
      rw [tableSize_of hTable, ← hEq, hOk.elems]
      exact ⟨rfl, Nat.pos_iff_ne_zero.mp hOk.pos⟩

/- A size after the present one has more elements. -/
theorem DnInv.firstNew_lt
    (hInv : DnInv z s)
    (hNext : nextIndex s.size ≤ its)
    (hSize : z.itsSize its ≠ 0) :
    firstNew s.table < z.itsSize its := by
  cases hTable : s.table with
  | none =>
      have hTwo := RequestSizes.two_le_itsSize
        (RequestSizes.lt_length hSize)
      exact hTwo
  | some T =>
      have hEq : s.size = some T.iprSize := by
        unfold DnState.size
        rw [hTable]
        rfl
      rw [hEq] at hNext
      have hElems := (hInv.ok hTable).elems
      unfold firstNew
      dsimp only
      rw [← hElems]
      exact RequestSizes.itsSize_lt hNext hSize

theorem size_all_iff :
    (s.table.map RequestTable.iprSize).all
        (fun oits => oits + 1 = its) = true ↔
      s.table = none ∨ its = nextIndex s.size := by
  unfold DnState.size
  cases s.table with
  | none => exact iff_of_true rfl (.inl rfl)
  | some T =>
      refine Iff.trans decide_eq_true_iff ?_
      constructor
      · exact fun hEq => .inr hEq.symm
      · rintro (hNone | hEq)
        · cases hNone
        · exact hEq.symm

/- What a success says about the run. -/
theorem dngrow_success
    (hInv : DnInv z s)
    (hActive : s.port.ipActive = true)
    (hQuiet : Undisturbed s (env.meanwhile (referenced s)))
    (hRun : ipcPortDngrow z env targetSize s =
      (.ok .success, t)) :
    (targetSize ≠ itsSizeNone ∧
        unsignedTarget targetSize ≤ tableSize s ∧ t = s) ∨
      ∃ its, Chosen z s.size targetSize its ∧
        nextIndex s.size ≤ its ∧ z.itsSize its ≠ 0 ∧
        env.grant = true ∧
        t.table =
          if s.table = none ∨ its = nextIndex s.size then
            some (grownTable s.table (freshTable z env its) its)
          else s.table := by
  rw [dngrow_start hInv hActive] at hRun
  cases hChoice : chooseSize z s.size targetSize with
  | enough =>
      rw [hChoice] at hRun
      rcases chooseSize_enough hChoice with
        ⟨hNone, oits, hOld, hEnough⟩
      injection hRun with _ hSame
      exact .inl ⟨hNone,
        (hInv.size_eq hOld).1 ▸ hEnough, hSame.symm⟩
  | noSpace =>
      rw [hChoice] at hRun
      cases hRun
  | attempt its =>
      rw [hChoice] at hRun
      have hChosen := chooseSize_attempt hChoice
      have hNext : nextIndex s.size ≤ its := by
        by_cases hNone : targetSize = itsSizeNone
        · exact Nat.le_of_eq (hChosen.untargeted hNone).symm
        · rw [(hChosen.targeted hNone).1]
          exact Nat.le_add_right _ _
      have hLong : z.itsSize its ≠ 0 ∧ env.grant = true := by
        by_contra hNot
        have hShort : z.itsSize its = 0 ∨
            env.grant = false := by
          by_contra hNeither
          rw [not_or, Bool.not_eq_false] at hNeither
          exact hNot hNeither
        have hFail := allocTable_short s.port.ipDnrequests
          hQuiet.references hShort
        rw [← growRequests_start] at hFail
        dsimp only at hRun
        rw [hRun] at hFail
        cases hFail
      have hMore := hInv.firstNew_lt hNext hLong.1
      rcases growRequests_run hInv hActive hQuiet hLong.1 hMore
          hLong.2 with ⟨v, hGrow, hTable⟩
      have hSame : (Except.ok KernReturn.success, v) =
          (Except.ok (ε := Trap) KernReturn.success, t) :=
        hGrow.symm.trans hRun
      injection hSame with _ hEq
      subst hEq
      refine .inr ⟨its, hChosen, hNext, hLong.1, hLong.2, ?_⟩
      rw [hTable]
      exact if_congr size_all_iff rfl rfl

/- A size that was chosen for a target is large enough. -/
theorem Chosen.large
    (h : Chosen z s.size targetSize its)
    (hTarget : targetSize ≠ itsSizeNone) :
    unsignedTarget targetSize ≤ z.itsSize its := by
  rcases h.targeted hTarget with ⟨hEq, hSize, _⟩
  rw [hEq] at hSize ⊢
  exact RequestSizes.skip_large hSize

/- Within a step no size is skipped. -/
theorem Chosen.step
    (h : Chosen z s.size targetSize its)
    (hInv : DnInv z s)
    (hNext : nextIndex s.size ≤ its)
    (hSize : z.itsSize its ≠ 0)
    (hGrant : env.grant = true)
    (hWithin : WithinStep z env targetSize s) :
    s.table = none ∨ its = nextIndex s.size := by
  have hLength := RequestSizes.lt_length hSize
  by_cases hTarget : targetSize = itsSizeNone
  · exact .inr (h.untargeted hTarget)
  rcases h.targeted hTarget with ⟨hEq, _, hSmall⟩
  rcases hWithin with hNone | hIs | hOld | hStep | hDenied |
    hAll
  · exact .inl hNone
  · exact absurd hIs hTarget
  · cases hTable : s.table with
    | none => exact .inl rfl
    | some T =>
        have hCurrent : s.size = some T.iprSize :=
          congrArg (Option.map RequestTable.iprSize) hTable
        have hLess := hSmall _ hCurrent
        rw [(hInv.size_eq hCurrent).1] at hOld
        omega
  · have hZero := (skip_eq_zero_iff
      (Nat.lt_of_le_of_lt hNext hLength)).mpr hStep
    rw [hZero] at hEq
    exact .inr hEq
  · rw [hGrant] at hDenied
    cases hDenied
  · have hLess := hAll _ (RequestSizes.itsSize_mem hLength)
    have hLarge := h.large hTarget
    omega

/- When a size is skipped the new table is freed again. -/
theorem run_of_skip
    (hInv : DnInv z s)
    (hActive : s.port.ipActive = true)
    (hQuiet : Undisturbed s (env.meanwhile (referenced s)))
    (hTable : s.table ≠ none)
    (hTarget : targetSize ≠ itsSizeNone)
    (hSmall : tableSize s < unsignedTarget targetSize)
    (hNext : nextSize z s < unsignedTarget targetSize)
    (hGrant : env.grant = true)
    (hLarge : ¬ ∀ n, n ∈ z.sizes →
      n < unsignedTarget targetSize) :
    ∃ t, ipcPortDngrow z env targetSize s =
        (.ok .success, t) ∧ t.table = s.table := by
  rcases Option.ne_none_iff_exists'.mp hTable with ⟨T, hSome⟩
  have hCurrent : s.size = some T.iprSize :=
    congrArg (Option.map RequestTable.iprSize) hSome
  rcases hInv.size_eq hCurrent with ⟨hOld, hPos⟩
  rw [dngrow_start hInv hActive]
  cases hChoice : chooseSize z s.size targetSize with
  | enough =>
      rcases (chooseSize_enough hChoice).2 with
        ⟨oits, hIs, hEnough⟩
      rw [hCurrent] at hIs
      injection hIs with hEq
      rw [← hEq] at hEnough
      omega
  | noSpace =>
      refine absurd (RequestSizes.skip_none ?_
        (chooseSize_noSpace hChoice)) hLarge
      intro i hLess
      rw [hCurrent] at hLess
      have hLe : z.itsSize i ≤ z.itsSize T.iprSize := by
        rcases Nat.lt_or_eq_of_le (Nat.le_of_lt_succ hLess)
          with hBefore | hSame
        · exact Nat.le_of_lt
            (RequestSizes.itsSize_lt hBefore hPos)
        · rw [hSame]
      omega
  | attempt its =>
      have hChosen := chooseSize_attempt hChoice
      rcases hChosen.targeted hTarget with ⟨hEq, hSize, _⟩
      have hFrom : nextIndex s.size ≤ its := by
        rw [hEq]
        exact Nat.le_add_right _ _
      have hSkips : its ≠ nextIndex s.size := by
        intro hSame
        have hEnough := hChosen.large hTarget
        rw [hSame] at hEnough
        exact absurd hEnough (Nat.not_le_of_lt hNext)
      have hMore := hInv.firstNew_lt hFrom hSize
      rcases growRequests_run hInv hActive hQuiet hSize hMore
          hGrant with ⟨v, hRun, hKept⟩
      refine ⟨v, hRun, hKept.trans (if_neg ?_)⟩
      rw [size_all_iff, not_or]
      exact ⟨hTable, hSkips⟩

/-
  Growing grows, exactly when no size has to be skipped after
  that of a table that exists.
-/
theorem dngrow_grows_iff
    (z : RequestSizes)
    (env : DngrowAnswers)
    (targetSize : Int)
    (s : DnState)
    (hInv : DnInv z s)
    (hActive : s.port.ipActive = true)
    (hQuiet : Undisturbed s (env.meanwhile (referenced s))) :
    GrowsRequests z env targetSize s ↔
      WithinStep z env targetSize s := by
  constructor
  · intro hGrows
    by_contra hNot
    unfold WithinStep at hNot
    simp only [not_or, Nat.not_le, Bool.not_eq_false] at hNot
    rcases hNot with
      ⟨hTable, hTarget, hSmall, hNext, hGrant, hLarge⟩
    rcases run_of_skip hInv hActive hQuiet hTable hTarget
        hSmall hNext hGrant hLarge with ⟨t, hRun, hSame⟩
    have hEnough := (hGrows t hRun).enough hTarget
    have hSize : tableSize t = tableSize s := by
      unfold tableSize
      rw [hSame]
    omega
  · intro hWithin t hRun
    rcases dngrow_success hInv hActive hQuiet hRun with
      ⟨hTarget, hEnough, hSame⟩ |
      ⟨its, hChosen, hNext, hSize, hGrant, hTable⟩
    · subst hSame
      exact grown_of_same hInv rfl hTarget hEnough
    · have hStep : s.table = none ∨ its = nextIndex s.size :=
        hChosen.step hInv hNext hSize hGrant hWithin
      rw [if_pos hStep] at hTable
      refine grown_of_new hInv hTable
        (hInv.firstNew_lt hNext hSize) ?_ ?_
      · intro hTarget
        exact hChosen.large hTarget
      · intro hTarget
        rw [hChosen.untargeted hTarget]
        exact Nat.le_refl _

end Growing

/- A table of two elements, of which one is free. -/
def smallTable : RequestTable :=
  ⟨2, fun i => if i = 0 then ⟨1, 0⟩ else ⟨0, machPortNull⟩⟩

def smallState : DnState where
  port := ⟨true, 1, false, 1⟩
  tables := fun addr => if addr = 1 then some smallTable else none
  nextAddr := 2

/- There is memory, and nobody else does anything. -/
def quietAnswers : DngrowAnswers :=
  ⟨id, true, fun _ => ⟨0, machPortNull⟩⟩

theorem smallState_inv :
    DnInv ipcTableDnrequests smallState := by
  have hFree : FreeRequests smallTable [1] := by
    refine ⟨⟨rfl, Nat.one_ne_zero, rfl⟩,
      List.nodup_singleton 1, ?_, ?_⟩
    · intro i hMem
      rw [List.mem_singleton.mp hMem]
      decide
    · intro i hPos hLt
      have hOne : i = 1 := by
        have hTwo : i < 2 := hLt
        omega
      subst hOne
      exact iff_of_true List.mem_cons_self rfl
  refine ⟨fun _ => ⟨smallTable, rfl, by decide, by decide,
    [1], hFree⟩, by decide, ?_⟩
  intro addr T hSome
  by_cases hOne : addr = 1
  · rw [hOne]
    decide
  · have hNone : smallState.tables addr = none := if_neg hOne
    rw [hNone] at hSome
    cases hSome

theorem smallState_quiet :
    Undisturbed smallState
      (quietAnswers.meanwhile (referenced smallState)) :=
  ⟨rfl, rfl, rfl, by decide, Nat.le_refl _,
    smallState_inv.lt⟩

/- Asked for four, the table grows to its next size. -/
theorem dngrow_grows_four :
    WithinStep ipcTableDnrequests quietAnswers 4 smallState ∧
      GrowsRequests ipcTableDnrequests quietAnswers 4
        smallState := by
  have hWithin : WithinStep ipcTableDnrequests quietAnswers 4
      smallState :=
    Or.inr (Or.inr (Or.inr (Or.inl (by decide))))
  exact ⟨hWithin, (dngrow_grows_iff ipcTableDnrequests
    quietAnswers 4 smallState smallState_inv rfl
    smallState_quiet).mpr hWithin⟩

/- Asked for sixteen, the table still has two elements. -/
theorem dngrow_grows_sixteen :
    (DnInv ipcTableDnrequests smallState ∧
      smallState.port.ipActive = true ∧
      Undisturbed smallState
        (quietAnswers.meanwhile (referenced smallState))) ∧
      ¬ GrowsRequests ipcTableDnrequests quietAnswers 16
        smallState := by
  refine ⟨⟨smallState_inv, rfl, smallState_quiet⟩, ?_⟩
  intro hGrows
  have hRun : ipcPortDngrow ipcTableDnrequests quietAnswers 16
      smallState =
        (.ok .success, (ipcPortDngrow ipcTableDnrequests
          quietAnswers 16 smallState).2) := rfl
  have hEnough := (hGrows _ hRun).enough (by decide)
  exact absurd hEnough (by decide)

end Ipc

end OsfMach
