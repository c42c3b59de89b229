import Mathlib.Logic.Equiv.Basic
import OsfMach.Pager.SelectRuns

/-
  The addition of paging segments, `default_pager_add_segment`.

  A call looks for overlaps under the lock of the array, lets
  it go, and enters its segment later. The lock of its
  backing store it holds from its beginning to its end.

  Main declarations:
    * `addOverlaps`, `newSegment`, `addStep`
    * `AddServed`, `AddInv`
    * `addStep_inv`
    * `addSegment_disjoint`
-/

------
-- Calls
------

namespace OsfMach

namespace Pager

open Function
open Lib
open Lib.Runs

/- The arguments, of 32 bits each. -/
structure AddArgs where
  device : Nat
  offset : Nat
  count : Nat
  recordSize : Nat
  offset_lt : offset < 2 ^ 32
  count_lt : count < 2 ^ 32
  recordSize_lt : recordSize < 2 ^ 32

/- The backing stores, with the size of a page. -/
structure AddConfig (β : Type) where
  vmPageSize : Nat
  store : β → BackingStore
  vmPageSize_lt : vmPageSize < 2 ^ 32
  clsize_pos : ∀ b, 0 < (store b).bsClsize
  clsize_lt : ∀ b, (store b).bsClsize < 2 ^ 32

inductive AddFault where
| divideByZero
| endlessLog
deriving DecidableEq, Repr

def log2Loop : Nat → Nat → Nat → Option Nat
| 0, _, _ => none
| fuel + 1, i, n =>
    if n % 2 = 0 then log2Loop fuel (i + 1) (n / 2)
    else some i

/- After 32 turns all bits are gone, and no turn is the last. -/
def log2 (n : Nat) : Except AddFault Nat :=
  match log2Loop 32 0 n with
  | none => .error .endlessLog
  | some i => .ok i

/- Whether a segment on the device overlaps, in 32 bits. -/
def addOverlaps (s : Paging) (a : AddArgs) : Bool :=
  (List.range (s.pagingSegmentMax + 1)).any fun i =>
    match s.pagingSegments i with
    | none => false
    | some ps =>
        !(ps.psDevice != a.device ||
          decide ((ps.psOffset + ps.psRecnum) % 2 ^ 32 ≤
            a.offset) ||
          decide ((a.offset + a.count) % 2 ^ 32 ≤ ps.psOffset))

/- Set up the paging segment. -/
def newSegment
    (vmPageSize : Nat)
    (bs : BackingStore)
    (a : AddArgs) : Except AddFault PagingSegment := do
  if a.recordSize = 0 then throw .divideByZero
  let recordShift ← log2 (vmPageSize / a.recordSize)
  let pgnum := a.count >>> recordShift
  let clshift ← log2 bs.bsClsize
  let ncls := pgnum >>> clshift
  return {
    psDevice := a.device
    psOffset := a.offset
    psRecnum := a.count
    psPgnum := pgnum
    psRecordShift := recordShift
    psClshift := clshift
    psNcls := ncls
    psClcount := ncls
    psPgcount := pgnum
    psHint := 0
    psBmap := fun _ => false
    psBs := bs
    psGoingAway := false }

/- The segments that are set up and not entered yet. -/
structure AddState (β : Type) where
  paging : Paging
  flight : β → Option PagingSegment
  fault : Option AddFault

def AddState.start {β : Type} : AddState β :=
  { paging := Paging.initial
    flight := fun _ => none
    fault := none }

inductive AddAction (β : Type) where
| check (b : β) (a : AddArgs) (kalloc : Bool)
| enter (b : β) (kalloc : Bool)

section Adds

variable {β : Type}

/- A call ends at an overlap, or when there is no memory. -/
def addStep
    [DecidableEq β]
    (c : AddConfig β)
    (s : AddState β) : AddAction β → Option (AddState β)
| .check b a kalloc =>
    if (s.flight b).isSome then none
    else if addOverlaps s.paging a || !kalloc then some s
    else
      match newSegment c.vmPageSize (c.store b) a with
      | .error e => some { s with fault := some e }
      | .ok ps =>
          some { s with flight := update s.flight b (some ps) }
| .enter b kalloc =>
    match s.flight b with
    | none => none
    | some ps =>
        let s := { s with flight := update s.flight b none }
        if kalloc then
          some { s with
            paging := (psEnter ps s.paging).getD s.paging }
        else some s

------
-- Records
------

/- A record of a device that is in a range. -/
def PagingSegment.Has
    (ps : PagingSegment)
    (device r : Nat) : Prop :=
  ps.psDevice = device ∧ ps.psOffset ≤ r ∧
    r < ps.psOffset + ps.psRecnum

def AddArgs.Has (a : AddArgs) (device r : Nat) : Prop :=
  a.device = device ∧ a.offset ≤ r ∧ r < a.offset + a.count

/- No record is in two of the segments that are entered. -/
def Paging.Disjoint (s : Paging) : Prop :=
  ∀ i j p q, s.pagingSegments i = some p →
    s.pagingSegments j = some q → i ≠ j →
    ∀ d r, p.Has d r → ¬ q.Has d r

/-
  A call that is not turned away has a record size that
  divides a page into one record at least and a range that
  ends within 32 bits, and no other call that is about to
  enter a segment has a record of it.
-/
def AddServed
    (c : AddConfig β)
    (s : AddState β) : AddAction β → Prop
| .check _ a kalloc =>
    addOverlaps s.paging a = false → kalloc = true →
      (0 < a.recordSize ∧ a.recordSize ≤ c.vmPageSize) ∧
        a.offset + a.count < 2 ^ 32 ∧
        ∀ b p, s.flight b = some p →
          ∀ d r, p.Has d r → ¬ a.Has d r
| .enter _ _ => True

/- The segments that are entered, and those that are set up. -/
def AddState.segment (s : AddState β) :
    Nat ⊕ β → Option PagingSegment :=
  Sum.elim s.paging.pagingSegments s.flight

structure AddInv (s : AddState β) : Prop where
  segments : SegmentsOk s.paging
  short :
    ∀ x p, s.segment x = some p →
      p.psOffset + p.psRecnum < 2 ^ 32
  apart :
    ∀ x y p q, s.segment x = some p → s.segment y = some q →
      x ≠ y → ∀ d r, p.Has d r → ¬ q.Has d r
  fault : s.fault = none

variable {c : AddConfig β} {s t : AddState β}
variable {a : AddArgs} {b : β} {p : PagingSegment}

theorem addStart_inv : AddInv (AddState.start (β := β)) := by
  have hNone : ∀ x p, (AddState.start (β := β)).segment x ≠ some p := by
    rintro (i | b) p h <;> cases h
  exact ⟨initial_segmentsOk, fun x p h => absurd h (hNone x p),
    fun x _ p _ h => absurd h (hNone x p), rfl⟩

theorem log2Loop_some
    {fuel i n : Nat}
    (hPos : 0 < n)
    (hLt : n < 2 ^ fuel) :
    ∃ k, log2Loop fuel i n = some k := by
  induction fuel generalizing i n with
  | zero => omega
  | succ fuel ih =>
      unfold log2Loop
      split_ifs with hEven
      · exact ih (by omega) (by omega)
      · exact ⟨i, rfl⟩

theorem log2_ok
    {n : Nat}
    (hPos : 0 < n)
    (hLt : n < 2 ^ 32) :
    ∃ k, log2 n = .ok k := by
  rcases log2Loop_some (i := 0) hPos hLt with ⟨k, hk⟩
  unfold log2
  rw [hk]
  exact ⟨k, rfl⟩

/- A record size of a page at most is set up. -/
theorem newSegment_ok
    (c : AddConfig β)
    (b : β)
    (hPos : 0 < a.recordSize)
    (hLe : a.recordSize ≤ c.vmPageSize) :
    ∃ p, newSegment c.vmPageSize (c.store b) a = .ok p ∧
      (p.psOffset = a.offset ∧ p.psRecnum = a.count) ∧
      ∀ d r, p.Has d r ↔ a.Has d r := by
  rcases log2_ok (Nat.div_pos hLe hPos)
      (Nat.lt_of_le_of_lt (Nat.div_le_self _ _) c.vmPageSize_lt) with
    ⟨k, hk⟩
  rcases log2_ok (c.clsize_pos b) (c.clsize_lt b) with
    ⟨m, hm⟩
  unfold newSegment
  rw [if_neg (by omega), hk, hm]
  exact ⟨_, rfl, ⟨rfl, rfl⟩, fun _ _ => Iff.rfl⟩

/- What the look for overlaps finds is what overlaps. -/
theorem AddInv.clear
    (h : AddInv s)
    (hNone : addOverlaps s.paging a = false)
    (hShort : a.offset + a.count < 2 ^ 32) :
    ∀ i q, s.paging.pagingSegments i = some q →
      ∀ d r, a.Has d r → ¬ q.Has d r := by
  intro i q hq d r hHas hIn
  have hLe := h.segments.le_max hq
  have hEnd := h.short (.inl i) q hq
  have hLook := List.any_eq_false.mp hNone i
    (List.mem_range.mpr (by omega))
  rw [hq] at hLook
  rcases hHas with ⟨rfl, hFrom, hTo⟩
  rcases hIn with ⟨hDevice, hFrom', hTo'⟩
  simp at hLook
  omega

/- Segments may change places. -/
theorem AddInv.moved
    (f : Nat ⊕ β → Nat ⊕ β)
    (hInj : Injective f)
    (h : AddInv s)
    (hOk : SegmentsOk t.paging)
    (hFault : t.fault = s.fault)
    (hFrom :
      ∀ x p, t.segment x = some p → s.segment (f x) = some p) :
    AddInv t :=
  ⟨hOk, fun x p hx => h.short (f x) p (hFrom x p hx),
    fun x y p q hx hy hNe => h.apart (f x) (f y) p q
      (hFrom x p hx) (hFrom y q hy) (hInj.ne hNe),
    hFault.trans h.fault⟩

variable [DecidableEq β]

/- A segment is set up that meets no other one. -/
theorem AddInv.setUp
    (h : AddInv s)
    (hShort : p.psOffset + p.psRecnum < 2 ^ 32)
    (hApart :
      ∀ x q, s.segment x = some q →
        ∀ d r, q.Has d r → ¬ p.Has d r) :
    AddInv
      { s with flight := update s.flight b (some p) } := by
  have hFrom : ∀ x q,
      Sum.elim s.paging.pagingSegments
        (update s.flight b (some p)) x = some q →
      x = .inr b ∧ q = p ∨
        x ≠ .inr b ∧ s.segment x = some q := by
    rintro (i | b') q hq
    · exact Or.inr ⟨Sum.inl_ne_inr, hq⟩
    · by_cases hb : b' = b
      · rw [hb, Sum.elim_inr, update_self] at hq
        exact Or.inl ⟨congrArg _ hb, (Option.some.inj hq).symm⟩
      · rw [Sum.elim_inr, update_of_ne hb] at hq
        exact Or.inr ⟨fun hx => hb (Sum.inr.inj hx), hq⟩
  refine ⟨h.segments, ?_, ?_, h.fault⟩
  · intro x q hq
    rcases hFrom x q hq with ⟨_, rfl⟩ | ⟨_, hOld⟩
    · exact hShort
    · exact h.short x q hOld
  · intro x y q q' hq hq' hNe d r hHas hIn
    rcases hFrom x q hq with ⟨hx, rfl⟩ | ⟨_, hOld⟩
    · rcases hFrom y q' hq' with ⟨hy, _⟩ | ⟨_, hOld'⟩
      · exact hNe (hx.trans hy.symm)
      · exact hApart y q' hOld' d r hIn hHas
    · rcases hFrom y q' hq' with ⟨_, rfl⟩ | ⟨_, hOld'⟩
      · exact hApart x q hOld d r hHas hIn
      · exact h.apart x y q q' hOld hOld' hNe d r hHas hIn

theorem AddInv.drop
    (h : AddInv s) :
    AddInv { s with flight := update s.flight b none } := by
  refine h.moved id injective_id h.segments rfl ?_
  rintro (i | b') p hp
  · exact hp
  · have hSome : update s.flight b none b' = some p := hp
    by_cases hb : b' = b
    · rw [hb, update_self] at hSome
      cases hSome
    · rw [update_of_ne hb] at hSome
      exact hSome

/- The segment goes from its call to the array. -/
theorem AddInv.enter
    (h : AddInv s)
    (hp : s.flight b = some p) :
    AddInv
      { s with
        flight := update s.flight b none
        paging := (psEnter p s.paging).getD s.paging } := by
  cases hEnter : psEnter p s.paging with
  | none => exact h.drop
  | some u =>
      refine h.moved
        (Equiv.swap (.inl s.paging.pagingSegmentCount) (.inr b))
        (Equiv.injective _) (psEnter_ok h.segments hEnter) rfl ?_
      unfold psEnter at hEnter
      cases hFree : psFree s.paging with
      | none =>
          rw [hFree] at hEnter
          cases hEnter
      | some j =>
          rw [hFree, (h.segments.psFree_eq hFree).1] at hEnter
          cases hEnter
          rintro (i | b') q hq
          · by_cases hi : i = s.paging.pagingSegmentCount
            · rw [hi, Equiv.swap_apply_left]
              rw [hi] at hq
              simp only [AddState.segment, Sum.elim_inl,
                Option.getD_some, update_self] at hq
              exact hp.trans hq
            · rw [Equiv.swap_apply_of_ne_of_ne
                (fun hx => hi (Sum.inl.inj hx)) Sum.inl_ne_inr]
              simp only [AddState.segment, Sum.elim_inl,
                Option.getD_some, update_of_ne hi] at hq
              exact hq
          · by_cases hb : b' = b
            · rw [hb] at hq
              simp only [AddState.segment, Sum.elim_inr,
                update_self] at hq
              cases hq
            · rw [Equiv.swap_apply_of_ne_of_ne Sum.inr_ne_inl
                (fun hx => hb (Sum.inr.inj hx))]
              simp only [AddState.segment, Sum.elim_inr,
                update_of_ne hb] at hq
              exact hq

theorem addStep_inv
    (act : AddAction β)
    (h : AddInv s)
    (hServed : AddServed c s act)
    (hStep : addStep c s act = some t) :
    AddInv t := by
  cases act with
  | check b a kalloc =>
      unfold addStep at hStep
      dsimp only at hStep
      split_ifs at hStep with hBusy hEnds
      · cases hStep
        exact h
      · simp only [Bool.or_eq_true, Bool.not_eq_true', not_or,
          Bool.not_eq_true, Bool.not_eq_false] at hEnds
        rcases hServed hEnds.1 hEnds.2 with
          ⟨⟨hPos, hLe⟩, hShort, hFlights⟩
        rcases newSegment_ok c b hPos hLe with ⟨p, hp, hIs, hHas⟩
        rw [hp] at hStep
        cases hStep
        apply h.setUp
        · rw [hIs.1, hIs.2]
          exact hShort
        · rintro (i | b') q hq d r hIn hOut
          · exact h.clear hEnds.1 hShort i q hq d r
              ((hHas d r).mp hOut) hIn
          · exact hFlights b' q hq d r hIn ((hHas d r).mp hOut)
  | enter b kalloc =>
      unfold addStep at hStep
      dsimp only at hStep
      cases hp : s.flight b with
      | none =>
          rw [hp] at hStep
          cases hStep
      | some p =>
          rw [hp] at hStep
          split_ifs at hStep <;> cases hStep
          · exact h.enter hp
          · exact h.drop

/-
  In every run whose calls are served, the segments stay
  disjoint, and no size is divided by zero nor the logarithm
  of zero taken.
-/
theorem addSegment_disjoint
    (c : AddConfig β)
    (acts : List (AddAction β))
    (s : AddState β)
    (hServed : Meets (addStep c) (AddServed c) .start acts)
    (hRun : exec (addStep c) .start acts = some s) :
    s.paging.Disjoint ∧ s.fault = none := by
  have hInv : AddInv s := exec_invariant
    (fun _ act _ h hOk hStep => addStep_inv act h hOk hStep)
    addStart_inv hServed hRun
  refine ⟨?_, hInv.fault⟩
  intro i j p q hp hq hNe
  exact hInv.apart (.inl i) (.inl j) p q hp hq
    (fun hx => hNe (Sum.inl.inj hx))

end Adds

def oneStore : AddConfig Unit :=
  { vmPageSize := 4096
    store := fun _ => ⟨bsMinpri, 1⟩
    vmPageSize_lt := by decide
    clsize_pos := fun _ => by decide
    clsize_lt := fun _ => by decide }

/- Eight records, sixteen records before the end of 32 bits. -/
def lastRecords : AddArgs :=
  ⟨1, 2 ^ 32 - 16, 8, 512, by decide, by decide, by decide⟩

def twoStores : AddConfig Bool :=
  { oneStore with
    store := fun _ => ⟨bsMinpri, 1⟩
    clsize_pos := fun _ => by decide
    clsize_lt := fun _ => by decide }

/- Another call enters its segment between test and entry. -/
theorem addSegment_disjoint_last :
    ∃ s, exec (addStep twoStores) .start
        [.check false lastRecords true,
          .check true ⟨1, 0, 8, 512, by decide, by decide,
            by decide⟩ true,
          .enter true true, .enter false true] = some s ∧
      (s.paging.pagingSegments 0).map (·.psOffset) = some 0 ∧
      (s.paging.pagingSegments 1).map (·.psOffset) =
        some (2 ^ 32 - 16) ∧
      s.paging.Disjoint ∧ s.fault = none := by
  refine ⟨_, rfl, rfl, rfl, addSegment_disjoint twoStores
    [.check false lastRecords true,
      .check true ⟨1, 0, 8, 512, by decide, by decide,
        by decide⟩ true,
      .enter true true, .enter false true] _ ?_ rfl⟩
  refine ⟨fun _ _ => ⟨by decide, by decide, ?_⟩, ?_⟩
  · intro b p hp
    cases hp
  rintro t ⟨⟩
  refine ⟨fun _ _ => ⟨by decide, by decide, ?_⟩, ?_⟩
  · rintro (_ | _) p ⟨⟩ d r ⟨_, hIn, _⟩ ⟨_, _, hOut⟩
    change 2 ^ 32 - 16 ≤ r at hIn
    change r < 0 + 8 at hOut
    omega
  · rintro t ⟨⟩
    exact ⟨trivial, fun t _ => ⟨trivial, fun t _ => trivial⟩⟩

/- A range that wraps is not seen to overlap. -/
theorem addSegment_not_disjoint :
    ∃ s, exec (addStep oneStore) .start
        [.check () lastRecords true, .enter () true,
          .check () ⟨1, 2 ^ 32 - 11, 20, 512, by decide,
            by decide, by decide⟩ true,
          .enter () true] = some s ∧
      ¬ s.paging.Disjoint := by
  refine ⟨_, rfl, fun h => ?_⟩
  exact h 0 1 _ _ rfl rfl (by decide) 1 (2 ^ 32 - 11)
    ⟨rfl, by decide, by decide⟩ ⟨rfl, by decide, by decide⟩

end Pager

end OsfMach
