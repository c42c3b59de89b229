import OsfMach.Vm.ForkTurns
import OsfMach.Vm.CopyinRuns

/-
  When `vm_map_fork` returns the right map.

  It returns exactly when each region that is to be copied is
  copied in some turn. A region that can never be read and
  is not copied at once comes up in every turn: the test that
  should skip it compares before it takes the conjunction of
  bits. One that is shared or copied at once is mapped.

  Main declarations:
    * `Passes`, `ForkedList`, `ForkRight`
    * `forkTurns_returns`, `forkTurns_passes`
    * `vmMapFork_right_iff`
-/

------
-- Turns That Go On
------

namespace OsfMach

namespace Vm

open Lib
open Lib.Prog

namespace ForkTurn

/- The turn goes on with the next region. -/
def GoesOn (x : ForkTurn) (e : VmMapEntry) : Prop :=
  e.inheritance = inheritCopy → ∃ c, x.copies e = some (.ok c)

/- The turn fails to copy the region. -/
def Fails (x : ForkTurn) (e : VmMapEntry) : Prop :=
  e.inheritance = inheritCopy ∧
    ∃ kr, x.copies e = some (.error kr)

end ForkTurn

/- Each region is passed after some turns that fail. -/
def Passes
    (ans : Nat → ForkTurn) :
    Nat → List VmMapEntry → Prop
| _, [] => True
| turn, e :: rest =>
    ∃ k, (∀ i, i < k → (ans (turn + i)).Fails e) ∧
      (ans (turn + k)).GoesOn e ∧
      Passes ans (turn + k + 1) rest

/-
  What a region becomes in the old map, and what there is of
  it in the new one.
-/
inductive ForkedEntry (ans : Nat → ForkTurn) :
    VmMapEntry → VmMapEntry → List VmMapEntry → Prop where
| skipped
    {e : VmMapEntry}
    (hShare : e.inheritance ≠ inheritShare)
    (hCopy : e.inheritance ≠ inheritCopy) :
    ForkedEntry ans e e []
| share
    {e e' : VmMapEntry}
    (i : Nat)
    (hShare : e.inheritance = inheritShare)
    (hShares : Shares e e') :
    ForkedEntry ans e e'
      [{ entryCopy e' with entryId := i, isShared := true }]
| copy
    {e : VmMapEntry}
    {c : ObjectCopy}
    (turn i : Nat)
    (hCopy : e.inheritance = inheritCopy)
    (hMade : (ans turn).copies e = some (.ok c)) :
    ForkedEntry ans e (c.source e)
      [{ c.entry e with entryId := i }]

inductive ForkedList (ans : Nat → ForkTurn) :
    List VmMapEntry → List VmMapEntry →
      List VmMapEntry → Prop where
| nil : ForkedList ans [] [] []
| cons
    {e e' : VmMapEntry}
    {l l' xs ys : List VmMapEntry}
    (hEntry : ForkedEntry ans e e' xs)
    (hRest : ForkedList ans l l' ys) :
    ForkedList ans (e :: l) (e' :: l') (xs ++ ys)

section

variable {ans : Nat → ForkTurn} {m newMap : VmMap}
variable {l r : List VmMapEntry} {e : VmMapEntry}
variable {turn newSize : Nat}

/- A turn goes on, or fails, or does not return. -/
theorem forkTurn_cases
    (h : MapOk m)
    (hNew : Numbered newMap)
    (hSplit : m.entries = l ++ e :: r) :
    ((ans turn).GoesOn e ∧ ∃ m' e' xs newMap',
      forkEntry (ans turn).answers (ans turn).tries e newMap
          m =
        some ((r.head?.map VmMapEntry.entryId, newMap',
          entryLengths xs), m') ∧
      Steady m m' ∧ m'.entries = l ++ e' :: r ∧
      ForkedEntry ans e e' xs ∧
      newMap'.entries = newMap.entries ++ xs ∧
      Numbered newMap') ∨
    ((ans turn).Fails e ∧ ∃ m',
      forkEntry (ans turn).answers (ans turn).tries e newMap
          m = some ((some e.entryId, newMap, 0), m') ∧
      SameEntries m m') ∨
    (e.inheritance = inheritCopy ∧
      (ans turn).copies e = none ∧
      forkEntry (ans turn).answers (ans turn).tries e newMap
        m = none) := by
  by_cases hShare : e.inheritance = inheritShare
  · left
    refine ⟨?_, ?_⟩
    · intro hCopy
      rw [hShare] at hCopy
      cases hCopy
    rcases forkEntry_share h hSplit hShare with
      ⟨m', e', hRun, hSteady, hEntries, hShares⟩
    have hAppended := linkLast_appended hNew
      { entryCopy e' with isShared := true }
    refine ⟨m', e', _, _, hRun.trans ?_, hSteady, hEntries,
      .share newMap.nextEntry hShare hShares,
      hAppended.entries, hAppended.numbered⟩
    have hPlace : e'.vmeEnd - e'.vmeStart =
        e.vmeEnd - e.vmeStart := by
      rw [hShares]
    exact congrArg (fun n => some ((_, _, n), m')) hPlace.symm
  by_cases hCopy : e.inheritance = inheritCopy
  · rcases @forkEntry_copy m newMap l r e (ans turn) h hNew
      hSplit hCopy with
      hNone | ⟨kr, m', hError, hRun⟩ |
        ⟨c, m', newMap', hMade, hRun, hSteady, hEntries,
          hAppended⟩
    · exact Or.inr (Or.inr ⟨hCopy, hNone⟩)
    · exact Or.inr (Or.inl ⟨⟨hCopy, kr, hError⟩, m', hRun⟩)
    · left
      refine ⟨fun _ => ⟨c, hMade⟩, m', c.source e, _, newMap',
        hRun.trans ?_, hSteady, hEntries,
        .copy turn newMap.nextEntry hCopy hMade,
        hAppended.entries, hAppended.numbered⟩
      rfl
  · left
    refine ⟨fun hNot => absurd hNot hCopy, m, e, [], newMap,
      forkEntry_none h hSplit hShare hCopy, h.refl, hSplit,
      .skipped hShare hCopy, ?_, hNew⟩
    rw [List.append_nil]

------
-- The Loop
------

/- What the loop returns for the rest of the entries. -/
structure Forked
    (ans : Nat → ForkTurn)
    (m m' newMap child : VmMap)
    (l r : List VmMapEntry)
    (newSize : Nat) : Prop where
  steady : Steady m m'
  parts : ∃ r' xs, m'.entries = l ++ r' ∧
    ForkedList ans r r' xs ∧
    child.entries = newMap.entries ++ xs ∧
    child.size = newSize + entryLengths xs

theorem Forked.done
    (h : MapOk m)
    (hSplit : m.entries = l) :
    Forked ans m m newMap { newMap with size := newSize } l []
      newSize := by
  refine ⟨h.refl, [], [], ?_, .nil, ?_, rfl⟩
  · rw [hSplit, List.append_nil]
  · rw [List.append_nil]

/- A turn that goes on, and the rest of the loop. -/
theorem Forked.goesOn
    {m₁ m' newMap' child : VmMap}
    {e' : VmMapEntry}
    {xs : List VmMapEntry}
    (hSteady : Steady m m₁)
    (hForked : ForkedEntry ans e e' xs)
    (hNew : newMap'.entries = newMap.entries ++ xs)
    (hRest : Forked ans m₁ m' newMap' child (l ++ [e']) r
      (newSize + entryLengths xs)) :
    Forked ans m m' newMap child l (e :: r) newSize := by
  rcases hRest.parts with
    ⟨r', ys, hEntries, hList, hChild, hSize⟩
  refine ⟨hSteady.trans hRest.steady, e' :: r', xs ++ ys, ?_,
    .cons hForked hList, ?_, ?_⟩
  · rw [hEntries, List.append_assoc]
    rfl
  · rw [hChild, hNew, List.append_assoc]
  · rw [hSize, entryLengths_append, Nat.add_assoc]

/- A turn that fails, and the same region again. -/
theorem Forked.fails
    {m₁ m' child : VmMap}
    (hSame : SameEntries m m₁)
    (hRest : Forked ans m₁ m' newMap child l r newSize) :
    Forked ans m m' newMap child l r newSize :=
  ⟨hSame.toSteady.trans hRest.steady, hRest.parts⟩

theorem head_id
    (e : VmMapEntry)
    (r : List VmMapEntry) :
    (e :: r).head?.map VmMapEntry.entryId =
      some e.entryId := rfl

/- The first step of the loop. -/
theorem forkTurns_turn
    {fuel newSize : Nat}
    (h : MapOk m)
    (hSplit : m.entries = l ++ e :: r)
    (hSub : e.isSubMap = false) :
    forkTurns ans (fuel + 1) turn (some e.entryId) newMap
        newSize m =
      (forkEntry (ans turn).answers (ans turn).tries e newMap
          m).bind fun r =>
        forkTurns ans fuel (turn + 1) r.1.1 r.1.2.1
          (newSize + r.1.2.2) r.2 := by
  conv_lhs => unfold forkTurns
  rw [bind_eq (deref_eq h (mem_of_split hSplit)),
    if_neg (by simp [hSub])]
  rfl

/- Turns that fail come to the same region again. -/
theorem forkTurns_fails
    {k newSize : Nat}
    (h : MapOk m)
    (hNew : Numbered newMap)
    (hSplit : m.entries = l ++ e :: r)
    (hSub : e.isSubMap = false)
    (hFails : ∀ i, i < k → (ans (turn + i)).Fails e) :
    ∃ m', SameEntries m m' ∧ ∀ fuel,
      forkTurns ans (fuel + k) turn (some e.entryId) newMap
          newSize m =
        forkTurns ans fuel (turn + k) (some e.entryId) newMap
          newSize m' := by
  induction k generalizing turn m with
  | zero => exact ⟨m, ⟨h.refl, rfl⟩, fun _ => rfl⟩
  | succ k ih =>
      have hNow := hFails 0 (Nat.succ_pos k)
      rw [Nat.add_zero] at hNow
      rcases hNow with ⟨hCopy, kr, hError⟩
      rcases @forkTurn_cases ans m newMap l r e turn h hNew
        hSplit with
        ⟨hGoes, _⟩ | ⟨_, m₁, hRun, hSame⟩ | ⟨_, hNone, _⟩
      · rcases hGoes hCopy with ⟨c, hMade⟩
        rw [hMade] at hError
        cases hError
      · have hOthers : ∀ i, i < k →
            (ans (turn + 1 + i)).Fails e := by
          intro i hi
          have hTurn : turn + 1 + i = turn + (i + 1) := by
            omega
          rw [hTurn]
          exact hFails (i + 1) (by omega)
        rcases @ih m₁ (turn + 1) hSame.ok
          (hSame.entries.trans hSplit) hOthers with
          ⟨m', hSame', hLater⟩
        refine ⟨m', ⟨hSame.toSteady.trans hSame'.toSteady,
          hSame'.entries.trans hSame.entries⟩, ?_⟩
        intro fuel
        have hTurn : turn + (k + 1) = turn + 1 + k := by
          omega
        rw [hTurn, ← hLater fuel, ← Nat.add_assoc,
          forkTurns_turn h hSplit hSub, hRun]
        rfl
      · rw [hNone] at hError
        cases hError

/- If each region is passed, the loop returns. -/
theorem forkTurns_returns
    {newSize : Nat}
    (h : MapOk m)
    (hNew : Numbered newMap)
    (hSplit : m.entries = l ++ r)
    (hSub : ∀ x ∈ r, x.isSubMap = false)
    (hPasses : Passes ans turn r) :
    ∃ fuel child m',
      forkTurns ans fuel turn
          (r.head?.map VmMapEntry.entryId) newMap newSize
          m = some (child, m') := by
  induction r generalizing turn l newMap newSize m with
  | nil => exact ⟨1, _, m, rfl⟩
  | cons e r ih =>
      rw [head_id]
      have hSubE := hSub e List.mem_cons_self
      have hSubR : ∀ x ∈ r, x.isSubMap = false :=
        fun x hx => hSub x (List.mem_cons_of_mem _ hx)
      rcases hPasses with ⟨k, hFails, hGoes, hRest⟩
      rcases @forkTurns_fails ans m newMap l r e turn k newSize
        h hNew hSplit hSubE hFails with ⟨m₀, hSame, hAgain⟩
      have hSplit₀ : m₀.entries = l ++ e :: r :=
        hSame.entries.trans hSplit
      rcases @forkTurn_cases ans m₀ newMap l r e (turn + k)
        hSame.ok hNew hSplit₀ with
        ⟨_, m₁, e', xs, newMap', hRun, hSteady, hEntries, _,
          _, hNumbered⟩ | ⟨⟨hCopy, kr, hError⟩, _⟩ |
          ⟨hCopy, hNone, _⟩
      · have hSplit₁ : m₁.entries = (l ++ [e']) ++ r := by
          rw [hEntries, List.append_assoc]
          rfl
        rcases @ih m₁ newMap' (l ++ [e']) (turn + k + 1)
          (newSize + entryLengths xs) hSteady.ok hNumbered
          hSplit₁ hSubR hRest with ⟨fuel, child, m', hEq⟩
        refine ⟨fuel + 1 + k, child, m', ?_⟩
        rw [hAgain, forkTurns_turn hSame.ok hSplit₀ hSubE, hRun]
        exact hEq
      · rcases hGoes hCopy with ⟨c, hMade⟩
        rw [hMade] at hError
        cases hError
      · rcases hGoes hCopy with ⟨c, hMade⟩
        rw [hMade] at hNone
        cases hNone

/- A region that is failed first is passed later. -/
theorem Passes.fails
    (hFails : (ans turn).Fails e)
    (hPasses : Passes ans (turn + 1) (e :: r)) :
    Passes ans turn (e :: r) := by
  rcases hPasses with ⟨k, hLater, hGoes, hRest⟩
  refine ⟨k + 1, ?_, ?_, ?_⟩
  · intro i hi
    cases i with
    | zero => exact hFails
    | succ i =>
        have hTurn : turn + (i + 1) = turn + 1 + i := by
          omega
        rw [hTurn]
        exact hLater i (by omega)
  · have hTurn : turn + (k + 1) = turn + 1 + k := by
      omega
    rw [hTurn]
    exact hGoes
  · have hTurn : turn + (k + 1) + 1 = turn + 1 + k + 1 := by
      omega
    rw [hTurn]
    exact hRest

/-
  If the loop returns, each region was passed, and the map
  that it returns is made of what the regions became.
-/
theorem forkTurns_passes
    {fuel newSize : Nat}
    {child m' : VmMap}
    (h : MapOk m)
    (hNew : Numbered newMap)
    (hSplit : m.entries = l ++ r)
    (hSub : ∀ x ∈ r, x.isSubMap = false)
    (hRun : forkTurns ans fuel turn
      (r.head?.map VmMapEntry.entryId) newMap newSize m =
        some (child, m')) :
    Passes ans turn r ∧
      Forked ans m m' newMap child l r newSize := by
  induction fuel generalizing turn l r newMap newSize m with
  | zero => cases hRun
  | succ fuel ih =>
      cases r with
      | nil =>
          cases hRun
          rw [List.append_nil] at hSplit
          exact ⟨trivial, Forked.done h hSplit⟩
      | cons e r =>
          rw [head_id] at hRun
          have hSubE := hSub e List.mem_cons_self
          rw [forkTurns_turn h hSplit hSubE] at hRun
          rcases @forkTurn_cases ans m newMap l r e turn h
            hNew hSplit with
            ⟨hGoes, m₁, e', xs, newMap', hTurn, hSteady,
              hEntries, hForked, hChild, hNumbered⟩ |
              ⟨hFails, m₁, hTurn, hSame⟩ | ⟨_, _, hNone⟩
          · rw [hTurn, Option.bind_some] at hRun
            have hSplit₁ : m₁.entries = (l ++ [e']) ++ r := by
              rw [hEntries, List.append_assoc]
              rfl
            rcases ih hSteady.ok hNumbered hSplit₁
              (fun x hx => hSub x (List.mem_cons_of_mem _ hx))
              hRun with ⟨hPasses, hRest⟩
            refine ⟨⟨0, ?_, hGoes, hPasses⟩,
              Forked.goesOn hSteady hForked hChild hRest⟩
            intro i hi
            cases hi
          · rw [hTurn, Option.bind_some] at hRun
            rcases ih hSame.ok hNew
              (hSame.entries.trans hSplit) hSub hRun with
              ⟨hPasses, hRest⟩
            exact ⟨hPasses.fails hFails, hRest.fails hSame⟩
          · rw [hNone] at hRun
            cases hRun

end

------
-- Pages
------

/-
  What the new map should map at an address of a region, and
  what the old one maps there afterwards.
-/
structure ForkPage
    (ans : Nat → ForkTurn)
    (e : VmMapEntry)
    (a : Nat)
    (after child : Option PageAttributes) : Prop where
  nothing :
    e.inheritance = inheritNone ∨
      e.maxProtection &&& protRead = 0 →
    child = none
  share :
    e.inheritance = inheritShare →
    e.maxProtection &&& protRead ≠ 0 →
    ∃ p, after = some p ∧ p.isShared = true ∧
      child =
        some { p with wiredCount := 0, userWiredCount := 0 }
  copy :
    e.inheritance = inheritCopy →
    e.maxProtection &&& protRead ≠ 0 →
    ∃ turn c, (ans turn).copies e = some (.ok c) ∧
      child =
        some { e.attributes a with
          object := c.object
          offset :=
            (c.offset + (a - e.vmeStart)) % offsetModulus
          needsCopy := c.needsCopy
          isShared := false
          wiredCount := 0
          userWiredCount := 0 }

/- The new map is right for each page of the old one. -/
structure ForkRight
    (ans : Nat → ForkTurn)
    (m m' child : VmMap) : Prop where
  size : child.size = entryLengths child.entries
  unmapped : ∀ a, m.view a = none → child.view a = none
  page :
    ∀ e ∈ m.entries, ∀ a, e.vmeStart ≤ a → a < e.vmeEnd →
      ForkPage ans e a (m'.view a) (child.view a)

section

variable {ans : Nat → ForkTurn} {l l' xs : List VmMapEntry}
variable {e e' : VmMapEntry} {a : Nat}

/- There is at most one entry, in the same place. -/
theorem ForkedEntry.place
    (h : ForkedEntry ans e e' xs) :
    (e'.vmeStart = e.vmeStart ∧ e'.vmeEnd = e.vmeEnd) ∧
      (xs = [] ∨ ∃ x, xs = [x] ∧ x.vmeStart = e.vmeStart ∧
        x.vmeEnd = e.vmeEnd) := by
  cases h with
  | skipped hShare hCopy => exact ⟨⟨rfl, rfl⟩, Or.inl rfl⟩
  | share i hShare hShares =>
      have hStart : e'.vmeStart = e.vmeStart := by
        rw [hShares]
      have hEnd : e'.vmeEnd = e.vmeEnd := by
        rw [hShares]
      exact ⟨⟨hStart, hEnd⟩, Or.inr ⟨_, rfl, hStart, hEnd⟩⟩
  | copy turn i hCopy hMade =>
      refine ⟨?_, Or.inr ⟨_, rfl, rfl, rfl⟩⟩
      unfold ObjectCopy.source
      split_ifs
      · exact ⟨rfl, rfl⟩
      · exact ⟨rfl, rfl⟩

section

variable (h : ForkedList ans l l' xs)
include h

theorem ForkedList.tiles
    {lo hi : Nat}
    (hTiles : EntryTiles lo hi l) :
    EntryTiles lo hi xs := by
  induction h generalizing lo with
  | nil => exact hTiles
  | cons hEntry hRest ih =>
      rcases hTiles with ⟨hLo, hLt, hTail⟩
      have hChild := ih hTail
      rcases hEntry.place.2 with
        hNil | ⟨x, hOne, hStart, hEnd⟩
      · rw [hNil, List.nil_append]
        exact hChild.mono (by omega) (Nat.le_refl _)
      · rw [hOne]
        refine ⟨by omega, by omega, ?_⟩
        rw [hEnd]
        exact hChild

/- An address that is not mapped stays so. -/
theorem ForkedList.unmapped
    (hNone : entriesView l a = none) :
    entriesView xs a = none := by
  induction h with
  | nil => rfl
  | cons hEntry hRest ih =>
      rw [entriesView_cons] at hNone
      split_ifs at hNone with hIn
      rw [entriesView_append, ih hNone, Option.or_none]
      rcases hEntry.place.2 with
        hNil | ⟨x, hOne, hStart, hEnd⟩
      · rw [hNil]
        rfl
      · rw [hOne, entriesView_cons, hStart, hEnd, if_neg hIn]
        rfl

/- At an address of a region there is what became of it. -/
theorem ForkedList.view
    {lo hi a : Nat}
    (hTiles : EntryTiles lo hi l)
    (he : e ∈ l)
    (hIn : e.vmeStart ≤ a ∧ a < e.vmeEnd) :
    ∃ e' es, ForkedEntry ans e e' es ∧
      entriesView l' a = some (e'.attributes a) ∧
      entriesView xs a = entriesView es a := by
  induction h generalizing lo with
  | nil => cases he
  | @cons e₀ e₀' rest rest' x₀ ys hEntry hRest ih =>
      rcases hTiles with ⟨hLo, hLt, hTail⟩
      rcases hEntry.place with ⟨⟨hStart', hEnd'⟩, hChild⟩
      rcases List.mem_cons.mp he with hEq | hLater
      · subst hEq
        refine ⟨e₀', x₀, hEntry, ?_, ?_⟩
        · rw [entriesView_cons, hStart', hEnd', if_pos hIn]
        · have hNone : entriesView ys a = none := by
            unfold entriesView
            rw [Tiles.covering_below (hRest.tiles hTail) hIn.2]
            rfl
          rw [entriesView_append, hNone, Option.or_none]
      · have hPlace := Tiles.of_mem hTail hLater
        rcases ih hTail hLater with
          ⟨e', es, hForked, hAfter, hView⟩
        refine ⟨e', es, hForked, ?_, ?_⟩
        · rw [entriesView_cons, if_neg (by omega)]
          exact hAfter
        · have hNone : entriesView x₀ a = none := by
            rcases hChild with hNil | ⟨x, hOne, hStart, hEnd⟩
            · rw [hNil]
              rfl
            · rw [hOne, entriesView_cons, if_neg (by omega)]
              rfl
          rw [entriesView_append, hNone, Option.none_or]
          exact hView

end

/- A region that is not mapped is not inherited. -/
theorem ForkedEntry.nothing
    (h : ForkedEntry ans e e' xs)
    (hIn : e.vmeStart ≤ a ∧ a < e.vmeEnd)
    (hNone : entriesView xs a = none) :
    e.inheritance ≠ inheritShare ∧
      e.inheritance ≠ inheritCopy := by
  rcases h.place.2 with hNil | ⟨x, hOne, hStart, hEnd⟩
  · subst hNil
    cases h with
    | skipped hShare hCopy => exact ⟨hShare, hCopy⟩
  · rw [hOne, entriesView_cons, hStart, hEnd, if_pos hIn]
      at hNone
    cases hNone

/- The page of a region that can be read, if inherited. -/
theorem ForkedEntry.page
    (h : ForkedEntry ans e e' xs)
    (hIn : e.vmeStart ≤ a ∧ a < e.vmeEnd)
    (hRead : e.inheritance = inheritShare ∨
        e.inheritance = inheritCopy →
      e.maxProtection &&& protRead ≠ 0) :
    ForkPage ans e a (some (e'.attributes a))
      (entriesView xs a) := by
  cases h with
  | skipped hShare hCopy =>
      refine ⟨fun _ => rfl, ?_, ?_⟩
      · intro hNot
        exact absurd hNot hShare
      · intro hNot
        exact absurd hNot hCopy
  | share i hShare hShares =>
      refine ⟨?_, ?_, ?_⟩
      · rintro (hNone | hNot)
        · rw [hShare] at hNone
          cases hNone
        · exact absurd hNot (hRead (Or.inl hShare))
      · intro _ _
        refine ⟨e'.attributes a, rfl, ?_, ?_⟩
        · have hShared : e'.isShared = true := by
            rw [hShares]
          exact hShared
        · have hStart : e'.vmeStart = e.vmeStart := by
            rw [hShares]
          have hEnd : e'.vmeEnd = e.vmeEnd := by
            rw [hShares]
          have hShared : e'.isShared = true := by
            rw [hShares]
          have hIn' : e'.vmeStart ≤ a ∧ a < e'.vmeEnd := by
            omega
          refine (entriesView_cons _ _ _).trans
            ((if_pos hIn').trans ?_)
          unfold VmMapEntry.attributes VmMapEntry.offsetAt
            entryCopy
          rw [hShared]
      · intro hNot
        rw [hShare] at hNot
        cases hNot
  | copy turn i hCopy hMade =>
      rename_i c
      refine ⟨?_, ?_, ?_⟩
      · rintro (hNone | hNot)
        · rw [hCopy] at hNone
          cases hNone
        · exact absurd hNot (hRead (Or.inr hCopy))
      · intro hNot
        rw [hCopy] at hNot
        cases hNot
      · intro _ _
        refine ⟨turn, c, hMade, ?_⟩
        rw [entriesView_cons]
        have hIn' : e.vmeStart ≤ a ∧ a < e.vmeEnd := hIn
        exact if_pos hIn'

end

------
-- The Call
------

section

variable {ans : Nat → ForkTurn} {m : VmMap}

theorem numbered_create (min max : Nat) :
    Numbered (vmMapCreate min max) := by
  refine ⟨List.nodup_nil, ?_⟩
  intro x hx
  cases hx

theorem vmMapForkTurns_eq (fuel : Nat) :
    vmMapForkTurns ans fuel m =
      forkTurns ans fuel 0
        (m.entries.head?.map VmMapEntry.entryId)
        (vmMapCreate m.minOffset m.maxOffset) 0 m := rfl

/- What a call that returns returns. -/
theorem vmMapForkTurns_forked
    {fuel : Nat}
    {child m' : VmMap}
    (hMap : MapOk m)
    (hSub : ∀ e ∈ m.entries, e.isSubMap = false)
    (hRun : vmMapForkTurns ans fuel m = some (child, m')) :
    Passes ans 0 m.entries ∧
      ForkedList ans m.entries m'.entries child.entries ∧
      child.size = entryLengths child.entries := by
  rcases @forkTurns_passes ans m _ [] m.entries 0 fuel 0 child
    m' hMap (numbered_create _ _) rfl hSub hRun with
    ⟨hPasses, _, r', xs, hEntries, hList, hChild, hSize⟩
  have hNone : (vmMapCreate m.minOffset m.maxOffset).entries ++
      xs = xs := rfl
  rw [hNone] at hChild
  refine ⟨hPasses, ?_, ?_⟩
  · rw [hEntries, hChild]
    exact hList
  · rw [hSize, hChild, Nat.zero_add]

end

/-
  The call returns, and returns the right map, exactly if
  each region that is shared or copied can be read, and the
  object layer copies each region that is to be copied after
  finitely many tries that fail.
-/
theorem vmMapFork_right_iff
    {ans : Nat → ForkTurn}
    {m : VmMap}
    (hMap : MapOk m)
    (hSub : ∀ e ∈ m.entries, e.isSubMap = false) :
    ((∃ fuel, (vmMapForkTurns ans fuel m).isSome = true) ∧
        ∀ fuel child m',
          vmMapForkTurns ans fuel m = some (child, m') →
          ForkRight ans m m' child) ↔
      (∀ e ∈ m.entries,
        e.inheritance = inheritShare ∨
          e.inheritance = inheritCopy →
        e.maxProtection &&& protRead ≠ 0) ∧
      Passes ans 0 m.entries := by
  have hTiles := hMap.tiles
  constructor
  · rintro ⟨⟨fuel, hSome⟩, hRight⟩
    rcases Option.isSome_iff_exists.mp hSome with
      ⟨⟨child, m'⟩, hRun⟩
    rcases vmMapForkTurns_forked hMap hSub hRun with
      ⟨hPasses, hList, _⟩
    refine ⟨?_, hPasses⟩
    intro e he hInherited hUnreadable
    have hPlace := hMap.toMapOrder.place he
    have hIn : e.vmeStart ≤ e.vmeStart ∧
        e.vmeStart < e.vmeEnd := ⟨Nat.le_refl _, hPlace.2.1⟩
    have hPage := (hRight fuel child m' hRun).page e he
      e.vmeStart hIn.1 hIn.2
    rcases hList.view hTiles he hIn with
      ⟨e', es, hForked, _, hView⟩
    have hNone := hPage.nothing (Or.inr hUnreadable)
    unfold VmMap.view at hNone
    rw [hView] at hNone
    rcases hForked.nothing hIn hNone with ⟨hShare, hCopy⟩
    rcases hInherited with hYes | hYes
    · exact hShare hYes
    · exact hCopy hYes
  · rintro ⟨hRead, hPasses⟩
    refine ⟨?_, ?_⟩
    · rcases @forkTurns_returns ans m
        (vmMapCreate m.minOffset m.maxOffset) [] m.entries 0 0
        hMap (numbered_create _ _) rfl hSub hPasses with
        ⟨fuel, child, m', hRun⟩
      refine ⟨fuel, ?_⟩
      rw [vmMapForkTurns_eq, hRun]
      rfl
    · intro fuel child m' hRun
      rcases vmMapForkTurns_forked hMap hSub hRun with
        ⟨_, hList, hSize⟩
      refine ⟨hSize, fun a => hList.unmapped, ?_⟩
      intro e he a hLo hHi
      rcases hList.view hTiles he ⟨hLo, hHi⟩ with
        ⟨e', es, hForked, hAfter, hView⟩
      unfold VmMap.view
      rw [hAfter, hView]
      exact hForked.page ⟨hLo, hHi⟩ (hRead e he)

/- An object layer that copies each object at once. -/
def quickAnswers : VmAnswers :=
  { wiringRequired := false
    waitForSpace := false
    interrupted := false
    internal := fun _ => true
    symmetric := fun _ => true
    shadowed := fun _ => false
    objectSize := fun _ => 0
    coalesce := fun _ => false
    allocate := fun _ => 0
    shadow := fun _ => none
    fault := fun _ => .success
    copyQuickly := fun _ =>
      some (.vmObject (some 5), true, true)
    copyObject := fun _ =>
      (.memoryError, .vmObject none, 0, false) }

theorem vmMapFork_right_iff_sole :
    (∃ fuel,
      (vmMapForkTurns
        (fun _ => ⟨quickAnswers, 1⟩) fuel
        (soleMap (soleEntry 0x1000 0x2000 5 protAll
          0))).isSome = true) ∧
      ∀ fuel child m',
        vmMapForkTurns (fun _ => ⟨quickAnswers, 1⟩) fuel
          (soleMap (soleEntry 0x1000 0x2000 5 protAll 0)) =
            some (child, m') →
        ForkRight (fun _ => ⟨quickAnswers, 1⟩)
          (soleMap (soleEntry 0x1000 0x2000 5 protAll 0))
          m' child := by
  refine (@vmMapFork_right_iff (fun _ => ⟨quickAnswers, 1⟩)
    (soleMap (soleEntry 0x1000 0x2000 5 protAll 0))
    (soleMap_ok (by decide) (by decide) ⟨rfl, rfl⟩)
    (by decide)).mpr ⟨?_, ?_⟩
  · intro e he _
    cases List.mem_singleton.mp he
    decide
  · exact ⟨0, fun i hi => absurd hi (Nat.not_lt_zero i),
      fun hCopy => ⟨_, rfl⟩, trivial⟩

/-
  A region that is wired and can never be read, as it is
  after its maximum protection was taken away: the call does
  not return, whatever the object layer answers.
-/
theorem vmMapFork_spins :
    ¬ ∃ ans fuel,
      (vmMapForkTurns ans fuel
        (soleMap (soleEntry 0x1000 0x2000 5 0 1))).isSome =
          true := by
  rintro ⟨ans, fuel, hSome⟩
  have hMap : MapOk (soleMap (soleEntry 0x1000 0x2000 5 0 1)) :=
    soleMap_ok (by decide) (by decide) ⟨rfl, rfl⟩
  rcases Option.isSome_iff_exists.mp hSome with ⟨result, hRun⟩
  rcases vmMapForkTurns_forked hMap (by decide) hRun with
    ⟨⟨k, _, hGoes, _⟩, _⟩
  rcases hGoes rfl with ⟨c, hMade⟩
  have hSlow : (ans (0 + k)).slowly
      (soleEntry 0x1000 0x2000 5 0 1) = some (.ok c) :=
    hMade
  unfold ForkTurn.slowly at hSlow
  cases hTries : (ans (0 + k)).tries with
  | zero | succ tries =>
      rw [hTries] at hSlow
      cases hSlow

end Vm

end OsfMach
