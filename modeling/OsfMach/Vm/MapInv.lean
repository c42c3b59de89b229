import OsfMach.Lib.Intervals
import OsfMach.Vm.Map
import Mathlib.Algebra.GroupWithZero.Nat

/-
  What holds of address maps between operations, and what
  the small steps on their entries do.

  Main declarations:
    * `MapCore`, `MapInv`, `Reached`
    * `VmMap.view`, `RefInv`
    * `MapCore.updateFirstFree`
    * `MapInv.lookupEntry`
    * `MapInv.clipStart`, `MapInv.clipEnd`
-/

------
-- Links
------

namespace OsfMach

namespace Vm

open List
open Lib

variable {m : VmMap} {e : VmMapEntry} {r l : List VmMapEntry}
variable {i : Option Nat}

/- No two entries are the same. -/
def UniqueIds (l : List VmMapEntry) : Prop :=
  (l.map VmMapEntry.entryId).Nodup

namespace UniqueIds

variable {l r : List VmMapEntry} {e : VmMapEntry}
variable {x : VmMapEntry}

theorem left_ne
    (h : UniqueIds (l ++ e :: r))
    (hx : x ∈ l) :
    x.entryId ≠ e.entryId := by
  intro hEq
  unfold UniqueIds at h
  rw [map_append, map_cons, nodup_append'] at h
  apply h.2.2 (mem_map_of_mem hx)
  rw [hEq]
  exact mem_cons_self

theorem right_ne
    (h : UniqueIds (l ++ e :: r))
    (hx : x ∈ r) :
    x.entryId ≠ e.entryId := by
  intro hEq
  unfold UniqueIds at h
  rw [map_append, map_cons, nodup_append', nodup_cons] at h
  apply h.2.1.1
  rw [← hEq]
  exact mem_map_of_mem hx

end UniqueIds

section Links

variable {m : VmMap} {l r : List VmMapEntry} {e : VmMapEntry}

theorem find_split
    (hIds : UniqueIds (l ++ e :: r))
    (h : m.entries = l ++ e :: r) :
    m.find e.entryId = some e := by
  unfold VmMap.find
  rw [h, List.find?_append]
  have hNone :
      l.find? (fun x => x.entryId == e.entryId) = none := by
    apply List.find?_eq_none.mpr
    intro x hx
    simpa using hIds.left_ne hx
  rw [hNone]
  simp

theorem exists_split
    {i : Nat}
    (h : m.find i = some e) :
    e.entryId = i ∧ ∃ l r, m.entries = l ++ e :: r := by
  have hId := List.find?_some h
  have hMem := mem_of_find?_eq_some h
  exact ⟨by simpa using hId, append_of_mem hMem⟩

section UniqueIds

variable (hIds : UniqueIds (l ++ e :: r))

include hIds

theorem before_split
    (h : m.entries = l ++ e :: r) :
    m.before (some e.entryId) = l := by
  unfold VmMap.before
  rw [h]
  dsimp only
  rw [takeWhile_append_of_pos]
  · simp
  · intro x hx
    simpa using hIds.left_ne hx

theorem after_split
    (h : m.entries = l ++ e :: r) :
    m.after (some e.entryId) = r := by
  unfold VmMap.after
  rw [h]
  dsimp only
  rw [dropWhile_append_of_pos]
  · simp
  · intro x hx
    simpa using hIds.left_ne hx

theorem map_split
    (f : VmMapEntry → VmMapEntry) :
    (l ++ e :: r).map
        (fun x =>
          if x.entryId = e.entryId then f x else x) =
      l ++ f e :: r := by
  have hLeft :
      l.map (fun x =>
        if x.entryId = e.entryId then f x else x) = l := by
    nth_rewrite 2 [← map_id l]
    apply map_congr_left
    intro x hx
    rw [if_neg (hIds.left_ne hx)]
    rfl
  have hRight :
      r.map (fun x =>
        if x.entryId = e.entryId then f x else x) = r := by
    nth_rewrite 2 [← map_id r]
    apply map_congr_left
    intro x hx
    rw [if_neg (hIds.right_ne hx)]
    rfl
  rw [map_append, map_cons, hLeft, hRight, if_pos rfl]

theorem modify_split
    (h : m.entries = l ++ e :: r)
    (f : VmMapEntry → VmMapEntry) :
    (m.modify e.entryId f).entries = l ++ f e :: r := by
  unfold VmMap.modify
  rw [h]
  exact map_split hIds f

theorem flatMap_split
    (c : List VmMapEntry) :
    (l ++ e :: r).flatMap
        (fun x =>
          if x.entryId = e.entryId then x :: c else [x]) =
      l ++ e :: (c ++ r) := by
  have hSame :
      ∀ k : List VmMapEntry,
        (∀ x ∈ k, x.entryId ≠ e.entryId) →
        k.flatMap (fun x =>
          if x.entryId = e.entryId then x :: c else [x]) =
            k := by
    intro k hk
    induction k with
    | nil =>
        rfl
    | cons x k ih =>
        rw [flatMap_cons,
          if_neg (hk x mem_cons_self),
          ih (fun y hy => hk y (mem_cons_of_mem _ hy))]
        rfl
  rw [flatMap_append, flatMap_cons,
    hSame l (fun x hx => hIds.left_ne hx),
    hSame r (fun x hx => hIds.right_ne hx), if_pos rfl]
  rfl

theorem link_after_split
    (h : m.entries = l ++ e :: r)
    (n : VmMapEntry) :
    (m.entryLinkHdr (some e.entryId) n).entries =
      l ++ e :: n :: r := by
  unfold VmMap.entryLinkHdr
  rw [h]
  exact flatMap_split hIds [n]

end UniqueIds

/- The entry that ends a part of the list. -/
def lastId (l : List VmMapEntry) : Option Nat :=
  l.getLast?.map VmMapEntry.entryId

theorem link_after_part
    (hIds : UniqueIds (l ++ r))
    (h : m.entries = l ++ r)
    (n : VmMapEntry) :
    (m.entryLinkHdr (lastId l) n).entries = l ++ n :: r := by
  rcases eq_nil_or_concat l with hNil | ⟨k, x, hCons⟩
  · subst hNil
    unfold VmMap.entryLinkHdr lastId
    rw [h]
    rfl
  · subst hCons
    rw [concat_eq_append, append_assoc,
      singleton_append] at h hIds
    have hLast : lastId (k.concat x) = some x.entryId := by
      simp [lastId]
    rw [hLast, link_after_split hIds h n]
    simp

section

variable (hIds : UniqueIds (l ++ e :: r))
include hIds

theorem unlink_split
    (h : m.entries = l ++ e :: r) :
    (m.entryUnlinkHdr e.entryId).entries = l ++ r := by
  unfold VmMap.entryUnlinkHdr
  rw [h, filter_append, filter_cons]
  have hLeft :
      l.filter (fun x => x.entryId != e.entryId) = l := by
    apply filter_eq_self.mpr
    intro x hx
    simpa using hIds.left_ne hx
  have hRight :
      r.filter (fun x => x.entryId != e.entryId) = r := by
    apply filter_eq_self.mpr
    intro x hx
    simpa using hIds.right_ne hx
  rw [hLeft, hRight]
  simp

theorem vmePrev_split
    (h : m.entries = l ++ e :: r) :
    m.vmePrev (some e.entryId) = lastId l := by
  unfold VmMap.vmePrev lastId
  rw [before_split hIds h]

theorem vmeNext_split
    (h : m.entries = l ++ e :: r) :
    m.vmeNext (some e.entryId) =
      r.head?.map VmMapEntry.entryId := by
  unfold VmMap.vmeNext
  rw [after_split hIds h]

end

/- The entries after a part of the list. -/
theorem after_part
    (hIds : UniqueIds (l ++ r))
    (h : m.entries = l ++ r) :
    m.after (lastId l) = r := by
  rcases eq_nil_or_concat l with hNil | ⟨k, x, hk⟩
  · subst hNil
    unfold lastId VmMap.after
    rw [h]
    rfl
  · rw [concat_eq_append] at hk
    subst hk
    rw [← append_cons] at h hIds
    have hLast : lastId (k ++ [x]) = some x.entryId := by
      simp [lastId]
    rw [hLast, after_split hIds h]

end Links

------
-- Invariants
------

/- Entries in order between two addresses. -/
def EntryTiles (a b : Nat) (l : List VmMapEntry) : Prop :=
  Tiles VmMapEntry.vmeStart VmMapEntry.vmeEnd a b l

def EntryContiguous
    (a b : Nat)
    (l : List VmMapEntry) : Prop :=
  Contiguous VmMapEntry.vmeStart VmMapEntry.vmeEnd a b l

def entryBeforeHole
    (a : Nat)
    (cur : Option VmMapEntry)
    (l : List VmMapEntry) : Option VmMapEntry :=
  beforeHole VmMapEntry.vmeStart VmMapEntry.vmeEnd a cur l

def Aligned (x : Nat) : Prop :=
  x % pageSize = 0

/- Sum of the lengths of entries. -/
def entryLengths (l : List VmMapEntry) : Nat :=
  (l.map fun e => e.vmeEnd - e.vmeStart).sum

/- The entries are in order and do not overlap. -/
structure MapOrder (m : VmMap) : Prop where
  minAligned : Aligned m.minOffset
  maxAligned : Aligned m.maxOffset
  tiles : EntryTiles m.minOffset m.maxOffset m.entries
  aligned :
    ∀ e ∈ m.entries, Aligned e.vmeStart ∧ Aligned e.vmeEnd
  ids : UniqueIds m.entries

theorem MapOrder.tilesOf
    {m : VmMap}
    {l : List VmMapEntry}
    (h : MapOrder m)
    (hSplit : m.entries = l) :
    EntryTiles m.minOffset m.maxOffset l :=
  hSplit ▸ h.tiles

theorem MapOrder.idsOf
    {m : VmMap}
    {l : List VmMapEntry}
    (h : MapOrder m)
    (hSplit : m.entries = l) :
    UniqueIds l :=
  hSplit ▸ h.ids

/- All but the place of the first hole. -/
structure MapCore (m : VmMap) : Prop extends MapOrder m where
  fresh : ∀ e ∈ m.entries, e.entryId < m.nextEntry
  nentries : m.nentries = m.entries.length
  size : m.size = entryLengths m.entries
  hint :
    ∀ i, m.hint = some i → ∃ e ∈ m.entries, e.entryId = i

/-
  The entries are in order and do not overlap, the counts
  are theirs, the hint is one of them or the header, and so
  is the entry before the lowest hole.
-/
structure MapInv (m : VmMap) : Prop extends MapCore m where
  firstFree :
    m.firstFree =
      (entryBeforeHole m.minOffset none m.entries).map
        VmMapEntry.entryId

/- A pointer that the walk for the lowest hole comes to. -/
def Reached (m : VmMap) (i : Option Nat) : Prop :=
  ∃ l r c, m.entries = l ++ r ∧
    EntryContiguous m.minOffset c l ∧ i = lastId l

theorem MapInv.reached
    (h : MapInv m) :
    Reached m m.firstFree := by
  rcases exists_contiguous VmMapEntry.vmeStart
    VmMapEntry.vmeEnd m.minOffset none m.entries with
    ⟨p, r, c, hEq, hCont, hHole⟩
  refine ⟨p, r, c, hEq, hCont, ?_⟩
  rw [h.firstFree]
  unfold entryBeforeHole lastId
  rw [hHole, Option.or_none]

theorem truncPage_of_aligned
    {x : Nat}
    (h : Aligned x) :
    truncPage x = x := by
  unfold truncPage
  rw [h]
  rfl

/-
  After an entry the walk goes on as the search for the
  lowest hole does: entries are not empty, so that the next
  one does not start where this one does, and the header
  starts below both.
-/
theorem walkFirstFree_entry
    (hMin : Aligned m.minOffset)
    (hLt : m.minOffset ≤ e.vmeStart)
    (hTiles : EntryTiles e.vmeStart m.maxOffset (e :: r))
    (hAligned :
      ∀ x ∈ e :: r, Aligned x.vmeStart ∧ Aligned x.vmeEnd) :
    m.walkFirstFree (some e.entryId) e.vmeStart e.vmeEnd r =
      (entryBeforeHole e.vmeEnd (some e) r).map
        VmMapEntry.entryId := by
  induction r generalizing e with
  | nil =>
      rcases hTiles with ⟨_, hNonempty, _⟩
      rcases hAligned e mem_cons_self with ⟨_, hEnd⟩
      unfold VmMap.walkFirstFree
      rw [truncPage_of_aligned hMin,
        truncPage_of_aligned hEnd, if_neg (by omega)]
      rfl
  | cons x r ih =>
      rcases hTiles with ⟨_, hNonempty, hRest⟩
      have hAfter : e.vmeEnd ≤ x.vmeStart := hRest.1
      rcases hAligned e mem_cons_self with ⟨hStart, hEnd⟩
      rcases hAligned x
        (mem_cons_of_mem _ mem_cons_self) with
        ⟨hStart', _⟩
      unfold VmMap.walkFirstFree
      rw [truncPage_of_aligned hStart',
        truncPage_of_aligned hStart,
        truncPage_of_aligned hEnd]
      unfold entryBeforeHole beforeHole
      by_cases hNext : x.vmeStart = e.vmeEnd
      · rw [if_pos (Or.inl hNext), if_pos hNext]
        apply ih (by omega)
        · exact ⟨Nat.le_refl _, hRest.2⟩
        · intro y hy
          exact hAligned y (mem_cons_of_mem _ hy)
      · rw [if_neg (by omega), if_neg hNext]
        rfl

theorem walkFirstFree_header
    (h : MapOrder m) :
    m.walkFirstFree none m.minOffset m.maxOffset m.entries =
      (entryBeforeHole m.minOffset none m.entries).map
        VmMapEntry.entryId := by
  have hTiles := h.tiles
  have hAligned := h.aligned
  cases hEntries : m.entries with
  | nil =>
      unfold VmMap.walkFirstFree
      split_ifs
      · rfl
      · rfl
  | cons x r =>
      rw [hEntries] at hTiles hAligned
      rcases hTiles with ⟨hLo, hNonempty, hRest⟩
      rcases hAligned x mem_cons_self with ⟨hStart, _⟩
      have hLe : x.vmeEnd ≤ m.maxOffset := Tiles.le hRest
      unfold VmMap.walkFirstFree
      rw [truncPage_of_aligned hStart,
        truncPage_of_aligned h.minAligned,
        truncPage_of_aligned h.maxAligned]
      unfold entryBeforeHole beforeHole
      by_cases hFirst : x.vmeStart = m.minOffset
      · rw [if_pos (Or.inr hFirst), if_pos hFirst]
        apply walkFirstFree_entry h.minAligned hLo
        · exact ⟨Nat.le_refl _, hNonempty, hRest⟩
        · exact hAligned
      · rw [if_neg (by omega), if_neg hFirst]
        rfl

/- From anywhere before the lowest hole it is found. -/
theorem MapOrder.updateFirstFree_eq
    (h : MapOrder m)
    (hReached : Reached m i) :
    m.updateFirstFree i =
      { m with
        firstFree :=
          (entryBeforeHole m.minOffset none
            m.entries).map VmMapEntry.entryId } := by
  rcases hReached with ⟨l, r, c, hEq, hCont, hi⟩
  rcases eq_nil_or_concat l with hNil | ⟨k, x, hCons⟩
  · subst hNil
    rw [hi]
    unfold VmMap.updateFirstFree lastId VmMap.bounds
    dsimp only [List.getLast?_nil, Option.map_none]
    rw [show m.after none = m.entries from rfl,
      walkFirstFree_header h]
  · rw [concat_eq_append] at hCons
    subst hCons
    have hSplit : m.entries = k ++ x :: r := by
      rw [hEq]
      simp
    have hIds := h.idsOf hSplit
    have hTiles := h.tilesOf hSplit
    rcases tiles_append.mp hTiles with ⟨d, hLeft, hRight⟩
    rcases contiguous_append.mp hCont with ⟨b, hk, hx⟩
    have hEnd : x.vmeEnd = c := hx.2
    have hLast : lastId (k ++ [x]) = some x.entryId := by
      simp [lastId]
    rw [hi, hLast]
    unfold VmMap.updateFirstFree VmMap.bounds
    dsimp only
    rw [find_split hIds hSplit, after_split hIds hSplit]
    dsimp only [Option.map_some]
    rw [walkFirstFree_entry h.minAligned
      (Nat.le_trans (Tiles.le hLeft) hRight.1)
      ⟨Nat.le_refl _, hRight.2⟩
      (fun y hy => h.aligned y (by
        rw [hSplit]
        exact mem_append_right _ hy))]
    have hHole :
        entryBeforeHole m.minOffset none m.entries =
          entryBeforeHole x.vmeEnd (some x) r := by
      unfold entryBeforeHole
      rw [hEq, beforeHole_of_contiguous hCont, hEnd]
      simp
    rw [hHole]

theorem MapCore.updateFirstFree
    (h : MapCore m)
    (hReached : Reached m i) :
    MapInv (m.updateFirstFree i) := by
  rw [h.toMapOrder.updateFirstFree_eq hReached]
  refine ⟨?_, rfl⟩
  exact ⟨⟨h.minAligned, h.maxAligned, h.tiles, h.aligned,
    h.ids⟩, h.fresh, h.nentries, h.size, h.hint⟩

------
-- Looking up an Address
------

/-
  A search that starts after entries below the address finds
  the entry around it, or the last one below it.
-/
theorem searchEntry_spec
    {a b address : Nat}
    (hTiles : EntryTiles a b (l ++ r))
    (hBelow : ∀ x ∈ l, x.vmeEnd ≤ address) :
    (∃ l' e r', l ++ r = l' ++ e :: r' ∧
      e.vmeStart ≤ address ∧ address < e.vmeEnd ∧
      VmMap.searchEntry address (lastId l) r =
        (true, some e.entryId)) ∨
    ∃ l' r', l ++ r = l' ++ r' ∧
      (∀ x ∈ l', x.vmeEnd ≤ address) ∧
      (∀ x ∈ r', address < x.vmeStart) ∧
      VmMap.searchEntry address (lastId l) r =
        (false, lastId l') := by
  induction r generalizing l with
  | nil =>
      refine Or.inr ⟨l, [], rfl, hBelow, ?_, rfl⟩
      intro x hx
      cases hx
  | cons e r ih =>
      unfold VmMap.searchEntry
      split_ifs with hEnd hStart
      · exact Or.inl ⟨l, e, r, rfl, hStart, hEnd, rfl⟩
      · refine Or.inr ⟨l, e :: r, rfl, hBelow, ?_, rfl⟩
        rcases tiles_append.mp hTiles with ⟨c, _, hRight⟩
        intro x hx
        rcases mem_cons.mp hx with rfl | hTail
        · omega
        · have hIn := Tiles.of_mem hRight.2.2 hTail
          omega
      · have hSplit : l ++ e :: r = (l ++ [e]) ++ r := by
          simp
        have hLast :
            lastId (l ++ [e]) = some e.entryId := by
          simp [lastId]
        rw [hSplit] at hTiles ⊢
        rw [← hLast]
        apply ih hTiles
        intro x hx
        rcases mem_append.mp hx with hl | he
        · exact hBelow x hl
        · rw [mem_singleton.mp he]
          omega

/- What a lookup finds, and that it moves only the hint. -/
structure Looked
    (m : VmMap)
    (address : Nat)
    (found : Bool)
    (i : Option Nat)
    (m' : VmMap) : Prop where
  same : ∃ hint, m' = m.saveHint hint ∧
    ∀ j, hint = some j → ∃ e ∈ m.entries, e.entryId = j
  inside :
    found = true → ∃ l e r, m.entries = l ++ e :: r ∧
      i = some e.entryId ∧ e.vmeStart ≤ address ∧
      address < e.vmeEnd
  outside :
    found = false → ∃ l r, m.entries = l ++ r ∧
      i = lastId l ∧ (∀ x ∈ l, x.vmeEnd ≤ address) ∧
      ∀ x ∈ r, address < x.vmeStart

theorem mem_of_lastId
    {i : Nat}
    (h : lastId l = some i) :
    ∃ e ∈ l, e.entryId = i := by
  rcases Option.map_eq_some_iff.mp h with ⟨e, hLast, hId⟩
  exact ⟨e, mem_of_getLast? hLast, hId⟩

theorem Looked.of_search
    {m : VmMap}
    {address : Nat}
    {l r : List VmMapEntry}
    (h : MapCore m)
    (hSplit : m.entries = l ++ r)
    (hBelow : ∀ x ∈ l, x.vmeEnd ≤ address) :
    Looked m address
      (VmMap.searchEntry address (lastId l) r).1
      (VmMap.searchEntry address (lastId l) r).2
      (m.saveHint
        (VmMap.searchEntry address (lastId l) r).2) := by
  have hTiles := h.tilesOf hSplit
  rcases searchEntry_spec hTiles hBelow with
    ⟨l', e, r', hEq, hLo, hHi, hIs⟩ |
    ⟨l', r', hEq, hl', hr', hIs⟩
  · rw [hIs]
    refine ⟨⟨_, rfl, ?_⟩, ?_, ?_⟩
    · intro j hj
      refine ⟨e, ?_, Option.some.inj hj⟩
      rw [hSplit, hEq]
      simp
    · intro _
      exact ⟨l', e, r', by rw [hSplit, hEq], rfl, hLo, hHi⟩
    · intro hAbsurd
      cases hAbsurd
  · rw [hIs]
    refine ⟨⟨_, rfl, ?_⟩, ?_, ?_⟩
    · intro j hj
      rcases mem_of_lastId hj with ⟨e, he, hId⟩
      refine ⟨e, ?_, hId⟩
      rw [hSplit, hEq]
      exact mem_append_left _ he
    · intro hAbsurd
      cases hAbsurd
    · intro _
      exact ⟨l', r', by rw [hSplit, hEq], rfl, hl', hr'⟩

theorem MapCore.nil_of_lookupFrom
    (h : MapCore m)
    (hNone : m.lookupFrom.bind m.find = none) :
    m.entries = [] := by
  unfold VmMap.lookupFrom at hNone
  cases hHint : m.hint with
  | none =>
      rw [hHint] at hNone
      cases hEntries : m.entries with
      | nil => rfl
      | cons x r =>
          have hIds := h.idsOf hEntries
          have hFind := @find_split m [] r x hIds hEntries
          have hNext : m.vmeNext none = some x.entryId := by
            simp [VmMap.vmeNext, VmMap.after, hEntries]
          rw [hNext, Option.bind_some, hFind] at hNone
          cases hNone
  | some i =>
      rw [hHint] at hNone
      rcases h.hint i hHint with ⟨e, he, hId⟩
      rcases append_of_mem he with ⟨l, r, hSplit⟩
      have hIds := h.idsOf hSplit
      have hFind := find_split hIds hSplit
      rw [hId] at hFind
      rw [Option.bind_some, hFind] at hNone
      cases hNone

/-
  The lookup from the hint is the one from the first entry:
  the entries before a hint at or below the address are
  below it, and one above it stops the search.
-/
theorem MapCore.lookupEntry
    (h : MapCore m)
    (address : Nat) :
    Looked m address (m.lookupEntry address).1
      (m.lookupEntry address).2.1
      (m.lookupEntry address).2.2 := by
  unfold VmMap.lookupEntry
  cases hFind : m.lookupFrom.bind m.find with
  | none =>
      have hNil := h.nil_of_lookupFrom hFind
      have hPrev : m.vmePrev none = lastId [] := by
        simp [VmMap.vmePrev, VmMap.before, hNil, lastId]
      have hLook := @Looked.of_search m address [] [] h
        hNil (by simp)
      rw [hPrev]
      exact hLook
  | some e =>
      rcases Option.bind_eq_some_iff.mp hFind with
        ⟨i, _, hFound⟩
      rcases exists_split hFound with ⟨_, l, r, hSplit⟩
      have hIds := h.idsOf hSplit
      have hTiles := h.tilesOf hSplit
      rcases tiles_append.mp hTiles with ⟨c, hLeft, hRight⟩
      have hBefore : ∀ x ∈ l, x.vmeEnd ≤ e.vmeStart := by
        intro x hx
        have hIn := Tiles.of_mem hLeft hx
        have hLe := hRight.1
        omega
      dsimp only
      split_ifs with hStart hEnd
      · refine ⟨⟨m.hint, rfl, h.hint⟩, ?_, ?_⟩
        · intro _
          exact ⟨l, e, r, hSplit, rfl, hStart, hEnd⟩
        · intro hAbsurd
          cases hAbsurd
      · rw [vmePrev_split hIds hSplit, after_split hIds hSplit]
        apply Looked.of_search h hSplit
        intro x hx
        exact Nat.le_trans (hBefore x hx) hStart
      · -- the search ends at the hint, as in the whole list
        rw [before_split hIds hSplit]
        have hStop :
            VmMap.searchEntry address none (l ++ [e]) =
              VmMap.searchEntry address none m.entries := by
          rw [hSplit]
          have hLt := hRight.2.1
          generalize (none : Option Nat) = prev
          clear hSplit hIds hTiles hLeft hBefore
          induction l generalizing prev with
          | nil =>
              simp only [nil_append, VmMap.searchEntry]
              have hIn : address < e.vmeEnd := by omega
              rw [if_pos hIn, if_neg hStart, if_pos hIn]
          | cons x l ih =>
              simp only [cons_append, VmMap.searchEntry]
              rw [ih]
        rw [hStop]
        exact @Looked.of_search m address [] m.entries h rfl
          (by simp)

------
-- The Map as a Function
------

/- What an address is mapped to, and how. -/
structure PageAttributes where
  object : MapObject
  offset : Nat
  protection : Nat
  maxProtection : Nat
  inheritance : Nat
  behavior : VmBehavior
  needsCopy : Bool
  isShared : Bool
  wiredCount : Nat
  userWiredCount : Nat
deriving DecidableEq, Repr

def VmMapEntry.attributes
    (e : VmMapEntry)
    (a : Nat) : PageAttributes :=
  { object := e.object
    offset := e.offsetAt a
    protection := e.protection
    maxProtection := e.maxProtection
    inheritance := e.inheritance
    behavior := e.behavior
    needsCopy := e.needsCopy
    isShared := e.isShared
    wiredCount := e.wiredCount
    userWiredCount := e.userWiredCount }

/- What entries say of an address. -/
def entriesView
    (l : List VmMapEntry)
    (a : Nat) : Option PageAttributes :=
  (covering VmMapEntry.vmeStart VmMapEntry.vmeEnd a l).map
    fun e => e.attributes a

def VmMap.view (m : VmMap) (a : Nat) :
    Option PageAttributes :=
  entriesView m.entries a

/- How many entries refer to an object. -/
def entryRefs
    (l : List VmMapEntry)
    (o : MapObject) : Nat :=
  l.countP fun e => e.object == o

/- Each count is of the entries and of the other holders. -/
def RefInv
    (others : MapObject → Nat)
    (s : MapState) : Prop :=
  ∀ o, o ≠ .vmObject none →
    s.refCount o = entryRefs s.map.entries o + others o

theorem entriesView_append
    (l r : List VmMapEntry)
    (a : Nat) :
    entriesView (l ++ r) a =
      (entriesView l a).or (entriesView r a) := by
  unfold entriesView
  rw [covering_append]
  cases covering VmMapEntry.vmeStart VmMapEntry.vmeEnd a
    l with
  | none => rfl
  | some e => rfl

theorem entriesView_cons
    (e : VmMapEntry)
    (l : List VmMapEntry)
    (a : Nat) :
    entriesView (e :: l) a =
      if e.vmeStart ≤ a ∧ a < e.vmeEnd then
        some (e.attributes a)
      else entriesView l a := by
  unfold entriesView
  rw [covering_cons]
  split_ifs
  · rfl
  · rfl

theorem entryRefs_append
    (l r : List VmMapEntry)
    (o : MapObject) :
    entryRefs (l ++ r) o = entryRefs l o + entryRefs r o :=
  countP_append

theorem entryRefs_cons
    (e : VmMapEntry)
    (l : List VmMapEntry)
    (o : MapObject) :
    entryRefs (e :: l) o =
      (if e.object = o then 1 else 0) + entryRefs l o := by
  unfold entryRefs
  rw [countP_cons, Nat.add_comm]
  simp

theorem entryLengths_append
    (l r : List VmMapEntry) :
    entryLengths (l ++ r) =
      entryLengths l + entryLengths r := by
  simp [entryLengths]

theorem entryLengths_cons
    (e : VmMapEntry)
    (l : List VmMapEntry) :
    entryLengths (e :: l) =
      (e.vmeEnd - e.vmeStart) + entryLengths l := by
  simp [entryLengths]

/- A count of every object but none, changed at one. -/
theorem count_apply
    {β : Type}
    {object o : MapObject}
    (count : MapObject → β)
    (b : β)
    (ho : o ≠ .vmObject none) :
    (if object = .vmObject none then count
      else Function.update count object b) o =
        if object = o then b else count o := by
  by_cases hEq : object = o
  · subst hEq
    rw [if_neg ho, if_pos rfl, Function.update_self]
  · rw [if_neg hEq]
    split_ifs
    · rfl
    · exact Function.update_of_ne (Ne.symm hEq) _ _

theorem referenceObject_apply
    (refCount : MapObject → Nat)
    (object o : MapObject)
    (ho : o ≠ .vmObject none) :
    referenceObject refCount object o =
      (if object = o then 1 else 0) + refCount o := by
  refine (count_apply refCount _ ho).trans ?_
  split_ifs with hEq
  · rw [hEq, Nat.add_comm]
  · rw [Nat.zero_add]

theorem deallocateObject_apply
    (refCount : MapObject → Nat)
    (object o : MapObject)
    (ho : o ≠ .vmObject none) :
    deallocateObject refCount object o =
      refCount o - (if object = o then 1 else 0) := by
  refine (count_apply refCount _ ho).trans ?_
  split_ifs with hEq
  · rw [hEq]
  · rfl

------
-- Clipping
------

/- An entry cut at an address inside it. -/
structure Cut
    (e front back : VmMapEntry)
    (at_ : Nat) : Prop where
  inside : e.vmeStart < at_ ∧ at_ < e.vmeEnd
  front :
    front =
      { e with entryId := front.entryId, vmeEnd := at_ }
  back :
    back =
      { e with
        entryId := back.entryId
        vmeStart := at_
        offset :=
          (e.offset + (at_ - e.vmeStart)) % offsetModulus }

namespace Cut

variable {e front back : VmMapEntry} {at_ : Nat}
variable {a b : Nat}

section

variable (h : Cut e front back at_)
include h

theorem view
    (r : List VmMapEntry)
    (a : Nat) :
    entriesView (front :: back :: r) a =
      entriesView (e :: r) a := by
  rcases h.inside with ⟨hLo, hHi⟩
  rw [entriesView_cons, entriesView_cons, entriesView_cons,
    h.front, h.back]
  by_cases hFront : e.vmeStart ≤ a ∧ a < at_
  · rw [if_pos hFront, if_pos ⟨hFront.1, by omega⟩]
    rfl
  · rw [if_neg hFront]
    by_cases hBack : at_ ≤ a ∧ a < e.vmeEnd
    · rw [if_pos hBack, if_pos ⟨by omega, hBack.2⟩]
      simp only [VmMapEntry.attributes,
        VmMapEntry.offsetAt, Nat.mod_add_mod]
      rw [show e.offset + (at_ - e.vmeStart) + (a - at_) =
        e.offset + (a - e.vmeStart) by omega]
    · rw [if_neg hBack, if_neg (by omega)]

theorem refs
    (r : List VmMapEntry)
    (o : MapObject) :
    entryRefs (front :: back :: r) o =
      (if e.object = o then 1 else 0) +
        entryRefs (e :: r) o := by
  rw [entryRefs_cons, entryRefs_cons, entryRefs_cons,
    h.front, h.back]

theorem lengths
    (r : List VmMapEntry) :
    entryLengths (front :: back :: r) =
      entryLengths (e :: r) := by
  rcases h.inside with ⟨hLo, hHi⟩
  rw [entryLengths_cons, entryLengths_cons,
    entryLengths_cons, h.front, h.back]
  dsimp only
  omega

theorem tiles
    (hTiles : EntryTiles a b (e :: r)) :
    EntryTiles a b (front :: back :: r) := by
  rcases h.inside with ⟨hLo, hHi⟩
  rcases hTiles with ⟨hFirst, _, hRest⟩
  rw [h.front, h.back]
  exact ⟨hFirst, hLo, Nat.le_refl _, hHi, hRest⟩

theorem contiguous
    (hCont : EntryContiguous a b (e :: r)) :
    EntryContiguous a b (front :: back :: r) := by
  rcases hCont with ⟨hFirst, hRest⟩
  rw [h.front, h.back]
  exact ⟨hFirst, rfl, hRest⟩

end

end Cut

/- A map with an entry replaced by the parts of it. -/
structure CutMap
    (m m' : VmMap)
    (l r : List VmMapEntry)
    (e front back : VmMapEntry)
    (at_ : Nat) : Prop where
  split : m.entries = l ++ e :: r
  split' : m'.entries = l ++ front :: back :: r
  cut : Cut e front back at_
  named :
    front.entryId = m.nextEntry ∧ back.entryId = e.entryId ∨
      front.entryId = e.entryId ∧ back.entryId = m.nextEntry
  fields :
    m'.minOffset = m.minOffset ∧
      m'.maxOffset = m.maxOffset ∧
      m'.nentries = m.nentries + 1 ∧
      m'.size = m.size ∧ m'.hint = m.hint ∧
      m'.firstFree = m.firstFree ∧
      m'.nextEntry = m.nextEntry + 1

namespace CutMap

variable {m m' : VmMap} {l r : List VmMapEntry}
variable {e front back : VmMapEntry} {at_ : Nat}

section CutMap

variable (h : CutMap m m' l r e front back at_)

include h

theorem ids_perm :
    (m'.entries.map VmMapEntry.entryId).Perm
      (m.nextEntry :: m.entries.map VmMapEntry.entryId) := by
  rw [h.split, h.split']
  simp only [map_append, map_cons]
  rcases h.named with ⟨hFront, hBack⟩ | ⟨hFront, hBack⟩
  · rw [hFront, hBack]
    exact perm_middle
  · rw [hFront, hBack]
    have hSwap :
        (l.map VmMapEntry.entryId ++
            e.entryId :: m.nextEntry ::
              r.map VmMapEntry.entryId).Perm
          (l.map VmMapEntry.entryId ++
            m.nextEntry :: e.entryId ::
              r.map VmMapEntry.entryId) :=
      (List.Perm.swap _ _ _).append_left _
    exact hSwap.trans perm_middle

theorem mem_cases
    {x : VmMapEntry}
    (hx : x ∈ m'.entries) :
    x = front ∨ x = back ∨ x ∈ m.entries := by
  rw [h.split', mem_append, mem_cons, mem_cons] at hx
  rw [h.split, mem_append, mem_cons]
  tauto

theorem core
    (hCore : MapCore m)
    (hAt : Aligned at_) :
    MapCore m' := by
  rcases h.fields with
    ⟨hMin, hMax, hCount, hSize, hHint, _, hNext⟩
  have hMem : e ∈ m.entries := by
    rw [h.split]
    simp
  have hBoth := hCore.aligned e hMem
  have hIds := hCore.ids
  refine ⟨⟨?_, ?_, ?_, ?_, ?_⟩, ?_, ?_, ?_, ?_⟩
  · rw [hMin]
    exact hCore.minAligned
  · rw [hMax]
    exact hCore.maxAligned
  · have hTiles := hCore.tiles
    rw [h.split] at hTiles
    rw [h.split', hMin, hMax]
    rcases tiles_append.mp hTiles with ⟨c, hLeft, hRight⟩
    exact tiles_append.mpr ⟨c, hLeft, h.cut.tiles hRight⟩
  · intro x hx
    rcases h.mem_cases hx with rfl | rfl | hOld
    · rw [h.cut.front]
      exact ⟨hBoth.1, hAt⟩
    · rw [h.cut.back]
      exact ⟨hAt, hBoth.2⟩
    · exact hCore.aligned x hOld
  · unfold UniqueIds
    rw [h.ids_perm.nodup_iff, nodup_cons]
    refine ⟨?_, hIds⟩
    intro hIn
    rcases mem_map.mp hIn with ⟨x, hx, hEq⟩
    have hLt := hCore.fresh x hx
    omega
  · intro x hx
    have hIn := mem_map_of_mem (f := VmMapEntry.entryId) hx
    rw [h.ids_perm.mem_iff, mem_cons] at hIn
    rcases hIn with hEq | hOld
    · omega
    · rcases mem_map.mp hOld with ⟨y, hy, hEq⟩
      have hLt := hCore.fresh y hy
      omega
  · rw [hCount, hCore.nentries, h.split, h.split']
    simp only [length_append, length_cons]
    omega
  · rw [hSize, hCore.size, h.split, h.split',
      entryLengths_append, entryLengths_append, h.cut.lengths r]
  · intro i hi
    rw [hHint] at hi
    rcases hCore.hint i hi with ⟨x, hx, hEq⟩
    have hIn : i ∈ m'.entries.map VmMapEntry.entryId := by
      rw [h.ids_perm.mem_iff]
      apply mem_cons_of_mem
      rw [← hEq]
      exact mem_map_of_mem hx
    rcases mem_map.mp hIn with ⟨y, hy, hId⟩
    exact ⟨y, hy, hId⟩

/-
  The walk for the lowest hole comes to the same pointer:
  the part of the entry that keeps its number ends where
  the walk can stop.
-/
theorem reached
    (hReached : Reached m i) :
    Reached m' i := by
  rcases h.fields with ⟨hMin, _⟩
  rcases hReached with ⟨p, q, c, hEq, hCont, hi⟩
  rw [h.split] at hEq
  unfold Reached
  rw [hMin, h.split']
  rcases append_eq_append_iff.mp hEq with
    ⟨p', hp, hq⟩ | ⟨q', hl, hq⟩
  · cases p' with
    | nil =>
        rw [append_nil] at hp
        subst hp
        exact ⟨p, front :: back :: r, c, rfl, hCont, hi⟩
    | cons x p' =>
        rw [cons_append, List.cons.injEq] at hq
        rcases hq with ⟨hx, hr⟩
        subst hx
        rw [hp] at hCont
        rcases contiguous_append.mp hCont with
          ⟨b, hLeft, hRight⟩
        cases p' with
        | nil =>
            rw [hp] at hi
            have hLast : i = some e.entryId := by
              rw [hi]
              simp [lastId]
            rcases h.named with ⟨_, hBack⟩ | ⟨hFront, _⟩
            · refine ⟨l ++ [front, back], r, c, by simp,
                contiguous_append.mpr
                  ⟨b, hLeft, h.cut.contiguous hRight⟩, ?_⟩
              rw [hLast]
              simp [lastId, hBack]
            · refine ⟨l ++ [front], back :: r, at_,
                by simp, contiguous_append.mpr
                  ⟨b, hLeft, ?_⟩, ?_⟩
              · rw [h.cut.front]
                exact ⟨hRight.1, rfl⟩
              · rw [hLast]
                simp [lastId, hFront]
        | cons y p' =>
            refine ⟨l ++ front :: back :: y :: p', q, c,
              ?_, contiguous_append.mpr
                ⟨b, hLeft, h.cut.contiguous hRight⟩, ?_⟩
            · rw [hr]
              simp
            · rw [hi, hp]
              simp [lastId, List.getLast?_append,
                List.getLast?_cons_cons]
  · cases q' with
    | nil =>
        rw [append_nil] at hl
        subst hl
        exact ⟨l, front :: back :: r, c, rfl, hCont, hi⟩
    | cons y q' =>
        refine ⟨p, y :: q' ++ front :: back :: r, c, ?_,
          hCont, hi⟩
        rw [hl]
        simp

theorem view
    (a : Nat) :
    m'.view a = m.view a := by
  unfold VmMap.view
  rw [h.split, h.split', entriesView_append,
    entriesView_append, h.cut.view]

theorem refs
    (o : MapObject) :
    entryRefs m'.entries o =
      (if e.object = o then 1 else 0) +
        entryRefs m.entries o := by
  rw [h.split, h.split', entryRefs_append,
    entryRefs_append, h.cut.refs]
  omega

end CutMap

end CutMap

theorem cutMap_clipStartHdr
    {start : Nat}
    (h : MapCore m)
    (hSplit : m.entries = l ++ e :: r)
    (hIn : e.vmeStart < start ∧ start < e.vmeEnd) :
    CutMap m (m.clipStartHdr e start) l r e
      { e with entryId := m.nextEntry, vmeEnd := start }
      { e with
        vmeStart := start
        offset :=
          (e.offset + (start - e.vmeStart)) % offsetModulus }
      start := by
  have hIds := h.idsOf hSplit
  refine ⟨hSplit, ?_, ⟨hIn, rfl, rfl⟩, Or.inl ⟨rfl, rfl⟩,
    ⟨rfl, rfl, rfl, rfl, rfl, rfl, rfl⟩⟩
  unfold VmMap.clipStartHdr
  rw [vmePrev_split hIds hSplit]
  have hModify := modify_split hIds hSplit
    (fun x =>
      { x with
        offset :=
          (x.offset + (start - x.vmeStart)) % offsetModulus
        vmeStart := start })
  apply link_after_part _ hModify
  have hSame :
      (l ++ { e with
        vmeStart := start
        offset :=
          (e.offset + (start - e.vmeStart)) % offsetModulus
        } :: r).map VmMapEntry.entryId =
        (l ++ e :: r).map VmMapEntry.entryId := by
    simp
  unfold UniqueIds at hIds ⊢
  rw [hSame]
  exact hIds

/- The two entries that clipping leaves of one. -/
theorem clipEndHdr_entries
    {stop : Nat}
    (hIds : UniqueIds (l ++ e :: r))
    (hSplit : m.entries = l ++ e :: r) :
    (m.clipEndHdr e stop).entries =
      l ++ { e with vmeEnd := stop } ::
        { e with
          entryId := m.nextEntry
          vmeStart := stop
          offset :=
            (e.offset + (stop - e.vmeStart)) % offsetModulus
          } :: r := by
  have hModify := modify_split hIds hSplit
    (fun x => { x with vmeEnd := stop })
  have hSame :
      (l ++ { e with vmeEnd := stop } :: r).map
          VmMapEntry.entryId =
        (l ++ e :: r).map VmMapEntry.entryId := by
    simp
  have hIds' :
      UniqueIds (l ++ { e with vmeEnd := stop } :: r) := by
    unfold UniqueIds at hIds ⊢
    rw [hSame]
    exact hIds
  exact link_after_split hIds' hModify _

theorem cutMap_clipEndHdr
    {stop : Nat}
    (h : MapCore m)
    (hSplit : m.entries = l ++ e :: r)
    (hIn : e.vmeStart < stop ∧ stop < e.vmeEnd) :
    CutMap m (m.clipEndHdr e stop) l r e
      { e with vmeEnd := stop }
      { e with
        entryId := m.nextEntry
        vmeStart := stop
        offset :=
          (e.offset + (stop - e.vmeStart)) % offsetModulus }
      stop :=
  ⟨hSplit, clipEndHdr_entries (h.idsOf hSplit) hSplit,
    ⟨hIn, rfl, rfl⟩, Or.inr ⟨rfl, rfl⟩,
    ⟨rfl, rfl, rfl, rfl, rfl, rfl, rfl⟩⟩

/- What clipping an entry does to the map around it. -/
structure Clipped
    (others : MapObject → Nat)
    (s s' : MapState) : Prop where
  inv : MapInv s'.map
  refs : RefInv others s → RefInv others s'
  view : ∀ a, s'.map.view a = s.map.view a
  sizes :
    s'.map.minOffset = s.map.minOffset ∧
      s'.map.maxOffset = s.map.maxOffset

theorem Clipped.of_cut
    {s : MapState}
    {m' : VmMap}
    {e front back : VmMapEntry}
    {at_ : Nat}
    (others : MapObject → Nat)
    (h : MapInv s.map)
    (hCut : CutMap s.map m' l r e front back at_)
    (hAt : Aligned at_) :
    Clipped others s
        { map := m'.updateFirstFree m'.firstFree
          refCount := referenceObject s.refCount e.object } ∧
      (m'.updateFirstFree m'.firstFree).entries =
        l ++ front :: back :: r := by
  have hCore := hCut.core h.toMapCore hAt
  rcases hCut.fields with ⟨hMin, hMax, _, _, _, hFree, _⟩
  have hReached : Reached m' m'.firstFree := by
    rw [hFree]
    exact hCut.reached h.reached
  have hInv := hCore.updateFirstFree hReached
  have hIs := hCore.toMapOrder.updateFirstFree_eq hReached
  have hEntries :
      (m'.updateFirstFree m'.firstFree).entries =
        m'.entries := by
    rw [hIs]
  refine ⟨⟨hInv, ?_, ?_, ?_⟩, ?_⟩
  · intro hRefs o ho
    dsimp only
    rw [referenceObject_apply s.refCount e.object o ho,
      hRefs o ho, hEntries, hCut.refs o]
    omega
  · intro a
    have hView := hCut.view a
    unfold VmMap.view at hView ⊢
    rw [hEntries, hView]
  · rw [hIs]
    exact ⟨hMin, hMax⟩
  · rw [hEntries, hCut.split']

/- Updating the first hole of a map does nothing. -/
theorem MapInv.updateFirstFree_self
    (h : MapInv m) :
    m.updateFirstFree m.firstFree = m := by
  rw [h.toMapOrder.updateFirstFree_eq h.reached, ← h.firstFree]

/-
  Clip an entry to start at an address in it: the part from
  the address on keeps the number of the entry.
-/
theorem MapInv.clipStart
    {s : MapState}
    {l r : List VmMapEntry}
    {e : VmMapEntry}
    {start : Nat}
    (others : MapObject → Nat)
    (h : MapInv s.map)
    (hSplit : s.map.entries = l ++ e :: r)
    (hLo : e.vmeStart ≤ start)
    (hHi : start < e.vmeEnd)
    (hAt : Aligned start) :
    ∃ s' l' back, s.clipStart e.entryId start = some s' ∧
      Clipped others s s' ∧
      s'.map.entries = l' ++ back :: r ∧
      back.entryId = e.entryId ∧ back.vmeStart = start ∧
      back.vmeEnd = e.vmeEnd := by
  have hIds := h.idsOf hSplit
  unfold MapState.clipStart
  rw [find_split hIds hSplit]
  dsimp only
  by_cases hLt : e.vmeStart < start
  · have hCut := cutMap_clipStartHdr h.toMapCore hSplit
      ⟨hLt, hHi⟩
    rcases Clipped.of_cut others h hCut hAt with
      ⟨hClip, hEntries⟩
    rw [if_pos hLt]
    exact ⟨_, _, _, rfl, hClip,
      hEntries.trans (append_cons _ _ _), rfl, rfl,
      rfl⟩
  · rw [if_neg hLt, h.updateFirstFree_self]
    exact ⟨s, l, e, rfl,
      ⟨h, fun hRefs => hRefs, fun _ => rfl, rfl, rfl⟩,
      hSplit, rfl, by omega, rfl⟩

/-
  Clip an entry to end at an address: the part up to the
  address keeps the number, and another part may follow.
-/
theorem MapInv.clipEnd
    {s : MapState}
    {l r : List VmMapEntry}
    {e : VmMapEntry}
    {stop : Nat}
    (others : MapObject → Nat)
    (h : MapInv s.map)
    (hSplit : s.map.entries = l ++ e :: r)
    (hLo : e.vmeStart < stop)
    (hAt : Aligned stop) :
    ∃ s' front r', s.clipEnd e.entryId stop = some s' ∧
      Clipped others s s' ∧
      s'.map.entries = l ++ front :: r' ∧
      front.entryId = e.entryId ∧
      front.vmeStart = e.vmeStart ∧
      (e.vmeEnd ≤ stop ∧ front.vmeEnd = e.vmeEnd ∧ r' = r ∨
        stop < e.vmeEnd ∧ front.vmeEnd = stop ∧
          ∃ back, r' = back :: r ∧
            back.vmeStart = stop) := by
  have hIds := h.idsOf hSplit
  unfold MapState.clipEnd
  rw [find_split hIds hSplit]
  dsimp only
  by_cases hLt : stop < e.vmeEnd
  · have hCut := cutMap_clipEndHdr h.toMapCore hSplit
      ⟨hLo, hLt⟩
    rcases Clipped.of_cut others h hCut hAt with
      ⟨hClip, hEntries⟩
    rw [if_pos hLt]
    exact ⟨_, _, _, rfl, hClip, hEntries, rfl, rfl,
      Or.inr ⟨hLt, rfl, _, rfl, rfl⟩⟩
  · rw [if_neg hLt, h.updateFirstFree_self]
    exact ⟨s, e, r, rfl,
      ⟨h, fun hRefs => hRefs, fun _ => rfl, rfl, rfl⟩,
      hSplit, rfl, rfl, Or.inl ⟨by omega, rfl, rfl⟩⟩

end Vm

end OsfMach
