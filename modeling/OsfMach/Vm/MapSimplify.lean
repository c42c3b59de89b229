import OsfMach.Vm.MapRange

/-
  Unlinking entries, and merging neighbours that agree.

  Main declarations:
    * `SharedSeam`, `Merged`
    * `MapInv.entryUnlink_eq`
    * `mergeEntries_spec`
    * `vmMapSimplify_keeps`
    * `mapRange_pointwise`
-/

------
-- Unlinking an Entry
------

namespace OsfMach

namespace Vm

open List
open Lib

variable {l r : List VmMapEntry} {e : VmMapEntry} {m : VmMap}
variable {low high : VmMapEntry} {s : MapState}

/- Leave an entry out, and find the lowest hole again. -/
def VmMap.without
    (m : VmMap)
    (l r : List VmMapEntry) : VmMap :=
  { m with
    entries := l ++ r
    nentries := m.nentries - 1
    firstFree :=
      (entryBeforeHole m.minOffset none (l ++ r)).map
        VmMapEntry.entryId }

theorem Tiles.drop
    {a b : Nat}
    (h : EntryTiles a b (l ++ e :: r)) :
    EntryTiles a b (l ++ r) := by
  rcases tiles_append.mp h with ⟨c, hLeft, hRight⟩
  rcases hRight with ⟨hLo, hLt, hRest⟩
  exact tiles_append.mpr
    ⟨c, hLeft, Tiles.mono hRest (by omega) (Nat.le_refl b)⟩

theorem UniqueIds.drop
    (h : UniqueIds (l ++ e :: r)) :
    UniqueIds (l ++ r) := by
  unfold UniqueIds at h ⊢
  rw [map_append, map_cons] at h
  rw [map_append]
  exact (nodup_middle.mp h).of_cons

theorem MapOrder.unlink
    (h : MapOrder m)
    (hSplit : m.entries = l ++ e :: r) :
    MapOrder (m.entryUnlinkHdr e.entryId) := by
  have hIds := h.idsOf hSplit
  have hTiles := h.tilesOf hSplit
  have hEntries := unlink_split hIds hSplit
  refine ⟨h.minAligned, h.maxAligned, ?_, ?_, ?_⟩
  · rw [hEntries]
    exact Tiles.drop hTiles
  · intro x hx
    rw [hEntries] at hx
    apply h.aligned x
    rw [hSplit]
    rcases mem_append.mp hx with hl | hr
    · exact mem_append_left _ hl
    · exact mem_append_right _
        (mem_cons_of_mem _ hr)
  · rw [hEntries]
    exact hIds.drop

/- The addresses of the last entry of a part, or the header's. -/
theorem bounds_lastId
    {p q : List VmMapEntry}
    (h : MapOrder m)
    (hEq : m.entries = p ++ q) :
    ∃ start stop,
      m.bounds (lastId p) = some (start, stop) ∧
        (p = [] ∧ start = m.minOffset ∨
          ∃ k x, p = k ++ [x] ∧ start = x.vmeStart) := by
  rcases eq_nil_or_concat p with hNil | ⟨k, x, hk⟩
  · subst hNil
    exact ⟨m.minOffset, m.maxOffset, rfl, Or.inl ⟨rfl, rfl⟩⟩
  · rw [concat_eq_append] at hk
    subst hk
    rw [← append_cons] at hEq
    have hIds := h.ids
    rw [hEq] at hIds
    have hLast : lastId (k ++ [x]) = some x.entryId := by
      simp [lastId]
    refine ⟨x.vmeStart, x.vmeEnd, ?_, Or.inr ⟨k, x, rfl, rfl⟩⟩
    rw [hLast]
    unfold VmMap.bounds
    dsimp only
    rw [find_split hIds hEq]
    rfl

/-
  Where the search for the lowest hole starts again. If the
  entry was behind the hole, the pointer stays; if not, the
  entry before it is reached without the entry as well.
-/
theorem MapInv.unlink_reached
    (h : MapInv m)
    (hSplit : m.entries = l ++ e :: r) :
    ∃ start stop, m.bounds m.firstFree = some (start, stop) ∧
      Reached (m.entryUnlinkHdr e.entryId)
        (if e.vmeStart ≤ start then
          m.vmePrev (some e.entryId)
        else m.firstFree) := by
  have hIds := h.idsOf hSplit
  have hTiles := h.tilesOf hSplit
  have hEntries := unlink_split hIds hSplit
  rcases tiles_append.mp hTiles with ⟨d, hLeft, hRight⟩
  rcases h.reached with ⟨p, q, c, hEq, hCont, hFree⟩
  rw [vmePrev_split hIds hSplit]
  have hUnlinked :
      ∀ k t b, l ++ r = k ++ t →
        EntryContiguous m.minOffset b k →
        Reached (m.entryUnlinkHdr e.entryId) (lastId k) := by
    intro k t b hk hContK
    exact ⟨k, t, b, by rw [hEntries, hk], hContK, rfl⟩
  rcases bounds_lastId h.toMapOrder hEq with
    ⟨start, stop, hBounds, hStart⟩
  rw [hFree]
  refine ⟨start, stop, hBounds, ?_⟩
  have hCases := hEq
  rw [hSplit] at hCases
  rcases append_eq_append_iff.mp hCases with
    ⟨p', hp, hq⟩ | ⟨q', hl, hq⟩
  · rw [hp] at hCont
    rcases contiguous_append.mp hCont with ⟨b, hContL, _⟩
    cases p' with
    | nil =>
        rw [append_nil] at hp
        rw [hp, ite_self]
        exact hUnlinked l r b rfl hContL
    | cons y p' =>
        -- the entry is at or before the hole
        rw [cons_append, List.cons.injEq] at hq
        rcases hq with ⟨hy, hr⟩
        subst hy
        have hLe : e.vmeStart ≤ start := by
          rcases hStart with ⟨hNil, _⟩ | ⟨k, x, hk, hx⟩
          · rw [hp] at hNil
            simp at hNil
          · rw [hx]
            have hMem : x ∈ e :: p' := by
              have hLast := congrArg List.getLast?
                (hp.symm.trans hk)
              rw [List.getLast?_concat,
                List.getLast?_append_cons] at hLast
              exact mem_of_getLast? hLast
            rcases mem_cons.mp hMem with rfl | hTail
            · exact Nat.le_refl _
            · have hIn : x ∈ r := by
                rw [hr]
                exact mem_append_left _ hTail
              have hAll := Tiles.of_mem hRight.2.2 hIn
              have hLt := hRight.2.1
              omega
        rw [if_pos hLe]
        exact hUnlinked l r b rfl hContL
  · have hRest : l ++ r = p ++ (q' ++ r) := by
      rw [hl, append_assoc]
    rcases hStart with ⟨hNil, hx⟩ | ⟨k, x, hk, hx⟩
    · -- the header is before the hole
      subst hNil
      split_ifs with hLe
      · cases l with
        | nil =>
            exact hUnlinked [] r m.minOffset rfl rfl
        | cons y l =>
            have hLo := hLeft.1
            have hLt := hLeft.2.1
            have hMid := Tiles.le hLeft.2.2
            have hAbove := hRight.1
            omega
      · exact hUnlinked [] (l ++ r) c rfl hCont
    · have hMem : x ∈ l := by
        rw [hl, hk]
        simp
      have hAll := Tiles.of_mem hLeft hMem
      have hAbove := hRight.1
      rw [if_neg (by omega)]
      exact hUnlinked p (q' ++ r) c hRest hCont

theorem MapInv.entryUnlink_eq
    (h : MapInv m)
    (hSplit : m.entries = l ++ e :: r) :
    m.entryUnlink e = m.without l r := by
  have hIds := h.idsOf hSplit
  rcases h.unlink_reached hSplit with
    ⟨start, stop, hBounds, hReached⟩
  have hEntries := unlink_split hIds hSplit
  unfold VmMap.entryUnlink
  rw [hBounds]
  dsimp only
  rw [(h.toMapOrder.unlink hSplit).updateFirstFree_eq
    hReached, hEntries]
  rfl

------
-- Merging Neighbours
------

/- What both tests for a merge ask of two neighbours. -/
structure Agree (low high : VmMapEntry) : Prop where
  adjacent : low.vmeEnd = high.vmeStart
  inheritance : low.inheritance = high.inheritance
  protection : low.protection = high.protection
  maxProtection : low.maxProtection = high.maxProtection
  behavior : low.behavior = high.behavior
  wiredCount : low.wiredCount = high.wiredCount
  userWiredCount : low.userWiredCount = high.userWiredCount
  needsCopy : low.needsCopy = high.needsCopy
  object : low.object = high.object
  offset :
    (low.offset + (low.vmeEnd - low.vmeStart)) %
      offsetModulus = high.offset

theorem agree_of_mergeable
    (h : mergeable low high = true) :
    Agree low high := by
  unfold mergeable at h
  simp only [Bool.and_eq_true, beq_iff_eq] at h
  rcases h with ⟨⟨⟨⟨⟨⟨⟨⟨⟨⟨⟨hAdjacent, hInherit⟩, hProt⟩,
    hMax⟩, hBehavior⟩, hWired⟩, hUser⟩, _⟩, _⟩, hNeeds⟩,
    hObject⟩, hOffset⟩
  exact ⟨hAdjacent, hInherit, hProt, hMax, hBehavior, hWired,
    hUser, hNeeds, hObject, hOffset⟩

/- An entry that also takes the addresses of the next. -/
def VmMapEntry.extend
    (low high : VmMapEntry) : VmMapEntry :=
  { low with vmeEnd := high.vmeEnd }

theorem Agree.view
    (h : Agree low high)
    (hShared : low.isShared = high.isShared)
    (hLow : low.vmeStart < low.vmeEnd)
    (hHigh : high.vmeStart < high.vmeEnd)
    (r : List VmMapEntry)
    (a : Nat) :
    entriesView (low.extend high :: r) a =
      entriesView (low :: high :: r) a := by
  have hAdjacent := h.adjacent
  rw [entriesView_cons, entriesView_cons, entriesView_cons]
  unfold VmMapEntry.extend
  dsimp only
  by_cases hInLow : low.vmeStart ≤ a ∧ a < low.vmeEnd
  · rw [if_pos ⟨hInLow.1, by omega⟩, if_pos hInLow]
    rfl
  · rw [if_neg hInLow]
    by_cases hInHigh : high.vmeStart ≤ a ∧ a < high.vmeEnd
    · rw [if_pos ⟨by omega, hInHigh.2⟩, if_pos hInHigh]
      simp only [VmMapEntry.attributes, VmMapEntry.offsetAt,
        ← h.offset, h.inheritance, h.protection,
        h.maxProtection, h.behavior, h.wiredCount,
        h.userWiredCount, h.needsCopy, h.object, hShared,
        Nat.mod_add_mod]
      rw [show low.offset + (low.vmeEnd - low.vmeStart) +
        (a - high.vmeStart) =
          low.offset + (a - low.vmeStart) by omega]
    · rw [if_neg hInHigh, if_neg (by omega)]

/- The map after a merge, before the search for the hole. -/
def VmMap.merged
    (m : VmMap)
    (l r : List VmMapEntry)
    (low high : VmMapEntry) : VmMap :=
  { m with
    entries := l ++ low.extend high :: r
    nentries := m.nentries - 1
    firstFree :=
      (entryBeforeHole m.minOffset none
        (l ++ low :: r)).map VmMapEntry.entryId }

/-
  An entry that grows up to the next one: what the walk for
  the lowest hole came to, it comes to again. If it came
  past the entry, there was no room to grow.
-/
theorem reached_extend
    {m : VmMap}
    {l r p q : List VmMapEntry}
    {e e' : VmMapEntry}
    {a c : Nat}
    (hEq : l ++ e :: r = p ++ q)
    (hCont : EntryContiguous a c p)
    (hMin : m.minOffset = a)
    (hEntries : m.entries = l ++ e' :: r)
    (hId : e'.entryId = e.entryId)
    (hStart : e'.vmeStart = e.vmeStart)
    (hLe : e.vmeEnd ≤ e'.vmeEnd)
    (hRight : ∀ x ∈ r, e'.vmeEnd ≤ x.vmeStart) :
    Reached m (lastId p) := by
  unfold Reached
  rw [hMin, hEntries]
  rcases append_eq_append_iff.mp hEq with
    ⟨p', hp, hq⟩ | ⟨q', hl, hq⟩
  · rw [hp] at hCont
    rcases contiguous_append.mp hCont with
      ⟨b, hContL, hContR⟩
    cases p' with
    | nil =>
        rw [append_nil] at hp
        exact ⟨l, e' :: r, b, rfl, hContL, by rw [hp]⟩
    | cons y p' =>
        rw [cons_append, List.cons.injEq] at hq
        rcases hq with ⟨hy, hr⟩
        subst hy
        rcases hContR with ⟨hFirst, hRest⟩
        cases p' with
        | nil =>
            refine ⟨l ++ [e'], r, e'.vmeEnd,
              append_cons _ _ _,
              contiguous_append.mpr ⟨b, hContL, ?_, rfl⟩, ?_⟩
            · rw [hStart]
              exact hFirst
            · rw [hp]
              simp [lastId, hId]
        | cons z p' =>
            have hTouch : z.vmeStart = e.vmeEnd := hRest.1
            have hAfter := hRight z (by
              rw [hr]
              simp)
            have hEnd : e'.vmeEnd = e.vmeEnd := by
              omega
            refine ⟨l ++ e' :: z :: p', q, c, ?_,
              contiguous_append.mpr ⟨b, hContL, ?_, ?_⟩, ?_⟩
            · rw [hr]
              simp
            · rw [hStart]
              exact hFirst
            · rw [hEnd]
              exact hRest
            · rw [hp]
              simp [lastId, List.getLast?_append,
                List.getLast?_cons_cons]
  · refine ⟨p, q' ++ e' :: r, c, ?_, hCont, rfl⟩
    rw [hl, append_assoc]

section Merge

variable {m : VmMap} {l r : List VmMapEntry}
variable {low high : VmMapEntry}

theorem MapCore.merged
    (h : MapCore m)
    (hSplit : m.entries = l ++ low :: high :: r)
    (hAgree : Agree low high)
    (hHint : m.hint ≠ some high.entryId) :
    MapCore (m.merged l r low high) := by
  have hIds := h.idsOf hSplit
  have hTiles := h.tilesOf hSplit
  rcases tiles_append.mp hTiles with ⟨c, hLeft, hRight⟩
  rcases hRight with ⟨hLo, hLow, hNext, hHigh, hRest⟩
  have hAdjacent := hAgree.adjacent
  have hOld :
      ∀ x ∈ (m.merged l r low high).entries,
        x = low.extend high ∨ x ∈ m.entries := by
    intro x hx
    change x ∈ l ++ low.extend high :: r at hx
    rw [hSplit]
    rcases mem_append.mp hx with hl | hr
    · exact Or.inr (mem_append_left _ hl)
    · rcases mem_cons.mp hr with rfl | hTail
      · exact Or.inl rfl
      · exact Or.inr (by simp [hTail])
  have hMemLow : low ∈ m.entries := by
    rw [hSplit]
    simp
  have hMemHigh : high ∈ m.entries := by
    rw [hSplit]
    simp
  refine ⟨⟨h.minAligned, h.maxAligned, ?_, ?_, ?_⟩, ?_, ?_,
    ?_, ?_⟩
  · refine tiles_append.mpr ⟨c, hLeft, hLo, ?_, hRest⟩
    change low.vmeStart < high.vmeEnd
    omega
  · intro x hx
    rcases hOld x hx with rfl | hMem
    · exact ⟨(h.aligned low hMemLow).1,
        (h.aligned high hMemHigh).2⟩
    · exact h.aligned x hMem
  · change UniqueIds (l ++ low.extend high :: r)
    rw [append_cons] at hIds
    have hDrop := hIds.drop
    unfold UniqueIds at hDrop ⊢
    simpa [VmMapEntry.extend] using hDrop
  · intro x hx
    rcases hOld x hx with rfl | hMem
    · exact h.fresh low hMemLow
    · exact h.fresh x hMem
  · change m.nentries - 1 =
      (l ++ low.extend high :: r).length
    rw [h.nentries, hSplit]
    simp
  · change m.size = entryLengths (l ++ low.extend high :: r)
    rw [h.size, hSplit, entryLengths_append,
      entryLengths_append, entryLengths_cons,
      entryLengths_cons, entryLengths_cons]
    unfold VmMapEntry.extend
    dsimp only
    omega
  · intro i hi
    rcases h.hint i hi with ⟨x, hx, hId⟩
    change ∃ x ∈ l ++ low.extend high :: r, x.entryId = i
    rw [hSplit] at hx
    rcases mem_append.mp hx with hl | hr
    · exact ⟨x, mem_append_left _ hl, hId⟩
    · rcases mem_cons.mp hr with rfl | hr
      · exact ⟨x.extend high, by simp, hId⟩
      · rcases mem_cons.mp hr with rfl | hTail
        · rw [hId] at hHint
          exact absurd hi hHint
        · exact ⟨x, by simp [hTail], hId⟩

/-
  Without the higher entry there is a hole after the lower
  one, so that the pointer to the entry before the lowest
  hole is reached again when the hole is filled.
-/
theorem MapInv.merged_reached
    (h : MapInv m)
    (hSplit : m.entries = l ++ low :: high :: r) :
    Reached (m.merged l r low high)
      (m.merged l r low high).firstFree := by
  have hTiles := h.tilesOf hSplit
  rcases tiles_append.mp hTiles with ⟨d, _, hRight⟩
  rcases hRight with ⟨_, _, hNext, hHigh, hRest⟩
  rcases exists_contiguous VmMapEntry.vmeStart
    VmMapEntry.vmeEnd m.minOffset none (l ++ low :: r) with
    ⟨p, q, c, hEq, hCont, hHole⟩
  have hFree :
      (m.merged l r low high).firstFree = lastId p := by
    change (entryBeforeHole m.minOffset none
      (l ++ low :: r)).map VmMapEntry.entryId = _
    unfold entryBeforeHole lastId
    rw [hHole, Option.or_none]
  rw [hFree]
  apply @reached_extend (m.merged l r low high) l r p q low
    (low.extend high) m.minOffset c hEq hCont rfl rfl rfl rfl
  · change low.vmeEnd ≤ high.vmeEnd
    omega
  · intro x hx
    exact (Tiles.of_mem hRest hx).1

end Merge

/- What a merge of neighbours does. -/
structure Merged
    (others : MapObject → Nat)
    (s s' : MapState) : Prop where
  inv : MapInv s'.map
  refs : RefInv others s → RefInv others s'

theorem mergeEntries_spec
    (others : MapObject → Nat)
    (h : MapInv s.map)
    (hSplit : s.map.entries = l ++ low :: high :: r)
    (hAgree : Agree low high)
    (hHint : s.map.hint ≠ some high.entryId) :
    Merged others s (mergeEntries s low high) ∧
      (mergeEntries s low high).map.entries =
        l ++ low.extend high :: r := by
  have hIds := h.idsOf hSplit
  have hMap :
      (s.map.entryUnlink high).modify low.entryId
          (fun x => { x with vmeEnd := high.vmeEnd }) =
        s.map.merged l r low high := by
    have hSplit' := hSplit
    rw [append_cons] at hSplit' hIds
    rw [h.entryUnlink_eq hSplit']
    have hDrop := hIds.drop
    rw [← append_cons] at hDrop
    unfold VmMap.without VmMap.modify VmMap.merged
    rw [← append_cons, map_split hDrop]
    rfl
  have hCore := h.toMapCore.merged hSplit hAgree hHint
  have hReached := h.merged_reached hSplit
  have hEntries :
      (mergeEntries s low high).map.entries =
        l ++ low.extend high :: r := by
    unfold mergeEntries
    dsimp only
    rw [hMap, hCore.toMapOrder.updateFirstFree_eq hReached]
    rfl
  refine ⟨⟨?_, ?_⟩, hEntries⟩
  · unfold mergeEntries
    dsimp only
    rw [hMap]
    exact hCore.updateFirstFree hReached
  · intro hRefs o ho
    have hBefore := hRefs o ho
    rw [hSplit, entryRefs_append, entryRefs_cons,
      entryRefs_cons] at hBefore
    rw [hEntries, entryRefs_append, entryRefs_cons]
    change deallocateObject s.refCount high.object o = _
    rw [deallocateObject_apply _ _ _ ho, hBefore]
    change _ = entryRefs l o +
      ((if low.object = o then 1 else 0) + _) + _
    omega

/- The outcome of a step that may merge neighbours. -/
structure Kept
    (others : MapObject → Nat)
    (s s' : MapState) : Prop extends Merged others s s' where
  view : ∀ a, s'.map.view a = s.map.view a

/- A lookup is such a step. -/
theorem Looked.kept
    {m' : VmMap}
    {address : Nat}
    {found : Bool}
    {i : Option Nat}
    (others : MapObject → Nat)
    (hLook : Looked s.map address found i m')
    (h : MapInv s.map) :
    Kept others s (s.setMap m') := by
  rcases hLook.inv h with ⟨hInv, hEntries⟩
  refine ⟨⟨hInv, ?_⟩, ?_⟩
  · intro hRefs o ho
    change s.refCount o = entryRefs m'.entries o + others o
    rw [hEntries]
    exact hRefs o ho
  · intro a
    change entriesView m'.entries a = _
    rw [hEntries]
    rfl

------
-- Simplifying
------

/- A lookup that finds an entry leaves the hint there. -/
theorem lookupEntry_hint
    {m : VmMap}
    {address : Nat}
    (hFound : (m.lookupEntry address).1 = true) :
    (m.lookupEntry address).2.2.hint = none ∨
      (m.lookupEntry address).2.2.hint =
        (m.lookupEntry address).2.1 := by
  unfold VmMap.lookupEntry at hFound ⊢
  cases hFind : m.lookupFrom.bind m.find with
  | none =>
      rw [hFind] at hFound
      cases hFound
  | some e =>
      dsimp only
      split_ifs
      · unfold VmMap.lookupFrom at hFind
        cases hHint : m.hint with
        | none =>
            exact Or.inl rfl
        | some i =>
            rw [hHint] at hFind
            rw [(exists_split hFind).1]
            exact Or.inr rfl
      · exact Or.inr rfl
      · exact Or.inr rfl

theorem find_lastId
    (hIds : UniqueIds (l ++ r))
    (h : m.entries = l ++ r) :
    (lastId l).bind m.find = l.getLast? := by
  rcases eq_nil_or_concat l with hNil | ⟨k, x, hk⟩
  · subst hNil
    rfl
  · rw [concat_eq_append] at hk
    subst hk
    rw [← append_cons] at h hIds
    have hLast : lastId (k ++ [x]) = some x.entryId := by
      simp [lastId]
    rw [hLast, Option.bind_some, find_split hIds h]
    simp

theorem find_headId
    (hIds : UniqueIds (l ++ r))
    (h : m.entries = l ++ r) :
    (r.head?.map VmMapEntry.entryId).bind m.find =
      r.head? := by
  cases r with
  | nil =>
      rfl
  | cons x r =>
      exact find_split hIds h

/-
  A shared entry at the address, with one after it that is
  not and agrees with it in all else: the second test of
  `vm_map_simplify` does not see that the first is shared.
-/
def SharedSeam (m : VmMap) (start : Nat) : Prop :=
  ∃ l this next r, m.entries = l ++ this :: next :: r ∧
    this.vmeStart ≤ start ∧ start < this.vmeEnd ∧
    this.isShared = true ∧ next.isShared = false ∧
    mergeable this next = true

/- Two entries around an address are the same. -/
theorem MapOrder.split_unique
    {l l' r r' : List VmMapEntry}
    {e e' : VmMapEntry}
    {a : Nat}
    (h : MapOrder m)
    (hSplit : m.entries = l ++ e :: r)
    (hSplit' : m.entries = l' ++ e' :: r')
    (hIn : e.vmeStart ≤ a ∧ a < e.vmeEnd)
    (hIn' : e'.vmeStart ≤ a ∧ a < e'.vmeEnd) :
    e = e' := by
  have hTiles := h.tiles
  have hTiles' := h.tiles
  rw [hSplit] at hTiles
  rw [hSplit'] at hTiles'
  have hIs := Tiles.covering_eq_some hTiles hIn.1 hIn.2
  have hIs' := Tiles.covering_eq_some hTiles' hIn'.1 hIn'.2
  rw [← hSplit] at hIs
  rw [← hSplit', hIs] at hIs'
  exact Option.some.inj hIs'

section

variable (others : MapObject → Nat) (h : MapInv s.map)
include h

theorem simplifyLower_keeps
    (start : Nat) :
    Kept others s (simplifyLower s start) ∧
      (SharedSeam (simplifyLower s start).map start →
        SharedSeam s.map start) := by
  have hLook := h.toMapCore.lookupEntry start
  unfold simplifyLower
  generalize s.map.lookupEntry start = result at hLook ⊢
  rcases result with ⟨found, i, m'⟩
  have hKept := hLook.kept others h
  rcases hLook.inv h with ⟨hInv, hSame⟩
  have hSeam :
      SharedSeam m' start → SharedSeam s.map start := by
    unfold SharedSeam
    rw [hSame]
    exact id
  cases found with
  | false =>
      exact ⟨hKept, hSeam⟩
  | true =>
      rcases hLook.inside rfl with
        ⟨l, this, r, hSplit, hi, hLo, hHi⟩
      subst hi
      have hEntries := hSame.trans hSplit
      have hIds := hInv.idsOf hEntries
      dsimp only
      rw [find_split hIds hEntries, vmePrev_split hIds hEntries,
        find_lastId hIds hEntries]
      rcases eq_nil_or_concat l with hNil | ⟨k, prev, hk⟩
      · subst hNil
        exact ⟨hKept, hSeam⟩
      · rw [concat_eq_append] at hk
        subst hk
        rw [List.getLast?_concat]
        dsimp only
        split_ifs with hTest
        · simp only [Bool.and_eq_true, beq_iff_eq] at hTest
          rcases hTest with
            ⟨⟨⟨⟨hPrev, _⟩, hThis⟩, _⟩, hMerge⟩
          have hAgree := agree_of_mergeable hMerge
          have hPair :
              (m'.saveHint (some prev.entryId)).entries =
                k ++ prev :: this :: r := by
            change m'.entries = _
            rw [hEntries, ← append_cons]
          have hHinted :
              MapInv (m'.saveHint (some prev.entryId)) := by
            apply hInv.saveHint
            intro j hj
            refine ⟨prev, ?_, Option.some.inj hj⟩
            rw [hEntries]
            simp
          have hNe : prev.entryId ≠ this.entryId :=
            hIds.left_ne (by simp)
          rcases mergeEntries_spec others
            (s := s.setMap
              (m'.saveHint (some prev.entryId)))
            hHinted hPair hAgree
            (fun hEq => hNe (Option.some.inj hEq)) with
            ⟨hMerged, hNew⟩
          have hTiles := hHinted.tiles
          rw [hPair] at hTiles
          rcases tiles_append.mp hTiles with
            ⟨c, hLeft, hRight⟩
          refine ⟨⟨⟨hMerged.inv, ?_⟩, ?_⟩, ?_⟩
          · intro hRefs
            exact hMerged.refs (hKept.refs hRefs)
          · intro a
            rw [← hKept.view a]
            change entriesView _ a =
              entriesView m'.entries a
            rw [hNew, hEntries, ← append_cons,
              entriesView_append, entriesView_append,
              hAgree.view (hPrev.trans hThis.symm)
                hRight.2.1 hRight.2.2.2.1]
          · -- the merged entry holds the address, unshared
            rintro ⟨l', x, y, r', hAt, hIn, hIn', hSh, _⟩
            have hIs := hMerged.inv.toMapOrder.split_unique
              hNew hAt
              (a := start) ⟨?_, hHi⟩ ⟨hIn, hIn'⟩
            · rw [← hIs] at hSh
              change prev.isShared = true at hSh
              rw [hPrev] at hSh
              cases hSh
            · change prev.vmeStart ≤ start
              have hLt := hRight.2.1
              have hAdj := hAgree.adjacent
              omega
        · exact ⟨hKept, hSeam⟩

theorem simplifyUpper_keeps
    (start : Nat) :
    Merged others s (simplifyUpper s start) ∧
      (¬ SharedSeam s.map start →
        ∀ a, (simplifyUpper s start).map.view a =
          s.map.view a) := by
  have hLook := h.toMapCore.lookupEntry start
  have hHint := @lookupEntry_hint s.map start
  unfold simplifyUpper
  generalize s.map.lookupEntry start = result
    at hLook hHint ⊢
  rcases result with ⟨found, i, m'⟩
  have hKept := hLook.kept others h
  rcases hLook.inv h with ⟨hInv, hSame⟩
  have hStay :
      Merged others s (s.setMap m') ∧
        (¬ SharedSeam s.map start →
          ∀ a, (s.setMap m').map.view a = s.map.view a) :=
    ⟨hKept.toMerged, fun _ => hKept.view⟩
  cases found with
  | false =>
      exact hStay
  | true =>
      rcases hLook.inside rfl with
        ⟨l, this, r, hSplit, hi, hLo, hHi⟩
      subst hi
      have hEntries := hSame.trans hSplit
      have hIds := hInv.idsOf hEntries
      have hTail : UniqueIds ((l ++ [this]) ++ r) := by
        rw [← append_cons]
        exact hIds
      have hAfter : m'.entries = (l ++ [this]) ++ r := by
        rw [hEntries, append_cons]
      dsimp only
      rw [find_split hIds hEntries, vmeNext_split hIds hEntries,
        find_headId hTail hAfter]
      cases r with
      | nil =>
          exact hStay
      | cons next r =>
          dsimp only [List.head?_cons]
          split_ifs with hTest
          · simp only [Bool.and_eq_true, beq_iff_eq]
              at hTest
            rcases hTest with ⟨⟨⟨⟨hNext, _⟩, _⟩, _⟩, hMerge⟩
            have hAgree := agree_of_mergeable hMerge
            have hNe : next.entryId ≠ this.entryId :=
              hIds.right_ne (by simp)
            have hNotHint :
                m'.hint ≠ some next.entryId := by
              intro hEq
              rcases hHint rfl with hNone | hThis
              · rw [hNone] at hEq
                cases hEq
              · rw [hThis] at hEq
                exact hNe (Option.some.inj hEq).symm
            rcases mergeEntries_spec others
              (s := s.setMap m') hInv hEntries hAgree
              hNotHint with ⟨hMerged, hNew⟩
            have hTiles := hInv.tilesOf hEntries
            rcases tiles_append.mp hTiles with
              ⟨c, hLeft, hRight⟩
            refine ⟨⟨hMerged.inv, ?_⟩, ?_⟩
            · intro hRefs
              exact hMerged.refs (hKept.refs hRefs)
            · intro hSeam a
              have hShared :
                  this.isShared = next.isShared := by
                rw [hNext]
                apply (Bool.not_eq_true _).mp
                intro hThis
                exact hSeam ⟨l, this, next, r, hSplit, hLo,
                  hHi, hThis, hNext, hMerge⟩
              rw [← hKept.view a]
              change entriesView _ a =
                entriesView m'.entries a
              rw [hNew, hEntries, entriesView_append,
                entriesView_append,
                hAgree.view hShared hRight.2.1
                  hRight.2.2.2.1]
          · exact hStay

theorem vmMapSimplify_keeps
    (start : Nat) :
    Merged others s (vmMapSimplify s start) ∧
      (¬ SharedSeam s.map start →
        ∀ a, (vmMapSimplify s start).map.view a =
          s.map.view a) := by
  rcases simplifyLower_keeps others h start with
    ⟨hLower, hSeam⟩
  rcases simplifyUpper_keeps others hLower.inv start with
    ⟨hUpper, hView⟩
  refine ⟨⟨hUpper.inv,
    fun hRefs => hUpper.refs (hLower.refs hRefs)⟩, ?_⟩
  intro hNot a
  exact (hView (fun hAt => hNot (hSeam hAt)) a).trans
    (hLower.view a)

end

------
-- Ranges and Pages
------

/- An entry that starts at the address or after it stays. -/
theorem MapInv.clipStart_keeps
    {start : Nat}
    (others : MapObject → Nat)
    (h : MapInv s.map)
    (hMem : e ∈ s.map.entries)
    (hHi : start < e.vmeEnd)
    (hAt : Aligned start) :
    ∃ s', s.clipStart e.entryId start = some s' ∧
      Clipped others s s' := by
  rcases append_of_mem hMem with ⟨l, r, hSplit⟩
  by_cases hLo : e.vmeStart ≤ start
  · rcases h.clipStart others hSplit hLo hHi hAt with
      ⟨s', _, _, hClip, hClipped, _⟩
    exact ⟨s', hClip, hClipped⟩
  · have hIds := h.idsOf hSplit
    refine ⟨s, ?_, h, fun hRefs => hRefs, fun _ => rfl, rfl,
      rfl⟩
    unfold MapState.clipStart
    rw [find_split hIds hSplit]
    dsimp only
    rw [if_neg (by omega), h.updateFirstFree_self]
    rfl

theorem MapInv.clipEnd_keeps
    {stop : Nat}
    (others : MapObject → Nat)
    (h : MapInv s.map)
    (hMem : e ∈ s.map.entries)
    (hLo : e.vmeStart < stop)
    (hAt : Aligned stop) :
    ∃ s', s.clipEnd e.entryId stop = some s' ∧
      Clipped others s s' := by
  rcases append_of_mem hMem with ⟨l, r, hSplit⟩
  rcases h.clipEnd others hSplit hLo hAt with
    ⟨s', _, _, hClip, hClipped, _⟩
  exact ⟨s', hClip, hClipped⟩

/-
  Operations on ranges change one attribute on each page in
  the range, or nothing when they fail. A new maximum is the
  exception, which also takes away from the protection. The
  operations on entries change no page, and all of them keep
  the counts of references.
-/
theorem mapRange_pointwise
    (others : MapObject → Nat)
    {s : MapState}
    {start stop : Nat}
    (h : MapInv s.map)
    (hStart : Aligned start)
    (hStop : Aligned stop) :
    (∀ newProt setMax, ∃ enough, ∀ fuel, enough ≤ fuel →
      ∃ kr s', vmMapProtect fuel s start stop newProt
          setMax = some (kr, s') ∧
        Acts others (protectPage newProt setMax) start stop
          kr s s') ∧
    (∀ newInheritance, ∃ enough, ∀ fuel, enough ≤ fuel →
      ∃ kr s', vmMapInherit fuel s start stop
          newInheritance = some (kr, s') ∧
        Acts others (inheritPage newInheritance) start stop
          kr s s') ∧
    (∀ newBehavior, ∃ enough, ∀ fuel, enough ≤ fuel →
      ∃ kr s', vmMapBehaviorSet fuel s start stop
          newBehavior = some (kr, s') ∧
        Acts others (behaviorPage newBehavior) start stop kr
          s s') ∧
    (∀ e ∈ s.map.entries, start < e.vmeEnd →
      ∃ s', s.clipStart e.entryId start = some s' ∧
        Clipped others s s') ∧
    (∀ e ∈ s.map.entries, e.vmeStart < stop →
      ∃ s', s.clipEnd e.entryId stop = some s' ∧
        Clipped others s s') ∧
    ∀ address,
      Merged others s (vmMapSimplify s address) ∧
        (¬ SharedSeam s.map address →
          ∀ a, (vmMapSimplify s address).map.view a =
            s.map.view a) := by
  refine ⟨?_, ?_, ?_, ?_, ?_, ?_⟩
  · intro newProt setMax
    exact vmMapProtect_acts others h hStart hStop newProt
      setMax
  · intro newInheritance
    exact vmMapInherit_acts others h hStart hStop
      newInheritance
  · intro newBehavior
    exact vmMapBehaviorSet_acts others h hStart hStop
      newBehavior
  · intro e hMem hHi
    exact h.clipStart_keeps others hMem hHi hStart
  · intro e hMem hLo
    exact h.clipEnd_keeps others hMem hLo hStop
  · intro address
    exact vmMapSimplify_keeps others h address

/- A map of four pages with one entry of two. -/
def twoPages : MapState :=
  { map :=
      { minOffset := 0
        maxOffset := 16384
        entries :=
          [{ entryId := 0, vmeStart := 4096
             vmeEnd := 12288, object := .vmObject (some 0)
             offset := 0, isShared := false
             inTransition := false, needsWakeup := false
             behavior := .default, needsCopy := false
             protection := 7, maxProtection := 7
             inheritance := 1, wiredCount := 0
             userWiredCount := 0 }]
        nentries := 1
        size := 8192
        hint := none
        firstFree := none
        nextEntry := 1 }
    refCount := fun _ => 1 }

theorem twoPages_inv :
    MapInv twoPages.map := by
  refine ⟨⟨⟨rfl, rfl, ?_, ?_, ?_⟩, ?_, rfl, rfl, ?_⟩, rfl⟩
  · have hLo : 0 ≤ 4096 := by decide
    have hLt : 4096 < 12288 := by decide
    have hHi : 12288 ≤ 16384 := by decide
    exact ⟨hLo, hLt, hHi⟩
  · intro e he
    rw [mem_singleton.mp he]
    exact ⟨rfl, rfl⟩
  · exact nodup_singleton _
  · intro e he
    rw [mem_singleton.mp he]
    exact Nat.one_pos
  · intro i hi
    cases hi

theorem mapRange_pointwise_twoPages :
    MapInv twoPages.map ∧ Aligned 4096 ∧ Aligned 8192 ∧
      (∃ enough, ∀ fuel, enough ≤ fuel →
        ∃ kr s', vmMapInherit fuel twoPages 4096 8192 2 =
            some (kr, s') ∧
          Acts (fun _ => 0) (inheritPage 2) 4096 8192 kr
            twoPages s') ∧
      ∀ a, (vmMapSimplify twoPages 4096).map.view a =
        twoPages.map.view a := by
  have hAll := mapRange_pointwise (fun _ => 0)
    twoPages_inv (rfl : Aligned 4096) (rfl : Aligned 8192)
  refine ⟨twoPages_inv, rfl, rfl, hAll.2.1 2, ?_⟩
  apply (hAll.2.2.2.2.2 4096).2
  rintro ⟨l, this, next, r, hSplit, _⟩
  have hLength := congrArg List.length hSplit
  simp only [twoPages, length_append,
    length_cons, length_nil] at hLength
  omega

/- The two pages as an entry each, the first one shared. -/
def seamPages : MapState :=
  { twoPages with
    map := { twoPages.map with
      entries := twoPages.map.entries.flatMap fun e =>
        [{ e with vmeEnd := 8192, isShared := true },
          { e with
            entryId := 1, vmeStart := 8192, offset := 4096 }]
      nentries := 2
      nextEntry := 2 } }

/- The page that is not shared is taken for a shared one. -/
theorem vmMapSimplify_sharedSeam :
    SharedSeam seamPages.map 4096 ∧
      (seamPages.map.view 8192).map PageAttributes.isShared =
        some false ∧
      ((vmMapSimplify seamPages 4096).map.view 8192).map
        PageAttributes.isShared = some true :=
  ⟨⟨[], _, _, [], rfl, by decide⟩, by decide, by decide⟩

/- A new maximum takes the write permission away as well. -/
theorem vmMapProtect_setMax_protection :
    ∃ s', vmMapProtect 3 twoPages 4096 8192 1 true =
        some (.success, s') ∧
      ¬ ∀ a, s'.map.view a =
        if 4096 ≤ a ∧ a < 8192 then
          (twoPages.map.view a).map fun p =>
            { p with maxProtection := 1 }
        else twoPages.map.view a := by
  refine ⟨_, rfl, ?_⟩
  intro hOnly
  have hAt := hOnly 4096
  revert hAt
  decide

end Vm

end OsfMach
