import OsfMach.Vm.MapInv

/-
  Operations on ranges of addresses act on each page alone.

  Main declarations:
    * `Changes`, `Ranged`, `Acts`
    * `applyRange_spec`
    * `vmMapProtect_acts`, `vmMapInherit_acts`,
      `vmMapBehaviorSet_acts`
-/

------
-- Changing the Fields of an Entry
------

namespace OsfMach

namespace Vm

open Lib

variable {f : VmMapEntry → VmMapEntry}
variable {g : PageAttributes → PageAttributes}
variable {e : VmMapEntry} {m : VmMap} {l r : List VmMapEntry}
variable {a : Nat} {i : Option Nat} {others : MapObject → Nat}
variable {s : MapState} {stop start : Nat} {s' : MapState}
variable {m' : VmMap} {address : Nat} {found : Bool}

/- A change of fields that leaves an entry in its place. -/
structure KeepsRange
    (f : VmMapEntry → VmMapEntry) : Prop where
  entryId : ∀ e, (f e).entryId = e.entryId
  vmeStart : ∀ e, (f e).vmeStart = e.vmeStart
  vmeEnd : ∀ e, (f e).vmeEnd = e.vmeEnd

/- A change of fields that is one of attributes. -/
structure Changes
    (f : VmMapEntry → VmMapEntry)
    (g : PageAttributes → PageAttributes) : Prop where
  entryId : ∀ e, (f e).entryId = e.entryId
  vmeStart : ∀ e, (f e).vmeStart = e.vmeStart
  vmeEnd : ∀ e, (f e).vmeEnd = e.vmeEnd
  object : ∀ e, (f e).object = e.object
  attributes :
    ∀ e a, (f e).attributes a = g (e.attributes a)

theorem Changes.keepsRange
    (h : Changes f g) :
    KeepsRange f :=
  ⟨h.entryId, h.vmeStart, h.vmeEnd⟩

/- Entries with the same numbers have the same holes. -/
theorem beforeHole_replace
    {e e' : VmMapEntry}
    (hId : e'.entryId = e.entryId)
    (hStart : e'.vmeStart = e.vmeStart)
    (hEnd : e'.vmeEnd = e.vmeEnd)
    (a : Nat)
    (cur : Option VmMapEntry)
    (l r : List VmMapEntry) :
    (entryBeforeHole a cur (l ++ e' :: r)).map
        VmMapEntry.entryId =
      (entryBeforeHole a cur (l ++ e :: r)).map
        VmMapEntry.entryId := by
  unfold entryBeforeHole
  induction l generalizing a cur with
  | nil =>
      simp only [List.nil_append, beforeHole]
      rw [hStart, hEnd]
      split_ifs
      · cases r with
        | nil =>
            simp [beforeHole, hId]
        | cons x r =>
            simp only [beforeHole]
            split_ifs
            · rfl
            · simp [hId]
      · rfl
  | cons x l ih =>
      simp only [List.cons_append, beforeHole]
      split_ifs
      · exact ih _ _
      · rfl

theorem MapInv.modify
    (hf : KeepsRange f)
    (h : MapInv m)
    (hSplit : m.entries = l ++ e :: r) :
    MapInv (m.modify e.entryId f) := by
  have hIds := h.idsOf hSplit
  have hEntries := modify_split hIds hSplit f
  have hMem :
      ∀ x ∈ (m.modify e.entryId f).entries,
        ∃ y ∈ m.entries, x.entryId = y.entryId ∧
          x.vmeStart = y.vmeStart ∧
          x.vmeEnd = y.vmeEnd := by
    intro x hx
    rw [hEntries] at hx
    rw [hSplit]
    rcases List.mem_append.mp hx with hl | hr
    · exact ⟨x, List.mem_append_left _ hl, rfl, rfl, rfl⟩
    · rcases List.mem_cons.mp hr with rfl | hTail
      · exact ⟨e, by simp, hf.entryId e, hf.vmeStart e,
          hf.vmeEnd e⟩
      · exact ⟨x, by simp [hTail], rfl, rfl, rfl⟩
  have hSameIds :
      (m.modify e.entryId f).entries.map
          VmMapEntry.entryId =
        m.entries.map VmMapEntry.entryId := by
    rw [hEntries, hSplit]
    simp [hf.entryId e]
  refine ⟨⟨⟨h.minAligned, h.maxAligned, ?_, ?_, ?_⟩, ?_, ?_,
    ?_, ?_⟩, ?_⟩
  · have hTiles := h.tilesOf hSplit
    rw [hEntries]
    rcases tiles_append.mp hTiles with ⟨c, hLeft, hRight⟩
    refine tiles_append.mpr ⟨c, hLeft, ?_⟩
    rcases hRight with ⟨hLo, hLt, hRest⟩
    refine ⟨?_, ?_, ?_⟩
    · rw [hf.vmeStart]
      exact hLo
    · rw [hf.vmeStart, hf.vmeEnd]
      exact hLt
    · rw [hf.vmeEnd]
      exact hRest
  · intro x hx
    rcases hMem x hx with ⟨y, hy, _, hStart, hEnd⟩
    rw [hStart, hEnd]
    exact h.aligned y hy
  · unfold UniqueIds
    rw [hSameIds]
    exact h.ids
  · intro x hx
    rcases hMem x hx with ⟨y, hy, hId, _, _⟩
    rw [hId]
    exact h.fresh y hy
  · change m.nentries = _
    rw [h.nentries, hEntries, hSplit]
    simp
  · change m.size = _
    rw [h.size, hEntries, hSplit, entryLengths_append,
      entryLengths_append, entryLengths_cons,
      entryLengths_cons, hf.vmeStart, hf.vmeEnd]
  · intro i hi
    rcases h.hint i hi with ⟨x, hx, hId⟩
    have hIn :
        i ∈ (m.modify e.entryId f).entries.map
          VmMapEntry.entryId := by
      rw [hSameIds, ← hId]
      exact List.mem_map_of_mem hx
    rcases List.mem_map.mp hIn with ⟨y, hy, hId'⟩
    exact ⟨y, hy, hId'⟩
  · change m.firstFree = _
    rw [hEntries, h.firstFree, hSplit]
    exact (beforeHole_replace (hf.entryId e) (hf.vmeStart e)
      (hf.vmeEnd e) _ _ _ _).symm

theorem view_modify
    (hf : Changes f g)
    (h : MapCore m)
    (hSplit : m.entries = l ++ e :: r)
    (a : Nat) :
    (m.modify e.entryId f).view a =
      if e.vmeStart ≤ a ∧ a < e.vmeEnd then
        (m.view a).map g
      else m.view a := by
  have hIds := h.idsOf hSplit
  have hTiles := h.tilesOf hSplit
  rcases tiles_append.mp hTiles with ⟨c, hLeft, hRight⟩
  unfold VmMap.view
  rw [modify_split hIds hSplit f, hSplit, entriesView_append,
    entriesView_append, entriesView_cons, entriesView_cons,
    hf.vmeStart, hf.vmeEnd]
  split_ifs with hIn
  · have hNone : entriesView l a = none := by
      unfold entriesView
      rw [Tiles.covering_above hLeft
        (Nat.le_trans hRight.1 hIn.1)]
      rfl
    rw [hNone, hf.attributes]
    rfl
  · rfl

/- Nothing is mapped between neighbours. -/
theorem view_gap
    (hSplit : m.entries = l ++ r)
    (hLeft : ∀ x ∈ l, x.vmeEnd ≤ a)
    (hRight : ∀ x ∈ r, a < x.vmeStart) :
    m.view a = none := by
  unfold VmMap.view entriesView
  rw [covering_eq_none]
  · rfl
  · intro e he
    rw [hSplit] at he
    rcases List.mem_append.mp he with hl | hr
    · exact Or.inr (hLeft e hl)
    · exact Or.inl (hRight e hr)

theorem MapInv.saveHint
    (h : MapInv m)
    (hHint :
      ∀ j, i = some j → ∃ e ∈ m.entries, e.entryId = j) :
    MapInv (m.saveHint i) :=
  ⟨⟨⟨h.minAligned, h.maxAligned, h.tiles, h.aligned, h.ids⟩,
    h.fresh, h.nentries, h.size, hHint⟩, h.firstFree⟩

------
-- The Loop
------

/- Attributes change in a range, and nothing else does. -/
structure Ranged
    (others : MapObject → Nat)
    (g : PageAttributes → PageAttributes)
    (start stop : Nat)
    (s s' : MapState) : Prop where
  inv : MapInv s'.map
  refs : RefInv others s → RefInv others s'
  view :
    ∀ a, s'.map.view a =
      if start ≤ a ∧ a < stop then (s.map.view a).map g
      else s.map.view a

/- One turn: clip the entry, and change it. -/
theorem Ranged.turn
    {s s₁ : MapState}
    (hf : Changes f g)
    (hClip : Clipped others s s₁)
    (hSplit : s₁.map.entries = l ++ e :: r) :
    Ranged others g e.vmeStart e.vmeEnd s
        (s₁.setMap (s₁.map.modify e.entryId f)) ∧
      (s₁.map.modify e.entryId f).entries =
        l ++ f e :: r := by
  have hInv := hClip.inv
  have hIds := hInv.idsOf hSplit
  have hEntries := modify_split hIds hSplit f
  refine ⟨⟨hInv.modify hf.keepsRange hSplit, ?_, ?_⟩, hEntries⟩
  · intro hRefs o ho
    have hBefore := hClip.refs hRefs o ho
    rw [hSplit] at hBefore
    change s₁.refCount o = entryRefs
      (s₁.map.modify e.entryId f).entries o + others o
    rw [hEntries, hBefore, entryRefs_append, entryRefs_append,
      entryRefs_cons, entryRefs_cons, hf.object]
  · intro a
    change (s₁.map.modify e.entryId f).view a = _
    rw [view_modify hf hInv.toMapCore hSplit a, hClip.view a]

theorem applyRange_done
    (h : MapInv s.map)
    (hSplit : s.map.entries = l ++ e :: r)
    (hPast : stop ≤ e.vmeStart)
    (fuel : Nat) :
    applyRange stop f (fuel + 1) s (some e.entryId) =
      some s := by
  have hIds := h.idsOf hSplit
  unfold applyRange
  rw [find_split hIds hSplit]
  dsimp only
  rw [if_neg (by omega)]

/- One turn, and the pointer the next one starts with. -/
theorem applyRange_turn
    (others : MapObject → Nat)
    (hf : Changes f g)
    (hAt : Aligned stop)
    (h : MapInv s.map)
    (hSplit : s.map.entries = l ++ e :: r)
    (hIn : e.vmeStart < stop) :
    ∃ s₂ front r',
      (∀ fuel,
        applyRange stop f (fuel + 1) s (some e.entryId) =
          applyRange stop f fuel s₂
            (r'.head?.map VmMapEntry.entryId)) ∧
      s₂.map.entries = (l ++ [front]) ++ r' ∧
      Ranged others g e.vmeStart front.vmeEnd s s₂ ∧
      (e.vmeEnd ≤ stop ∧ front.vmeEnd = e.vmeEnd ∧ r' = r ∨
        front.vmeEnd = stop ∧
          ∃ back, r' = back :: r ∧
            back.vmeStart = stop) := by
  have hIds := h.idsOf hSplit
  rcases h.clipEnd others hSplit hIn hAt with
    ⟨s₁, front, r', hClip, hClipped, hEntries, hId, hStart,
      hEnd⟩
  rcases Ranged.turn hf hClipped hEntries with
    ⟨hRanged, hEntries₂⟩
  have hIds₂ := hRanged.inv.ids
  change UniqueIds (s₁.map.modify front.entryId f).entries
    at hIds₂
  rw [hEntries₂] at hIds₂
  have hNext := vmeNext_split hIds₂ hEntries₂
  rw [hf.entryId] at hNext
  rw [hId] at hNext hEntries₂
  rw [hId, hStart] at hRanged
  refine ⟨s₁.setMap (s₁.map.modify e.entryId f), f front,
    r', ?_, ?_, ?_, ?_⟩
  · intro fuel
    rw [applyRange, find_split hIds hSplit]
    dsimp only
    rw [if_pos hIn, hClip]
    rw [← hNext]
    rfl
  · rw [← List.append_cons]
    exact hEntries₂
  · rw [hf.vmeEnd]
    exact hRanged
  · rw [hf.vmeEnd]
    exact hEnd.imp id And.right

/- Nothing is mapped past an entry and before the next. -/
theorem view_after
    (h : MapCore m)
    (hSplit : m.entries = l ++ e :: r)
    (hPast : e.vmeEnd ≤ a)
    (hNext : ∀ x ∈ r.head?, a < x.vmeStart) :
    m.view a = none := by
  have hTiles := h.tilesOf hSplit
  rcases tiles_append.mp hTiles with ⟨c, hLeft, hRight⟩
  rw [List.append_cons] at hSplit
  apply view_gap hSplit
  · intro x hx
    rcases List.mem_append.mp hx with hl | he
    · have hAll := Tiles.of_mem hLeft hl
      have hLo := hRight.1
      have hLt := hRight.2.1
      omega
    · rw [List.mem_singleton.mp he]
      exact hPast
  · intro x hx
    cases r with
    | nil =>
        cases hx
    | cons y r =>
        have hy : a < y.vmeStart := hNext y rfl
        rcases List.mem_cons.mp hx with rfl | hTail
        · exact hy
        · have hAll := Tiles.of_mem hRight.2.2.2.2 hTail
          have hLt := hRight.2.2.2.1
          omega

/-
  The loop from an entry on. The recursion is on the entries
  after it: an entry that reaches past the range is split,
  and the part behind the range ends the loop.
-/
theorem applyRange_spec
    (others : MapObject → Nat)
    (hf : Changes f g)
    (hAt : Aligned stop)
    (r : List VmMapEntry)
    (s : MapState)
    (l : List VmMapEntry)
    (e : VmMapEntry)
    (h : MapInv s.map)
    (hSplit : s.map.entries = l ++ e :: r) :
    ∃ enough, ∀ fuel, enough ≤ fuel →
      ∃ s', applyRange stop f fuel s (some e.entryId) =
          some s' ∧
        Ranged others g e.vmeStart stop s s' := by
  by_cases hIn : e.vmeStart < stop
  · rcases applyRange_turn others hf hAt h hSplit hIn with
      ⟨s₂, front, r', hTurn, hEntries, hRanged, hEnd⟩
    rcases hEnd with ⟨hLe, hFront, hSame⟩ |
      ⟨hFront, back, hBack, hStart⟩
    · subst hSame
      rw [hFront] at hRanged
      cases r' with
      | nil =>
          refine ⟨2, ?_⟩
          intro fuel hFuel
          rcases Nat.exists_eq_add_of_le hFuel with ⟨n, rfl⟩
          rw [show 2 + n = (n + 1) + 1 by omega, hTurn]
          refine ⟨s₂, rfl, hRanged.inv, hRanged.refs, ?_⟩
          intro a
          rw [hRanged.view a]
          by_cases hBelow : a < e.vmeEnd
          · simp [hBelow, Nat.lt_of_lt_of_le hBelow hLe]
          · rw [view_after h.toMapCore hSplit (by omega)
              (by simp)]
            simp
      | cons x r =>
          rcases applyRange_spec others hf hAt r s₂
            (l ++ [front]) x hRanged.inv hEntries with
            ⟨enough, hEnough⟩
          refine ⟨enough + 1, ?_⟩
          intro fuel hFuel
          rcases Nat.exists_eq_add_of_le hFuel with ⟨n, rfl⟩
          rw [show enough + 1 + n = (enough + n) + 1 by
            omega, hTurn]
          rcases hEnough (enough + n) (by omega) with
            ⟨s', hRun, hRest⟩
          refine ⟨s', hRun, hRest.inv,
            fun hRefs => hRest.refs (hRanged.refs hRefs), ?_⟩
          have hTiles := h.tilesOf hSplit
          rcases tiles_append.mp hTiles with
            ⟨c, hLeft, hRight⟩
          have hAfter : e.vmeEnd ≤ x.vmeStart :=
            hRight.2.2.1
          have hLt : e.vmeStart < e.vmeEnd := hRight.2.1
          intro a
          rw [hRest.view a, hRanged.view a]
          by_cases hHead : a < e.vmeEnd
          · simp only [hHead, and_true]
            rw [if_neg (by omega)]
            simp [Nat.lt_of_lt_of_le hHead hLe]
          · by_cases hGap : a < x.vmeStart
            · rw [view_after h.toMapCore hSplit (by omega)
                (by simpa using hGap)]
              simp
            · simp [hHead, Nat.le_of_not_lt hGap,
                show e.vmeStart ≤ a by omega]
    · subst hBack
      refine ⟨2, ?_⟩
      intro fuel hFuel
      rcases Nat.exists_eq_add_of_le hFuel with ⟨n, rfl⟩
      rw [show 2 + n = (n + 1) + 1 by omega, hTurn]
      rw [hFront] at hRanged
      exact ⟨s₂, applyRange_done hRanged.inv hEntries
        (Nat.le_of_eq hStart.symm) n, hRanged⟩
  · refine ⟨1, ?_⟩
    intro fuel hFuel
    rcases Nat.exists_eq_add_of_le hFuel with ⟨n, rfl⟩
    rw [Nat.add_comm]
    refine ⟨s, applyRange_done h hSplit (by omega) n, h,
      fun hRefs => hRefs, ?_⟩
    intro a
    rw [if_neg (by omega)]
termination_by r.length

------
-- Protection, Inheritance and Behavior
------

/- The outcome of an operation on a range. -/
structure Acts
    (others : MapObject → Nat)
    (g : PageAttributes → PageAttributes)
    (start stop : Nat)
    (kr : KernReturn)
    (s s' : MapState) : Prop where
  inv : MapInv s'.map
  refs : RefInv others s → RefInv others s'
  success :
    kr = .success →
      ∀ a, s'.map.view a =
        if start ≤ a ∧ a < stop then (s.map.view a).map g
        else s.map.view a
  error : kr ≠ .success → ∀ a, s'.map.view a = s.map.view a

theorem Ranged.acts
    (h : Ranged others g start stop s s') :
    Acts others g start stop .success s s' :=
  ⟨h.inv, h.refs, fun _ => h.view, fun hNe => absurd rfl hNe⟩

/- A lookup moves the hint alone. -/
theorem Looked.inv
    (hLook : Looked m address found i m')
    (h : MapInv m) :
    MapInv m' ∧ m'.entries = m.entries := by
  rcases hLook.same with ⟨hint, hEq, hHint⟩
  rw [hEq]
  exact ⟨h.saveHint hHint, rfl⟩

/- An error that came before any entry was touched. -/
theorem Acts.of_error
    {others : MapObject → Nat}
    {g : PageAttributes → PageAttributes}
    {start stop : Nat}
    {s : MapState}
    {m' : VmMap}
    {kr : KernReturn}
    (hInv : MapInv m')
    (hEntries : m'.entries = s.map.entries)
    (hNe : kr ≠ .success) :
    Acts others g start stop kr s (s.setMap m') := by
  refine ⟨hInv, ?_, fun hEq => absurd hEq hNe, ?_⟩
  · intro hRefs o ho
    change s.refCount o = entryRefs m'.entries o + others o
    rw [hEntries]
    exact hRefs o ho
  · intro _ a
    change entriesView m'.entries a = _
    rw [hEntries]
    rfl

theorem Looked.acts_error
    {kr : KernReturn}
    (others : MapObject → Nat)
    (g : PageAttributes → PageAttributes)
    (hLook : Looked s.map address found i m')
    (h : MapInv s.map)
    (hNe : kr ≠ .success) :
    Acts others g start stop kr s (s.setMap m') := by
  rcases hLook.inv h with ⟨hInv, hEntries⟩
  exact Acts.of_error hInv hEntries hNe

theorem Ranged.of_entries
    (h : Ranged others g start stop (s.setMap m) s')
    (hEntries : m.entries = s.map.entries) :
    Ranged others g start stop s s' := by
  refine ⟨h.inv, ?_, ?_⟩
  · intro hRefs
    apply h.refs
    intro o ho
    change s.refCount o = entryRefs m.entries o + others o
    rw [hEntries]
    exact hRefs o ho
  · intro a
    have hView : m.view a = s.map.view a := by
      unfold VmMap.view
      rw [hEntries]
    rw [h.view a]
    change (if _ then (m.view a).map g else m.view a) = _
    rw [hView]

/- Clip the entry at the start, and run the loop from it. -/
theorem clipApply_spec
    (others : MapObject → Nat)
    (hf : Changes f g)
    (hStart : Aligned start)
    (hStop : Aligned stop)
    (h : MapInv s.map)
    (hSplit : s.map.entries = l ++ e :: r)
    (hLo : e.vmeStart ≤ start)
    (hHi : start < e.vmeEnd) :
    ∃ s₁, s.clipStart e.entryId start = some s₁ ∧
      ∃ enough, ∀ fuel, enough ≤ fuel →
        ∃ s', applyRange stop f fuel s₁ (some e.entryId) =
            some s' ∧
          Ranged others g start stop s s' := by
  rcases h.clipStart others hSplit hLo hHi hStart with
    ⟨s₁, l', back, hClip, hClipped, hEntries, hId, hAt, _⟩
  refine ⟨s₁, hClip, ?_⟩
  rcases applyRange_spec others hf hStop r s₁ l' back
    hClipped.inv hEntries with ⟨enough, hEnough⟩
  refine ⟨enough, ?_⟩
  intro fuel hFuel
  rcases hEnough fuel hFuel with ⟨s', hRun, hRanged⟩
  rw [hId] at hRun
  rw [hAt] at hRanged
  refine ⟨s', hRun, hRanged.inv,
    fun hRefs => hRanged.refs (hClipped.refs hRefs), ?_⟩
  intro a
  rw [hRanged.view a, hClipped.view a]

/- What `vm_map_protect` does to a page. -/
def protectPage
    (newProt : Nat)
    (setMax : Bool)
    (p : PageAttributes) : PageAttributes :=
  if setMax then
    { p with
      maxProtection := newProt
      protection := newProt &&& p.protection }
  else { p with protection := newProt }

theorem changes_protect
    (newProt : Nat)
    (setMax : Bool) :
    Changes (protectEntry newProt setMax)
      (protectPage newProt setMax) := by
  cases setMax with
  | false | true =>
      exact ⟨fun _ => rfl, fun _ => rfl, fun _ => rfl,
        fun _ => rfl, fun _ _ => rfl⟩

theorem vmMapProtect_acts
    (others : MapObject → Nat)
    (h : MapInv s.map)
    (hStart : Aligned start)
    (hStop : Aligned stop)
    (newProt : Nat)
    (setMax : Bool) :
    ∃ enough, ∀ fuel, enough ≤ fuel →
      ∃ kr s', vmMapProtect fuel s start stop newProt
          setMax = some (kr, s') ∧
        Acts others (protectPage newProt setMax) start stop
          kr s s' := by
  have hLook := h.toMapCore.lookupEntry start
  unfold vmMapProtect
  generalize s.map.lookupEntry start = result at hLook ⊢
  rcases result with ⟨found, i, m'⟩
  cases found with
  | false =>
      refine ⟨0, fun fuel _ => ⟨.invalidAddress, s.setMap m',
        rfl, ?_⟩⟩
      exact hLook.acts_error others _ h (by decide)
  | true =>
      rcases hLook.inside rfl with
        ⟨l, e, r, hSplit, hi, hLo, hHi⟩
      subst hi
      rcases hLook.inv h with ⟨hInv, hSame⟩
      have hEntries := hSame.trans hSplit
      have hIds := hInv.idsOf hEntries
      dsimp only
      rw [find_split hIds hEntries, after_split hIds hEntries]
      dsimp only
      cases hCheck :
          protectCheck stop newProt e.vmeStart (e :: r) with
      | success =>
          rcases clipApply_spec others
            (changes_protect newProt setMax) hStart hStop
            (s := s.setMap m') hInv hEntries hLo hHi with
            ⟨s₁, hClip, enough, hEnough⟩
          refine ⟨enough, ?_⟩
          intro fuel hFuel
          rcases hEnough fuel hFuel with ⟨s', hRun, hRanged⟩
          rw [hClip]
          dsimp only
          rw [hRun]
          exact ⟨.success, s', rfl,
            (hRanged.of_entries hSame).acts⟩
      | _ =>
          refine ⟨0, fun fuel _ => ⟨_, s.setMap m', rfl, ?_⟩⟩
          exact hLook.acts_error others _ h (by decide)

def inheritPage
    (newInheritance : Nat)
    (p : PageAttributes) : PageAttributes :=
  { p with inheritance := newInheritance }

theorem changes_inherit
    (newInheritance : Nat) :
    Changes (inheritEntry newInheritance)
      (inheritPage newInheritance) :=
  ⟨fun _ => rfl, fun _ => rfl, fun _ => rfl, fun _ => rfl,
    fun _ _ => rfl⟩

theorem rangeClamp_aligned
    (h : MapCore m)
    (hStart : Aligned start)
    (hStop : Aligned stop) :
    Aligned (rangeClamp m start stop).1 ∧
      Aligned (rangeClamp m start stop).2 := by
  have hMin := h.minAligned
  have hMax := h.maxAligned
  unfold rangeClamp
  dsimp only
  constructor
  · split_ifs <;> assumption
  · split_ifs <;> assumption

/- Only addresses of the map are mapped. -/
theorem MapCore.view_eq_none
    (h : MapCore m)
    (ha : a < m.minOffset ∨ m.maxOffset ≤ a) :
    m.view a = none := by
  unfold VmMap.view entriesView
  rcases ha with hBelow | hAbove
  · rw [Tiles.covering_below h.tiles hBelow]
    rfl
  · rw [Tiles.covering_above h.tiles hAbove]
    rfl

/- Clamping a range to the map leaves out no page of it. -/
theorem Ranged.of_clamp
    (hInv : MapInv s.map)
    (h : Ranged others g (rangeClamp s.map start stop).1
      (rangeClamp s.map start stop).2 s s') :
    Ranged others g start stop s s' := by
  refine ⟨h.inv, h.refs, ?_⟩
  intro a
  rw [h.view a]
  by_cases hIn : s.map.minOffset ≤ a ∧ a < s.map.maxOffset
  · have hIff :
        (rangeClamp s.map start stop).1 ≤ a ∧
            a < (rangeClamp s.map start stop).2 ↔
          start ≤ a ∧ a < stop := by
      unfold rangeClamp
      dsimp only
      constructor
      · intro hBoth
        split_ifs at hBoth <;> omega
      · intro hBoth
        split_ifs <;> omega
    simp only [hIff]
  · rw [hInv.toMapCore.view_eq_none (by omega)]
    simp

/- The loop from the first entry above an address. -/
theorem nextApply_spec
    (others : MapObject → Nat)
    (hf : Changes f g)
    (hStop : Aligned stop)
    (h : MapInv s.map)
    (hSplit : s.map.entries = l ++ r)
    (hLeft : ∀ x ∈ l, x.vmeEnd ≤ start)
    (hRight : ∀ x ∈ r, start < x.vmeStart) :
    ∃ enough, ∀ fuel, enough ≤ fuel →
      ∃ s', applyRange stop f fuel s
          (s.map.vmeNext (lastId l)) = some s' ∧
        Ranged others g start stop s s' := by
  have hTiles := h.tilesOf hSplit
  rcases tiles_append.mp hTiles with ⟨c, hl, hr⟩
  have hNext :
      s.map.vmeNext (lastId l) =
        r.head?.map VmMapEntry.entryId := by
    have hIds := h.idsOf hSplit
    unfold VmMap.vmeNext
    rw [after_part hIds hSplit]
  rw [hNext]
  cases r with
  | nil =>
      refine ⟨1, ?_⟩
      intro fuel hFuel
      rcases Nat.exists_eq_add_of_le hFuel with ⟨n, rfl⟩
      rw [Nat.add_comm]
      refine ⟨s, rfl, h, fun hRefs => hRefs, ?_⟩
      intro a
      by_cases ha : start ≤ a
      · rw [view_gap hSplit
          (fun x hx => Nat.le_trans (hLeft x hx) ha)
          (by simp)]
        simp
      · rw [if_neg (by omega)]
  | cons x r =>
      rcases applyRange_spec others hf hStop r s l x h
        hSplit with ⟨enough, hEnough⟩
      refine ⟨enough, ?_⟩
      intro fuel hFuel
      rcases hEnough fuel hFuel with ⟨s', hRun, hRanged⟩
      refine ⟨s', hRun, hRanged.inv, hRanged.refs, ?_⟩
      have hLt := hRight x List.mem_cons_self
      intro a
      rw [hRanged.view a]
      by_cases hGap : start ≤ a ∧ a < x.vmeStart
      · have hNone : s.map.view a = none := by
          apply view_gap hSplit
          · intro y hy
            exact Nat.le_trans (hLeft y hy) hGap.1
          · intro y hy
            rcases List.mem_cons.mp hy with rfl | hTail
            · exact hGap.2
            · have hAll := Tiles.of_mem hr.2.2 hTail
              have hNonempty := hr.2.1
              omega
        rw [hNone]
        simp
      · have hIff :
            (x.vmeStart ≤ a ∧ a < stop) ↔
              (start ≤ a ∧ a < stop) := by
          omega
        simp only [hIff]

theorem vmMapInherit_acts
    (others : MapObject → Nat)
    (h : MapInv s.map)
    (hStart : Aligned start)
    (hStop : Aligned stop)
    (newInheritance : Nat) :
    ∃ enough, ∀ fuel, enough ≤ fuel →
      ∃ kr s', vmMapInherit fuel s start stop
          newInheritance = some (kr, s') ∧
        Acts others (inheritPage newInheritance) start stop
          kr s s' := by
  rcases rangeClamp_aligned h.toMapCore hStart hStop with
    ⟨hFrom, hTo⟩
  have hClamp :
      ∀ s', Ranged others (inheritPage newInheritance)
          (rangeClamp s.map start stop).1
          (rangeClamp s.map start stop).2 s s' →
        Ranged others (inheritPage newInheritance) start
          stop s s' :=
    fun s' hRanged => hRanged.of_clamp h
  unfold vmMapInherit
  dsimp only
  generalize rangeClamp s.map start stop = range at *
  have hLook := h.toMapCore.lookupEntry range.1
  generalize s.map.lookupEntry range.1 = result at hLook ⊢
  rcases result with ⟨found, i, m'⟩
  rcases hLook.inv h with ⟨hInv, hSame⟩
  cases found with
  | false =>
      rcases hLook.outside rfl with
        ⟨l, r, hSplit, hi, hLeft, hRight⟩
      subst hi
      rcases nextApply_spec others
        (changes_inherit newInheritance) hTo
        (s := s.setMap m') hInv (hSame.trans hSplit) hLeft
        hRight with ⟨enough, hEnough⟩
      refine ⟨enough, ?_⟩
      intro fuel hFuel
      rcases hEnough fuel hFuel with ⟨s', hRun, hRanged⟩
      dsimp only
      rw [hRun]
      exact ⟨.success, s', rfl,
        (hClamp s' (hRanged.of_entries hSame)).acts⟩
  | true =>
      rcases hLook.inside rfl with
        ⟨l, e, r, hSplit, hi, hLo, hHi⟩
      subst hi
      rcases clipApply_spec others
        (changes_inherit newInheritance) hFrom hTo
        (s := s.setMap m') hInv (hSame.trans hSplit) hLo
        hHi with ⟨s₁, hClip, enough, hEnough⟩
      refine ⟨enough, ?_⟩
      intro fuel hFuel
      rcases hEnough fuel hFuel with ⟨s', hRun, hRanged⟩
      dsimp only
      rw [hClip]
      dsimp only
      rw [hRun]
      exact ⟨.success, s', rfl,
        (hClamp s' (hRanged.of_entries hSame)).acts⟩

/- The check finds the entry at the start, or moves a hint. -/
structure RangeChecked
    (m : VmMap)
    (start : Nat)
    (i : Option Nat)
    (m' : VmMap) : Prop where
  inv : MapInv m'
  same : m'.entries = m.entries
  inside :
    ∀ j, i = some j →
      ∃ l e r, m.entries = l ++ e :: r ∧ j = e.entryId ∧
        e.vmeStart ≤ start ∧ start < e.vmeEnd

theorem vmMapRangeCheck_spec
    (h : MapInv m)
    (start stop : Nat) :
    RangeChecked m start (vmMapRangeCheck m start stop).1
      (vmMapRangeCheck m start stop).2 := by
  unfold vmMapRangeCheck
  by_cases hOut : start < m.minOffset ∨
      m.maxOffset < stop ∨ stop < start
  · rw [if_pos hOut]
    exact ⟨h, rfl, by simp⟩
  · rw [if_neg hOut]
    have hLook := h.toMapCore.lookupEntry start
    generalize m.lookupEntry start = result at hLook ⊢
    rcases result with ⟨found, i, m'⟩
    rcases hLook.inv h with ⟨hInv, hSame⟩
    cases found with
    | false =>
        exact ⟨hInv, hSame, by simp⟩
    | true =>
        rcases hLook.inside rfl with
          ⟨l, e, r, hSplit, hi, hLo, hHi⟩
        subst hi
        have hEntries := hSame.trans hSplit
        have hIds := hInv.idsOf hEntries
        have hFound :
            ∀ j, some e.entryId = some j →
              ∃ l e r, m.entries = l ++ e :: r ∧
                j = e.entryId ∧ e.vmeStart ≤ start ∧
                start < e.vmeEnd := by
          intro j hj
          exact ⟨l, e, r, hSplit, (Option.some.inj hj).symm,
            hLo, hHi⟩
        dsimp only
        rw [find_split hIds hEntries, after_split hIds hEntries]
        dsimp only
        split_ifs
        · exact ⟨hInv, hSame, hFound⟩
        · exact ⟨hInv, hSame, hFound⟩
        · exact ⟨hInv, hSame, by simp⟩

/- A number that is no behavior changes nothing. -/
def behaviorPage
    (newBehavior : Nat)
    (p : PageAttributes) : PageAttributes :=
  match VmBehavior.decode newBehavior with
  | none => p
  | some b => { p with behavior := b }

theorem changes_behavior
    {newBehavior : Nat}
    {b : VmBehavior}
    (hDecode : VmBehavior.decode newBehavior = some b) :
    Changes (behaviorEntry b) (behaviorPage newBehavior) := by
  refine ⟨fun _ => rfl, fun _ => rfl, fun _ => rfl,
    fun _ => rfl, ?_⟩
  intro e a
  unfold behaviorPage
  rw [hDecode]
  rfl

theorem vmMapBehaviorSet_acts
    (others : MapObject → Nat)
    (h : MapInv s.map)
    (hStart : Aligned start)
    (hStop : Aligned stop)
    (newBehavior : Nat) :
    ∃ enough, ∀ fuel, enough ≤ fuel →
      ∃ kr s', vmMapBehaviorSet fuel s start stop
          newBehavior = some (kr, s') ∧
        Acts others (behaviorPage newBehavior) start stop kr
          s s' := by
  unfold vmMapBehaviorSet
  cases hDecode : VmBehavior.decode newBehavior with
  | none =>
      refine ⟨0, fun fuel _ => ⟨.invalidArgument, s, rfl,
        ?_⟩⟩
      exact @Acts.of_error _ _ _ _ s s.map _ h rfl (by decide)
  | some b =>
      have hCheck := vmMapRangeCheck_spec h start stop
      generalize vmMapRangeCheck s.map start stop = result
        at hCheck ⊢
      rcases result with ⟨i, m'⟩
      cases i with
      | none =>
          refine ⟨0, fun fuel _ => ⟨.invalidAddress,
            s.setMap m', rfl, ?_⟩⟩
          exact Acts.of_error hCheck.inv hCheck.same
            (by decide)
      | some i =>
          rcases hCheck.inside i rfl with
            ⟨l, e, r, hSplit, hi, hLo, hHi⟩
          subst hi
          rcases clipApply_spec others
            (changes_behavior hDecode) hStart hStop
            (s := s.setMap m') hCheck.inv
            (hCheck.same.trans hSplit) hLo hHi with
            ⟨s₁, hClip, enough, hEnough⟩
          refine ⟨enough, ?_⟩
          intro fuel hFuel
          rcases hEnough fuel hFuel with ⟨s', hRun, hRanged⟩
          dsimp only
          rw [hClip]
          dsimp only
          rw [hRun]
          exact ⟨.success, s', rfl,
            (hRanged.of_entries hCheck.same).acts⟩

end Vm

end OsfMach
