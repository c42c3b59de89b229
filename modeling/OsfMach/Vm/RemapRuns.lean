import OsfMach.Vm.ForkRuns
import OsfMach.Vm.RemapInv

/-
  When the entries that are extracted are those of the range.

  A call that succeeds has covered the range with entries of
  the pages of the source, unless the end of the range wraps
  past the top of the address space. A call that fails has
  released what it held, and the lock once, unless a copy
  that was made without the lock failed, or was to be made
  again after the map had changed.

  Main declarations:
    * `RemapState.Extracted`, `RemapState.Outcome`
    * `linkChain_view`
    * `RemapGood.run`
    * `vmRemapExtract_outcome_iff`
-/

------
-- The Target
------

namespace OsfMach

namespace Vm

open List
open Lib

/- The entries of a chain at their place in the target. -/
def placedChain
    (address : Nat) : Nat → List VmMapEntry → List VmMapEntry
| _, [] => []
| i, e :: rest =>
    { e with
      entryId := i
      vmeStart := e.vmeStart + address
      vmeEnd := e.vmeEnd + address } ::
    placedChain address (i + 1) rest

section

variable {t t' : VmMap} {l r chain : List VmMapEntry}
variable {address : Nat}

theorem UniqueIds.insert
    {e : VmMapEntry}
    (h : UniqueIds (l ++ r))
    (hNew : ∀ x ∈ l ++ r, x.entryId ≠ e.entryId) :
    UniqueIds ((l ++ [e]) ++ r) := by
  unfold UniqueIds at *
  rw [append_assoc, singleton_append, map_append, map_cons,
    nodup_middle, ← map_append, nodup_cons]
  refine ⟨?_, h⟩
  intro hMem
  rcases mem_map.mp hMem with ⟨x, hx, hId⟩
  exact hNew x hx hId

/- A chain is linked between two parts of a map. -/
theorem linkChain_entries
    {last insp : Option Nat}
    (hSplit : t.entries = l ++ r)
    (hInsp : insp = lastId l)
    (hIds : UniqueIds (l ++ r))
    (hFresh : ∀ x ∈ l ++ r, x.entryId < t.nextEntry)
    (hLinked : linkChain address insp chain t =
      some (last, t')) :
    t'.entries =
      l ++ placedChain address t.nextEntry chain ++ r := by
  subst hInsp
  induction chain generalizing t l with
  | nil =>
      cases hLinked
      rw [hSplit, placedChain, append_nil]
  | cons e rest ih =>
      let e' : VmMapEntry :=
        { e with
          entryId := t.nextEntry
          vmeStart := e.vmeStart + address
          vmeEnd := e.vmeEnd + address }
      let t₁ : VmMap :=
        { t.entryLink (lastId l) e' with
          nextEntry := t.nextEntry + 1 }
      have hEntries : t₁.entries = (l ++ [e']) ++ r := by
        have hLink : t₁.entries =
            (t.entryLinkHdr (lastId l) e').entries :=
          updateFirstFree_entries _ _
        rw [hLink, link_after_part hIds hSplit e',
          append_assoc, singleton_append]
      have hLast : some t.nextEntry = lastId (l ++ [e']) := by
        simp [lastId, e']
      have hNew : ∀ x ∈ l ++ r, x.entryId ≠ e'.entryId := by
        intro x hx
        exact Nat.ne_of_lt (hFresh x hx)
      have hBelow : ∀ x ∈ (l ++ [e']) ++ r,
          x.entryId < t₁.nextEntry := by
        intro x hx
        have hNext : t₁.nextEntry = t.nextEntry + 1 := rfl
        rw [append_assoc, mem_append] at hx
        rcases hx with hx | hx
        · have hLt := hFresh x (mem_append_left _ hx)
          omega
        rcases mem_cons.mp hx with hx | hx
        · rw [hx]
          exact Nat.lt_succ_self _
        · have hLt := hFresh x (mem_append_right _ hx)
          omega
      have hRest : linkChain address (lastId (l ++ [e'])) rest
          t₁ = some (last, t') := by
        rw [← hLast]
        exact hLinked
      rw [ih hEntries (hIds.insert hNew) hBelow hRest,
        placedChain, append_assoc, append_assoc, append_assoc]
      rfl

theorem entriesView_placedChain
    (address i a : Nat)
    (chain : List VmMapEntry) :
    entriesView (placedChain address i chain) (address + a) =
      entriesView chain a := by
  induction chain generalizing i with
  | nil => rfl
  | cons e rest ih =>
      rw [placedChain, entriesView_cons, entriesView_cons, ih]
      have hIn :
          (e.vmeStart + address ≤ address + a ∧
              address + a < e.vmeEnd + address) ↔
            (e.vmeStart ≤ a ∧ a < e.vmeEnd) := by
        omega
      have hOffset : address + a - (e.vmeStart + address) =
          a - e.vmeStart := by
        omega
      simp only [hIn]
      unfold VmMapEntry.attributes VmMapEntry.offsetAt
      rw [hOffset]

/- The target has the pages of the chain from a place on. -/
theorem linkChain_view
    {size i : Nat}
    {place : Place}
    {last : Option Nat}
    (h : MapOk t)
    (hPlace : FreePlace t size place l r)
    (hi : i < size)
    (hLinked : linkChain place.start place.insp chain t =
      some (last, t')) :
    t'.view (place.start + i) = entriesView chain i := by
  have hIds := h.ids
  have hFresh := h.fresh
  rw [hPlace.split] at hIds hFresh
  have hEntries := linkChain_entries hPlace.split hPlace.insp
    hIds hFresh hLinked
  have hStop := hPlace.stop
  have hBelow : entriesView l (place.start + i) = none := by
    unfold entriesView
    rw [covering_eq_none]
    · rfl
    · intro e he
      have hEnd := hPlace.below e he
      exact Or.inr (by omega)
  have hAbove : entriesView r (place.start + i) = none := by
    unfold entriesView
    rw [covering_eq_none]
    · rfl
    · intro e he
      have hStart := hPlace.above e he
      exact Or.inl (by omega)
  unfold VmMap.view
  rw [hEntries, entriesView_append, entriesView_append,
    hBelow, hAbove, entriesView_placedChain, Option.none_or,
    Option.or_none]

end

------
-- Maps
------

namespace RemapState

variable {args : ExtractArgs} {s q : RemapState} {w : RemapWork}

/- The map is well formed whenever an entry is linked. -/
structure Sound (s : RemapState) : Prop where
  map : MapOk s.map
  sources : ∀ l ∈ s.linked, MapOk l.locked

section

variable (h : s.Sound)
include h

theorem Sound.of_map
    (hMap : MapOk q.map)
    (hLinked : q.linked = s.linked) :
    q.Sound := by
  refine ⟨hMap, ?_⟩
  rw [hLinked]
  exact h.sources

theorem Sound.finish
    (kr : KernReturn) :
    (s.finish kr).Sound := by
  unfold RemapState.finish
  split_ifs
  · exact h.of_map h.map rfl
  · exact h.of_map h.map rfl

theorem Sound.linkedWith
    (w : RemapWork)
    (e : VmMapEntry) :
    (s.linkedWith w e).Sound := by
  refine ⟨h.map, ?_⟩
  intro l hl
  rcases mem_append.mp hl with hOld | hNew
  · exact h.sources l hOld
  · rw [mem_singleton.mp hNew]
    exact h.map

theorem Sound.link
    (hLink : s.link w = some q) :
    q.Sound := by
  rcases link_eq_some hLink with ⟨e, _, hEq⟩
  rw [hEq]
  exact h.linkedWith w e

theorem Sound.begun
    {a : VmAnswers}
    {m : VmMap}
    {e : VmMapEntry}
    (hMap : MapOk m) :
    (begun args a s m e).Sound := by
  have hShared := hMap.modify
    (keepsRange_shareObject a 0 true) e.entryId
  unfold RemapState.begun
  cases args.copy with
  | true => exact h.of_map hShared.ok rfl
  | false =>
      apply Sound.linkedWith
      refine h.of_map ?_ rfl
      exact (hShared.ok.modify keepsRange_isShared _).ok

end

/- Each step keeps the map well formed. -/
theorem Sound.step
    (s : RemapState)
    (input : RemapInput)
    (q : RemapState)
    (h : s.Sound)
    (hStep : remapStep args s input = some q) :
    q.Sound := by
  unfold remapStep at hStep
  split at hStep
  case h_1 a hPhase =>
    rcases turn_cases h.map hStep with
      ⟨_, hEq⟩ | ⟨m, hSame, hEq⟩ | ⟨_, m, e, hFinds, hEq⟩
    · rw [hEq]
      exact h.finish _
    · rw [hEq]
      apply Sound.finish
      exact h.of_map hSame.ok rfl
    · rw [hEq]
      exact h.begun hFinds.same.ok
  case h_2 w quick hPhase =>
    rcases Option.bind_eq_some_iff.mp hStep with
      ⟨e, _, hStep⟩
    split at hStep
    · refine Sound.link ?_ hStep
      refine h.of_map ?_ rfl
      split_ifs
      · exact (h.map.modify keepsRange_needsCopy _).ok
      · exact h.map
    · cases hStep
      exact h.of_map h.map rfl
  case h_3 w wired result r hPhase =>
    split_ifs at hStep with hFollows
    have hFound := hFollows.1.mapOk h.map
    unfold copied at hStep
    split at hStep
    · split_ifs at hStep
      cases hStep
      apply Sound.finish
      exact h.of_map h.map rfl
    · split_ifs at hStep
      · split at hStep
        · cases hStep
          exact h.of_map hFound rfl
        · refine Sound.link ?_ hStep
          exact h.of_map hFound rfl
      · cases hStep
        exact h.of_map hFound rfl
  case h_4 => cases hStep

end RemapState

------
-- Outcomes
------

namespace RemapState

def isDone (s : RemapState) : Bool :=
  match s.phase with
  | .done _ => true
  | _ => false

def succeeds (s : RemapState) : Bool :=
  match s.phase with
  | .done .success => true
  | _ => false

/-
  What was asked for. The entries cover the range from zero
  on, each was made from an entry of the source that was
  mapped around its range, and the protections are those of
  exactly these entries. Where the range is shared, its pages
  are those of the source, and so are the pages of the target
  that the entries are then linked into.
-/
structure Extracted
    (args : ExtractArgs)
    (s : RemapState) : Prop where
  tiles : EntryTiles 0 args.size s.chain
  chain : EntryContiguous 0 args.size s.chain
  new : s.chain = s.linked.map RemapLink.new
  sources : ∀ l ∈ s.linked, l.From args
  cur : s.curProtection =
    s.linked.foldl (fun p l => p &&& l.src.protection) protAll
  max : s.maxProtection =
    s.linked.foldl (fun p l => p &&& l.src.maxProtection)
      protAll
  pages : args.copy = false → ∀ i, i < args.size →
    SamePage (s.map.view (args.srcStart + i))
      (entriesView s.chain i)
  target : args.copy = false →
    ∀ a address mask anywhere place last t t₁ t₂,
      MapOk t →
      rangeAllocate a (truncPage address) args.size mask
        anywhere t = some (.ok place, t₁) →
      linkChain place.start place.insp s.chain t₁ =
        some (last, t₂) →
      ∀ i, i < args.size →
        SamePage (s.map.view (args.srcStart + i))
          (t₂.view (place.start + i))

/-
  What a call that returned should have done. The lock was
  taken as often as it was released.
-/
def Outcome (args : ExtractArgs) (s : RemapState) : Prop :=
  match s.phase with
  | .done .success =>
      s.Extracted args ∧ s.held.Agrees (.ofEntries s.chain) ∧
        s.locks = 0
  | .done _ => s.held.Agrees .zero ∧ s.locks = 0
  | _ => False

/- What a step has to find for the call to go well. -/
def Meets (s : RemapState) (input : RemapInput) : Prop :=
  s.StampTells input ∧ Releases input

variable {args : ExtractArgs} {s q : RemapState}

theorem Placed.extracted
    (h : s.Placed args)
    (hSize : Aligned args.size)
    (hWord : args.size < offsetModulus)
    (hAll : s.mapped = args.size) :
    s.Extracted args := by
  have hTiles := h.tiles
  have hChain := h.chain
  have hPages := h.pages
  rw [hAll] at hTiles hChain hPages
  refine ⟨hTiles, hChain, h.new, h.sources, h.cur, h.max,
    hPages, ?_⟩
  intro hCopy a address mask anywhere place last t t₁ t₂ hMap
    hAllocate hLinked i hi
  have hSpec := (rangeAllocate_spec hMap
    (truncPage_aligned address) hSize hWord a
      anywhere).returned _ _ hAllocate
  rcases hSpec with ⟨hSteady, hFree⟩
  rcases (hFree place rfl).2 with ⟨l, r, hPlace⟩
  rw [linkChain_view hSteady.ok hPlace hi hLinked]
  exact hPages hCopy i hi

/- Entries of the source do not reach past its end. -/
theorem Extracted.below
    (h : s.Extracted args)
    (hSound : s.Sound)
    (hStart : args.srcStart < offsetModulus) :
    args.srcStart + args.size < offsetModulus := by
  by_cases hNone : args.size = 0
  · omega
  rcases eq_nil_or_concat s.linked with hNil | ⟨ls, l, hEq⟩
  · have hChain := h.chain
    rw [h.new, hNil] at hChain
    exact absurd hChain.symm hNone
  · rw [concat_eq_append] at hEq
    have hMem : l ∈ s.linked := by
      rw [hEq]
      simp
    have hChain := h.chain
    rw [h.new, hEq, map_append] at hChain
    rcases contiguous_append.mp hChain with ⟨c, _, hLast⟩
    have hEnd : l.new.vmeEnd = args.size := hLast.2
    have hFrom := h.sources l hMem
    have hOk := hSound.sources l hMem
    have hPlace := hOk.toMapOrder.place hFrom.src
    have hStop := hFrom.stop
    have hMax := hOk.word
    omega

theorem finish_phase
    (s : RemapState)
    (kr : KernReturn) :
    (s.finish kr).phase = .done kr := by
  unfold finish
  split_ifs <;> rfl

theorem link_not_done
    {w : RemapWork}
    (hLink : s.link w = some q) :
    q.isDone = false := by
  rcases link_eq_some hLink with ⟨e, _, hEq⟩
  rw [hEq]
  rfl

/- The last step ends the loop, or a copy failed. -/
theorem done_cases
    {input : RemapInput}
    (hMap : MapOk s.map)
    (hStep : remapStep args s input = some q)
    (hDone : q.isDone = true) :
    ∃ (s' : RemapState) (kr : KernReturn), q = s'.finish kr ∧
      (s.StampTells input ∨ kr ≠ .success) := by
  unfold remapStep at hStep
  split at hStep
  case h_1 a hPhase =>
    rcases turn_cases hMap hStep with
      ⟨_, hEq⟩ | ⟨m, _, hEq⟩ | ⟨_, m, e, _, hEq⟩
    · exact ⟨_, _, hEq, Or.inl trivial⟩
    · exact ⟨_, _, hEq, Or.inl trivial⟩
    · exfalso
      rw [hEq] at hDone
      unfold begun at hDone
      cases hCopy : args.copy with
      | true | false =>
          rw [hCopy] at hDone
          cases hDone
  case h_2 w quick hPhase =>
    exfalso
    rcases Option.bind_eq_some_iff.mp hStep with
      ⟨e, _, hStep⟩
    split at hStep
    · rw [link_not_done hStep] at hDone
      cases hDone
    · cases hStep
      cases hDone
  case h_3 w wired result r hPhase =>
    split_ifs at hStep
    unfold copied at hStep
    split at hStep
    · split_ifs at hStep with hNot
      cases hStep
      exact ⟨_, _, rfl, Or.inr fun hEq => hNot (Or.inl hEq)⟩
    · exfalso
      split_ifs at hStep
      · split at hStep
        · cases hStep
          cases hDone
        · rw [link_not_done hStep] at hDone
          cases hDone
      · cases hStep
        cases hDone
  case h_4 => cases hStep

theorem balanced_done_iff
    {kr : KernReturn}
    (hPhase : s.phase = .done kr) :
    s.Balanced ↔
      s.held.Agrees (.ofEntries s.chain) ∧ s.locks = 0 := by
  constructor
  · intro h
    have hHeld := h.held
    have hLocks := h.locks
    unfold owed at hHeld
    unfold lockDue at hLocks
    rw [hPhase] at hHeld hLocks
    exact ⟨hHeld, hLocks⟩
  · rintro ⟨hHeld, hLocks⟩
    exact balanced_of hHeld (Or.inr ⟨kr, hPhase, hLocks⟩)

/- What a call that ended in balance should have done. -/
theorem outcome_finish_iff
    {kr : KernReturn}
    (hSize : Aligned args.size)
    (hWord : args.size < offsetModulus)
    (hStart : args.srcStart < offsetModulus)
    (hSound : (s.finish kr).Sound)
    (hPlaces : kr = .success →
      args.srcStart + args.size < offsetModulus →
        (s.finish kr).Places args) :
    (s.finish kr).Outcome args ↔
      (s.finish kr).Balanced ∧
        ((s.finish kr).succeeds = true →
          args.srcStart + args.size < offsetModulus) := by
  have hPhase := finish_phase s kr
  rw [balanced_done_iff hPhase]
  unfold Outcome succeeds
  rw [hPhase]
  by_cases hOk : kr = .success
  · subst hOk
    constructor
    · rintro ⟨hExtracted, hHeld, hLocks⟩
      exact ⟨⟨hHeld, hLocks⟩,
        fun _ => hExtracted.below hSound hStart⟩
    · rintro ⟨⟨hHeld, hLocks⟩, hRange⟩
      have hAt := hPlaces rfl (hRange rfl)
      exact ⟨hAt.1.extracted hSize hWord hAt.2, hHeld, hLocks⟩
  · have hChain : (s.finish kr).chain = [] := by
      unfold finish
      rw [if_neg hOk]
    have hNil : RefLedger.ofEntries [] = .zero := rfl
    rw [hChain, hNil]
    cases kr
    case success => exact absurd rfl hOk
    all_goals simp

end RemapState

------
-- Runs
------

/- A call whose steps so far met the condition. -/
structure RemapGood
    (args : ExtractArgs)
    (s : RemapState) : Prop where
  sound : s.Sound
  balanced : s.Balanced
  places : args.srcStart + args.size < offsetModulus →
    s.Places args

namespace RemapGood

variable {args : ExtractArgs} {m : VmMap} {s q : RemapState}

theorem step
    (hSize : Aligned args.size)
    (s : RemapState)
    (input : RemapInput)
    (q : RemapState)
    (h : RemapGood args s)
    (hMeets : s.Meets input)
    (hStep : remapStep args s input = some q) :
    RemapGood args q :=
  ⟨RemapState.Sound.step s input q h.sound hStep,
    (h.balanced.step_iff h.sound.map hStep).mpr hMeets.2,
    fun hWord => (h.places hWord).step h.sound.map hSize hWord
      hMeets.1 hStep⟩

theorem run
    {as : List RemapInput}
    (hSize : Aligned args.size)
    (h : RemapGood args s)
    (hMeets : Runs.Meets (remapStep args) RemapState.Meets
      s as)
    (hExec : Runs.exec (remapStep args) s as = some q) :
    RemapGood args q :=
  Runs.exec_invariant (step hSize) h hMeets hExec

theorem start
    (args : ExtractArgs)
    (hMap : MapOk m) :
    RemapGood args (remapStart args m) := by
  refine ⟨⟨hMap, ?_⟩, ?_, ?_⟩
  · intro l hl
    cases hl
  · refine RemapState.balanced_of ?_ (Or.inl ⟨rfl, rfl⟩)
    intro o _
    rfl
  · intro _
    refine ⟨truncPage_aligned _, rfl, Nat.zero_le _,
      Nat.le_refl _, rfl, rfl, ?_, rfl, rfl, ?_⟩
    · intro l hl
      cases hl
    · intro _ i hi
      cases hi

end RemapGood

/-
  What a call returns is as it should be exactly when its
  last step releases what it holds, and the range does not
  wrap if the call succeeds. The steps before it met the
  condition.
-/
theorem vmRemapExtract_outcome_iff
    {args : ExtractArgs}
    {m : VmMap}
    (hAddr : args.addr < offsetModulus)
    (hWord : args.size < offsetModulus)
    (hSize : Aligned args.size)
    (hMap : MapOk m) :
    ∀ as a p q,
      Runs.Meets (remapStep args) RemapState.Meets
        (remapStart args m) as →
      Runs.exec (remapStep args) (remapStart args m) as =
        some p →
      remapStep args p a = some q →
      q.isDone = true →
      (q.Outcome args ↔
        RemapState.Releases a ∧
          (q.succeeds = true →
            args.srcStart + args.size < offsetModulus)) := by
  intro as a p q hMeets hExec hStep hDone
  have hWas := (RemapGood.start args hMap).run hSize hMeets
    hExec
  have hSound := RemapState.Sound.step p a q hWas.sound hStep
  have hStart : args.srcStart < offsetModulus := by
    unfold ExtractArgs.srcStart truncPage
    omega
  rw [← hWas.balanced.step_iff hWas.sound.map hStep]
  rcases RemapState.done_cases hWas.sound.map hStep hDone with
    ⟨s', kr, hEq, hTells⟩
  subst hEq
  apply RemapState.outcome_finish_iff hSize hWord hStart hSound
  intro hOk hRange
  rcases hTells with hTells | hError
  · exact (hWas.places hRange).step hWas.sound.map hSize hRange
      hTells hStep
  · exact absurd hOk hError

------
-- Maps With One Entry
------

/- Two gigabytes from the last page of a task on. -/
def lastPageArgs : ExtractArgs :=
  { addr := 0xbffff000
    size := 0x80000000
    copy := false
    inheritance := inheritCopy }

def lastPageMap : VmMap :=
  soleMap (soleEntry 0xbffff000 0xc0000000 5 protAll 0)

theorem lastPageMap_ok : MapOk lastPageMap :=
  soleMap_ok (by decide) (by decide) ⟨rfl, rfl⟩

/- That page alone. -/
def onePageArgs : ExtractArgs :=
  { lastPageArgs with size := 0x1000 }

theorem vmRemapExtract_outcome_iff_lastPage :
    ∃ p q,
      Runs.exec (remapStep onePageArgs)
          (remapStart onePageArgs lastPageMap)
          [.turn quickAnswers] =
        some p ∧
      remapStep onePageArgs p (.turn quickAnswers) = some q ∧
      q.succeeds = true ∧ q.Outcome onePageArgs := by
  have hSize : Aligned onePageArgs.size := rfl
  refine ⟨_, _, rfl, rfl, rfl, ?_⟩
  exact (vmRemapExtract_outcome_iff (by decide) (by decide)
    hSize lastPageMap_ok [.turn quickAnswers]
    (.turn quickAnswers) _ _
    ⟨⟨trivial, trivial⟩, fun _ _ => trivial⟩ rfl rfl
    rfl).mpr ⟨trivial, fun _ => by decide⟩

/- What a call that takes some steps returns and holds. -/
def remapRun
    (args : ExtractArgs)
    (m : VmMap)
    (inputs : List RemapInput)
    (o : MapObject) :
    Option (RemapPhase × List (Nat × Nat) × Int × Int) :=
  (Runs.exec (remapStep args) (remapStart args m) inputs).map
    fun q =>
      (q.phase, q.chain.map fun e => (e.vmeStart, e.vmeEnd),
        q.held o, q.locks)

/- The page that is wired, gone while the map is unlocked. -/
def goneMap : VmMap :=
  soleMap (soleEntry 0x5000 0x6000 6 protAll 0)

theorem goneMap_ok : MapOk goneMap :=
  soleMap_ok (by decide) (by decide) ⟨rfl, rfl⟩

/-
  With the last page alone mapped the call succeeds for two
  gigabytes. Where a wired page cannot be read, the lock is
  released twice. Where a copy is to be made again and the
  page is gone, a reference is released that was not held.
-/
theorem vmRemapExtract_wraps :
    remapRun lastPageArgs lastPageMap
        [.turn quickAnswers, .turn quickAnswers]
        (.vmObject (some 5)) =
      some (.done .success, [(0, 0x80000000)], 1, 0) ∧
    remapRun ⟨0x1000, 0x1000, true, inheritCopy⟩ wiredMap
        [.turn quickAnswers, .quickly none,
          .copied true (.failed .memoryError)
            ⟨0, wiredMap, fun _ => wiredMap_ok⟩]
        (.vmObject (some 5)) =
      some (.done .memoryError, [], 0, -1) ∧
    remapRun ⟨0x1000, 0x1000, true, inheritCopy⟩
        (soleMap (soleEntry 0x1000 0x2000 5 protAll 0))
        [.turn quickAnswers, .quickly none,
          .copied false .restart ⟨1, goneMap, fun _ => goneMap_ok⟩,
          .turn quickAnswers]
        (.vmObject (some 5)) =
      some (.done .invalidAddress, [], -1, 0) := by
  refine ⟨?_, ?_, ?_⟩
  · decide
  · decide
  · decide

end Vm

end OsfMach
