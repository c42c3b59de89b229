import OsfMach.Vm.ForkTurns
import OsfMach.Vm.CopyinRuns
import OsfMach.Vm.Remap

/-
  What holds of the entries of a range while they are
  extracted.

  The references that the call holds are those of the new
  entries, and one of the object that is being copied. The
  lock is held once, or not at all while a copy is made. The
  new entries follow each other from zero on, and each one
  was made from a source entry around its range.

  Main declarations:
    * `RemapState.Balanced`, `RemapState.Places`
    * `RemapState.turn_cases`
    * `RemapState.Balanced.step_iff`
    * `RemapState.Places.step`
-/

------
-- Turns
------

namespace OsfMach

namespace Vm

open Lib

theorem shareObject_object
    (a : VmAnswers)
    (turn : Nat)
    (remap : Bool)
    (e : VmMapEntry) :
    (shareObject a turn remap e).object ≠ .vmObject none := by
  unfold shareObject allocateEntry shadowEntry
  split_ifs with hNone
  · simp
  · exact hNone
  · cases a.shadow turn with
    | none => exact hNone
    | some o => simp
  · exact hNone

namespace RemapState

variable {args : ExtractArgs} {a : VmAnswers} {s q : RemapState}
variable {w : RemapWork}
variable {e : VmMapEntry} {wired : Bool} {r : Relock}

/- The source entry that a turn finds. -/
structure Finds
    (s : RemapState)
    (m : VmMap)
    (e : VmMapEntry) : Prop where
  same : SameEntries s.map m
  mem : e ∈ m.entries
  start : e.vmeStart ≤ s.srcStart
  stop : s.srcStart < e.vmeEnd
  first : s.mapped ≠ 0 → s.srcStart = e.vmeStart

/- The map after the object of an entry is made right. -/
def sharedMap
    (a : VmAnswers)
    (m : VmMap)
    (e : VmMapEntry) : VmMap :=
  m.modify e.entryId (shareObject a 0 true)

/- A state in which an entry was linked. -/
def linkedWith
    (s : RemapState)
    (w : RemapWork)
    (e : VmMapEntry) : RemapState :=
  { s with
    phase := .top
    chain := s.chain ++ [w.new]
    curProtection := s.curProtection &&& e.protection
    maxProtection := s.maxProtection &&& e.maxProtection
    mapped := s.mapped + w.size
    srcStart := (s.srcStart + w.size) % offsetModulus
    linked := s.linked ++ [⟨w.new, e, s.map⟩] }

theorem link_eq_some
    (hLink : s.link w = some q) :
    ∃ e, s.map.find w.src = some e ∧ q = s.linkedWith w e := by
  rcases Option.map_eq_some_iff.mp hLink with ⟨e, hFind, hEq⟩
  exact ⟨e, hFind, hEq.symm⟩

/- Where a turn that finds a source entry goes on. -/
def begun
    (args : ExtractArgs)
    (a : VmAnswers)
    (s : RemapState)
    (m : VmMap)
    (e : VmMapEntry) : RemapState :=
  let e₁ := shareObject a 0 true e
  let w := s.work args e.entryId (s.tmpSize args e) e₁
  let s :=
    { s with
      map := sharedMap a m e, held := s.held.take e₁.object }
  if args.copy then { s with phase := .restart w }
  else
    { s with
      map := s.map.modify e.entryId fun x =>
        { x with isShared := true } }.linkedWith
      { w with new := { w.new with
        isShared := true, needsCopy := false } }
      { e₁ with isShared := true }

/- A turn ends the call, or begins an entry. -/
theorem turn_cases
    (h : MapOk s.map)
    (hTurn : s.turn args a = some q) :
    s.mapped = args.size ∧ q = s.finish s.result ∨
      (∃ m, SameEntries s.map m ∧
        q = { s with map := m }.finish .invalidAddress) ∨
      s.mapped ≠ args.size ∧
        ∃ m e, s.Finds m e ∧ q = begun args a s m e := by
  unfold turn at hTurn
  by_cases hAll : s.mapped = args.size
  · rw [if_pos hAll] at hTurn
    cases hTurn
    exact Or.inl ⟨hAll, rfl⟩
  rw [if_neg hAll] at hTurn
  have hLook := h.toMapCore.lookupEntry s.srcStart
  rcases hLook.inv h.toMapInv with ⟨hInv, hEntries⟩
  rcases hLook.same with ⟨hint, hSaved, _⟩
  rcases hRun : s.map.lookupEntry s.srcStart with
    ⟨found, i, m⟩
  rw [hRun] at hTurn hLook hInv hEntries hSaved
  dsimp only at hTurn hLook hInv hEntries hSaved
  have hSame : SameEntries s.map m := by
    refine ⟨h.steady hInv ?_ ?_, hEntries⟩
    · rw [hSaved]
      rfl
    · rw [hSaved]
      rfl
  right
  cases found with
  | false =>
      cases hTurn
      exact Or.inl ⟨m, hSame, rfl⟩
  | true =>
      rcases hLook.inside rfl with
        ⟨l, e, r, hSplit, hi, hLo, hHi⟩
      subst hi
      have he : e ∈ m.entries := by
        rw [hEntries]
        exact mem_of_split hSplit
      dsimp only at hTurn
      rw [hSame.ok.toMapOrder.find_eq he, Option.bind_some]
        at hTurn
      by_cases hGap : s.srcStart < e.vmeStart ∨
          s.mapped ≠ 0 ∧ s.srcStart ≠ e.vmeStart
      · rw [if_pos hGap] at hTurn
        cases hTurn
        exact Or.inl ⟨m, hSame, rfl⟩
      rw [if_neg hGap] at hTurn
      right
      have hFirst : s.mapped ≠ 0 → s.srcStart = e.vmeStart := by
        intro hSome
        by_contra hNot
        exact hGap (Or.inr ⟨hSome, hNot⟩)
      refine ⟨hAll, m, e, ⟨hSame, he, hLo, hHi, hFirst⟩, ?_⟩
      have hKeeps := keepsRange_shareObject a 0 true
      have hMem := mem_modify he (shareObject a 0 true)
      have hSteady := hSame.ok.modify hKeeps e.entryId
      have hFind := hSteady.ok.toMapOrder.find_eq hMem
      rw [hKeeps.entryId] at hFind
      rw [hFind, Option.bind_some] at hTurn
      unfold begun sharedMap
      cases hCopy : args.copy with
      | true =>
          rw [hCopy] at hTurn
          cases hTurn
          rfl
      | false =>
          rw [hCopy] at hTurn
          rcases link_eq_some hTurn with ⟨e', hFind', hEq⟩
          have hId := hKeeps.entryId e
          have hSteady' := hSteady.ok.modify
            keepsRange_isShared e.entryId
          have hMem' : { shareObject a 0 true e with
                isShared := true } ∈
              ((m.modify e.entryId
                (shareObject a 0 true)).modify e.entryId
                  fun x => { x with isShared := true }).entries :=
            List.mem_map.mpr ⟨_, hMem, if_pos hId⟩
          have hFound := hSteady'.ok.toMapOrder.find_eq hMem'
          have hSame' : e' = { shareObject a 0 true e with
              isShared := true } := by
            apply Option.some.inj
            rw [← hFound, ← hFind']
            rw [hId]
            rfl
          rw [hEq, hSame']
          rfl

------
-- References and the Lock
------

open RefLedger

/- The references that the call should hold. -/
def owed (s : RemapState) : RefLedger :=
  match s.phase with
  | .restart w => (ofEntries s.chain).take w.object
  | .blocked w => (ofEntries s.chain).take w.object
  | _ => ofEntries s.chain

/- How often the call should hold the lock of the map. -/
def lockDue (s : RemapState) : Int :=
  match s.phase with
  | .top => 1
  | .restart _ => 1
  | .blocked _ => 0
  | .done _ => 0

/- The new entry still has the object that is to be copied. -/
def Sourced (w : RemapWork) : Prop :=
  w.new.object = w.object ∧ w.object ≠ .vmObject none

structure Balanced (s : RemapState) : Prop where
  held : s.held.Agrees s.owed
  locks : s.locks = s.lockDue
  restart : ∀ w, s.phase = .restart w → Sourced w
  blocked : ∀ w, s.phase = .blocked w → Sourced w

/-
  What the object layer has to answer for the call to keep
  its references and the lock. A copy that is made without
  the lock does not fail. It is to be made again only if the
  map has not changed.
-/
def Releases : RemapInput → Prop
| .copied _ (.failed _) _ => False
| .copied _ .restart r => r.sameStamp = true
| _ => True

/- A call that has the lock, or has ended, is in balance. -/
theorem balanced_of
    (hHeld : q.held.Agrees (ofEntries q.chain))
    (hPhase : q.phase = .top ∧ q.locks = 1 ∨
      ∃ kr, q.phase = .done kr ∧ q.locks = 0) :
    q.Balanced := by
  rcases hPhase with ⟨hTop, hLocks⟩ | ⟨kr, hDone, hLocks⟩
  · refine ⟨?_, ?_, ?_, ?_⟩
    · unfold owed
      rw [hTop]
      exact hHeld
    · unfold lockDue
      rw [hTop]
      exact hLocks
    · intro w hPhase
      rw [hTop] at hPhase
      cases hPhase
    · intro w hPhase
      rw [hTop] at hPhase
      cases hPhase
  · refine ⟨?_, ?_, ?_, ?_⟩
    · unfold owed
      rw [hDone]
      exact hHeld
    · unfold lockDue
      rw [hDone]
      exact hLocks
    · intro w hPhase
      rw [hDone] at hPhase
      cases hPhase
    · intro w hPhase
      rw [hDone] at hPhase
      cases hPhase

theorem balanced_finish
    {kr : KernReturn}
    (hHeld : s.held.Agrees (ofEntries s.chain))
    (hLocks : s.locks = 1) :
    (s.finish kr).Balanced := by
  unfold finish
  split_ifs
  · refine balanced_of hHeld (Or.inr ⟨kr, rfl, ?_⟩)
    dsimp only
    omega
  · refine balanced_of ?_ (Or.inr ⟨kr, rfl, ?_⟩)
    · exact agrees_discard_iff.mpr hHeld
    · dsimp only
      omega

theorem balanced_linkedWith
    (hHeld : s.held.Agrees
      ((ofEntries s.chain).take w.new.object))
    (hLocks : s.locks = 1) :
    (s.linkedWith w e).Balanced := by
  refine balanced_of ?_ (Or.inl ⟨rfl, hLocks⟩)
  intro x hx
  exact (hHeld x hx).trans (ofEntries_snoc _ _ hx).symm

theorem balanced_begun
    {m : VmMap}
    (hHeld : s.held.Agrees (ofEntries s.chain))
    (hLocks : s.locks = 1) :
    (begun args a s m e).Balanced := by
  have hTaken := hHeld.take (shareObject a 0 true e).object
  unfold begun
  cases args.copy with
  | true =>
      refine ⟨hTaken, hLocks, ?_, ?_⟩
      · intro w hPhase
        cases hPhase
        exact ⟨rfl, shareObject_object a 0 true e⟩
      · intro w hPhase
        cases hPhase
  | false => exact balanced_linkedWith hTaken hLocks

/- Another object is taken, and the old one let go of. -/
theorem agrees_swap
    {h k : RefLedger}
    {o : MapObject}
    (o' : MapObject)
    (hHeld : h.Agrees (k.take o)) :
    ((h.take o').drop o).Agrees (k.take o') :=
  (((hHeld.take o').trans
    (agrees_take_comm k o o')).drop o).trans
      (agrees_drop_take _ o)

theorem balanced_quickly
    {quick : Option (MapObject × Bool × Bool)}
    (hHeld : s.held.Agrees ((ofEntries s.chain).take w.object))
    (hLocks : s.locks = 1)
    (hSourced : Sourced w)
    (hQuickly : s.quickly w quick = some q) :
    q.Balanced := by
  rcases Option.bind_eq_some_iff.mp hQuickly with
    ⟨e, _, hQuickly⟩
  split at hQuickly
  · rename_i object src new _ _
    rcases link_eq_some hQuickly with ⟨e', _, hEq⟩
    rw [hEq]
    refine balanced_linkedWith ?_ ?_
    · exact agrees_swap object hHeld
    · exact hLocks
  · cases hQuickly
    refine ⟨hHeld, ?_, ?_, ?_⟩
    · unfold lockDue
      dsimp only
      omega
    · intro w' hPhase
      cases hPhase
    · intro w' hPhase
      cases hPhase
      exact hSourced

theorem copiedNew_object
    (new : VmMapEntry)
    (wired : Bool)
    (object : MapObject)
    (offset : Nat)
    (needsCopy : Bool) :
    (copiedNew new wired
      (.success object offset needsCopy)).object = object := by
  cases wired <;> rfl

/- The two ends of a copy that leave the loop as it was. -/
theorem balanced_copied_success
    {object : MapObject}
    {offset : Nat}
    {needsCopy : Bool}
    (hHeld : s.held.Agrees ((ofEntries s.chain).take w.object))
    (hLocks : s.locks = 0)
    (hCopied : s.copied w wired
      (.success object offset needsCopy) r = some q) :
    q.Balanced := by
  have hNew := copiedNew_object w.new wired object offset
    needsCopy
  have hSwap := agrees_swap object hHeld
  unfold copied at hCopied
  split_ifs at hCopied with hStamp
  · rcases link_eq_some hCopied with ⟨e, _, hEq⟩
    rw [hEq]
    refine balanced_linkedWith ?_ ?_
    · rw [hNew]
      exact hSwap
    · dsimp only
      omega
  · cases hCopied
    refine balanced_of ?_ (Or.inl ⟨rfl, ?_⟩)
    · rw [hNew]
      exact (hSwap.drop object).trans (agrees_drop_take _ _)
    · dsimp only
      omega

/- A copy that is to be made again after the map changed. -/
theorem balanced_copied_restart_iff
    (hHeld : s.held.Agrees ((ofEntries s.chain).take w.object))
    (hLocks : s.locks = 0)
    (hSourced : Sourced w)
    (hCopied : s.copied w wired .restart r = some q) :
    q.Balanced ↔ r.sameStamp = true := by
  have hDropped := (hHeld.drop w.object).trans
    (agrees_drop_take _ w.object)
  unfold copied at hCopied
  dsimp only at hCopied
  by_cases hStamp : r.sameStamp = true
  · rw [if_pos hStamp] at hCopied
    cases hCopied
    refine iff_of_true ⟨?_, ?_, ?_, ?_⟩ hStamp
    · exact hDropped.take w.object
    · unfold lockDue
      dsimp only
      omega
    · intro w' hPhase
      cases hPhase
      exact hSourced
    · intro w' hPhase
      cases hPhase
  · rw [if_neg hStamp] at hCopied
    cases hCopied
    refine iff_of_false ?_ hStamp
    intro hBalanced
    have hTwice : ((copiedHeld s.held w .restart).drop
        w.new.object).Agrees (ofEntries s.chain) :=
      hBalanced.held
    rw [hSourced.1] at hTwice
    have hNone : ((copiedHeld s.held w .restart).drop
        w.object).Agrees (copiedHeld s.held w .restart) :=
      fun x hx => (hTwice x hx).trans (hDropped x hx).symm
    exact hSourced.2 (agrees_drop_iff.mp hNone)

/- Exactly the answers that release keep the balance. -/
theorem Balanced.step_iff
    {input : RemapInput}
    (h : s.Balanced)
    (hMap : MapOk s.map)
    (hStep : remapStep args s input = some q) :
    q.Balanced ↔ Releases input := by
  have hHeld := h.held
  have hLocks := h.locks
  unfold owed at hHeld
  unfold lockDue at hLocks
  unfold remapStep at hStep
  split at hStep
  case h_1 a hPhase =>
    rw [hPhase] at hHeld hLocks
    refine iff_of_true ?_ trivial
    rcases turn_cases hMap hStep with
      ⟨_, hEq⟩ | ⟨m, _, hEq⟩ | ⟨_, m, e, _, hEq⟩
    · rw [hEq]
      exact balanced_finish hHeld hLocks
    · rw [hEq]
      refine balanced_finish ?_ ?_
      · exact hHeld
      · exact hLocks
    · rw [hEq]
      exact balanced_begun hHeld hLocks
  case h_2 w quick hPhase =>
    rw [hPhase] at hHeld hLocks
    refine iff_of_true ?_ trivial
    exact balanced_quickly hHeld hLocks (h.restart w hPhase)
      hStep
  case h_3 w wired result r hPhase =>
    rw [hPhase] at hHeld hLocks
    split_ifs at hStep
    cases result with
    | success object offset needsCopy =>
        exact iff_of_true
          (balanced_copied_success hHeld hLocks hStep) trivial
    | restart =>
        exact balanced_copied_restart_iff hHeld hLocks
          (h.blocked w hPhase) hStep
    | failed kr =>
        refine iff_of_false ?_ id
        intro hBalanced
        unfold copied at hStep
        dsimp only at hStep
        split_ifs at hStep
        cases hStep
        -- the lock is released where it is not held
        have hNone : s.locks = 0 := hLocks
        have hEnd : s.locks - 1 = 0 := by
          have hLast := hBalanced.locks
          unfold finish at hLast
          split_ifs at hLast
          · exact hLast
          · exact hLast
        omega
  case h_4 => cases hStep

end RemapState

------
-- Places
------

section

variable {m : VmMap} {l r : List VmMapEntry} {e : VmMapEntry}
variable {a : Nat}

theorem MapOrder.view_of_mem
    (h : MapOrder m)
    (he : e ∈ m.entries)
    (hIn : e.vmeStart ≤ a ∧ a < e.vmeEnd) :
    m.view a = some (e.attributes a) := by
  rcases List.append_of_mem he with ⟨l, r, hSplit⟩
  have hTiles := h.tilesOf hSplit
  unfold VmMap.view entriesView
  rw [hSplit, Tiles.covering_eq_some hTiles hIn.1 hIn.2]
  rfl

/- A change of one entry leaves what is outside of it. -/
theorem view_modify_outside
    {f : VmMapEntry → VmMapEntry}
    (h : MapOrder m)
    (hf : KeepsRange f)
    (he : e ∈ m.entries)
    (hOut : ¬ (e.vmeStart ≤ a ∧ a < e.vmeEnd)) :
    (m.modify e.entryId f).view a = m.view a := by
  rcases List.append_of_mem he with ⟨l, r, hSplit⟩
  have hIds := h.idsOf hSplit
  unfold VmMap.view
  rw [modify_split hIds hSplit f, hSplit, entriesView_append,
    entriesView_append, entriesView_cons, entriesView_cons,
    hf.vmeStart, hf.vmeEnd, if_neg hOut, if_neg hOut]

end

/- Two pages of the same object at the same offset. -/
def SamePage (p p' : Option PageAttributes) : Prop :=
  ∃ x y, p = some x ∧ p' = some y ∧
    y.object = x.object ∧ y.offset = x.offset

/- The source entry is mapped around the range. -/
structure RemapLink.From
    (args : ExtractArgs)
    (l : RemapLink) : Prop where
  src : l.src ∈ l.locked.entries
  start : l.src.vmeStart ≤ args.srcStart + l.new.vmeStart
  stop : args.srcStart + l.new.vmeEnd ≤ l.src.vmeEnd

namespace RemapState

/-
  The new entries cover what is mapped so far. Each page of
  it was mapped, and is the same one if it is shared. The
  protections are those of the sources.
-/
structure Placed
    (args : ExtractArgs)
    (s : RemapState) : Prop where
  aligned : Aligned s.srcStart
  start : s.srcStart = args.srcStart + s.mapped
  le : s.mapped ≤ args.size
  tiles : EntryTiles 0 s.mapped s.chain
  chain : EntryContiguous 0 s.mapped s.chain
  new : s.chain = s.linked.map RemapLink.new
  sources : ∀ l ∈ s.linked, l.From args
  cur : s.curProtection =
    s.linked.foldl (fun p l => p &&& l.src.protection) protAll
  max : s.maxProtection =
    s.linked.foldl (fun p l => p &&& l.src.maxProtection)
      protAll
  pages : args.copy = false → ∀ i, i < s.mapped →
    SamePage (s.map.view (args.srcStart + i))
      (entriesView s.chain i)

/- An entry that is to be linked comes next. -/
structure Pending
    (args : ExtractArgs)
    (s : RemapState)
    (w : RemapWork) : Prop where
  start : w.new.vmeStart = s.mapped
  stop : w.new.vmeEnd = s.mapped + w.size
  pos : 0 < w.size
  le : s.mapped + w.size ≤ args.size
  aligned : Aligned (s.srcStart + w.size)

/- The source entry of one that is being copied. -/
structure Copying
    (args : ExtractArgs)
    (s : RemapState)
    (w : RemapWork) : Prop extends Pending args s w where
  copy : args.copy = true
  src : ∀ e, s.map.find w.src = some e →
    e.vmeStart ≤ s.srcStart ∧ s.srcStart + w.size ≤ e.vmeEnd

def Places (args : ExtractArgs) (s : RemapState) : Prop :=
  match s.phase with
  | .top => s.Placed args
  | .restart w => s.Placed args ∧ Copying args s w
  | .blocked w => s.Placed args ∧ Copying args s w
  | .done .success => s.Placed args ∧ s.mapped = args.size
  | .done _ => True

/-
  When the time stamp is as it was, the entry that is being
  copied is as it was.
-/
def StampTells (s : RemapState) : RemapInput → Prop
| .copied _ _ r =>
    ∀ w,
      s.phase = .blocked w →
      r.sameStamp = true →
      r.found.find w.src = s.map.find w.src
| _ => True

variable {args : ExtractArgs} {s q : RemapState} {w : RemapWork}
variable {m : VmMap} {e : VmMapEntry}

/- The map changed outside of what is mapped so far. -/
theorem Placed.onMap
    (h : s.Placed args)
    (hMapped : q.mapped = s.mapped)
    (hStart : q.srcStart = s.srcStart)
    (hChain : q.chain = s.chain)
    (hLinked : q.linked = s.linked)
    (hCur : q.curProtection = s.curProtection)
    (hMax : q.maxProtection = s.maxProtection)
    (hPages : args.copy = false → ∀ i, i < s.mapped →
      q.map.view (args.srcStart + i) =
        s.map.view (args.srcStart + i)) :
    q.Placed args := by
  refine ⟨?_, ?_, ?_, ?_, ?_, ?_, ?_, ?_, ?_, ?_⟩
  · rw [hStart]
    exact h.aligned
  · rw [hStart, hMapped]
    exact h.start
  · rw [hMapped]
    exact h.le
  · rw [hMapped, hChain]
    exact h.tiles
  · rw [hMapped, hChain]
    exact h.chain
  · rw [hChain, hLinked]
    exact h.new
  · rw [hLinked]
    exact h.sources
  · rw [hCur, hLinked]
    exact h.cur
  · rw [hMax, hLinked]
    exact h.max
  · intro hCopy i hi
    rw [hMapped] at hi
    rw [hPages hCopy i hi, hChain]
    exact h.pages hCopy i hi

/- Linking an entry whose source is around it. -/
theorem Placed.link
    (h : s.Placed args)
    (hWord : args.srcStart + args.size < offsetModulus)
    (hMap : MapOk s.map)
    (hPending : Pending args s w)
    (he : e ∈ s.map.entries)
    (hStart : e.vmeStart ≤ s.srcStart)
    (hStop : s.srcStart + w.size ≤ e.vmeEnd)
    (hShared : args.copy = false →
      w.new.object = e.object ∧
        w.new.offset = e.offsetAt s.srcStart) :
    (s.linkedWith w e).Placed args := by
  have hFrom := h.start
  have hPos := hPending.pos
  have hLe := hPending.le
  have hNewStart := hPending.start
  have hNewStop := hPending.stop
  have hNoWrap : (s.srcStart + w.size) % offsetModulus =
      s.srcStart + w.size := by
    apply Nat.mod_eq_of_lt
    omega
  refine ⟨?_, ?_, hLe, ?_, ?_, ?_, ?_, ?_, ?_, ?_⟩
  · unfold linkedWith
    rw [hNoWrap]
    exact hPending.aligned
  · unfold linkedWith
    dsimp only
    omega
  · refine tiles_append.mpr ⟨s.mapped, h.tiles, ?_, ?_, ?_⟩
    · omega
    · omega
    · exact Nat.le_of_eq hNewStop
  · refine contiguous_append.mpr ⟨s.mapped, h.chain, ?_, ?_⟩
    · exact hNewStart
    · exact hNewStop
  · unfold linkedWith
    rw [List.map_append, h.new]
    rfl
  · intro l hl
    rcases List.mem_append.mp hl with hOld | hNew
    · exact h.sources l hOld
    · rw [List.mem_singleton.mp hNew]
      refine ⟨he, ?_, ?_⟩
      · dsimp only
        omega
      · dsimp only
        omega
  · unfold linkedWith
    rw [List.foldl_append, h.cur]
    rfl
  · unfold linkedWith
    rw [List.foldl_append, h.max]
    rfl
  · intro hCopy i hi
    have hi' : i < s.mapped + w.size := hi
    unfold linkedWith
    rw [entriesView_append]
    by_cases hOld : i < s.mapped
    · rcases h.pages hCopy i hOld with
        ⟨x, y, hx, hy, hSame⟩
      refine ⟨x, y, hx, ?_, hSame⟩
      rw [hy]
      rfl
    · have hNone : entriesView s.chain i = none := by
        unfold entriesView
        rw [Tiles.covering_above h.tiles (by omega)]
        rfl
      have hIn : w.new.vmeStart ≤ i ∧ i < w.new.vmeEnd := by
        omega
      rw [hNone, Option.none_or, entriesView_cons,
        if_pos hIn, hMap.toMapOrder.view_of_mem he (by omega)]
      rcases hShared hCopy with ⟨hObject, hOffset⟩
      refine ⟨_, _, rfl, rfl, hObject, ?_⟩
      unfold VmMapEntry.attributes VmMapEntry.offsetAt at *
      dsimp only
      rw [hOffset, Nat.mod_add_mod]
      congr 1
      omega

theorem srcEnd_eq
    (hSize : Aligned args.size)
    (hWord : args.srcStart + args.size < offsetModulus) :
    args.srcEnd = args.srcStart + args.size := by
  have hStart : Aligned args.srcStart := truncPage_aligned _
  unfold ExtractArgs.srcEnd roundPage truncPage
  unfold Aligned pageSize at hSize hStart
  unfold pageSize
  unfold offsetModulus at hWord ⊢
  omega

/- What is mapped of an entry is inside of it. -/
theorem tmpSize_spec
    (h : s.Placed args)
    (hSize : Aligned args.size)
    (hWord : args.srcStart + args.size < offsetModulus)
    (hMore : s.mapped ≠ args.size)
    (hFinds : s.Finds m e) :
    0 < s.tmpSize args e ∧
      s.mapped + s.tmpSize args e ≤ args.size ∧
      s.srcStart + s.tmpSize args e ≤ e.vmeEnd ∧
      Aligned (s.srcStart + s.tmpSize args e) := by
  have hStart := h.start
  have hLe := h.le
  have hHi := hFinds.stop
  have hEnd := (hFinds.same.ok.aligned e hFinds.mem).2
  have hFrom : Aligned args.srcStart := truncPage_aligned _
  unfold tmpSize
  rw [srcEnd_eq hSize hWord]
  by_cases hShort : e.vmeEnd < args.srcStart + args.size
  · rw [if_pos hShort]
    have hAll : s.srcStart + (args.size - s.mapped -
        (args.srcStart + args.size - e.vmeEnd)) =
          e.vmeEnd := by
      omega
    rw [hAll]
    refine ⟨by omega, by omega, Nat.le_refl _, hEnd⟩
  · rw [if_neg hShort]
    refine ⟨by omega, by omega, by omega, ?_⟩
    unfold Aligned pageSize at *
    omega

/- Pages below the entry that is found are not in it. -/
theorem below_found
    {i : Nat}
    (h : s.Placed args)
    (hFinds : s.Finds m e)
    (hi : i < s.mapped) :
    ¬ (e.vmeStart ≤ args.srcStart + i ∧
      args.srcStart + i < e.vmeEnd) := by
  have hStart := h.start
  have hFirst := hFinds.first (by omega)
  omega

/- The entry that a turn begins comes next. -/
theorem pending_work
    {i size : Nat}
    (hMapped : q.mapped = s.mapped)
    (hStart : q.srcStart = s.srcStart)
    (hPos : 0 < size)
    (hLe : s.mapped + size ≤ args.size)
    (hAligned : Aligned (s.srcStart + size)) :
    Pending args q (s.work args i size e) := by
  refine ⟨?_, ?_, hPos, ?_, ?_⟩
  · rw [hMapped]
    rfl
  · rw [hMapped]
    rfl
  · rw [hMapped]
    exact hLe
  · rw [hStart]
    exact hAligned

/- A turn that begins an entry. -/
theorem places_begun
    {a : VmAnswers}
    (h : s.Placed args)
    (hSize : Aligned args.size)
    (hWord : args.srcStart + args.size < offsetModulus)
    (hMore : s.mapped ≠ args.size)
    (hFinds : s.Finds m e) :
    (begun args a s m e).Places args := by
  rcases tmpSize_spec h hSize hWord hMore hFinds with
    ⟨hPos, hLe, hStop, hAligned⟩
  have hKeeps := keepsRange_shareObject a 0 true
  have hOk := hFinds.same.ok
  have hMem := mem_modify hFinds.mem (shareObject a 0 true)
  have hSteady := hOk.modify hKeeps e.entryId
  have hId := hKeeps.entryId e
  have hLo := hKeeps.vmeStart e
  have hHi := hKeeps.vmeEnd e
  have hStart := hFinds.start
  have hView : ∀ i, i < s.mapped →
      (sharedMap a m e).view (args.srcStart + i) =
        s.map.view (args.srcStart + i) := by
    intro i hi
    have hOut := below_found h hFinds hi
    have hSame := view_modify_outside hOk.toMapOrder hKeeps
      hFinds.mem hOut
    have hFound : m.view (args.srcStart + i) =
        s.map.view (args.srcStart + i) := by
      unfold VmMap.view
      rw [hFinds.same.entries]
    exact hSame.trans hFound
  unfold begun
  generalize s.tmpSize args e = size at *
  cases hCopy : args.copy with
  | true =>
      refine ⟨?_, ?_⟩
      · refine h.onMap rfl rfl rfl rfl rfl rfl ?_
        intro _ i hi
        exact hView i hi
      · refine ⟨pending_work rfl rfl hPos hLe hAligned, hCopy,
          ?_⟩
        intro e' hFind
        have hFound := hSteady.ok.toMapOrder.find_eq hMem
        have hFind' : (m.modify e.entryId
            (shareObject a 0 true)).find
              (shareObject a 0 true e).entryId = some e' := by
          rw [hId]
          exact hFind
        have hIs := Option.some.inj (hFind'.symm.trans hFound)
        rw [hIs, hLo, hHi]
        exact ⟨hStart, hStop⟩
  | false =>
      have hSteady' := hSteady.ok.modify keepsRange_isShared
        e.entryId
      have hMem' : { shareObject a 0 true e with
            isShared := true } ∈
          ((sharedMap a m e).modify e.entryId
            fun x => { x with isShared := true }).entries :=
        List.mem_map.mpr ⟨_, hMem, if_pos hId⟩
      refine Placed.link ?_ hWord hSteady'.ok ?_ hMem' ?_ ?_ ?_
      · refine h.onMap rfl rfl rfl rfl rfl rfl ?_
        intro _ i hi
        have hOut := below_found h hFinds hi
        rw [← hLo, ← hHi] at hOut
        have hSame := view_modify_outside
          hSteady.ok.toMapOrder keepsRange_isShared hMem hOut
        rw [hId] at hSame
        exact hSame.trans (hView i hi)
      · exact ⟨rfl, rfl, hPos, hLe, hAligned⟩
      · rw [hLo]
        exact hStart
      · rw [hHi]
        exact hStop
      · intro _
        exact ⟨rfl, rfl⟩

theorem places_link
    (h : s.Placed args)
    (hWord : args.srcStart + args.size < offsetModulus)
    (hMap : MapOk s.map)
    (hCopying : Copying args s w)
    (hLink : s.link w = some q) :
    q.Places args := by
  rcases link_eq_some hLink with ⟨e, hFind, hEq⟩
  rw [hEq]
  rcases hCopying.src e hFind with ⟨hStart, hStop⟩
  refine h.link hWord hMap hCopying.toPending
    (mem_of_find hFind).1 hStart hStop ?_
  intro hCopy
  rw [hCopying.copy] at hCopy
  cases hCopy

theorem places_quickly
    {quick : Option (MapObject × Bool × Bool)}
    (h : s.Placed args)
    (hWord : args.srcStart + args.size < offsetModulus)
    (hMap : MapOk s.map)
    (hCopying : Copying args s w)
    (hQuickly : s.quickly w quick = some q) :
    q.Places args := by
  rcases Option.bind_eq_some_iff.mp hQuickly with
    ⟨e, hFind, hQuickly⟩
  have hPages : ∀ m' : VmMap, args.copy = false →
      ∀ i, i < s.mapped →
        m'.view (args.srcStart + i) =
          s.map.view (args.srcStart + i) := by
    intro m' hCopy
    rw [hCopying.copy] at hCopy
    cases hCopy
  split at hQuickly
  · rename_i object src new _ _
    refine places_link ?_ hWord ?_ ?_ hQuickly
    · exact h.onMap rfl rfl rfl rfl rfl rfl (hPages _)
    · split_ifs
      · exact (hMap.modify keepsRange_needsCopy _).ok
      · exact hMap
    · refine ⟨⟨hCopying.start, hCopying.stop, hCopying.pos,
        hCopying.le, hCopying.aligned⟩, hCopying.copy, ?_⟩
      intro e' hFind'
      split_ifs at hFind'
      · rcases mem_of_find hFind' with ⟨he', hId'⟩
        rcases mem_of_modify keepsRange_needsCopy he' with
          ⟨x, hx, hId, hLo, hHi⟩
        have hSame := hMap.toMapOrder.find_eq hx
        rw [hId, hId'] at hSame
        rw [← hLo, ← hHi]
        exact hCopying.src x hSame
      · exact hCopying.src e' hFind'
  · cases hQuickly
    refine ⟨h.onMap rfl rfl rfl rfl rfl rfl (hPages _), ?_⟩
    exact ⟨⟨hCopying.start, hCopying.stop, hCopying.pos,
      hCopying.le, hCopying.aligned⟩, hCopying.copy,
      hCopying.src⟩

theorem copiedNew_place
    (new : VmMapEntry)
    (wired : Bool)
    (result : CopyResult) :
    (copiedNew new wired result).vmeStart = new.vmeStart ∧
      (copiedNew new wired result).vmeEnd = new.vmeEnd := by
  cases result with
  | success object offset needsCopy =>
      cases wired <;> exact ⟨rfl, rfl⟩
  | restart => exact ⟨rfl, rfl⟩
  | failed kr => exact ⟨rfl, rfl⟩

theorem places_finish
    {kr : KernReturn}
    (hError : kr ≠ .success) :
    (s.finish kr).Places args := by
  cases kr
  case success => exact absurd rfl hError
  all_goals exact trivial

theorem places_copied
    {wired : Bool}
    {result : CopyResult}
    {r : Relock}
    (h : s.Placed args)
    (hWord : args.srcStart + args.size < offsetModulus)
    (hCopying : Copying args s w)
    (hTells : r.sameStamp = true →
      r.found.find w.src = s.map.find w.src)
    (hFound : MapOk r.found)
    (hCopied : s.copied w wired result r = some q) :
    q.Places args := by
  have hPages : ∀ m' : VmMap, args.copy = false →
      ∀ i, i < s.mapped →
        m'.view (args.srcStart + i) =
          s.map.view (args.srcStart + i) := by
    intro m' hCopy
    rw [hCopying.copy] at hCopy
    cases hCopy
  rcases copiedNew_place w.new wired result with
    ⟨hNewStart, hNewEnd⟩
  have hAgain : ∀ q : RemapState,
      q.mapped = s.mapped → q.srcStart = s.srcStart →
      q.map = r.found → r.sameStamp = true →
      Copying args q
        { w with new := copiedNew w.new wired result } := by
    intro q hMapped hStart hMap hStamp
    refine ⟨⟨?_, ?_, hCopying.pos, ?_, ?_⟩, hCopying.copy, ?_⟩
    · rw [hMapped, ← hCopying.start]
      exact hNewStart
    · rw [hMapped, ← hCopying.stop]
      exact hNewEnd
    · rw [hMapped]
      exact hCopying.le
    · rw [hStart]
      exact hCopying.aligned
    · intro e hFind
      rw [hMap] at hFind
      rw [hStart]
      exact hCopying.src e ((hTells hStamp).symm.trans hFind)
  unfold copied at hCopied
  split at hCopied
  · rename_i kr
    split_ifs at hCopied with hNot
    cases hCopied
    exact places_finish fun hEq => hNot (Or.inl hEq)
  · by_cases hStamp : r.sameStamp = true
    · rw [if_pos hStamp] at hCopied
      split at hCopied
      · cases hCopied
        exact ⟨h.onMap rfl rfl rfl rfl rfl rfl (hPages _),
          hAgain _ rfl rfl rfl hStamp⟩
      · refine places_link ?_ hWord hFound ?_ hCopied
        · exact h.onMap rfl rfl rfl rfl rfl rfl (hPages _)
        · exact hAgain _ rfl rfl rfl hStamp
    · rw [if_neg hStamp] at hCopied
      cases hCopied
      exact h.onMap rfl rfl rfl rfl rfl rfl (hPages _)

/- A step keeps the places, if the range does not wrap. -/
theorem Places.step
    {input : RemapInput}
    (h : s.Places args)
    (hMap : MapOk s.map)
    (hSize : Aligned args.size)
    (hWord : args.srcStart + args.size < offsetModulus)
    (hTells : s.StampTells input)
    (hStep : remapStep args s input = some q) :
    q.Places args := by
  unfold Places at h
  unfold remapStep at hStep
  split at hStep
  case h_1 a hPhase =>
    rw [hPhase] at h
    rcases turn_cases hMap hStep with
      ⟨hAll, hEq⟩ | ⟨m, _, hEq⟩ | ⟨hMore, m, e, hFinds, hEq⟩
    · rw [hEq]
      by_cases hResult : s.result = .success
      · rw [hResult]
        refine ⟨?_, hAll⟩
        exact h.onMap rfl rfl rfl rfl rfl rfl
          fun _ _ _ => rfl
      · exact places_finish hResult
    · rw [hEq]
      exact places_finish (by decide)
    · rw [hEq]
      exact places_begun h hSize hWord hMore hFinds
  case h_2 w quick hPhase =>
    rw [hPhase] at h
    exact places_quickly h.1 hWord hMap h.2 hStep
  case h_3 w wired result r hPhase =>
    rw [hPhase] at h
    split_ifs at hStep with hFollows
    exact places_copied h.1 hWord h.2 (hTells w hPhase)
      (hFollows.1.mapOk hMap) hStep
  case h_4 => cases hStep

end RemapState

end Vm

end OsfMach
