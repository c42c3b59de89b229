import OsfMach.Vm.CopyinInv

/-
  When a copy of a range comes to an end.

  Each turn of the loop links an entry of at least one page.
  Only a copy that is made without the lock can start over:
  the object layer asks for it, or other threads locked the
  map. So the steps of a call are bounded by the pages and
  by how often it started over.

  With an end of zero the loop splits an empty entry off the
  first one and goes on with the rest, for ever.

  Main declarations:
    * `CopyinState.made_step`, `CopyinState.steps_lt`
    * `CopyinState.Points.step`, `CopyinState.step_possible`
    * `CopyinState.Stays.step`
-/

------
-- Steps
------

namespace OsfMach

namespace Vm

open Lib

namespace CopyinInput

/- A copy that was made without the lock may start over. -/
def disturbs : CopyinInput → Bool
| .copied .restart _ => true
| .copied _ r => !r.sameStamp
| _ => false

/- An unchanged time stamp means that no one was there. -/
def exact : CopyinInput → Prop
| .alloc r => r.sameStamp = true → r.others = 0
| .copied _ r => r.sameStamp = true → r.others = 0
| _ => True

/- No one else locks the map, and a copy succeeds. -/
def quiet : CopyinInput → Prop
| .alloc r => r.others = 0
| .copied (.success _ _ _) r => r.others = 0
| .copied _ _ => False
| _ => True

end CopyinInput

/- The pages of the range, whose end is not the top. -/
def CopyinArgs.pages (args : CopyinArgs) : Nat :=
  (args.srcEnd - args.srcStart) / pageSize

/- The steps of a turn of the loop before a phase. -/
def CopyinPhase.steps : CopyinPhase → Nat
| .top _ false => 0
| .top _ true => 1
| .restart _ => 2
| .blocked _ => 3
| .deleting => 0
| .done _ _ => 4

namespace CopyinState

variable {args : CopyinArgs} {s q : CopyinState}
variable {w : CopyinWork} {a : CopyinInput} {i : Nat}

/- How far a call has come: four steps for each entry. -/
def made (s : CopyinState) : Nat :=
  4 * s.copy.entries.length + s.phase.steps

/- The copy is longer, whatever comes next. -/
theorem made_link
    (hLink : s.link args w = some q) :
    4 * s.copy.entries.length + 4 ≤ q.made := by
  have hLength : (s.copy.link w.new).entries.length =
      s.copy.entries.length + 1 := by
    unfold VmMapCopy.link
    rw [List.length_append]
    rfl
  have hAll : ∀ p : CopyinState,
      p.copy = s.copy.link w.new →
      4 * s.copy.entries.length + 4 ≤ p.made := by
    intro p hCopy
    unfold made
    rw [hCopy, hLength]
    omega
  rcases link_cases hLink with
    ⟨_, rfl | rfl⟩ | ⟨_, b, _, rfl | ⟨_, rfl⟩⟩
  all_goals exact hAll _ rfl

/-
  What a step makes of the copy: the call fails, or an entry
  is linked, or the loop goes on with the copy as it is, or
  the source is deleted when all is copied.
-/
inductive StepShape
    (args : CopyinArgs)
    (s : CopyinState)
    (a : CopyinInput) : CopyinState → Prop
| fails
    (s' : CopyinState)
    (kr : KernReturn)
    (hCopy : s'.copy = s.copy)
    (hError : kr ≠ .success) : StepShape args s a (s'.fail kr)
| links
    (s' : CopyinState)
    (w : CopyinWork)
    (q : CopyinState)
    (hCopy : s'.copy = s.copy)
    (hLink : s'.link args w = some q) : StepShape args s a q
| goes
    (q : CopyinState)
    (hCopy : q.copy = s.copy)
    (hDone : ∀ kr copy, q.phase ≠ .done kr copy)
    (hDeleting : q.phase ≠ .deleting)
    (hSteps : s.phase.steps + 1 ≤
      q.phase.steps + if a.disturbs then 3 else 0) :
    StepShape args s a q
| deletes
    (r : Relock)
    (hPhase : s.phase = .deleting) :
    StepShape args s a { s with
      map := r.found
      phase := .done .success (some s.copy) }

/- What was copied is linked, or copied again. -/
theorem shape_verified
    {s' : CopyinState}
    {result : CopyResult}
    {r : Relock}
    (hPhase : s.phase.steps = 3)
    (hCopy : s'.copy = s.copy)
    (hVerified : s'.verified args w result = some q) :
    StepShape args s (.copied result r) q := by
  cases result with
  | restart =>
      cases hVerified
      refine .goes _ hCopy (by simp) (by simp) ?_
      rw [hPhase]
      exact (by decide : 4 ≤ 2 + 3)
  | success object offset needsCopy | failed kr =>
      exact .links s' w q hCopy hVerified

theorem shape_copied
    {result : CopyResult}
    {r : Relock}
    (hPhase : s.phase.steps = 3)
    (hCopied : s.copied args w result r = some q) :
    StepShape args s (.copied result r) q := by
  rcases copied_cases hCopied with
    ⟨kr, _, hError, rfl⟩ |
    ⟨_, held, ⟨_, hRun⟩ | ⟨hStamp, hRun⟩⟩
  · exact .fails _ kr rfl hError
  · refine shape_verified hPhase ?_ hRun
    rfl
  rcases verify_cases hRun with
    ⟨_, rfl⟩ | ⟨j, m, e, _, _, ⟨_, rfl⟩ | ⟨_, hVerified⟩⟩
  · exact .fails _ _ rfl (by decide)
  · refine .goes _ rfl (by simp) (by simp) ?_
    have hDisturbs : (CopyinInput.copied result r).disturbs =
        true := by
      cases result <;> simp [CopyinInput.disturbs, hStamp]
    rw [hPhase, if_pos hDisturbs]
    exact (by decide : 4 ≤ 1 + 3)
  · refine shape_verified hPhase ?_ hVerified
    rfl

theorem step_shape
    (hStep : copyinStep args s a = some q) :
    StepShape args s a q := by
  unfold copyinStep at hStep
  split at hStep
  case h_1 tmp r hPhase =>
    have hSteps : ∀ tmp, s.phase.steps + 1 ≤
        (CopyinPhase.top tmp true).steps := by
      intro tmp
      rw [hPhase]
      exact Nat.le_refl 1
    split_ifs at hStep
    · cases hStep
      exact .goes _ rfl (by simp) (by simp)
        (Nat.le_add_right_of_le (hSteps _))
    · rcases Option.map_eq_some_iff.mp hStep with
        ⟨look, _, rfl⟩
      cases look with
      | none => exact .fails _ _ rfl (by decide)
      | some found =>
          exact .goes _ rfl (by simp) (by simp)
            (Nat.le_add_right_of_le (hSteps _))
  case h_2 j internal hPhase =>
    rcases Option.bind_eq_some_iff.mp hStep with
      ⟨e, _, hStep⟩
    split_ifs at hStep
    · cases hStep
      exact .fails _ _ rfl (by decide)
    rcases Option.bind_eq_some_iff.mp hStep with
      ⟨m, _, hStep⟩
    rcases Option.bind_eq_some_iff.mp hStep with
      ⟨e', _, hStep⟩
    split_ifs at hStep
    · refine .links _ _ _ ?_ hStep
      rfl
    · cases hStep
      refine .goes _ rfl (by simp) (by simp) ?_
      rw [hPhase]
      exact Nat.le_refl 2
  case h_3 w symmetric hPhase =>
    unfold quickly at hStep
    split_ifs at hStep
    · exact .links s _ _ rfl hStep
    · refine .links _ _ _ ?_ hStep
      rfl
    · cases hStep
      refine .goes _ rfl (by simp) (by simp) ?_
      rw [hPhase]
      exact Nat.le_refl 3
  case h_4 w result r hPhase =>
    split_ifs at hStep
    exact shape_copied (by rw [hPhase]; rfl) hStep
  case h_5 r hPhase =>
    cases hStep
    exact .deletes r hPhase
  case h_6 => cases hStep

/- A step goes on, or it starts a copy over. -/
theorem made_step
    (hStep : copyinStep args s a = some q) :
    s.made + 1 ≤ q.made + if a.disturbs then 3 else 0 := by
  have hSteps : s.phase.steps ≤ 3 := by
    unfold copyinStep at hStep
    split at hStep
    case h_6 => cases hStep
    all_goals
      rename_i hPhase
      rw [hPhase]
      simp [CopyinPhase.steps]
  unfold made
  cases step_shape hStep with
  | fails s' kr hCopy hError =>
      have hEnd : (s'.fail kr).phase.steps = 4 := rfl
      have hSame : (s'.fail kr).copy = s.copy := hCopy
      rw [hEnd, hSame]
      omega
  | links s' w q hCopy hLink =>
      have hMore := made_link hLink
      rw [hCopy] at hMore
      unfold made at hMore
      omega
  | goes q hCopy hDone hDeleting hNext =>
      rw [hCopy]
      omega
  | deletes r hPhase =>
      rw [hPhase]
      exact Nat.le_add_right_of_le
        (Nat.add_le_add_left (by decide : 1 ≤ 4) _)

/-
  The steps of a run, less three for each time it started
  over, are how far it has come.
-/
theorem made_run
    {as : List CopyinInput}
    (hExec : Runs.exec (copyinStep args) s as = some q) :
    s.made + as.length ≤
      q.made + 3 * as.countP CopyinInput.disturbs := by
  induction as generalizing s with
  | nil =>
      cases hExec
      exact Nat.le_refl _
  | cons a as ih =>
      rcases Runs.exec_cons.mp hExec with ⟨u, hu, hExec⟩
      have hFirst := made_step hu
      have hRest := ih hExec
      rw [List.length_cons, List.countP_cons]
      split_ifs at hFirst ⊢
      · omega
      · omega

theorem pages_le_lengths
    {l : List VmMapEntry}
    (h : ∀ e ∈ l, pageSize ≤ e.vmeEnd - e.vmeStart) :
    pageSize * l.length ≤ entryLengths l := by
  induction l with
  | nil => exact Nat.zero_le _
  | cons e l ih =>
      have hFirst := h e List.mem_cons_self
      have hRest := ih fun x hx =>
        h x (List.mem_cons_of_mem e hx)
      rw [entryLengths_cons, List.length_cons, Nat.mul_succ]
      omega

/- Each entry of a chain has a page. -/
theorem pages_of_chain
    {copy : VmMapCopy}
    {start stop : Nat}
    (h : CopyChain copy start stop) :
    start + pageSize * copy.entries.length ≤ stop := by
  have hLengths := h.chain.lengths
  have hPage : ∀ e ∈ copy.entries,
      pageSize ≤ e.vmeEnd - e.vmeStart := by
    intro e he
    have hIn := Tiles.of_mem h.chain.tiles he
    have hAligned := h.chain.aligned e he
    unfold Aligned pageSize at *
    omega
  have hSum := pages_le_lengths hPage
  omega

/- Up to its return a call has not come further. -/
theorem made_le
    (h : s.Covers args)
    (hDone : s.isDone = false) :
    s.made ≤ 4 * args.pages := by
  have hStart : Aligned args.srcStart :=
    truncPage_aligned _
  have hEnd : Aligned args.srcEnd := roundPage_aligned _
  have hPlace : CopyinPlace args s →
      s.copy.entries.length + 1 ≤ args.pages := by
    intro hPlace
    have hPages := pages_of_chain hPlace.chain
    have hLess := hPlace.less
    have hAt := hPlace.aligned
    unfold CopyinArgs.pages
    unfold Aligned pageSize at *
    omega
  unfold Covers at h
  unfold made
  cases hPhase : s.phase with
  | top tmp hasNew =>
      rw [hPhase] at h
      have hLess := hPlace h.1
      cases hasNew <;> simp only [CopyinPhase.steps] <;> omega
  | restart w | blocked w =>
      rw [hPhase] at h
      have hLess := hPlace h.1
      simp only [CopyinPhase.steps]
      omega
  | deleting =>
      rw [hPhase] at h
      have hPages := pages_of_chain h
      simp only [CopyinPhase.steps]
      unfold CopyinArgs.pages
      unfold pageSize at *
      omega
  | done kr copy => simp [isDone, hPhase] at hDone

/- A call that has not returned has taken few steps. -/
theorem steps_lt
    {as : List CopyinInput}
    (hStart : s.made = 1)
    (hExec : Runs.exec (copyinStep args) s as = some q)
    (hCovers : q.Covers args)
    (hDone : q.isDone = false) :
    as.length <
      4 * args.pages + 3 * as.countP CopyinInput.disturbs := by
  have hRun := made_run hExec
  have hLe := made_le hCovers hDone
  omega

------
-- Pointers
------

/- The entry of the source is one of the map. -/
def Points (s : CopyinState) : Prop :=
  match s.phase with
  | .top tmp _ => ∃ e ∈ s.map.entries, tmp = some e.entryId
  | .restart w | .blocked w =>
      ∃ e ∈ s.map.entries,
        e.entryId = w.src ∧ e.vmeStart = s.srcStart
  | _ => True

theorem points_fail
    (kr : KernReturn) :
    (s.fail kr).Points :=
  trivial

/- The entry after the source is not the header. -/
theorem points_link
    {e : VmMapEntry}
    (hMap : MapOk s.map)
    (hNext : CopyinNext args s w)
    (he : e ∈ s.map.entries)
    (hStart : e.vmeStart = s.srcStart)
    (hLink : s.link args w = some q) :
    q.Points := by
  rcases link_cases hLink with
    ⟨_, rfl | rfl⟩ | ⟨_, b, hBounds, rfl | ⟨hAt, rfl⟩⟩
  · exact trivial
  · exact trivial
  · exact points_fail _
  unfold Points
  cases hAfter : s.map.vmeNext (some w.src) with
  | none =>
      exfalso
      rw [hAfter] at hBounds
      cases hBounds
      have hIn := hMap.toMapOrder.place he
      have hNew := hNext.start
      have hPos := hNext.pos
      dsimp only at hAt
      omega
  | some j =>
      rw [hAfter] at hBounds
      rcases Option.map_eq_some_iff.mp hBounds with
        ⟨x, hFind, _⟩
      rcases mem_of_find hFind with ⟨hx, hId⟩
      exact ⟨x, hx, hId ▸ rfl⟩

/- The entry that a lookup finds. -/
theorem points_of_startEntry
    {m m' : VmMap}
    {start : Nat}
    (hMap : MapOk m)
    (hAt : Aligned start)
    (hLook : m.startEntry start = some (some (i, m'))) :
    ∃ e ∈ m'.entries, e.entryId = i ∧ e.vmeStart = start := by
  rcases VmMap.startEntry_spec hMap hAt with
    hNone | ⟨m₁, e, hFound, _, he, hStart⟩
  · rw [hNone] at hLook
    cases hLook
  · rw [hFound] at hLook
    cases hLook
    exact ⟨e, he, rfl, hStart⟩

section

variable {e : VmMapEntry} {result : CopyResult} {r : Relock}

theorem points_verified
    (hMap : MapOk s.map)
    (hNext : CopyinNext args s w)
    (he : e ∈ s.map.entries)
    (hId : e.entryId = w.src)
    (hStart : e.vmeStart = s.srcStart)
    (hVerified : s.verified args w result = some q) :
    q.Points := by
  cases result with
  | restart =>
      cases hVerified
      exact ⟨e, he, hId, hStart⟩
  | success object offset needsCopy | failed kr =>
      exact points_link hMap hNext he hStart hVerified

theorem points_copied
    (hPlace : CopyinPlace args s)
    (hNext : CopyinNext args s w)
    (hFollows : r.Follows s.map)
    (hExact : r.sameStamp = true → r.others = 0)
    (he : e ∈ s.map.entries)
    (hId : e.entryId = w.src)
    (hStart : e.vmeStart = s.srcStart)
    (hCopied : s.copied args w result r = some q) :
    q.Points := by
  have hFound := hFollows.mapOk hPlace.ok
  rcases copied_cases hCopied with
    ⟨kr, _, _, hEq⟩ | ⟨_, held, ⟨hStamp, hRun⟩ | ⟨_, hRun⟩⟩
  · rw [hEq]
    exact points_fail kr
  · have hSame := hFollows (hExact hStamp)
    refine points_verified (e := e) hFound ?_ ?_ ?_ ?_ hRun
    · apply copiedEntry_next hNext
      rfl
    · dsimp only
      rw [hSame]
      exact he
    · exact hId
    · exact hStart
  rcases verify_cases hRun with
    ⟨_, hEq⟩ | ⟨j, m, x, hLook, hFind, hRest⟩
  · rw [hEq]
    exact points_fail _
  rcases reverified_next hPlace
    (copiedEntry_next hNext rfl result) hFound hLook hFind
    with ⟨hCut, hx, hIdx, hAt, hAgain⟩
  rcases hRest with ⟨_, hEq⟩ | ⟨_, hVerified⟩
  · rw [hEq]
    exact ⟨x, hx, hIdx ▸ rfl⟩
  · refine points_verified (e := x) hCut.ok ?_ hx ?_ ?_
      hVerified
    · exact hAgain.of_new rfl rfl rfl
    · exact hIdx
    · exact hAt

/- A step leaves the pointer in the map. -/
theorem Points.step
    (h : s.Points)
    (hCovers : s.Covers args)
    (hExact : a.exact)
    (hStep : copyinStep args s a = some q) :
    q.Points := by
  unfold copyinStep at hStep
  unfold Points at h
  unfold Covers at hCovers
  split at hStep
  case h_1 tmp r hPhase =>
    rw [hPhase] at h hCovers
    split_ifs at hStep with hFollows hStamp
    · cases hStep
      have hSame := hFollows (hExact hStamp)
      unfold Points
      rw [hSame]
      exact h
    · rcases Option.map_eq_some_iff.mp hStep with
        ⟨look, hLook, hEq⟩
      subst hEq
      cases look with
      | none => exact points_fail _
      | some found =>
          rcases points_of_startEntry
            (hFollows.mapOk hCovers.1.ok) hCovers.1.aligned
            hLook with ⟨x, hx, hId, _⟩
          exact ⟨x, hx, hId ▸ rfl⟩
  case h_2 j internal hPhase =>
    rw [hPhase] at h hCovers
    rcases enter_cases hCovers.1 hCovers.2 hStep with
      hEq | ⟨_, m, x, _, _, _, _, hCut, hx, hId, hAt, _, hNext,
        hRest⟩
    · rw [hEq]
      exact points_fail _
    rcases hRest with ⟨held, hLink⟩ | hEq
    · refine points_link ?_ ?_ hx ?_ hLink
      · exact hCut.ok
      · exact hNext.of_new rfl rfl rfl
      · exact hAt
    · rw [hEq]
      exact ⟨x, hx, hId, hAt⟩
  case h_3 w symmetric hPhase =>
    rw [hPhase] at h hCovers
    rcases h with ⟨x, hx, hId, hAt⟩
    rcases hCovers with ⟨hPlace, hNext⟩
    unfold quickly at hStep
    split_ifs at hStep
    · refine points_link hPlace.ok ?_ hx hAt hStep
      exact hNext.of_new rfl rfl rfl
    · refine points_link
        (e := { x with needsCopy := true }) ?_ ?_ ?_ ?_ hStep
      · exact (hPlace.ok.modify keepsRange_needsCopy _).ok
      · exact hNext.of_new rfl rfl rfl
      · exact List.mem_map.mpr ⟨x, hx, if_pos hId⟩
      · exact hAt
    · cases hStep
      exact ⟨x, hx, hId, hAt⟩
  case h_4 w result r hPhase =>
    rw [hPhase] at h hCovers
    rcases h with ⟨x, hx, hId, hAt⟩
    split_ifs at hStep with hFollows
    exact points_copied hCovers.1 hCovers.2 hFollows.1 hExact
      hx hId hAt hStep
  case h_5 r hPhase =>
    cases hStep
    exact trivial
  case h_6 => cases hStep

end

theorem Points.run
    {as : List CopyinInput}
    (h : s.Points)
    (hCovers : s.Covers args)
    (hMeets : Runs.Meets (copyinStep args) StampTells s as)
    (hExact : ∀ a ∈ as, a.exact)
    (hExec : Runs.exec (copyinStep args) s as = some q) :
    q.Points := by
  induction as generalizing s with
  | nil =>
      cases hExec
      exact h
  | cons a as ih =>
      rcases hMeets with ⟨hTells, hMeets⟩
      rcases Runs.exec_cons.mp hExec with ⟨u, hu, hExec⟩
      refine ih (h.step hCovers ?_ hu) (hCovers.step hTells hu)
        (hMeets u hu) ?_ hExec
      · exact hExact a List.mem_cons_self
      · intro b hb
        exact hExact b (List.mem_cons_of_mem a hb)

------
-- The Next Step
------

/- What the source asserts of an entry that is wired. -/
def AssertFails (s : CopyinState) : Prop :=
  ∃ w, s.phase = .restart w ∧ w.wasWired = true ∧
    w.srcObject = .vmObject none

theorem find_of_mem
    {m : VmMap}
    {e : VmMapEntry}
    (he : e ∈ m.entries) :
    ∃ x, m.find e.entryId = some x := by
  apply Option.isSome_iff_exists.mp
  exact List.find?_isSome.mpr ⟨e, he, by simp⟩

/- The entry after another is there, or it is the header. -/
theorem bounds_vmeNext
    (m : VmMap)
    (j : Nat) :
    ∃ b, m.bounds (m.vmeNext (some j)) = some b := by
  cases hNext : m.vmeNext (some j) with
  | none => exact ⟨_, rfl⟩
  | some k =>
      rcases Option.map_eq_some_iff.mp hNext with
        ⟨x, hHead, hId⟩
      have hx : x ∈ m.entries :=
        (List.dropWhile_sublist _).subset
          (List.mem_of_mem_tail (List.mem_of_head? hHead))
      rcases find_of_mem hx with ⟨y, hFind⟩
      rw [hId] at hFind
      exact ⟨_, by
        unfold VmMap.bounds
        dsimp only
        rw [hFind, Option.map_some]⟩

theorem link_possible
    (args : CopyinArgs)
    (s : CopyinState)
    (w : CopyinWork) :
    ∃ q, s.link args w = some q := by
  rcases bounds_vmeNext s.map w.src with ⟨b, hBounds⟩
  unfold link
  dsimp only
  rw [hBounds]
  by_cases hLast : args.srcEnd ≤ w.new.vmeEnd ∧
      args.srcEnd ≠ 0
  · rw [if_pos hLast]
    exact ⟨_, rfl⟩
  · rw [if_neg hLast]
    exact ⟨_, rfl⟩

/- The map of an entry that was clipped, or not. -/
theorem clipEndAt_eq
    {m : VmMap}
    {e : VmMapEntry}
    (stop : Nat)
    (hFind : m.find i = some e) :
    ∃ m', m.clipEndAt i stop = some m' ∧
      m'.nextEntry = (if stop < e.vmeEnd then
        m.clipEndHdr e stop else m).nextEntry ∧
      m'.entries = (if stop < e.vmeEnd then
        m.clipEndHdr e stop else m).entries := by
  unfold VmMap.clipEndAt MapState.clipEnd
  rw [hFind]
  refine ⟨_, rfl, ?_, ?_⟩
  · dsimp only [MapState.setMap]
    split_ifs
    · exact updateFirstFree_nextEntry _ _
    · exact updateFirstFree_nextEntry _ _
  · dsimp only [MapState.setMap]
    rw [updateFirstFree_entries]
    split_ifs
    · rfl
    · rfl

/- An entry that is clipped keeps its number. -/
theorem clip_possible
    {m : VmMap}
    {e : VmMapEntry}
    (stop : Nat)
    (hFind : m.find i = some e) :
    ∃ m' e', m.clipEndAt i stop = some m' ∧
      m'.find i = some e' := by
  rcases mem_of_find hFind with ⟨he, hId⟩
  rcases clipEndAt_eq stop hFind with
    ⟨m', hClip, _, hEntries⟩
  have hMem : ∃ x ∈ m'.entries, x.entryId = i := by
    rw [hEntries]
    split_ifs
    · refine ⟨{ e with vmeEnd := stop }, ?_, hId⟩
      apply List.mem_flatMap.mpr
      refine ⟨_, List.mem_map.mpr ⟨e, he, if_pos rfl⟩, ?_⟩
      rw [if_pos rfl]
      exact List.mem_cons_self
    · exact ⟨e, he, hId⟩
  rcases hMem with ⟨x, hx, hEq⟩
  rcases find_of_mem hx with ⟨y, hFind'⟩
  rw [hEq] at hFind'
  exact ⟨m', y, hClip, hFind'⟩

/- The map as it was left. -/
def unchanged (m : VmMap) : Relock :=
  { others := 0
    found := m
    ok := fun hNot => absurd rfl hNot }

theorem unchanged_sameStamp
    (m : VmMap) :
    (unchanged m).sameStamp = true :=
  rfl

/- A call that has not returned goes on. -/
theorem step_possible
    (args : CopyinArgs)
    (hTop : ∀ tmp hasNew, s.phase = .top tmp hasNew →
      ∃ e ∈ s.map.entries, tmp = some e.entryId)
    (hAssert : ¬ s.AssertFails)
    (hDone : s.isDone = false) :
    ∃ a q, a.quiet ∧ copyinStep args s a = some q := by
  unfold copyinStep
  cases hPhase : s.phase with
  | top tmp hasNew =>
      rcases hTop tmp hasNew hPhase with ⟨e, he, rfl⟩
      cases hasNew with
      | false =>
          exact ⟨.alloc (unchanged s.map), _, rfl,
            if_pos fun _ => rfl⟩
      | true =>
          refine ⟨.enter false, ?_⟩
          rcases find_of_mem he with ⟨x, hFind⟩
          rcases clip_possible args.srcEnd hFind with
            ⟨m, x', hClip, hFind'⟩
          dsimp only
          unfold enter
          rw [hFind, Option.bind_some, hClip,
            Option.bind_some, hFind', Option.bind_some]
          split_ifs
          · exact ⟨_, trivial, rfl⟩
          · rcases link_possible args _ _ with ⟨q, hLink⟩
            exact ⟨q, trivial, hLink⟩
          · exact ⟨_, trivial, rfl⟩
  | restart w =>
      refine ⟨.quickly true, ?_⟩
      dsimp only
      unfold quickly
      split_ifs with hNew hPlain hNull
      · rcases link_possible args s { w with
          new := { w.new with needsCopy := false } }
          with ⟨q, hLink⟩
        exact ⟨q, trivial, hLink⟩
      · rcases link_possible args _ _ with ⟨q, hLink⟩
        exact ⟨q, trivial, hLink⟩
      · exfalso
        apply hAssert
        refine ⟨w, hPhase, ?_, hNull⟩
        simpa using hPlain
      · exact ⟨_, trivial, rfl⟩
  | blocked w =>
      refine ⟨.copied (.success (.vmObject none) 0 false)
        (unchanged s.map), ?_⟩
      dsimp only
      rw [if_pos ⟨fun _ => rfl, by simp⟩]
      unfold copied
      dsimp only
      rw [if_pos (unchanged_sameStamp s.map)]
      unfold verified
      dsimp only
      rcases link_possible args _ _ with ⟨q, hLink⟩
      exact ⟨q, rfl, hLink⟩
  | deleting =>
      exact ⟨.deleted (unchanged s.map), _, trivial, rfl⟩
  | done kr copy => simp [isDone, hPhase] at hDone

theorem Points.top
    (h : s.Points)
    (tmp : Option Nat)
    (hasNew : Bool)
    (hPhase : s.phase = .top tmp hasNew) :
    ∃ e ∈ s.map.entries, tmp = some e.entryId := by
  unfold Points at h
  rw [hPhase] at h
  exact h

------
-- An End of Zero
------

/- An entry at zero that the loop can take, in its place. -/
structure Unending
    (args : CopyinArgs)
    (m : VmMap)
    (l : List VmMapEntry)
    (e : VmMapEntry)
    (r : List VmMapEntry) : Prop where
  entries : m.entries = l ++ e :: r
  ids : UniqueIds m.entries
  fresh : ∀ x ∈ m.entries, x.entryId < m.nextEntry
  start : e.vmeStart = 0
  pos : 0 < e.vmeEnd
  read : ¬ args.unreadable e = true
  object : e.wiredCount ≠ 0 → e.object ≠ .vmObject none

/-
  The loop is at such an entry, or it has an empty one that
  comes before such an entry.
-/
def Stays (args : CopyinArgs) (s : CopyinState) : Prop :=
  s.srcStart = 0 ∧
    match s.phase with
    | .top tmp _ =>
        ∃ l e r,
          Unending args s.map l e r ∧ tmp = some e.entryId
    | .restart w | .blocked w =>
        w.new.vmeEnd = 0 ∧
          (w.wasWired = true → w.srcObject ≠ .vmObject none) ∧
          ∃ l x e r,
            Unending args s.map (l ++ [x]) e r ∧
              x.entryId = w.src
    | _ => False

section

variable {m : VmMap} {l r : List VmMapEntry}
variable {e x : VmMapEntry}

/- An empty entry is split off, and the rest is as it was. -/
theorem Unending.clip
    (h : Unending args m l e r) :
    ∃ m' front back,
      m.clipEndAt e.entryId 0 = some m' ∧
      Unending args m' (l ++ [front]) back r ∧
      m'.find e.entryId = some front ∧
      front.entryId = e.entryId ∧ front.vmeEnd = 0 ∧
      front.wiredCount = e.wiredCount ∧
      front.object = e.object := by
  have hIds : UniqueIds (l ++ e :: r) := h.entries ▸ h.ids
  have hFind := find_split hIds h.entries
  rcases clipEndAt_eq 0 hFind with
    ⟨m', hClip, hNumber, hEntries⟩
  rw [if_pos h.pos] at hNumber hEntries
  rw [clipEndHdr_entries hIds h.entries] at hEntries
  have hFresh : m.nextEntry ∉
      (l ++ e :: r).map VmMapEntry.entryId := by
    intro hMem
    rcases List.mem_map.mp hMem with ⟨y, hy, hEq⟩
    have hLess := h.fresh y (h.entries ▸ hy)
    omega
  have hUnique : UniqueIds m'.entries := by
    unfold UniqueIds at hIds ⊢
    rw [hEntries, List.append_cons, List.map_append,
      List.map_cons, List.perm_middle.nodup_iff,
      List.nodup_cons]
    rw [List.append_cons, List.map_append, List.map_append]
      at hIds hFresh
    rw [List.map_append]
    exact ⟨hFresh, hIds⟩
  refine ⟨m', { e with vmeEnd := 0 },
    { e with
      entryId := m.nextEntry
      vmeStart := 0
      offset :=
        (e.offset + (0 - e.vmeStart)) % offsetModulus },
    hClip, ⟨?_, hUnique, ?_, rfl, h.pos, h.read, h.object⟩, ?_,
    rfl, rfl, rfl, rfl⟩
  · rw [hEntries, List.append_assoc]
    rfl
  · intro y hy
    have hNext : m'.nextEntry = m.nextEntry + 1 := hNumber
    have hOld : ∀ z ∈ l ++ e :: r,
        z.entryId < m.nextEntry := fun z hz =>
      h.fresh z (h.entries ▸ hz)
    simp only [hEntries, List.mem_append, List.mem_cons] at hy
    simp only [List.mem_append, List.mem_cons] at hOld
    rcases hy with hl | rfl | rfl | hr
    · have hLess := hOld y (Or.inl hl)
      omega
    · have hLess := hOld e (Or.inr (Or.inl rfl))
      dsimp only
      omega
    · dsimp only
      omega
    · have hLess := hOld y (Or.inr (Or.inr hr))
      omega
  · exact find_split (hEntries ▸ hUnique) hEntries

/- The next turn begins where this one did. -/
theorem stays_link
    (hEnd : args.srcEnd = 0)
    (hNew : w.new.vmeEnd = 0)
    (hAt : ∃ l x e r, Unending args s.map (l ++ [x]) e r ∧
      x.entryId = w.src)
    (hLink : s.link args w = some q) :
    q.Stays args := by
  rcases hAt with ⟨l, x, e, r, h, hId⟩
  have hIds : UniqueIds ((l ++ [x]) ++ e :: r) :=
    h.entries ▸ h.ids
  have hSplit : s.map.entries = l ++ x :: e :: r := by
    rw [h.entries, List.append_assoc]
    rfl
  have hNext : s.map.vmeNext (some w.src) =
      some e.entryId := by
    rw [← hId, vmeNext_split (hSplit ▸ h.ids) hSplit]
    rfl
  have hBounds : s.map.bounds (some e.entryId) =
      some (0, e.vmeEnd) := by
    unfold VmMap.bounds
    dsimp only
    rw [find_split hIds h.entries, Option.map_some, h.start]
  unfold link at hLink
  rw [if_neg (fun hLast => hLast.2 hEnd)] at hLink
  dsimp only at hLink
  rw [hNext, hBounds, Option.map_some,
    if_neg (fun hNot => hNot hNew.symm)] at hLink
  cases hLink
  exact ⟨hNew, _, e, r, h, rfl⟩

theorem stays_enter
    {internal : Bool}
    (hEnd : args.srcEnd = 0)
    (hStart : s.srcStart = 0)
    (h : Unending args s.map l e r)
    (hEnter : s.enter args internal e.entryId = some q) :
    q.Stays args := by
  rcases h.clip with
    ⟨m', front, back, hClip, hRest, hFind, hId, hStop, hWired,
      hObject⟩
  have hIds : UniqueIds (l ++ e :: r) := h.entries ▸ h.ids
  unfold enter at hEnter
  rw [find_split hIds h.entries, Option.bind_some,
    if_neg h.read, hEnd, hClip, Option.bind_some, hFind,
    Option.bind_some] at hEnter
  dsimp only at hEnter
  split_ifs at hEnter
  · refine stays_link hEnd ?_ ?_ hEnter
    · exact hStop
    · exact ⟨l, front, back, r, hRest, hId⟩
  · cases hEnter
    refine ⟨hStart, hStop, ?_, l, front, back, r, hRest, hId⟩
    intro hNot hNone
    apply h.object
    · rw [← hWired]
      simpa using hNot
    · rw [← hObject]
      exact hNone

/- A copy-on-write obligation changes nothing of this. -/
theorem unending_obliges
    (h : Unending args m (l ++ [x]) e r) :
    Unending args (obliges x.entryId m)
      (l ++ [{ x with needsCopy := true }]) e r := by
  have hSplit : m.entries = l ++ x :: e :: r := by
    rw [h.entries, List.append_assoc]
    rfl
  have hEntries := modify_split (hSplit ▸ h.ids) hSplit
    (fun x => { x with needsCopy := true })
  have hSame : (obliges x.entryId m).entries.map
      VmMapEntry.entryId = m.entries.map
        VmMapEntry.entryId := by
    unfold obliges
    rw [hEntries, hSplit]
    simp
  refine ⟨?_, ?_, ?_, h.start, h.pos, h.read, h.object⟩
  · unfold obliges
    rw [hEntries, List.append_assoc]
    rfl
  · unfold UniqueIds
    rw [hSame]
    exact h.ids
  · intro y hy
    have hMem : y.entryId ∈ m.entries.map
        VmMapEntry.entryId := hSame ▸ List.mem_map_of_mem hy
    rcases List.mem_map.mp hMem with ⟨z, hz, hEq⟩
    rw [← hEq]
    exact h.fresh z hz

end

/- A quiet step does not leave the loop. -/
theorem Stays.step
    (hEnd : args.srcEnd = 0)
    (h : s.Stays args)
    (hQuiet : a.quiet)
    (hStep : copyinStep args s a = some q) :
    q.Stays args := by
  rcases h with ⟨hStart, h⟩
  unfold copyinStep at hStep
  split at hStep
  case h_1 tmp r hPhase =>
    rw [hPhase] at h
    have hStamp : r.sameStamp = true := by
      unfold Relock.sameStamp
      rw [show r.others = 0 from hQuiet]
      rfl
    split_ifs at hStep with hFollows
    cases hStep
    refine ⟨hStart, ?_⟩
    dsimp only
    rw [hFollows hQuiet]
    exact h
  case h_2 i internal hPhase =>
    rw [hPhase] at h
    rcases h with ⟨l, e, r, hRest, hId⟩
    cases hId
    exact stays_enter hEnd hStart hRest hStep
  case h_3 w symmetric hPhase =>
    rw [hPhase] at h
    rcases h with ⟨hStop, hObject, l, x, e, r, hRest, hId⟩
    unfold quickly at hStep
    split_ifs at hStep
    · refine stays_link hEnd ?_ ?_ hStep
      · exact hStop
      · exact ⟨l, x, e, r, hRest, hId⟩
    · refine stays_link hEnd ?_ ?_ hStep
      · exact hStop
      · have hSame := unending_obliges hRest
        rw [hId] at hSame
        exact ⟨l, _, e, r, hSame, rfl⟩
    · cases hStep
      exact ⟨hStart, hStop, hObject, l, x, e, r, hRest, hId⟩
  case h_4 w result r hPhase =>
    rw [hPhase] at h
    rcases h with ⟨hStop, _, l, x, e, k, hRest, hId⟩
    split_ifs at hStep with hFollows
    cases result with
    | restart | failed kr => exact hQuiet.elim
    | success object offset needsCopy =>
        have hStamp : r.sameStamp = true := by
          unfold Relock.sameStamp
          rw [show r.others = 0 from hQuiet]
          rfl
        have hPlace := copiedEntry_place w
          (.success object offset needsCopy)
        unfold copied at hStep
        dsimp only at hStep
        rw [if_pos hStamp] at hStep
        unfold verified at hStep
        dsimp only at hStep
        refine stays_link hEnd ?_ ?_ hStep
        · exact hPlace.2.trans hStop
        · dsimp only
          rw [hFollows.1 hQuiet]
          exact ⟨l, x, e, k, hRest, hId⟩
  case h_5 r hPhase =>
    rw [hPhase] at h
    exact h.elim
  case h_6 => cases hStep

theorem Stays.goes_on
    (h : s.Stays args) :
    s.isDone = false ∧
      ∃ a q, a.quiet ∧ copyinStep args s a = some q := by
  have hDone : s.isDone = false := by
    unfold isDone
    cases hPhase : s.phase with
    | done kr copy =>
        unfold Stays at h
        rw [hPhase] at h
        exact h.2.elim
    | top tmp hasNew | restart w | blocked w | deleting => rfl
  refine ⟨hDone, step_possible args ?_ ?_ hDone⟩
  · intro tmp hasNew hPhase
    unfold Stays at h
    rw [hPhase] at h
    rcases h with ⟨_, l, e, r, hRest, hId⟩
    refine ⟨e, ?_, hId⟩
    rw [hRest.entries]
    simp
  · rintro ⟨w, hPhase, hWired, hNone⟩
    unfold Stays at h
    rw [hPhase] at h
    exact h.2.2.1 hWired hNone

/- So it never comes to an end. -/
theorem Stays.run
    {as : List CopyinInput}
    (hEnd : args.srcEnd = 0)
    (h : s.Stays args)
    (hQuiet : ∀ a ∈ as, a.quiet)
    (hExec : Runs.exec (copyinStep args) s as = some q) :
    q.Stays args := by
  induction as generalizing s with
  | nil =>
      cases hExec
      exact h
  | cons a as ih =>
      rcases Runs.exec_cons.mp hExec with ⟨u, hu, hExec⟩
      refine ih (h.step hEnd ?_ hu) ?_ hExec
      · exact hQuiet a List.mem_cons_self
      · intro b hb
        exact hQuiet b (List.mem_cons_of_mem a hb)

end CopyinState

/-
  A call that has not returned has a next step, and has taken
  few steps.
-/
theorem copyin_ends
    {args : CopyinArgs}
    {m : VmMap}
    {s p : CopyinState}
    {as : List CopyinInput}
    (hMap : MapOk m)
    (hStart : copyinStart args m = some s)
    (hLoop : s.isDone = false)
    (hCovers : s.Covers args)
    (hMeets : Runs.Meets (copyinStep args)
      CopyinState.StampTells s as)
    (hExec : Runs.exec (copyinStep args) s as = some p)
    (hDone : p.isDone = false) :
    as.length < 4 * args.pages +
        3 * as.countP CopyinInput.disturbs ∧
      ((∀ a ∈ as, a.exact) → ¬ p.AssertFails →
        ∃ a q, copyinStep args p a = some q) := by
  rcases CopyinState.copyinStart_cases hMap hStart with
    ⟨kr, hEq, _⟩ | ⟨m', e, _, _, _, he, _, hEq⟩
  · rw [hEq] at hLoop
    cases hLoop
  have hMade : s.made = 1 := by
    rw [hEq]
    rfl
  have hPoints : s.Points := by
    rw [hEq]
    exact ⟨e, he, rfl⟩
  have hLast : p.Covers args :=
    Runs.exec_invariant
      (fun s a q h hTells hStep => h.step hTells hStep)
      hCovers hMeets hExec
  refine ⟨CopyinState.steps_lt hMade hExec hLast hDone, ?_⟩
  intro hExact hAssert
  have hNow := hPoints.run hCovers hMeets hExact hExec
  rcases CopyinState.step_possible args hNow.top hAssert hDone
    with ⟨a, q, _, hStep⟩
  exact ⟨a, q, hStep⟩

/-
  With an end of zero, and an entry at zero that can be read,
  the call does not return unless someone disturbs it.
-/
theorem vmMapCopyinCommon_endless
    {args : CopyinArgs}
    {m : VmMap}
    {s : CopyinState}
    (hEnd : args.srcEnd = 0)
    (hMap : MapOk m)
    (hStart : copyinStart args m = some s)
    (hDone : s.isDone = false)
    (hFirst : ∀ e ∈ s.map.entries, e.vmeStart = 0 →
      ¬ args.unreadable e = true ∧
        (e.wiredCount ≠ 0 → e.object ≠ .vmObject none)) :
    ∀ as q, (∀ a ∈ as, a.quiet) →
      Runs.exec (copyinStep args) s as = some q →
      q.isDone = false ∧
        ∃ a u, a.quiet ∧ copyinStep args q a = some u := by
  have hStays : s.Stays args := by
    rcases CopyinState.copyinStart_cases hMap hStart with
      ⟨kr, hEq, _⟩ | ⟨m', e, hRange, _, hCut, he, hAt, hEq⟩
    · rw [hEq] at hDone
      cases hDone
    · have hZero : args.srcStart = 0 := by omega
      rw [hEq] at hFirst ⊢
      rw [hZero] at hAt
      rcases List.append_of_mem he with ⟨l, r, hSplit⟩
      rcases hFirst e he hAt with ⟨hRead, hObject⟩
      have hIn := hCut.ok.toMapOrder.place he
      exact ⟨hZero, l, e, r, ⟨hSplit, hCut.ok.ids,
        hCut.ok.fresh, hAt, by omega, hRead, hObject⟩, rfl⟩
  intro as q hQuiet hExec
  exact (hStays.run hEnd hQuiet hExec).goes_on

end Vm

end OsfMach
