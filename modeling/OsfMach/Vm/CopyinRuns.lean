import OsfMach.Vm.CopyinEnds

/-
  When a copy of a range is what was asked for.

  A call that returns a copy returns the pages of the range,
  unless the end of the range wraps past the top of the
  address space. A call that fails holds no references,
  unless an object could not be copied, or the source went
  away, while the lock was given up.

  Main declarations:
    * `CopyinState.Outcome`, `CopyinState.Meets`
    * `CopyinGood.run`
    * `vmMapCopyinCommon_outcome_iff`
-/

------
-- Outcomes
------

namespace OsfMach

namespace Vm

open Lib

/- `round_page` over the natural numbers. -/
def roundUp (x : Nat) : Nat :=
  truncPage (x + (pageSize - 1))

namespace CopyinState

/- A copy is returned. -/
def hasCopy (s : CopyinState) : Bool :=
  match s.phase with
  | .done .success (some _) => true
  | _ => false

theorem done_of_hasCopy
    {s : CopyinState}
    (h : s.hasCopy = true) :
    ∃ copy, s.phase = .done .success (some copy) := by
  unfold hasCopy at h
  split at h
  · exact ⟨_, by assumption⟩
  · cases h

/-
  What a call that returned should have done: it has a copy
  whose entries cover the pages of the range, it was asked
  for nothing, or it failed and holds no references.
-/
def Outcome (args : CopyinArgs) (s : CopyinState) : Prop :=
  match s.phase with
  | .done .success (some copy) =>
      copy.offset = args.srcAddr ∧ copy.size = args.len ∧
        CopyChain copy (truncPage args.srcAddr)
          (roundUp (args.srcAddr + args.len))
  | .done .success none => args.len = 0
  | .done _ copy => copy = none ∧ s.held.Agrees .zero
  | _ => False

/- What a step has to find for the call to go well. -/
def Meets (s : CopyinState) (a : CopyinInput) : Prop :=
  s.StampTells a ∧ s.GivesBack a

/-
  The copy keeps its place and size. When it is complete, the
  end of the range was not the top of the space.
-/
structure Keeps
    (args : CopyinArgs)
    (s : CopyinState) : Prop where
  offset : s.copy.offset = args.srcAddr
  size : s.copy.size = args.len
  returned : ∀ copy, s.phase = .done .success (some copy) →
    copy = s.copy ∧ args.srcEnd ≠ 0
  deleting : s.phase = .deleting → args.srcEnd ≠ 0
  failed : ∀ kr copy, s.phase = .done kr copy →
    (copy = none ↔ kr ≠ .success)

variable {args : CopyinArgs} {s q : CopyinState}
variable {w : CopyinWork}

theorem keeps_working
    (hOffset : q.copy.offset = args.srcAddr)
    (hSize : q.copy.size = args.len)
    (hDone : ∀ kr copy, q.phase ≠ .done kr copy)
    (hDeleting : q.phase ≠ .deleting) :
    q.Keeps args :=
  ⟨hOffset, hSize, fun _ h => absurd h (hDone _ _),
    fun h => absurd h hDeleting,
    fun _ _ h => absurd h (hDone _ _)⟩

theorem keeps_fail
    {kr : KernReturn}
    (hOffset : s.copy.offset = args.srcAddr)
    (hSize : s.copy.size = args.len)
    (hError : kr ≠ .success) :
    (s.fail kr).Keeps args := by
  refine ⟨hOffset, hSize, ?_, ?_, ?_⟩
  · intro copy hDone
    cases hDone
  · intro hDeleting
    cases hDeleting
  · intro kr' copy hDone
    cases hDone
    exact ⟨fun _ => hError, fun _ => rfl⟩

theorem keeps_link
    (hOffset : s.copy.offset = args.srcAddr)
    (hSize : s.copy.size = args.len)
    (hLink : s.link args w = some q) :
    q.Keeps args := by
  rcases link_cases hLink with
    ⟨hLast, rfl | rfl⟩ | ⟨_, b, _, rfl | ⟨_, rfl⟩⟩
  · refine ⟨hOffset, hSize, ?_, fun _ => hLast.2, ?_⟩
    · intro copy hDone
      cases hDone
    · intro kr copy hDone
      cases hDone
  · refine ⟨hOffset, hSize, ?_, ?_, ?_⟩
    · intro copy hDone
      cases hDone
      exact ⟨rfl, hLast.2⟩
    · intro hDeleting
      cases hDeleting
    · intro kr copy hDone
      cases hDone
      simp
  · exact keeps_fail hOffset hSize (by decide)
  · exact keeps_working hOffset hSize (by simp) (by simp)

theorem Keeps.step
    {a : CopyinInput}
    (h : s.Keeps args)
    (hStep : copyinStep args s a = some q) :
    q.Keeps args := by
  have hOffset := h.offset
  have hSize := h.size
  cases step_shape hStep with
  | fails s' kr hCopy hError =>
      rw [← hCopy] at hOffset hSize
      exact keeps_fail hOffset hSize hError
  | links s' w q hCopy hLink =>
      rw [← hCopy] at hOffset hSize
      exact keeps_link hOffset hSize hLink
  | goes q hCopy hDone hDeleting =>
      rw [← hCopy] at hOffset hSize
      exact keeps_working hOffset hSize hDone hDeleting
  | deletes r hPhase =>
      refine ⟨hOffset, hSize, ?_, ?_, ?_⟩
      · intro copy hDone
        cases hDone
        exact ⟨rfl, h.deleting hPhase⟩
      · intro hDeleting
        cases hDeleting
      · intro kr copy hDone
        cases hDone
        simp

end CopyinState

------
-- Runs
------

/- A call whose steps so far met the condition. -/
structure CopyinGood
    (args : CopyinArgs)
    (s : CopyinState) : Prop where
  keeps : s.Keeps args
  balanced : s.Balanced
  covers : args.srcEnd ≠ 0 → s.Covers args

namespace CopyinGood

variable {args : CopyinArgs} {m : VmMap} {s q : CopyinState}

theorem step
    (s : CopyinState)
    (a : CopyinInput)
    (q : CopyinState)
    (h : CopyinGood args s)
    (hMeets : s.Meets a)
    (hStep : copyinStep args s a = some q) :
    CopyinGood args q :=
  ⟨h.keeps.step hStep,
    (h.balanced.step_iff hStep).mpr hMeets.2,
    fun hEnd => (h.covers hEnd).step hMeets.1 hStep⟩

theorem run
    {as : List CopyinInput}
    (h : CopyinGood args s)
    (hMeets : Runs.Meets (copyinStep args)
      CopyinState.Meets s as)
    (hExec : Runs.exec (copyinStep args) s as = some q) :
    CopyinGood args q :=
  Runs.exec_invariant step h hMeets hExec

/- A call returns at once, or comes to its loop. -/
theorem start
    (hMap : MapOk m)
    (hStart : copyinStart args m = some s) :
    s.isDone = true ∧ s.Outcome args ∨
      s.isDone = false ∧ CopyinGood args s := by
  rcases CopyinState.copyinStart_cases hMap hStart with
    ⟨kr, rfl, ⟨rfl, hLen⟩ | rfl⟩ |
    ⟨m', e, hRange, _, hCut, he, hAt, rfl⟩
  · exact Or.inl ⟨rfl, hLen⟩
  · exact Or.inl ⟨rfl, rfl, fun _ _ => rfl⟩
  · right
    refine ⟨rfl, ?_, ?_, ?_⟩
    · exact CopyinState.keeps_working rfl rfl
        (by simp [CopyinState.atLoop])
        (by simp [CopyinState.atLoop])
    · intro o _
      rfl
    · intro hEnd
      refine ⟨⟨hCut.ok, truncPage_aligned _, ?_, ?_⟩, ?_⟩
      · unfold CopyinState.atLoop
        dsimp only
        omega
      · exact ⟨chain_nil _, rfl⟩
      · intro x hx hPtr
        rw [hCut.ok.toMapOrder.eq_of_id hx he
          (Option.some.inj hPtr).symm]
        exact hAt

end CopyinGood

/- A chain has one end. -/
theorem CopyChain.stop_unique
    {copy : VmMapCopy}
    {start stop stop' : Nat}
    (h : CopyChain copy start stop)
    (h' : CopyChain copy start stop') :
    stop = stop' :=
  h.chain.lengths.symm.trans h'.chain.lengths

/- The end in 32 bits, of a range that does not wrap. -/
theorem roundPage_eq_roundUp_iff
    {x : Nat}
    (hLess : x < 2 * offsetModulus)
    (hEnd : roundPage x ≠ 0) :
    roundPage x = roundUp x ↔ x ≤ offsetModulus := by
  unfold roundPage roundUp truncPage pageSize offsetModulus at *
  omega

theorem CopyinState.outcome_iff
    {args : CopyinArgs}
    {s : CopyinState}
    (hAddr : args.srcAddr < offsetModulus)
    (hLen : args.len < offsetModulus)
    (hDone : s.isDone = true)
    (hKeeps : s.Keeps args)
    (hCovers : args.srcEnd ≠ 0 → s.Covers args) :
    s.Outcome args ↔
      (s.hasCopy = false → s.held.Agrees .zero) ∧
        (s.hasCopy = true →
          args.srcAddr + args.len ≤ offsetModulus) := by
  unfold CopyinState.Outcome CopyinState.hasCopy
  unfold CopyinState.Covers at hCovers
  cases hPhase : s.phase with
  | top tmp hasNew =>
      simp [CopyinState.isDone, hPhase] at hDone
  | restart w | blocked w | deleting => simp [CopyinState.isDone, hPhase] at hDone
  | done kr copy =>
      have hFailed := hKeeps.failed kr copy hPhase
      rw [hPhase] at hCovers
      cases copy with
      | none =>
          have hError : kr ≠ .success := hFailed.mp rfl
          cases kr
          case success => exact absurd rfl hError
          all_goals simp
      | some copy =>
          have hOk : kr = .success := by
            by_contra hError
            exact absurd (hFailed.mpr hError) (by simp)
          subst hOk
          rcases hKeeps.returned copy hPhase with
            ⟨hSame, hEnd⟩
          have hChain : CopyChain copy (truncPage args.srcAddr)
              args.srcEnd := hCovers hEnd
          have hOffset : copy.offset = args.srcAddr := by
            rw [hSame]
            exact hKeeps.offset
          have hSize : copy.size = args.len := by
            rw [hSame]
            exact hKeeps.size
          have hEnds := roundPage_eq_roundUp_iff
            (x := args.srcAddr + args.len) (by omega) hEnd
          constructor
          · rintro ⟨_, _, hWhole⟩
            refine ⟨by simp, fun _ => ?_⟩
            exact hEnds.mp (hChain.stop_unique hWhole)
          · rintro ⟨_, hRange⟩
            refine ⟨hOffset, hSize, ?_⟩
            rw [← hEnds.mpr (hRange rfl)]
            exact hChain

namespace CopyinState

variable {args : CopyinArgs} {s q : CopyinState}
variable {w : CopyinWork}

section

variable (hDone : s.isDone = true)
include hDone

theorem balanced_done_iff
    (hCopy : s.hasCopy = false) :
    s.Balanced ↔ s.held.Agrees .zero := by
  unfold Balanced
  cases hPhase : s.phase with
  | top tmp hasNew | restart w | blocked w | deleting => simp [isDone, hPhase] at hDone
  | done kr copy =>
      cases kr
      case success =>
        cases copy with
        | none => rfl
        | some copy => simp [hasCopy, hPhase] at hCopy
      all_goals rfl

/- A call that returned takes no steps. -/
theorem step_done
    (a : CopyinInput) :
    copyinStep args s a = none := by
  cases hPhase : s.phase with
  | top tmp hasNew | restart w | blocked w | deleting => simp [isDone, hPhase] at hDone
  | done kr copy =>
      unfold copyinStep
      rw [hPhase]

theorem exec_done
    {as : List CopyinInput}
    (hExec : Runs.exec (copyinStep args) s as = some q) :
    q = s := by
  cases as with
  | nil =>
      cases hExec
      rfl
  | cons b bs =>
      rcases Runs.exec_cons.mp hExec with ⟨u, hu, _⟩
      rw [step_done hDone] at hu
      cases hu

end

/- With an end of zero no copy is returned. -/
theorem not_hasCopy
    {as : List CopyinInput}
    (h : s.Keeps args)
    (hEnd : args.srcEnd = 0)
    (hExec : Runs.exec (copyinStep args) s as = some q) :
    q.hasCopy = false := by
  have hKeeps : q.Keeps args :=
    Runs.exec_preserves (fun s a t h hStep => h.step hStep) h
      hExec
  cases hCopy : q.hasCopy with
  | false => rfl
  | true =>
      rcases done_of_hasCopy hCopy with ⟨copy, hPhase⟩
      exact absurd hEnd (hKeeps.returned copy hPhase).2

theorem hasCopy_of_start
    {m : VmMap}
    (hMap : MapOk m)
    (hStart : copyinStart args m = some s) :
    s.hasCopy = false := by
  rcases copyinStart_cases hMap hStart with
    ⟨kr, rfl, _⟩ | ⟨m', e, _, _, _, _, _, rfl⟩
  · cases kr <;> rfl
  · rfl

/- The step that completes a copy lets go of nothing. -/
theorem givesBack_of_hasCopy
    {a : CopyinInput}
    (hStep : copyinStep args s a = some q)
    (hCopy : q.hasCopy = true) :
    s.GivesBack a := by
  have hFail : ∀ (s : CopyinState) kr,
      some (s.fail kr) = some q → False := by
    intro s kr hEq
    cases hEq
    cases kr <;> cases hCopy
  unfold copyinStep at hStep
  split at hStep
  case h_1 => trivial
  case h_2 => trivial
  case h_3 => trivial
  case h_5 => trivial
  case h_6 => cases hStep
  case h_4 w result r hPhase =>
    split_ifs at hStep
    unfold copied at hStep
    dsimp only at hStep
    cases result with
    | failed kr =>
        dsimp only at hStep
        split_ifs at hStep
        exact hFail _ _ hStep
    | success object offset needsCopy =>
        intro hStamp hNone
        rw [if_neg (by simp [hStamp])] at hStep
        rcases verify_cases hStep with
          ⟨_, hEq⟩ | ⟨i, m, e, hStart, _⟩
        · rw [hEq] at hCopy
          cases hCopy
        · rw [hNone] at hStart
          cases hStart
    | restart =>
        exfalso
        by_cases hStamp : r.sameStamp = true
        · rw [if_pos hStamp] at hStep
          cases hStep
          cases hCopy
        rw [if_neg hStamp] at hStep
        rcases verify_cases hStep with
          ⟨_, hEq⟩ | ⟨i, m, e, _, _, ⟨_, hEq⟩ | ⟨_, hVerified⟩⟩
        · rw [hEq] at hCopy
          cases hCopy
        · rw [hEq] at hCopy
          cases hCopy
        · cases hVerified
          cases hCopy

end CopyinState

/-
  What the call returns is as it should be exactly when its
  last step gives back what it holds, and the end of the
  range does not wrap if a copy is returned. The steps before
  it met the condition.

  Unless the end is the top of the address space the call
  comes to its return, after four steps for each page and
  three for each time that a copy may have started over.
-/
theorem vmMapCopyinCommon_outcome_iff
    {args : CopyinArgs}
    {m : VmMap}
    (hAddr : args.srcAddr < offsetModulus)
    (hLen : args.len < offsetModulus)
    (hMap : MapOk m) :
    ∀ s, copyinStart args m = some s →
      (s.isDone = true → s.Outcome args) ∧
        (∀ as a p q,
          Runs.Meets (copyinStep args) CopyinState.Meets s as →
          Runs.exec (copyinStep args) s as = some p →
          copyinStep args p a = some q →
          q.isDone = true →
          (q.Outcome args ↔
            p.GivesBack a ∧
              (q.hasCopy = true →
                args.srcAddr + args.len ≤ offsetModulus))) ∧
        (∀ as p,
          Runs.Meets (copyinStep args)
            CopyinState.StampTells s as →
          Runs.exec (copyinStep args) s as = some p →
          p.isDone = false →
          args.srcEnd ≠ 0 →
          as.length < 4 * args.pages +
              3 * as.countP CopyinInput.disturbs ∧
            ((∀ a ∈ as, a.exact) → ¬ p.AssertFails →
              ∃ a q, copyinStep args p a = some q)) ∧
        ∀ as p,
          Runs.exec (copyinStep args) s as = some p →
          args.srcEnd = 0 →
          p.hasCopy = false := by
  intro s hStart
  rcases CopyinGood.start hMap hStart with
    ⟨hDone, hOutcome⟩ | ⟨hNot, hGood⟩
  · refine ⟨fun _ => hOutcome, ?_, ?_, ?_⟩
    · intro as a p q _ hExec hStep _
      exfalso
      rw [CopyinState.exec_done hDone hExec,
        CopyinState.step_done hDone] at hStep
      cases hStep
    · intro as p _ hExec hNot
      rw [CopyinState.exec_done hDone hExec, hDone] at hNot
      cases hNot
    · intro as p hExec _
      rw [CopyinState.exec_done hDone hExec]
      exact CopyinState.hasCopy_of_start hMap hStart
  · refine ⟨?_, ?_, ?_, ?_⟩
    · intro hDone
      rw [hNot] at hDone
      cases hDone
    rotate_left
    · intro as p hMeets hExec hDone hEnd
      exact copyin_ends hMap hStart hNot (hGood.covers hEnd)
        hMeets hExec hDone
    · intro as p hExec hEnd
      exact CopyinState.not_hasCopy hGood.keeps hEnd hExec
    intro as a p q hMeets hExec hStep hDone
    have hWas := hGood.run hMeets hExec
    have hTells : args.srcEnd ≠ 0 → q.Covers args := by
      intro hEnd
      apply (hWas.covers hEnd).step ?_ hStep
      cases a with
      | alloc r =>
          intro tmp hasNew hPhase hStamp
          -- with its time stamp unchanged the call goes on
          exfalso
          unfold copyinStep at hStep
          rw [hPhase] at hStep
          cases hasNew with
          | true => cases tmp <;> cases hStep
          | false =>
              dsimp only at hStep
              split_ifs at hStep
              cases hStep
              cases hDone
      | enter internal | quickly symmetric | copied result r
      | deleted r => trivial
    rw [CopyinState.outcome_iff hAddr hLen hDone
      (hWas.keeps.step hStep) hTells]
    apply and_congr_left
    intro _
    rw [← hWas.balanced.step_iff hStep]
    cases hCopy : q.hasCopy with
    | true =>
        have hGives := CopyinState.givesBack_of_hasCopy hStep
          hCopy
        have hBalanced := (hWas.balanced.step_iff hStep).mpr
          hGives
        simp [hBalanced]
    | false =>
        rw [CopyinState.balanced_done_iff hDone hCopy]
        simp

------
-- Maps With One Entry
------

/- An entry that maps an object from its start on. -/
def soleEntry
    (start stop object protection wiredCount : Nat) :
    VmMapEntry :=
  { plainEntry start stop with
    object := .vmObject (some object)
    protection := protection
    maxProtection := protection
    wiredCount := wiredCount }

/- The map of a task with one entry above address zero. -/
def soleMap (e : VmMapEntry) : VmMap :=
  { minOffset := 0
    maxOffset := 0xc0000000
    entries := [e]
    nentries := 1
    size := e.vmeEnd - e.vmeStart
    hint := none
    firstFree :=
      if e.vmeStart = 0 then some e.entryId else none
    nextEntry := e.entryId + 1 }

theorem soleMap_ok
    {e : VmMapEntry}
    (hPos : e.vmeStart < e.vmeEnd)
    (hStop : e.vmeEnd ≤ 0xc0000000)
    (hAligned : Aligned e.vmeStart ∧ Aligned e.vmeEnd) :
    MapOk (soleMap e) := by
  have hWord : (0xc0000000 : Nat) < offsetModulus := by decide
  have hMax : Aligned 0xc0000000 := by
    unfold Aligned pageSize
    omega
  refine ⟨⟨⟨⟨rfl, hMax, ?_, ?_, ?_⟩, ?_, rfl, ?_, ?_⟩, ?_⟩,
    hWord⟩
  · exact ⟨Nat.zero_le _, hPos, hStop⟩
  · intro x hx
    rw [List.mem_singleton.mp hx]
    exact hAligned
  · exact List.nodup_singleton _
  · intro x hx
    rw [List.mem_singleton.mp hx]
    exact Nat.lt_succ_self _
  · simp [soleMap, entryLengths]
  · intro i hHint
    cases hHint
  · simp only [soleMap, entryBeforeHole, beforeHole]
    split_ifs
    · rfl
    · rfl

/-
  A user asks for four gigabytes less one byte, from the
  middle of page zero on.
-/
def wrappingArgs : CopyinArgs :=
  { srcAddr := 0x800
    len := 0xffffffff
    srcDestroy := false
    useMaxprot := false
    kernelMap := false }

def wrappingMap : VmMap :=
  soleMap (soleEntry 0 0x1000 5 protAll 0)

theorem wrappingMap_ok : MapOk wrappingMap :=
  soleMap_ok (by decide) (by decide) ⟨rfl, rfl⟩

theorem vmMapCopyinCommon_outcome_iff_wrapping :
    ∃ s p q,
      copyinStart wrappingArgs wrappingMap = some s ∧
      Runs.exec (copyinStep wrappingArgs) s [.enter true] =
        some p ∧
      copyinStep wrappingArgs p (.quickly true) = some q ∧
      q.hasCopy = true ∧ ¬ q.Outcome wrappingArgs := by
  have hReturns : ((copyinStart wrappingArgs wrappingMap).bind
      fun s => (Runs.exec (copyinStep wrappingArgs) s
        [.enter true]).bind fun p =>
          (copyinStep wrappingArgs p (.quickly true)).map
            fun q => (q.isDone, q.hasCopy)) =
        some (true, true) := by
    decide
  rcases Option.bind_eq_some_iff.mp hReturns with
    ⟨s, hStart, hReturns⟩
  rcases Option.bind_eq_some_iff.mp hReturns with
    ⟨p, hExec, hReturns⟩
  rcases Option.map_eq_some_iff.mp hReturns with
    ⟨q, hStep, hEq⟩
  rcases Prod.mk.inj hEq with ⟨hDone, hCopy⟩
  refine ⟨s, p, q, hStart, hExec, hStep, hCopy, ?_⟩
  rw [(vmMapCopyinCommon_outcome_iff (by decide) (by decide)
    wrappingMap_ok s hStart).2.1 [.enter true]
    (.quickly true) p q
    ⟨⟨trivial, trivial⟩, fun _ _ => trivial⟩ hExec hStep hDone]
  intro hGood
  have hWord := hGood.2 hCopy
  revert hWord
  decide

/- The only page of a range, which is wired. -/
def wiredMap : VmMap :=
  soleMap (soleEntry 0x1000 0x2000 5 protAll 1)

theorem wiredMap_ok : MapOk wiredMap :=
  soleMap_ok (by decide) (by decide) ⟨rfl, rfl⟩

/- What a call that takes some steps returns and holds. -/
def copyinRun
    (args : CopyinArgs)
    (m : VmMap)
    (as : List CopyinInput)
    (o : MapObject) : Option (CopyinPhase × Int) :=
  (copyinStart args m).bind fun s =>
    (Runs.exec (copyinStep args) s as).map fun q =>
      (q.phase, q.held o)

/- All of the address space but its last byte. -/
def topArgs : CopyinArgs :=
  { wrappingArgs with srcAddr := 0 }

/-
  The call returns a copy of one page for those four
  gigabytes. Where a wired page cannot be read, a call fails
  and keeps a reference to its object. When the end is the
  top of the address space, the call does not return.
-/
theorem vmMapCopyinCommon_wraps :
    copyinRun wrappingArgs
        (soleMap (soleEntry 0 0x1000 5 protAll 0))
        [.enter true, .quickly true] (.vmObject (some 5)) =
      some (.done .success (some
        { kind := .entryList
          offset := 0x800
          size := 0xffffffff
          entries :=
            [{ soleEntry 0 0x1000 5 protAll 0 with
              needsCopy := true }]
          nentries := 1 }), 1) ∧
    copyinRun ⟨0x1000, 0x1000, false, false, false⟩ wiredMap
        [.enter true, .quickly false,
          .copied (.failed .memoryError)
            ⟨0, wiredMap, fun _ => wiredMap_ok⟩]
        (.vmObject (some 5)) =
      some (.done .memoryError none, 1) ∧
    ∃ s, copyinStart topArgs wrappingMap = some s ∧
      ∀ as q, (∀ a ∈ as, a.quiet) →
        Runs.exec (copyinStep topArgs) s as = some q →
        q.isDone = false ∧
          ∃ a u, a.quiet ∧
            copyinStep topArgs q a = some u := by
  refine ⟨by decide, by decide, ?_⟩
  have hLoop : (copyinStart topArgs wrappingMap).any
      (fun s => !s.isDone &&
        s.map.entries.all fun e => !topArgs.unreadable e &&
          e.object != .vmObject none) = true := by
    decide
  rw [Option.any_eq_true] at hLoop
  rcases hLoop with ⟨s, hStart, hAll⟩
  rw [Bool.and_eq_true, Bool.not_eq_true',
    List.all_eq_true] at hAll
  refine ⟨s, hStart, vmMapCopyinCommon_endless (by decide)
    wrappingMap_ok hStart hAll.1 ?_⟩
  intro e he _
  have hOne := hAll.2 e he
  simp only [Bool.and_eq_true, Bool.not_eq_true',
    bne_iff_ne] at hOne
  exact ⟨by simp [hOne.1], fun _ => hOne.2⟩

end Vm

end OsfMach
