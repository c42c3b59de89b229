import OsfMach.Vm.MapFork
import OsfMach.Vm.MapCopyInv

/-
  The turns of the loop of `vm_map_fork`.

  A turn copies a region into the new map and goes on with
  the next one, or it fails to copy it and comes to the same
  region again. What the object layer answers is given for
  each turn.

  Key definitions include:
    * `ForkTurn`, `forkTurns`
    * `ForkTurn.copies`
-/

------
-- The Loop
------

namespace OsfMach

namespace Vm

open Lib
open Lib.Prog

variable {m : VmMap} {kr : KernReturn}

/-
  What the rest of the kernel answers in one turn, and for
  how many tries to copy an object there are answers.
-/
structure ForkTurn where
  answers : VmAnswers
  tries : Nat

/- The loop of `vm_map_fork` from an entry and a turn on. -/
def forkTurns
    (ans : Nat → ForkTurn) :
    Nat → Nat → Option Nat → VmMap → Nat → MapProg VmMap
| 0, _, _, _, _ => Prog.stuck
| _ + 1, _, none, newMap, newSize =>
    pure { newMap with size := newSize }
| fuel + 1, turn, some i, newMap, newSize => do
    let e ← MapProg.deref (some i)
    if e.isSubMap then Prog.stuck
    else do
      let r ← forkEntry (ans turn).answers (ans turn).tries e
        newMap
      forkTurns ans fuel (turn + 1) r.1 r.2.1
        (newSize + r.2.2)

/- `vm_map_fork`, with the answers of each turn. -/
def vmMapForkTurns
    (ans : Nat → ForkTurn)
    (fuel : Nat) : MapProg VmMap := do
  let m ← get
  let first ← MapProg.vmeNext none
  forkTurns ans fuel 0 first
    (vmMapCreate m.minOffset m.maxOffset) 0

------
-- Copying an Object
------

/-
  A copy of the object of an entry, and whether the entry
  has to be copied on a write.
-/
structure ObjectCopy where
  object : MapObject
  offset : Nat
  needsCopy : Bool
  srcNeedsCopy : Bool
deriving DecidableEq, Repr

/- The copy or the error that some tries come to, if any. -/
def objectCopy
    (a : VmAnswers)
    (e : VmMapEntry) :
    Nat → Option (Except KernReturn ObjectCopy)
| 0 => none
| tries + 1 =>
    match e.wiredCount, a.copyQuickly tries with
    | 0, some (object, srcNeedsCopy, newNeedsCopy) =>
        some (.ok
          ⟨object, e.offset, newNeedsCopy, srcNeedsCopy⟩)
    | wired, _ =>
        match a.copyObject tries with
        | (.success, object, offset, needsCopy) =>
            if wired = 0 then
              some (.ok ⟨object, offset, needsCopy, false⟩)
            else some (.ok ⟨object, 0, false, false⟩)
        | (.restartCopy, _) => objectCopy a e tries
        | (error, _) => some (.error error)

/- What a copy by `vm_map_fork_copy` comes to. -/
def ForkTurn.slowly
    (x : ForkTurn)
    (e : VmMapEntry) :
    Option (Except KernReturn ObjectCopy) :=
  match x.tries with
  | 0 => none
  | tries + 1 =>
      if e.maxProtection &&& protRead = 0 then
        some (.error .protectionFailure)
      else objectCopy x.answers e tries

/- What a turn comes to for an entry that is to be copied. -/
def ForkTurn.copies
    (x : ForkTurn)
    (e : VmMapEntry) :
    Option (Except KernReturn ObjectCopy) :=
  match e.wiredCount, x.answers.copyQuickly x.tries with
  | 0, some (object, srcNeedsCopy, newNeedsCopy) =>
      some (.ok
        ⟨object, e.offset, newNeedsCopy, srcNeedsCopy⟩)
  | _, _ => x.slowly e

/- The entry of the new map. -/
def ObjectCopy.entry
    (c : ObjectCopy)
    (e : VmMapEntry) : VmMapEntry :=
  { entryCopy e with
    object := c.object
    offset := c.offset
    needsCopy := c.needsCopy }

/- What is left in the old map. -/
def ObjectCopy.source
    (c : ObjectCopy)
    (e : VmMapEntry) : VmMapEntry :=
  if c.srcNeedsCopy = true ∧ e.needsCopy = false then
    { e with needsCopy := true }
  else e

------
-- Parts of a Turn
------

/- A map with the same entries. -/
structure SameEntries (m m' : VmMap) : Prop extends
    Steady m m' where
  entries : m'.entries = m.entries

section

variable {m : VmMap} {l r : List VmMapEntry} {e : VmMapEntry}

theorem mem_of_split
    (hSplit : m.entries = l ++ e :: r) :
    e ∈ m.entries := by
  rw [hSplit]
  simp

section

variable (h : MapOk m)
include h

theorem deref_eq
    (he : e ∈ m.entries) :
    MapProg.deref (some e.entryId) m = some (e, m) := by
  unfold MapProg.deref
  rw [bind_eq (show (get : MapProg VmMap) m = some (m, m)
    from rfl), Option.bind_some, h.toMapOrder.find_eq he]
  rfl

theorem clipStart_self
    {start : Nat}
    (he : e ∈ m.entries)
    (hLe : start ≤ e.vmeStart) :
    MapProg.clipStart e.entryId start m = some ((), m) := by
  unfold MapProg.clipStart MapState.clipStart
  rw [bind_eq (show (get : MapProg VmMap) m = some (m, m)
    from rfl)]
  rw [h.toMapOrder.find_eq he]
  dsimp only
  rw [if_neg (by omega)]
  rw [h.toMapInv.updateFirstFree_self]
  rfl

theorem clipEnd_self
    {stop : Nat}
    (he : e ∈ m.entries)
    (hLe : e.vmeEnd ≤ stop) :
    MapProg.clipEnd e.entryId stop m = some ((), m) := by
  unfold MapProg.clipEnd MapState.clipEnd
  rw [bind_eq (show (get : MapProg VmMap) m = some (m, m)
    from rfl)]
  rw [h.toMapOrder.find_eq he]
  dsimp only
  rw [if_neg (by omega)]
  rw [h.toMapInv.updateFirstFree_self]
  rfl

theorem lookupEntry_looked
    (address : Nat) :
    ∃ found i m',
      MapProg.lookupEntry address m =
        some ((found, i), m') ∧
      Looked m address found i m' ∧ SameEntries m m' := by
  have hLook := h.toMapCore.lookupEntry address
  rcases hLook.inv h.toMapInv with ⟨hInv, hEntries⟩
  rcases hLook.same with ⟨hint, hEq, _⟩
  refine ⟨_, _, _, rfl, hLook, h.steady hInv ?_ ?_, hEntries⟩
  · rw [hEq]
    rfl
  · rw [hEq]
    rfl

/- The entry around an address is found. -/
theorem lookupEntry_inside
    {address : Nat}
    (he : e ∈ m.entries)
    (hIn : e.vmeStart ≤ address ∧ address < e.vmeEnd) :
    ∃ m',
      MapProg.lookupEntry address m =
        some ((true, some e.entryId), m') ∧
      SameEntries m m' := by
  rcases lookupEntry_looked h address with
    ⟨found, i, m', hRun, hLook, hSame⟩
  refine ⟨m', ?_, hSame⟩
  rw [hRun]
  cases found with
  | false =>
      exfalso
      rcases hLook.outside rfl with
        ⟨k, k', hSplit, _, hBelow, hAbove⟩
      rw [hSplit, List.mem_append] at he
      rcases he with hLeft | hRight
      · have hEnd := hBelow e hLeft
        omega
      · have hStart := hAbove e hRight
        omega
  | true =>
      rcases hLook.inside rfl with
        ⟨k, x, k', hSplit, hi, hLo, hHi⟩
      have hx : x ∈ m.entries := mem_of_split hSplit
      rw [hi, h.toMapOrder.eq_of_inside hx he ⟨hLo, hHi⟩ hIn]

/- The next region starts at the end of this one, or later. -/
theorem forkNext_eq
    (hSplit : m.entries = l ++ e :: r) :
    ∃ m',
      forkNext e.vmeEnd m =
        some (r.head?.map VmMapEntry.entryId, m') ∧
      SameEntries m m' := by
  have he := mem_of_split hSplit
  have hIds := h.idsOf hSplit
  have hNext := vmeNext_split hIds hSplit
  have hPlace := h.toMapOrder.place he
  rcases lookupEntry_looked h e.vmeEnd with
    ⟨found, i, m', hRun, hLook, hSame⟩
  unfold forkNext
  rw [bind_eq hRun]
  have hNext' : m'.vmeNext (some e.entryId) =
      r.head?.map VmMapEntry.entryId := by
    rw [← hNext]
    unfold VmMap.vmeNext VmMap.after
    rw [hSame.entries]
  cases found with
  | true =>
      rcases hLook.inside rfl with
        ⟨k, x, k', hSplit', hi, hLo, hHi⟩
      have hx : x ∈ m.entries := mem_of_split hSplit'
      have hxr : x ∈ r := by
        rw [hSplit, List.mem_append, List.mem_cons] at hx
        rcases hx with hLeft | hEq | hRight
        · have hEnd := h.toMapOrder.left_le hSplit x hLeft
          omega
        · subst hEq
          omega
        · exact hRight
      rcases List.append_of_mem hxr with ⟨k₁, k₂, hr⟩
      -- an entry between the two would have to be empty
      have hFirst : k₁ = [] := by
        cases k₁ with
        | nil => rfl
        | cons y k₁ =>
            exfalso
            have hy : y ∈ r := by
              rw [hr]
              simp
            have hyIn : y ∈ m.entries := by
              rw [hSplit]
              simp [hy]
            have hAfter : m.entries =
                (l ++ e :: y :: k₁) ++ x :: k₂ := by
              rw [hSplit, hr]
              simp
            have hStart := h.toMapOrder.right_ge hSplit y hy
            have hEnd := h.toMapOrder.left_le hAfter y
              (by simp)
            have hPos := h.toMapOrder.place hyIn
            omega
      subst hFirst
      rw [hi, hr]
      have hx' : x ∈ m'.entries := by
        rw [hSame.entries]
        exact mem_of_split hSplit'
      have hStart := h.toMapOrder.right_ge hSplit x hxr
      dsimp only
      rw [bind_eq (clipStart_self hSame.ok hx' hStart)]
      exact ⟨m', rfl, hSame⟩
  | false =>
      rcases hLook.outside rfl with
        ⟨k, k', hSplit', hi, hBelow, hAbove⟩
      have hek : e ∈ k := by
        have heIn := he
        rw [hSplit', List.mem_append] at heIn
        rcases heIn with hLeft | hRight
        · exact hLeft
        · have hStart := hAbove e hRight
          omega
      rcases List.append_of_mem hek with ⟨k₁, k₂, hk⟩
      have hLast : k₂ = [] := by
        cases k₂ with
        | nil => rfl
        | cons y k₂ =>
            exfalso
            have hyk : y ∈ k := by
              rw [hk]
              simp
            have hAfter : m.entries =
                k₁ ++ e :: (y :: k₂ ++ k') := by
              rw [hSplit', hk]
              simp
            have hEnd := hBelow y hyk
            have hStart := h.toMapOrder.right_ge hAfter y
              (by simp)
            have hyIn : y ∈ m.entries := by
              rw [hAfter]
              simp
            have hPos := h.toMapOrder.place hyIn
            omega
      subst hLast
      have hId : lastId k = some e.entryId := by
        rw [hk]
        simp [lastId]
      rw [hi, hId]
      refine ⟨m', ?_, hSame⟩
      rw [← hNext']
      rfl

/- A failed copy goes on with the region that it is of. -/
theorem forkSkip_eq
    (he : e ∈ m.entries) :
    ∃ m',
      forkSkip e.vmeStart m = some (some e.entryId, m') ∧
      SameEntries m m' := by
  have hPlace := h.toMapOrder.place he
  rcases lookupEntry_inside h he
    ⟨Nat.le_refl _, hPlace.2.1⟩ with ⟨m', hRun, hSame⟩
  refine ⟨m', ?_, hSame⟩
  unfold forkSkip
  rw [bind_eq hRun]
  rfl

end

------
-- Copying a Region
------

/- The old map after a copy. -/
def ObjectCopy.mark
    (c : ObjectCopy)
    (e : VmMapEntry)
    (m : VmMap) : VmMap :=
  if c.srcNeedsCopy = true ∧ e.needsCopy = false then
    m.modify e.entryId fun x => { x with needsCopy := true }
  else m

theorem ObjectCopy.mark_spec
    (c : ObjectCopy)
    (h : MapOk m)
    (hSplit : m.entries = l ++ e :: r) :
    Steady m (c.mark e m) ∧
      (c.mark e m).entries = l ++ c.source e :: r := by
  have hIds := h.idsOf hSplit
  unfold ObjectCopy.mark ObjectCopy.source
  split_ifs
  · exact ⟨h.modify keepsRange_needsCopy _,
      modify_split hIds hSplit _⟩
  · exact ⟨h.refl, hSplit⟩

/- What a program returns that copies the object. -/
def copyResult
    (e : VmMapEntry)
    (m : VmMap) :
    Option (Except KernReturn ObjectCopy) →
      Option (Except KernReturn VmMapEntry × VmMap)
| none => none
| some (.error kr) => some (.error kr, m)
| some (.ok c) => some (.ok (c.entry e), c.mark e m)

theorem onlyIf_mark
    {c : ObjectCopy}
    {srcNeedsCopy : Bool}
    (h : c.srcNeedsCopy = srcNeedsCopy) :
    (Prog.onlyIf (srcNeedsCopy = true ∧ e.needsCopy = false)
        (MapProg.update e.entryId fun x =>
          { x with needsCopy := true })) m =
      some ((), c.mark e m) := by
  subst h
  unfold Prog.onlyIf ObjectCopy.mark
  split_ifs
  · rfl
  · rfl

theorem copyObject_eq
    (a : VmAnswers)
    (e : VmMapEntry)
    (m : VmMap)
    (tries : Nat) :
    copyObject a e tries (entryCopy e) m =
      copyResult e m (objectCopy a e tries) := by
  induction tries with
  | zero => rfl
  | succ tries ih =>
      unfold copyObject objectCopy
      have hSlow : ∀ wired,
          (match a.copyObject tries with
          | (.success, object, offset, needsCopy) =>
              if wired = 0 then
                pure (.ok { entryCopy e with
                  object := object
                  offset := offset
                  needsCopy := needsCopy })
              else
                pure (.ok { entryCopy e with
                  object := object
                  offset := 0
                  needsCopy := false })
          | (.restartCopy, _) =>
              copyObject a e tries (entryCopy e)
          | (error, _) => pure (.error error) :
            MapProg (Except KernReturn VmMapEntry)) m =
          copyResult e m
            (match a.copyObject tries with
            | (.success, object, offset, needsCopy) =>
                if wired = 0 then
                  some (.ok ⟨object, offset, needsCopy, false⟩)
                else some (.ok ⟨object, 0, false, false⟩)
            | (.restartCopy, _) => objectCopy a e tries
            | (error, _) => some (.error error)) := by
        intro wired
        rcases a.copyObject tries with
          ⟨kr, object, offset, needsCopy⟩
        cases kr
        case success =>
          split_ifs
          · rfl
          · rfl
        case restartCopy => exact ih
        all_goals rfl
      cases hWired : e.wiredCount with
      | succ wired => exact hSlow (wired + 1)
      | zero =>
          cases hQuick : a.copyQuickly tries with
          | none => exact hSlow 0
          | some q =>
              rcases q with ⟨object, src, new⟩
              have hMark := @onlyIf_mark m e
                ⟨object, e.offset, new, src⟩ src rfl
              exact bind_eq hMark

/- An error is not one of the results that go on. -/
theorem objectCopy_error
    {a : VmAnswers}
    {tries : Nat}
    (h : objectCopy a e tries = some (.error kr)) :
    kr ≠ .success := by
  induction tries with
  | zero => cases h
  | succ tries ih =>
      unfold objectCopy at h
      split at h
      · cases h
      · rcases hMade : a.copyObject tries with
          ⟨result, object, offset, needsCopy⟩
        rw [hMade] at h
        cases result
        case success =>
          split_ifs at h
          · cases h
          · cases h
        case restartCopy => exact ih h
        all_goals
          cases h
          simp

theorem ForkTurn.slowly_error
    (x : ForkTurn)
    (h : x.slowly e = some (.error kr)) :
    kr ≠ .success := by
  unfold ForkTurn.slowly at h
  split at h
  · cases h
  · split_ifs at h
    · cases h
      simp
    · exact objectCopy_error h

/- The call that `vm_map_fork_copy` makes for a region. -/
def regionArgs (e : VmMapEntry) : CopyinArgs :=
  { srcAddr := e.vmeStart
    len := e.vmeEnd - e.vmeStart
    srcDestroy := false
    useMaxprot := true
    kernelMap := false }

/- The copy of a region. -/
def ObjectCopy.region
    (c : ObjectCopy)
    (e : VmMapEntry) : VmMapCopy :=
  { kind := .entryList
    offset := e.vmeStart
    size := e.vmeEnd - e.vmeStart
    entries := [c.entry e]
    nentries := 1 }

/- What that call returns. -/
def regionResult
    (e : VmMapEntry)
    (m : VmMap) :
    Option (Except KernReturn ObjectCopy) →
      Option ((KernReturn × Option VmMapCopy) × VmMap)
| none => none
| some (.error kr) => some ((kr, none), m)
| some (.ok c) =>
    some ((.success, some (c.region e)), c.mark e m)

/- The loop over a region, which ends after the first turn. -/
def loopResult
    (e : VmMapEntry)
    (m : VmMap)
    (copy : VmMapCopy) :
    Option (Except KernReturn ObjectCopy) →
      Option ((KernReturn × VmMapCopy) × VmMap)
| none => none
| some (.error kr) => some ((kr, copy), m)
| some (.ok c) =>
    some ((.success, copy.link (c.entry e)), c.mark e m)

theorem copyinLoop_region
    {copy : VmMapCopy}
    (x : ForkTurn)
    (h : MapOk m)
    (he : e ∈ m.entries) :
    copyinLoop x.answers false true e.vmeEnd x.tries
        (some e.entryId) copy m =
      loopResult e m copy (x.slowly e) := by
  have hPlace := h.toMapOrder.place he
  unfold ForkTurn.slowly
  cases x.tries with
  | zero => rfl
  | succ tries =>
      unfold copyinLoop
      rw [bind_eq (deref_eq h he)]
      dsimp only
      by_cases hRead : e.maxProtection &&& protRead = 0
      · rw [if_pos (Or.inr hRead), if_pos hRead]
        rfl
      · rw [if_neg (by simp [hRead]), if_neg hRead,
          bind_eq (clipEnd_self h he (Nat.le_refl _)),
          bind_eq (deref_eq h he)]
        have hCopy := copyObject_eq x.answers e m tries
        unfold copyinEntry
        rw [if_neg (by simp)]
        cases hObject : objectCopy x.answers e tries with
        | none =>
            rw [hObject] at hCopy
            exact bind_none hCopy
        | some c =>
            rw [hObject] at hCopy
            cases c with
            | error kr =>
                rw [bind_eq hCopy]
                rfl
            | ok c =>
                rw [bind_eq hCopy]
                have hEnd : e.vmeEnd ≤ (c.entry e).vmeEnd :=
                  Nat.le_refl _
                dsimp only
                rw [if_pos ⟨hEnd, by omega⟩]
                rfl

theorem copyin_region
    (x : ForkTurn)
    (h : MapOk m)
    (he : e ∈ m.entries) :
    ∃ m', SameEntries m m' ∧
      vmMapCopyinCommon x.answers x.tries (regionArgs e) m =
        regionResult e m' (x.slowly e) := by
  have hPlace := h.toMapOrder.place he
  have hAligned := h.aligned e he
  have hWord := h.word
  rcases lookupEntry_inside h he
    ⟨Nat.le_refl _, hPlace.2.1⟩ with ⟨m', hRun, hSame⟩
  have he' : e ∈ m'.entries := by
    rw [hSame.entries]
    exact he
  refine ⟨m', hSame, ?_⟩
  have hStart : truncPage e.vmeStart = e.vmeStart :=
    truncPage_of_aligned hAligned.1
  have hEnd : roundPage
      (e.vmeStart + (e.vmeEnd - e.vmeStart)) = e.vmeEnd := by
    have hAt := hAligned.2
    unfold Aligned pageSize at hAt
    unfold roundPage truncPage pageSize
    unfold offsetModulus at hWord ⊢
    omega
  have hLoop := fun copy =>
    @copyinLoop_region m' e copy x hSame.ok he'
  unfold vmMapCopyinCommon regionArgs
  dsimp only
  rw [hStart, hEnd, if_neg (by omega), if_neg (by omega),
    bind_eq hRun]
  dsimp only
  rw [bind_eq (clipStart_self hSame.ok he' (Nat.le_refl _))]
  cases hSlow : x.slowly e with
  | none =>
      have hNone := hLoop
        { kind := .entryList, offset := e.vmeStart
          size := e.vmeEnd - e.vmeStart, entries := []
          nentries := 0 }
      rw [hSlow] at hNone
      exact bind_none hNone
  | some c =>
      have hSome := hLoop
        { kind := .entryList, offset := e.vmeStart
          size := e.vmeEnd - e.vmeStart, entries := []
          nentries := 0 }
      rw [hSlow] at hSome
      cases c with
      | error kr =>
          have hError := x.slowly_error hSlow
          rw [bind_eq hSome]
          rw [if_neg hError]
          rfl
      | ok c =>
          rw [bind_eq hSome]
          rfl

end

------
-- The New Map
------

/- A map whose entries have the numbers that were given. -/
structure Numbered (m : VmMap) : Prop where
  ids : UniqueIds m.entries
  fresh : ∀ x ∈ m.entries, x.entryId < m.nextEntry

/- Another map with one more entry at the end. -/
structure Appended
    (m m' : VmMap)
    (x : VmMapEntry) : Prop where
  entries :
    m'.entries = m.entries ++ [{ x with entryId := m.nextEntry }]
  numbered : Numbered m'

theorem Numbered.append
    {m m' : VmMap}
    {x : VmMapEntry}
    (h : Numbered m)
    (hEntries : m'.entries =
      m.entries ++ [{ x with entryId := m.nextEntry }])
    (hNext : m'.nextEntry = m.nextEntry + 1) :
    Appended m m' x := by
  refine ⟨hEntries, ?_, ?_⟩
  · unfold UniqueIds
    rw [hEntries, List.map_append, List.nodup_append]
    refine ⟨h.ids, List.nodup_singleton _, ?_⟩
    intro i hi j hj
    rcases List.mem_map.mp hi with ⟨y, hy, hEq⟩
    have hLess := h.fresh y hy
    rw [List.mem_map] at hj
    rcases hj with ⟨z, hz, hEq'⟩
    rw [List.mem_singleton.mp hz] at hEq'
    rw [← hEq, ← hEq']
    exact Nat.ne_of_lt hLess
  · intro y hy
    rw [hEntries, List.mem_append, List.mem_singleton] at hy
    rw [hNext]
    rcases hy with hOld | hNew
    · have hLess := h.fresh y hOld
      omega
    · rw [hNew]
      exact Nat.lt_succ_self _

theorem linkLast_appended
    (h : Numbered m)
    (x : VmMapEntry) :
    Appended m (m.linkLast x) x := by
  refine h.append ?_ rfl
  have hIds := h.ids
  rw [← List.append_nil m.entries] at hIds
  have hLink := link_after_part hIds
    (List.append_nil m.entries).symm
    { x with entryId := m.nextEntry }
  unfold VmMap.linkLast VmMap.entryLink
  rw [updateFirstFree_entries]
  exact hLink

theorem copyInsert_appended
    (h : Numbered m)
    (c : ObjectCopy)
    (e : VmMapEntry) :
    Appended m
      (m.copyInsert (m.vmePrev none) (c.region e))
      (c.entry e) := by
  refine h.append ?_ ?_
  · unfold VmMap.copyInsert
    rw [updateFirstFree_entries]
    rcases List.eq_nil_or_concat m.entries with
      hNil | ⟨k, x, hLast⟩
    · have hPrev : m.vmePrev none = none := by
        simp [VmMap.vmePrev, VmMap.before, hNil]
      rw [hPrev, hNil]
      rfl
    · rw [List.concat_eq_append] at hLast
      have hPrev : m.vmePrev none = some x.entryId := by
        simp [VmMap.vmePrev, VmMap.before, hLast]
      have hIds := h.ids
      rw [hLast] at hIds
      rw [hPrev, hLast]
      have hSplit := flatMap_split hIds
        (numberFrom m.nextEntry (c.region e).entries)
      dsimp only
      rw [hSplit]
      simp [ObjectCopy.region, numberFrom]
  · unfold VmMap.copyInsert VmMap.updateFirstFree
    dsimp only
    split
    · rfl
    · rfl

------
-- Turns
------

/- What sharing leaves of an entry of the old map. -/
def Shares (e e' : VmMapEntry) : Prop :=
  e' =
    { e with
      object := e'.object
      offset := e'.offset
      needsCopy := e'.needsCopy
      isShared := true }

theorem shareObject_fields
    (a : VmAnswers)
    (turn : Nat)
    (remap : Bool)
    (e : VmMapEntry) :
    shareObject a turn remap e =
      { e with
        object := (shareObject a turn remap e).object
        offset := (shareObject a turn remap e).offset
        needsCopy :=
          (shareObject a turn remap e).needsCopy } := by
  unfold shareObject allocateEntry shadowEntry
  split_ifs
  · rfl
  · rfl
  · cases a.shadow turn <;> rfl
  · rfl

section

variable {m newMap : VmMap} {l r : List VmMapEntry}
variable {e : VmMapEntry} {x : ForkTurn}

theorem keepsRange_shareObject
    (a : VmAnswers)
    (turn : Nat)
    (remap : Bool) :
    KeepsRange (shareObject a turn remap) := by
  refine ⟨?_, ?_, ?_⟩
  · intro e
    rw [shareObject_fields]
  · intro e
    rw [shareObject_fields]
  · intro e
    rw [shareObject_fields]

theorem keepsRange_isShared :
    KeepsRange fun x => { x with isShared := true } :=
  ⟨fun _ => rfl, fun _ => rfl, fun _ => rfl⟩

/- A region that is shared. -/
theorem forkEntry_share
    (h : MapOk m)
    (hSplit : m.entries = l ++ e :: r)
    (hShare : e.inheritance = inheritShare) :
    ∃ m' e',
      forkEntry x.answers x.tries e newMap m =
        some ((r.head?.map VmMapEntry.entryId,
          newMap.linkLast
            { entryCopy e' with isShared := true },
          e.vmeEnd - e.vmeStart), m') ∧
      Steady m m' ∧ m'.entries = l ++ e' :: r ∧
      Shares e e' := by
  have hFields := shareObject_fields x.answers x.tries false e
  have hId := (keepsRange_shareObject x.answers x.tries
    false).entryId e
  have hIds := h.idsOf hSplit
  let e₁ := shareObject x.answers x.tries false e
  let m₁ := m.modify e.entryId
    (shareObject x.answers x.tries false)
  have hSteady₁ : Steady m m₁ :=
    h.modify (keepsRange_shareObject _ _ _) _
  have hSplit₁ : m₁.entries = l ++ e₁ :: r :=
    modify_split hIds hSplit _
  have hIds₁ := hSteady₁.ok.ids
  rw [hSplit₁] at hIds₁
  let e' : VmMapEntry := { e₁ with isShared := true }
  let m' := m₁.modify e₁.entryId fun x =>
    { x with isShared := true }
  have hSteady' : Steady m₁ m' :=
    hSteady₁.ok.modify keepsRange_isShared _
  have hSplit' : m'.entries = l ++ e' :: r :=
    modify_split hIds₁ hSplit₁ _
  have hIds' := hSteady'.ok.ids
  rw [hSplit'] at hIds'
  have hAfter := vmeNext_split hIds' hSplit'
  have hNext : m'.vmeNext (some e₁.entryId) =
      r.head?.map VmMapEntry.entryId := hAfter
  refine ⟨m', e', ?_, hSteady₁.trans hSteady', hSplit', ?_⟩
  · unfold forkEntry
    rw [if_pos hShare]
    have hUpdate : MapProg.update e.entryId
        (shareObject x.answers x.tries false) m =
          some ((), m₁) := rfl
    have hDeref := deref_eq hSteady₁.ok (mem_of_split hSplit₁)
    have hDeref' : MapProg.deref (some e.entryId) m₁ =
        some (e₁, m₁) := by
      rw [← hId]
      exact hDeref
    rw [bind_eq hUpdate, bind_eq hDeref']
    have hMark : MapProg.update e₁.entryId
        (fun x => { x with isShared := true }) m₁ =
          some ((), m') := rfl
    rw [bind_eq hMark]
    have hGo : MapProg.vmeNext (some e₁.entryId) m' =
        some (r.head?.map VmMapEntry.entryId, m') := by
      rw [← hNext]
      rfl
    rw [bind_eq hGo]
    rfl
  · unfold Shares
    have hOne : e' = { e₁ with isShared := true } := rfl
    rw [hOne]
    have hTwo : e₁ = shareObject x.answers x.tries false e :=
      rfl
    rw [hTwo, hFields]

/- A region that is not inherited. -/
theorem forkEntry_none
    (h : MapOk m)
    (hSplit : m.entries = l ++ e :: r)
    (hShare : e.inheritance ≠ inheritShare)
    (hCopy : e.inheritance ≠ inheritCopy) :
    forkEntry x.answers x.tries e newMap m =
      some ((r.head?.map VmMapEntry.entryId, newMap, 0),
        m) := by
  have hIds := h.idsOf hSplit
  unfold forkEntry
  rw [if_neg hShare, if_neg hCopy]
  have hGo : MapProg.vmeNext (some e.entryId) m =
      some (r.head?.map VmMapEntry.entryId, m) := by
    rw [← vmeNext_split hIds hSplit]
    rfl
  rw [bind_eq hGo]
  rfl

/- `vm_map_fork_copy` of a region. -/
theorem forkCopy_eq
    (h : MapOk m)
    (hSplit : m.entries = l ++ e :: r) :
    (x.slowly e = none ∧
      forkCopy x.answers x.tries e newMap m = none) ∨
    (∃ kr m', x.slowly e = some (.error kr) ∧
      forkCopy x.answers x.tries e newMap m =
        some ((some e.entryId, newMap, 0), m') ∧
      SameEntries m m') ∨
    ∃ c m', x.slowly e = some (.ok c) ∧
      forkCopy x.answers x.tries e newMap m =
        some ((r.head?.map VmMapEntry.entryId,
          newMap.copyInsert (newMap.vmePrev none)
            (c.region e),
          e.vmeEnd - e.vmeStart), m') ∧
      Steady m m' ∧ m'.entries = l ++ c.source e :: r := by
  have he := mem_of_split hSplit
  have hPlace := h.toMapOrder.place he
  rcases copyin_region x h he with ⟨m₁, hSame, hRun⟩
  have hSplit₁ : m₁.entries = l ++ e :: r :=
    hSame.entries.trans hSplit
  have hEnd : e.vmeStart + (e.vmeEnd - e.vmeStart) =
      e.vmeEnd := by
    omega
  unfold regionArgs at hRun
  cases hSlow : x.slowly e with
  | none =>
      refine Or.inl ⟨rfl, ?_⟩
      rw [hSlow] at hRun
      exact bind_none hRun
  | some result =>
      rw [hSlow] at hRun
      cases result with
      | error kr =>
          rcases forkSkip_eq hSame.ok
            (mem_of_split hSplit₁) with ⟨m₂, hSkip, hSame₂⟩
          refine Or.inr (Or.inl ⟨kr, m₂, rfl, ?_, ?_⟩)
          · have hError := x.slowly_error hSlow
            unfold forkCopy
            rw [bind_eq hRun]
            cases kr
            case success => exact absurd rfl hError
            all_goals
              dsimp only
              rw [bind_eq hSkip]
              rfl
          · exact ⟨hSame.toSteady.trans hSame₂.toSteady,
              hSame₂.entries.trans hSame.entries⟩
      | ok c =>
          rcases c.mark_spec hSame.ok hSplit₁ with
            ⟨hMark, hMarked⟩
          rcases forkNext_eq hMark.ok hMarked with
            ⟨m₂, hNext, hSame₂⟩
          refine Or.inr (Or.inr ⟨c, m₂, rfl, ?_, ?_, ?_⟩)
          · unfold forkCopy
            rw [bind_eq hRun]
            have hSourceEnd : (c.source e).vmeEnd =
                e.vmeEnd := by
              unfold ObjectCopy.source
              split_ifs
              · rfl
              · rfl
            rw [hSourceEnd] at hNext
            dsimp only
            rw [hEnd, bind_eq hNext]
            rfl
          · exact (hSame.toSteady.trans hMark).trans
              hSame₂.toSteady
          · exact hSame₂.entries.trans hMarked

/- A region that is to be copied. -/
theorem forkEntry_copy
    (h : MapOk m)
    (hNew : Numbered newMap)
    (hSplit : m.entries = l ++ e :: r)
    (hCopy : e.inheritance = inheritCopy) :
    (x.copies e = none ∧
      forkEntry x.answers x.tries e newMap m = none) ∨
    (∃ kr m', x.copies e = some (.error kr) ∧
      forkEntry x.answers x.tries e newMap m =
        some ((some e.entryId, newMap, 0), m') ∧
      SameEntries m m') ∨
    ∃ c m' newMap', x.copies e = some (.ok c) ∧
      forkEntry x.answers x.tries e newMap m =
        some ((r.head?.map VmMapEntry.entryId, newMap',
          e.vmeEnd - e.vmeStart), m') ∧
      Steady m m' ∧ m'.entries = l ++ c.source e :: r ∧
      Appended newMap newMap' (c.entry e) := by
  have hShare : e.inheritance ≠ inheritShare := by
    rw [hCopy]
    decide
  have hSlow : (x.slowly e = none ∧
        forkCopy x.answers x.tries e newMap m = none) ∨
      (∃ kr m', x.slowly e = some (.error kr) ∧
        forkCopy x.answers x.tries e newMap m =
          some ((some e.entryId, newMap, 0), m') ∧
        SameEntries m m') ∨
      ∃ c m' newMap', x.slowly e = some (.ok c) ∧
        forkCopy x.answers x.tries e newMap m =
          some ((r.head?.map VmMapEntry.entryId, newMap',
            e.vmeEnd - e.vmeStart), m') ∧
        Steady m m' ∧ m'.entries = l ++ c.source e :: r ∧
        Appended newMap newMap' (c.entry e) := by
    rcases @forkCopy_eq m newMap l r e x h hSplit with
      hNone | hError | ⟨c, m', hMade, hRun, hSteady, hEntries⟩
    · exact Or.inl hNone
    · exact Or.inr (Or.inl hError)
    · exact Or.inr (Or.inr ⟨c, m', _, hMade, hRun, hSteady,
        hEntries, copyInsert_appended hNew c e⟩)
  unfold forkEntry ForkTurn.copies
  rw [if_neg hShare, if_pos hCopy]
  cases hWired : e.wiredCount with
  | succ wired => exact hSlow
  | zero =>
      cases hQuick : x.answers.copyQuickly x.tries with
      | none => exact hSlow
      | some q =>
          rcases q with ⟨object, src, new⟩
          let c : ObjectCopy := ⟨object, e.offset, new, src⟩
          rcases c.mark_spec h hSplit with ⟨hMark, hMarked⟩
          have hIds := hMark.ok.ids
          rw [hMarked] at hIds
          have hAfter := vmeNext_split hIds hMarked
          have hId : (c.source e).entryId = e.entryId := by
            unfold ObjectCopy.source
            split_ifs
            · rfl
            · rfl
          rw [hId] at hAfter
          have hNext : MapProg.vmeNext (some e.entryId)
              (c.mark e m) =
                some (r.head?.map VmMapEntry.entryId,
                  c.mark e m) := by
            rw [← hAfter]
            rfl
          refine Or.inr (Or.inr ⟨c, _, _, rfl, ?_, hMark,
            hMarked, linkLast_appended hNew _⟩)
          have hDone := @onlyIf_mark m e c src rfl
          exact (bind_eq hDone).trans (bind_eq hNext)

end

end Vm

end OsfMach
