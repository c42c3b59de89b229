import OsfMach.Ipc.Alloc

/-
  Runs of the routines on entries.

  A caller looks an entry up or allocates one, stores into
  the entry it holds, and deallocates it. An entry that has
  been allocated must be given a type before anything else
  is done to the space.

  Main declarations:
    * `EntryOp`, `EntryState`
    * `EntryState.step`, `EntryState.Legal`
    * `EntryReachable`
    * `EntryReachable.runInv`
    * `entryReachable_spaceReps`
    * `entryReachable_refines_names`
-/

------
-- Steps
------

namespace OsfMach

namespace Ipc

open Function
open Lib

variable {ipc : IpcParams}
variable {initial : Nat} {s : IpcSpace} {isAddr : Nat}
variable {isFast : Bool} {n : Nat}

/- A space and the entry its caller works on, if any. -/
structure EntryState where
  space : IpcSpace
  held : Option (Nat × EntryRef)

/-
  The routines. `assign` is the caller's store into the entry
  held; `dealloc` deallocates the entry held.
-/
inductive EntryOp where
| lookup (name : Nat)
| get
| alloc (tableOk : Nat → Bool)
| allocName (tableOk : Nat → Bool) (iteOk : Bool) (name : Nat)
| grow (tableOk : Nat → Bool) (target : Option Nat)
| assign (content : Content)
| dealloc

namespace EntryState

/- What a routine does. -/
def step
    (ipc : IpcParams)
    (st : EntryState) : EntryOp → EntryState
| .lookup name =>
    let found := ipcEntryLookup st.space name
    ⟨found.2, found.1.map (fun ref => (name, ref))⟩
| .get =>
    let found := ipcEntryGet st.space
    ⟨found.2, found.1⟩
| .alloc tableOk =>
    let found := ipcEntryAlloc ipc tableOk st.space
    ⟨found.2.2, found.2.1⟩
| .allocName tableOk iteOk name =>
    let found :=
      ipcEntryAllocName ipc tableOk iteOk st.space name
    ⟨found.2.2, found.2.1.map (fun ref => (name, ref))⟩
| .grow tableOk target =>
    ⟨(ipcEntryGrowTable ipc tableOk st.space target).2, none⟩
| .assign content =>
    match st.held with
    | none => st
    | some (name, ref) =>
        ⟨st.space.assign ref content, some (name, ref)⟩
| .dealloc =>
    match st.held with
    | none => st
    | some (name, ref) =>
        ⟨ipcEntryDealloc ipc st.space name ref, none⟩

/- The entry held, when it has no type yet. -/
def pend (st : EntryState) : Option EntryRef :=
  match st.held with
  | none => none
  | some (_, ref) =>
      if ieBitsType (st.space.fields ref).ieBits = 0 then
        some ref
      else none

/- A name that is allocated but has no type yet. -/
def Pending (st : EntryState) (name : Nat) : Prop :=
  ∃ ref, st.held = some (name, ref) ∧ st.pend = some ref

/- What callers guarantee. -/
def Legal (st : EntryState) : EntryOp → Prop
| .lookup name =>
    st.pend = none ∧
      (st.space.isFast = true →
        machPortIndex name < st.space.isTableSize)
| .get => st.pend = none
| .alloc _ => st.pend = none
| .allocName _ _ name =>
    st.pend = none ∧ MachPortValid name ∧
      name < machPortBound
| .grow _ _ => st.pend = none
| .assign content => st.held.isSome = true ∧ content.Typed
| .dealloc =>
    ∃ held, st.held = some held ∧
      (st.space.fields held.2).ieObject = 0 ∧
      (st.space.fields held.2).ieRequest = 0

end EntryState

/- The map from names to what has been stored for them. -/
abbrev NameMap := Nat → Option Content

/- What a routine does to the map. -/
def EntryOp.effect
    (st : EntryState)
    (names : NameMap) : EntryOp → NameMap
| .assign content =>
    match st.held with
    | none => names
    | some (name, _) =>
        update names name (some content)
| .dealloc =>
    match st.held with
    | none => names
    | some (name, _) => update names name none
| _ => names

/-
  The states reached from a new space by legal steps that
  satisfy `Allowed`, with the map of what was stored.
-/
inductive EntryReachable
    (ipc : IpcParams)
    (Allowed : EntryOp → Prop)
    (isAddr initial : Nat)
    (isFast : Bool) : EntryState → NameMap → Prop where
| create :
    EntryReachable ipc Allowed isAddr initial isFast
      ⟨ipcSpaceCreate ipc isAddr initial isFast, none⟩
      (fun _ => none)
| step
    {st : EntryState}
    {names : NameMap}
    (hRun : EntryReachable ipc Allowed isAddr initial isFast
      st names)
    (op : EntryOp)
    (hLegal : st.Legal op)
    (hAllowed : Allowed op) :
    EntryReachable ipc Allowed isAddr initial isFast
      (st.step ipc op) (op.effect st names)

------
-- A New Space
------

/- The free list of a new table. -/
theorem chain_initTable
    (size k i : Nat)
    (hSum : i + k + 1 = size) :
    IndexChain.Chain
      (fun j => (initTable size j).ieRequest) i
      (List.range' (i + 1) k) := by
  induction k generalizing i with
  | zero =>
      have hEnd : (initTable size i).ieRequest = 0 := by
        unfold initTable
        rw [if_pos (by omega)]
        rw [if_pos (by omega)]
      exact hEnd
  | succ k ih =>
      have hLink : (initTable size i).ieRequest = i + 1 := by
        unfold initTable
        rw [if_pos (by omega)]
        rw [if_neg (by omega)]
      exact ⟨hLink, by omega, ih (i + 1) (by omega)⟩

/- No slot of a new table is used. -/
theorem type_initTable
    (size j : Nat) :
    ieBitsType (initTable size j).ieBits = 0 := by
  unfold initTable
  by_cases h : j < size
  · rw [if_pos h]
    exact (by decide : ieBitsType ieBitsGenMask = 0)
  · rw [if_neg h]
    exact ieBitsType_zero

theorem spaceInv_create
    (ipc : IpcParams)
    (isAddr : Nat)
    (hInit : initial < ipc.sizes.last)
    (isFast : Bool) :
    SpaceInv ipc none
      (ipcSpaceCreate ipc isAddr initial isFast) := by
  have hPos : 0 < ipc.sizes.itsSize initial := by
    have hZero := ipc.sizes.size_pos
    by_cases h : initial = 0
    · rw [h]
      exact hZero
    · have hLt := ipc.sizes.lt_of_lt
        (Nat.pos_of_ne_zero h) hInit
      omega
  have hUnused : ∀ i, ¬ ((ipcSpaceCreate ipc isAddr initial
      isFast).layout ipc).Used none i := by
    intro i hUsed
    rcases hUsed with h | h
    · exact h (type_initTable _ i)
    · cases h
  have hNil : (ipcSpaceCreate ipc isAddr initial
      isFast).isTree.toList = [] := SplayTree.toList_empty
  have hNone : ∀ e, e ∉ ((ipcSpaceCreate ipc isAddr initial
      isFast).layout ipc).entries := by
    intro e he
    have he' : e ∈ (ipcSpaceCreate ipc isAddr initial
      isFast).isTree.toList := he
    cases he'
  have hBits : ∀ i, i < ipc.sizes.itsSize initial →
      (initTable (ipc.sizes.itsSize initial) i).ieBits =
        ieBitsGenMask ∧
      (initTable (ipc.sizes.itsSize initial) i).ieObject =
        0 := by
    intro i hi
    unfold initTable
    rw [if_pos hi]
    exact ⟨rfl, rfl⟩
  have hGen : ieBitsGen ieBitsGenMask = ieBitsGenMask := by
    decide
  have hLayout : LayoutInv none ((ipcSpaceCreate ipc isAddr
      initial isFast).layout ipc) :=
    { size_pos := hPos
      size_lt := ipc.sizes.size_lt hInit.le
      free := by
        refine ⟨List.range' 1 (ipc.sizes.itsSize initial - 1),
          chain_initTable _ _ 0 (by omega),
          List.nodup_range', ?_⟩
        intro i
        rw [List.mem_range'_1]
        constructor
        · rintro ⟨hGe, hLt⟩
          have hLt' : i < ipc.sizes.itsSize initial := by
            omega
          exact ⟨hGe, hLt', hUnused i⟩
        · rintro ⟨hGe, hLt, _⟩
          have hLt' : i < ipc.sizes.itsSize initial := hLt
          omega
      clean := by
        intro i _ hLt _
        have hi := hBits i hLt
        refine ⟨?_, hi.2⟩
        refine (congrArg ieBitsGen hi.1).trans ?_
        exact hGen.trans hi.1.symm
      zero_gen :=
        (congrArg ieBitsGen (hBits 0 hPos).1).trans hGen
      zero_type := type_initTable _ 0
      zero_pend := by simp
      coll := by
        intro i hLt _
        constructor
        · intro hColl
          have hi := (hBits i hLt).1
          have hColl' : ieBitsHasCollision
              (initTable (ipc.sizes.itsSize initial)
                i).ieBits = true := hColl
          rw [hi] at hColl'
          exact absurd hColl' (by decide)
        · rintro ⟨e, he, _⟩
          exact absurd he (hNone e)
      tree_used := fun e he => absurd he (hNone e)
      sorted := by
        have h : KeySorted (ipcSpaceCreate ipc isAddr initial
            isFast).isTree.toList := by
          exact KeySorted.nil
        exact h
      valid := fun e he => absurd he (hNone e)
      bits := fun e he => absurd he (hNone e)
      typed := fun e he => absurd he (hNone e)
      apart := fun e he => absurd he (hNone e) }
  exact
    { layout := hLayout
      tree := SplayTree.wellFormed_empty
      active := rfl
      growing := rfl
      next_pos := Nat.succ_pos _
      next_le := hInit
      size_eq := rfl
      total := by
        rfl
      small := by
        symm
        change Finset.card _ = 0
        rw [Finset.card_eq_zero]
        apply Finset.eq_empty_of_forall_notMem
        intro i hi
        rcases ((Layout.mem_smallIndices ..).mp hi).1 with
          ⟨e, he, _⟩
        exact hNone e he
      fast := fun _ => hNil }

------
-- The Invariant of Runs
------

/- What holds in every state of a run. -/
structure RunInv
    (ipc : IpcParams)
    (st : EntryState)
    (names : NameMap) : Prop where
  inv : SpaceInv ipc st.pend st.space
  held :
    ∀ name ref, st.held = some (name, ref) →
      ∃ fields,
        (st.space.layout ipc).At st.pend name ref fields
  has :
    ∀ n c, (st.space.layout ipc).Has st.pend n c ↔
      names n = some c ∨ (st.Pending n ∧ c = Content.fresh)
  unborn : ∀ n, st.Pending n → names n = none

namespace EntryState

variable {st : EntryState}

/- Nothing is pending when nothing is held. -/
theorem not_pending_of_pend
    (hPend : st.pend = none)
    (n : Nat) :
    ¬ st.Pending n := by
  rintro ⟨ref, _, h⟩
  rw [hPend] at h
  cases h

/- Only the entry held can be pending. -/
theorem pend_cases
    {name : Nat}
    {ref : EntryRef}
    (hHeld : st.held = some (name, ref)) :
    st.pend = none ∨ st.pend = some ref := by
  unfold pend
  rw [hHeld]
  dsimp only
  split_ifs
  · exact Or.inr rfl
  · exact Or.inl rfl

end EntryState

namespace RunInv

variable {ipc : IpcParams} {st : EntryState} {names : NameMap}
variable {s' : IpcSpace}
variable {name : Nat} {ref : EntryRef}

section RunInv

variable (hRun : RunInv ipc st names)

include hRun

theorem settled
    (hPend : st.pend = none) :
    SpaceInv ipc none st.space ∧
      ∀ n c, (st.space.layout ipc).Has none n c ↔
        names n = some c := by
  have hInv := hRun.inv
  have hHas := hRun.has
  rw [hPend] at hInv hHas
  refine ⟨hInv, ?_⟩
  intro n c
  rw [hHas]
  have hNot := EntryState.not_pending_of_pend hPend n
  simp only [hNot, false_and, or_false]

/- Nothing changes, and nothing is held. -/
theorem idle
    (hPend : st.pend = none)
    (hSame : SameNames ipc st.space s') :
    RunInv ipc ⟨s', none⟩ names := by
  have hPend' : (⟨s', none⟩ : EntryState).pend = none := rfl
  have hNot := EntryState.not_pending_of_pend hPend'
  refine ⟨hSame.inv, ?_, ?_, ?_⟩
  · intro name ref h
    cases h
  · intro n c
    rw [hPend', hSame.has, (hRun.settled hPend).2]
    simp only [hNot, false_and, or_false]
  · intro n h
    exact absurd h (hNot n)

/- Nothing changes, and an entry in use is held. -/
theorem hold
    {fields : EntryFields}
    (hPend : st.pend = none)
    (hSame : SameNames ipc st.space s')
    (hAt : (s'.layout ipc).At none name ref fields) :
    RunInv ipc ⟨s', some (name, ref)⟩ names := by
  have hPend' :
      (⟨s', some (name, ref)⟩ : EntryState).pend = none := by
    unfold EntryState.pend
    dsimp only
    rw [hSame.inv.fields_of_at hAt,
      if_neg (hSame.inv.type_of_at hAt (by simp))]
  have hNot := EntryState.not_pending_of_pend hPend'
  refine ⟨?_, ?_, ?_, ?_⟩
  · rw [hPend']
    exact hSame.inv
  · intro n r h
    cases h
    rw [hPend']
    exact ⟨fields, hAt⟩
  · intro n c
    rw [hPend', hSame.has, (hRun.settled hPend).2]
    simp only [hNot, false_and, or_false]
  · intro n h
    exact absurd h (hNot n)

/- A new entry is held. -/
theorem allocated
    (hPend : st.pend = none)
    (hAlloc : Allocated ipc st.space s' name ref) :
    RunInv ipc ⟨s', some (name, ref)⟩ names := by
  have hNames := (hRun.settled hPend).2
  rcases hAlloc.kept with ⟨fields, hAt⟩
  have hFresh : fields.content = Content.fresh := by
    have hHas : (s'.layout ipc).Has (some ref) name
        fields.content :=
      Layout.has_iff.mpr ⟨ref, fields, hAt, rfl⟩
    rcases (hAlloc.has _ _).mp hHas with h | h
    · exact absurd h (hAlloc.absent _)
    · exact h.2
  have hType : ieBitsType fields.ieBits = 0 := by
    have hRight := congrArg Content.type hFresh
    unfold Content.type EntryFields.content at hRight
    rw [ieBitsType_right] at hRight
    exact hRight
  have hPend' :
      (⟨s', some (name, ref)⟩ : EntryState).pend =
        some ref := by
    unfold EntryState.pend
    dsimp only
    rw [hAlloc.inv.fields_of_at hAt, if_pos hType]
  have hPending : ∀ n,
      (⟨s', some (name, ref)⟩ : EntryState).Pending n ↔
        n = name := by
    intro n
    constructor
    · rintro ⟨r, hHeld, _⟩
      cases hHeld
      rfl
    · intro h
      subst h
      exact ⟨ref, rfl, hPend'⟩
  refine ⟨?_, ?_, ?_, ?_⟩
  · rw [hPend']
    exact hAlloc.inv
  · intro n r h
    cases h
    rw [hPend']
    exact ⟨fields, hAt⟩
  · intro n c
    rw [hPend', hAlloc.has, hNames, hPending]
  · intro n h
    rw [hPending] at h
    subst h
    cases hSome : names n with
    | none => rfl
    | some c =>
        exact absurd ((hNames n c).mpr hSome)
          (hAlloc.absent c)

/- The entry held is stored into. -/
theorem assign
    {content : Content}
    (hLegal : st.Legal (.assign content)) :
    RunInv ipc (st.step ipc (.assign content))
      (EntryOp.effect st names (.assign content)) := by
  rcases hLegal with ⟨hSome, hTyped⟩
  rcases Option.isSome_iff_exists.mp hSome with
    ⟨⟨name, ref⟩, hHeld⟩
  rcases hRun.held name ref hHeld with ⟨fields, hAt⟩
  have hCases := EntryState.pend_cases hHeld
  have hAssign := hRun.inv.assign_spec hCases hAt hTyped
  unfold EntryState.step EntryOp.effect
  rw [hHeld]
  dsimp only
  rcases hAssign.kept with ⟨fields', hAt'⟩
  have hPend' : (⟨st.space.assign ref content,
      some (name, ref)⟩ : EntryState).pend = none := by
    unfold EntryState.pend
    dsimp only
    rw [hAssign.inv.fields_of_at hAt',
      if_neg (hAssign.inv.type_of_at hAt' (by simp))]
  have hNot := EntryState.not_pending_of_pend hPend'
  refine ⟨?_, ?_, ?_, ?_⟩
  · rw [hPend']
    exact hAssign.inv
  · intro n r h
    cases h
    rw [hPend']
    exact ⟨fields', hAt'⟩
  · intro n c
    rw [hPend', hAssign.has, update_apply]
    simp only [hNot, false_and, or_false]
    split_ifs with hName
    · simp only [Option.some.injEq]
      exact eq_comm
    · rw [hRun.has]
      have hOther : ¬ st.Pending n := by
        rintro ⟨r, hr, _⟩
        rw [hHeld] at hr
        cases hr
        exact hName rfl
      simp only [hOther, false_and, or_false]
  · intro n h
    exact absurd h (hNot n)

/- The entry held is deallocated. -/
theorem dealloc
    (hLegal : st.Legal .dealloc) :
    RunInv ipc (st.step ipc .dealloc)
      (EntryOp.effect st names .dealloc) := by
  rcases hLegal with ⟨⟨name, ref⟩, hHeld, hObject, _⟩
  rcases hRun.held name ref hHeld with ⟨fields, hAt⟩
  have hCases := EntryState.pend_cases hHeld
  rw [hRun.inv.fields_of_at hAt] at hObject
  have hDealloc := hRun.inv.dealloc_spec hCases hAt hObject
  unfold EntryState.step EntryOp.effect
  rw [hHeld]
  dsimp only
  have hPend' : (⟨ipcEntryDealloc ipc st.space name ref,
      none⟩ : EntryState).pend = none := rfl
  have hNot := EntryState.not_pending_of_pend hPend'
  refine ⟨hDealloc.inv, ?_, ?_, ?_⟩
  · intro n r h
    cases h
  · intro n c
    rw [hPend', hDealloc.has, hRun.has, update_apply]
    simp only [hNot, false_and, or_false]
    by_cases hName : n = name
    · simp [hName]
    · have hOther : ¬ st.Pending n := by
        rintro ⟨r, hr, _⟩
        rw [hHeld] at hr
        cases hr
        exact hName rfl
      simp only [hOther, false_and, or_false, hName, ne_eq,
        not_false_eq_true, and_true, if_false]
  · intro n h
    exact absurd h (hNot n)

end RunInv

end RunInv

/- Slot zero hides the name of its index and generation. -/
theorem SpaceInv.lookup_shadowed
    {pend : Option EntryRef}
    (hInv : SpaceInv ipc pend s) :
    (ipcEntryLookup s shadowedName).1 = none := by
  have hGen : ieBitsGen (s.isTable 0).ieBits =
      ieBitsGenMask := hInv.layout.zero_gen
  have hType : ieBitsType (s.isTable 0).ieBits = 0 :=
    hInv.layout.zero_type
  have hPos : 0 < s.isTableSize := hInv.layout.size_pos
  have hIndex : machPortIndex shadowedName = 0 := by decide
  have hName : machPortGen shadowedName = ieBitsGenMask := by
    decide
  have hNone : ieBitsType (s.isTable 0).ieBits =
      machPortTypeNone := hType
  unfold ipcEntryLookup
  simp only [hIndex, hGen, hName, hNone, hPos, ne_eq,
    not_true_eq_false, or_true, if_true, if_false]
  split_ifs <;> rfl

/- What a lookup returns is kept for the name. -/
theorem SpaceInv.at_of_lookup
    {ipc : IpcParams}
    {s : IpcSpace}
    {name : Nat}
    {ref : EntryRef}
    (hInv : SpaceInv ipc none s)
    (hFast : s.isFast = true →
      machPortIndex name < s.isTableSize)
    (hLookup : (ipcEntryLookup s name).1 = some ref) :
    ∃ fields, (s.layout ipc).At none name ref fields := by
  by_cases hShadow : name = shadowedName
  · rw [hShadow, hInv.lookup_shadowed] at hLookup
    cases hLookup
  · refine (hInv.lookup_spec ?_ ?_ hFast ref).mp hLookup
    · intro r fields hAt
      exact hInv.type_of_at hAt (by simp)
    · intro h
      exact absurd h hShadow

variable {st : EntryState} {names : NameMap}

theorem RunInv.lookup
    (hRun : RunInv ipc st names)
    {name : Nat}
    (hLegal : st.Legal (.lookup name)) :
    RunInv ipc (st.step ipc (.lookup name)) names := by
  rcases hLegal with ⟨hPend, hFast⟩
  have hInv := (hRun.settled hPend).1
  have hAt := fun ref => @SpaceInv.at_of_lookup ipc st.space
    name ref hInv hFast
  rcases hInv.lookup_reshape name with
    ⟨tree, hState, hList, hWF⟩
  have hSame := SameNames.reshape hInv hList hWF
  unfold EntryState.step
  dsimp only
  rw [hState]
  cases hFound : (ipcEntryLookup st.space name).1 with
  | none => exact hRun.idle hPend hSame
  | some ref =>
      rcases hAt ref hFound with ⟨fields, h⟩
      rw [← IpcSpace.layout_reshape hList] at h
      exact hRun.hold hPend hSame h

/- Every legal step keeps the invariant. -/
theorem RunInv.step
    {ipc : IpcParams}
    {st : EntryState}
    {names : NameMap}
    (hRun : RunInv ipc st names)
    (op : EntryOp)
    (hLegal : st.Legal op) :
    RunInv ipc (st.step ipc op) (op.effect st names) := by
  cases op with
  | lookup name => exact hRun.lookup hLegal
  | get =>
      have hInv := (hRun.settled hLegal).1
      unfold EntryState.step EntryOp.effect
      dsimp only
      rcases hInv.get_spec with hGet | ⟨name, i, hGet, hAlloc⟩
      · rw [hGet]
        exact hRun.idle hLegal (SameNames.refl hInv)
      · rw [hGet]
        exact hRun.allocated hLegal hAlloc
  | alloc tableOk =>
      have hInv := (hRun.settled hLegal).1
      have hSpec := @SpaceInv.alloc_spec ipc tableOk _ hInv
      unfold EntryState.step EntryOp.effect
      dsimp only
      generalize ipcEntryAlloc ipc tableOk st.space = out
        at hSpec ⊢
      rcases out with ⟨kr, _ | found, s'⟩
      · exact hRun.idle hLegal hSpec
      · exact hRun.allocated hLegal hSpec.2.2
  | allocName tableOk iteOk name =>
      rcases hLegal with ⟨hPend, hValid, hBound⟩
      have hInv := (hRun.settled hPend).1
      have hName : 0 < name ∧ name < machPortDead := by
        rcases hValid with ⟨hNull, hDead⟩
        unfold machPortNull at hNull
        unfold machPortDead at hDead ⊢
        unfold machPortBound at hBound
        omega
      have hSpec := @SpaceInv.allocName_spec ipc tableOk iteOk
        _ _ hInv hName
      unfold EntryState.step EntryOp.effect
      dsimp only
      generalize
        ipcEntryAllocName ipc tableOk iteOk st.space name =
          out at hSpec ⊢
      rcases out with ⟨kr, _ | ref, s'⟩
      · exact hRun.idle hPend hSpec
      · rcases hSpec.2 with ⟨hSame, fields, hAt⟩ | hAlloc
        · exact hRun.hold hPend hSame hAt
        · exact hRun.allocated hPend hAlloc
  | grow tableOk target =>
      have hInv := (hRun.settled hLegal).1
      exact hRun.idle hLegal (hInv.growTable_spec tableOk
        target)
  | assign content => exact hRun.assign hLegal
  | dealloc => exact hRun.dealloc hLegal

variable {Allowed : EntryOp → Prop}

/- Every state of a run satisfies the invariant. -/
theorem EntryReachable.runInv
    (hInit : initial < ipc.sizes.last)
    (hRun : EntryReachable ipc Allowed isAddr initial isFast
      st names) :
    RunInv ipc st names := by
  induction hRun with
  | create =>
      have hInv := spaceInv_create ipc isAddr hInit isFast
      have hNot := @EntryState.not_pending_of_pend
        ⟨ipcSpaceCreate ipc isAddr initial isFast, none⟩ rfl
      refine ⟨hInv, ?_, ?_, ?_⟩
      · intro name ref h
        cases h
      · intro n c
        simp only [hNot, false_and, or_false, reduceCtorEq,
          iff_false]
        rintro (h | ⟨fields, h, _⟩)
        · exact h.2.2.1.elim
            (fun hType => hType (type_initTable _ _))
            (fun hPend => by cases hPend)
        · have h' : (n, fields) ∈ (ipcSpaceCreate ipc isAddr
            initial isFast).isTree.toList := h
          cases h'
      · intro n _
        rfl
  | step hRun op hLegal _ ih => exact ih.step op hLegal

------
-- Lists of Steps
------

/- Tables of four and of eight slots. -/
def smallSizes : TableSizes :=
  { itsSize := fun i => if i = 0 then 4 else 8
    last := 2
    last_pos := by decide
    size_pos := by decide
    strict := by
      intro i hi
      have hZero : i = 0 := by omega
      subst hZero
      decide
    flat := by decide
    le_dead := by decide }

def smallParams : IpcParams := ⟨smallSizes, 15⟩

/- A receive right for an object. -/
def receiveContent : Content := ⟨machPortTypeReceive, 64, 0⟩

/- A list of steps, each of them legal and allowed. -/
def LegalRun
    (ipc : IpcParams)
    (Allowed : EntryOp → Prop) :
    EntryState → List EntryOp → Prop
| _, [] => True
| st, op :: ops =>
    st.Legal op ∧ Allowed op ∧
      LegalRun ipc Allowed (st.step ipc op) ops

/- Where a list of steps leads, and what it has stored. -/
def runOps (ipc : IpcParams) :
    EntryState → NameMap → List EntryOp →
      EntryState × NameMap
| st, names, [] => (st, names)
| st, names, op :: ops =>
    runOps ipc (st.step ipc op) (op.effect st names) ops

theorem EntryReachable.runOps
    (ops : List EntryOp)
    (hRun : EntryReachable ipc Allowed isAddr initial isFast
      st names)
    (hLegal : LegalRun ipc Allowed st ops) :
    EntryReachable ipc Allowed isAddr initial isFast
      (runOps ipc st names ops).1
      (runOps ipc st names ops).2 := by
  induction ops generalizing st names with
  | nil => exact hRun
  | cons op ops ih =>
      rcases hLegal with ⟨hOp, hAllowed, hRest⟩
      exact ih (hRun.step op hOp hAllowed) hRest

/- A new space with a small table. -/
def smallSpace : EntryState :=
  ⟨ipcSpaceCreate smallParams 0 0 false, none⟩

/- A name is allocated and given a receive right. -/
def receiveOps (name : Nat) : List EntryOp :=
  [.allocName (fun _ => true) true name,
    .assign receiveContent]

------
-- The Representation of a Space
------

/- The names that the table denotes. -/
def IpcSpace.tableNames
    (s : IpcSpace)
    (pend : Option EntryRef) : List Nat :=
  ((List.range s.isTableSize).filter (fun i =>
    0 < i ∧
      (ieBitsType (s.isTable i).ieBits ≠ machPortTypeNone ∨
        pend = some (.slot i)))).map
    (fun i => machPortMakeb i (s.isTable i).ieBits)

/- The names that the tree denotes. -/
def IpcSpace.treeNames (s : IpcSpace) : List Nat :=
  s.isTree.toList.map Prod.fst

/-
  The representation of a space. A slot counts as in use
  from its allocation on; `pend` is the entry whose type the
  caller has yet to store.
-/
structure SpaceReps
    (ipc : IpcParams)
    (pend : Option EntryRef)
    (s : IpcSpace) : Prop where
  free_list :
    ∃ free,
      IndexChain.Chain (fun i => (s.isTable i).ieNext) 0
          free ∧
        free.Nodup ∧
        ∀ i, i ∈ free ↔ 1 ≤ i ∧ i < s.isTableSize ∧
          ieBitsType (s.isTable i).ieBits =
            machPortTypeNone ∧
          pend ≠ some (.slot i)
  collision :
    ∀ i, 1 ≤ i → i < s.isTableSize →
      ieBitsType (s.isTable i).ieBits ≠ machPortTypeNone ∨
        pend = some (.slot i) →
      (ieBitsHasCollision (s.isTable i).ieBits = true ↔
        ∃ name ∈ s.treeNames, machPortIndex name = i)
  slot_in_use :
    ∀ name ∈ s.treeNames, 1 ≤ machPortIndex name →
      machPortIndex name < s.isTableSize →
        ieBitsType (s.isTable (machPortIndex name)).ieBits ≠
            machPortTypeNone ∨
          pend = some (.slot (machPortIndex name))
  tree_total : s.isTreeTotal = s.treeNames.length
  tree_small :
    s.isTreeSmall =
      ((s.treeNames.map machPortIndex).toFinset.filter
        (fun i => s.isTableSize ≤ i ∧
          i < ipc.sizes.itsSize s.isTableNext)).card
  names_nodup : (s.tableNames pend ++ s.treeNames).Nodup

namespace SpaceInv

variable {ipc : IpcParams} {pend : Option EntryRef}
variable {s : IpcSpace}

/- The name of a slot has its index and its generation. -/
theorem makeb_index
    (hInv : SpaceInv ipc pend s)
    {i : Nat}
    (hLt : i < s.isTableSize) :
    machPortIndex (machPortMakeb i (s.isTable i).ieBits) =
        i ∧
      machPortGen (machPortMakeb i (s.isTable i).ieBits) =
        ieBitsGen (s.isTable i).ieBits := by
  have hBound : i < machIndexBound :=
    hLt.trans hInv.layout.size_lt
  constructor
  · exact machPortIndex_make hBound _
  · exact machPortGen_make hBound (ieBitsGen_gen _)

theorem mem_treeNames_iff
    {name : Nat} :
    name ∈ s.treeNames ↔
      ∃ fields, (name, fields) ∈ s.isTree.toList := by
  unfold IpcSpace.treeNames
  rw [List.mem_map]
  constructor
  · rintro ⟨e, he, rfl⟩
    exact ⟨e.2, he⟩
  · rintro ⟨fields, h⟩
    exact ⟨_, h, rfl⟩

theorem collides_iff
    {i : Nat} :
    (s.layout ipc).Collides i ↔
      ∃ name ∈ s.treeNames, machPortIndex name = i := by
  constructor
  · rintro ⟨e, he, hIndex⟩
    exact ⟨e.1, mem_treeNames_iff.mpr ⟨e.2, he⟩, hIndex⟩
  · rintro ⟨name, hName, hIndex⟩
    rcases mem_treeNames_iff.mp hName with ⟨fields, h⟩
    exact ⟨_, h, hIndex⟩

/- No name is denoted twice. -/
theorem names_nodup
    (hInv : SpaceInv ipc pend s) :
    (s.tableNames pend ++ s.treeNames).Nodup := by
  rw [List.nodup_append]
  refine ⟨?_, ?_, ?_⟩
  · apply List.Nodup.map_on
    · intro i hi j hj hEq
      have hi' := List.mem_range.mp
        (List.mem_of_mem_filter hi)
      have hj' := List.mem_range.mp
        (List.mem_of_mem_filter hj)
      have hIndex := congrArg machPortIndex hEq
      rw [(hInv.makeb_index hi').1,
        (hInv.makeb_index hj').1] at hIndex
      exact hIndex
    · exact List.Nodup.filter _ List.nodup_range
  · unfold IpcSpace.treeNames
    have hSorted : KeySorted s.isTree.toList :=
      hInv.tree.sorted
    rw [List.nodup_iff_pairwise_ne, List.pairwise_map]
    exact hSorted.imp (fun h => h.ne)
  · intro a ha b hb hab
    subst hab
    rcases List.mem_map.mp ha with ⟨i, hi, hName⟩
    rcases List.mem_filter.mp hi with ⟨hRange, hUsed⟩
    rcases mem_treeNames_iff.mp hb with ⟨fields, hMem⟩
    have hLt := List.mem_range.mp hRange
    have hUsed' := of_decide_eq_true hUsed
    have hSlot := hInv.makeb_index hLt
    rw [hName] at hSlot
    have hApart := hInv.layout.apart (a, fields) hMem
    rw [hSlot.1] at hApart
    exact hApart hUsed'.1 hLt hSlot.2.symm

/- The invariant of the model is the representation. -/
theorem spaceReps
    (hInv : SpaceInv ipc pend s) :
    SpaceReps ipc pend s := by
  have hLayout := hInv.layout
  exact
    { free_list := by
        rcases hLayout.free with ⟨free, hChain, hNodup, hMem⟩
        refine ⟨free, hChain, hNodup, ?_⟩
        intro i
        rw [hMem]
        constructor
        · rintro ⟨hPos, hLt, hUnused⟩
          refine ⟨hPos, hLt, ?_, ?_⟩
          · by_contra h
            exact hUnused (Or.inl h)
          · intro h
            exact hUnused (Or.inr h)
        · rintro ⟨hPos, hLt, hType, hPend⟩
          refine ⟨hPos, hLt, ?_⟩
          rintro (h | h)
          · exact h hType
          · exact hPend h
      collision := by
        intro i _ hLt hUsed
        rw [← @collides_iff ipc]
        exact hLayout.coll i hLt (Or.inr hUsed)
      slot_in_use := by
        intro name hName hPos hLt
        rcases mem_treeNames_iff.mp hName with ⟨fields, h⟩
        exact hLayout.tree_used (name, fields) h hPos hLt
      tree_total := by
        unfold IpcSpace.treeNames
        rw [List.length_map]
        exact hInv.total
      tree_small := by
        rw [hInv.small]
        unfold Layout.smallIndices IpcSpace.layout
          IpcSpace.treeNames
        rw [List.map_map]
        rfl
      names_nodup := hInv.names_nodup }

end SpaceInv

/- Every space that can be reached is represented so. -/
theorem entryReachable_spaceReps
    {ipc : IpcParams}
    {Allowed : EntryOp → Prop}
    {isAddr initial : Nat}
    {isFast : Bool}
    {st : EntryState}
    {names : NameMap}
    (hInit : initial < ipc.sizes.last)
    (hRun : EntryReachable ipc Allowed isAddr initial isFast
      st names) :
    SpaceReps ipc st.pend st.space :=
  (hRun.runInv hInit).inv.spaceReps

theorem entryReachable_spaceReps_colliding :
    SpaceReps smallParams none
      (runOps smallParams smallSpace (fun _ => none)
        (receiveOps 0x101 ++ receiveOps 0x102)).1.space := by
  have hLegal : LegalRun smallParams (fun _ => True) smallSpace
      (receiveOps 0x101 ++ receiveOps 0x102) :=
    ⟨⟨rfl, by decide, by decide⟩, trivial, ⟨rfl, by decide⟩,
      trivial, ⟨rfl, by decide, by decide⟩, trivial,
      ⟨rfl, by decide⟩, trivial, trivial⟩
  exact entryReachable_spaceReps (by decide)
    (EntryReachable.runOps _
      (@EntryReachable.create smallParams (fun _ => True) 0 0
        false) hLegal)

/- A name of index zero, whose slot is never in use. -/
theorem slotZero_not_in_use :
    LegalRun smallParams (fun _ => True) smallSpace
        (receiveOps 1) ∧
      1 ∈ (runOps smallParams smallSpace (fun _ => none)
        (receiveOps 1)).1.space.treeNames ∧
      machPortIndex 1 <
        (runOps smallParams smallSpace (fun _ => none)
          (receiveOps 1)).1.space.isTableSize ∧
      ieBitsType ((runOps smallParams smallSpace
        (fun _ => none) (receiveOps 1)).1.space.isTable
          (machPortIndex 1)).ieBits = machPortTypeNone := by
  refine ⟨⟨⟨rfl, by decide, by decide⟩, trivial,
    ⟨rfl, by decide⟩, trivial, trivial⟩, by decide, by decide,
    by decide⟩

------
-- Lookups along Runs
------

/- The shadowed name gets no entry of the tree. -/
def NotShadowed : EntryOp → Prop
| .allocName _ iteOk name =>
    name = shadowedName → iteOk = false
| _ => True

/- In a fast space lookups stay within the table. -/
def IpcSpace.InBounds (s : IpcSpace) (name : Nat) : Prop :=
  s.isFast = true → machPortIndex name < s.isTableSize

/- The name that a step works on. -/
def EntryOp.Names
    (ipc : IpcParams)
    (st : EntryState)
    (op : EntryOp)
    (name : Nat) : Prop :=
  match op with
  | .lookup _ => False
  | .get => ∃ ref, (st.step ipc op).held = some (name, ref)
  | .alloc _ =>
      ∃ ref, (st.step ipc op).held = some (name, ref)
  | .allocName _ _ given => name = given
  | .grow _ _ => False
  | .assign _ => ∃ ref, st.held = some (name, ref)
  | .dealloc => ∃ ref, st.held = some (name, ref)

/- An entry is kept for one name. -/
theorem Layout.at_name_unique
    {L : Layout}
    {pend : Option EntryRef}
    {name name' : Nat}
    {ref : EntryRef}
    {fields fields' : EntryFields}
    (hAt : L.At pend name ref fields)
    (hAt' : L.At pend name' ref fields') :
    name = name' := by
  cases ref with
  | slot i =>
      rcases hAt with ⟨hi, _, _, _, hGen, _⟩
      rcases hAt' with ⟨hi', _, _, _, hGen', _⟩
      exact machPort_ext (hi.symm.trans hi')
        (hGen.symm.trans hGen')
  | node n => exact hAt.1.symm.trans hAt'.1

/- A lookup finds what the space denotes by a name. -/
theorem SpaceInv.found_iff
    {pend : Option EntryRef}
    (hInv : SpaceInv ipc pend s)
    (hBounds : s.InBounds n)
    (hTyped : ∀ ref fields,
      (s.layout ipc).At pend n ref fields →
        ieBitsType fields.ieBits ≠ machPortTypeNone)
    (hShadow : n = shadowedName →
      ∀ fields, (n, fields) ∉ (s.layout ipc).entries)
    (c : Content) :
    s.found n = some c ↔ (s.layout ipc).Has pend n c := by
  have hSpec := hInv.lookup_spec hTyped hShadow hBounds
  rcases hInv.lookup_reshape n with ⟨tree, hState, hList, _⟩
  have hFields : ∀ ref,
      ({ s with isTree := tree } : IpcSpace).fields ref =
        s.fields ref := by
    intro ref
    cases ref with
    | slot i => rfl
    | node m =>
        unfold IpcSpace.fields IpcSpace.treeFields
        rw [hList]
  have hFound : s.found n =
      (ipcEntryLookup s n).1.map
        fun ref => (s.fields ref).content := by
    unfold IpcSpace.found
    dsimp only
    rw [hState]
    simp only [hFields]
  rw [hFound, Option.map_eq_some_iff, Layout.has_iff]
  constructor
  · rintro ⟨ref, hRef, hContent⟩
    rcases (hSpec ref).mp hRef with ⟨fields, hAt⟩
    rw [hInv.fields_of_at hAt] at hContent
    exact ⟨ref, fields, hAt, hContent⟩
  · rintro ⟨ref, fields, hAt, hContent⟩
    refine ⟨ref, (hSpec ref).mpr ⟨fields, hAt⟩, ?_⟩
    rw [hInv.fields_of_at hAt]
    exact hContent

/- A lookup gives what the map holds. -/
theorem RunInv.found_eq
    (hRun : RunInv ipc st names)
    (hBounds : st.space.InBounds n)
    (hPending : ¬ st.Pending n)
    (hShadow : n = shadowedName → names n = none) :
    st.space.found n = names n := by
  have hHas : ∀ c, (st.space.layout ipc).Has st.pend n c ↔
      names n = some c := by
    intro c
    rw [hRun.has]
    simp only [hPending, false_and, or_false]
  have hTyped : ∀ ref fields,
      (st.space.layout ipc).At st.pend n ref fields →
        ieBitsType fields.ieBits ≠ machPortTypeNone := by
    intro ref fields hAt
    apply hRun.inv.type_of_at hAt
    intro hPend
    -- the pending entry is kept for the name held
    cases hHeld : st.held with
    | none =>
        unfold EntryState.pend at hPend
        rw [hHeld] at hPend
        cases hPend
    | some held =>
        rcases held with ⟨name, ref'⟩
        rcases hRun.held name ref' hHeld with ⟨fields', hAt'⟩
        rcases EntryState.pend_cases hHeld with h | h
        · rw [h] at hPend
          cases hPend
        · rw [hPend] at h
          cases h
          have hName := Layout.at_name_unique hAt hAt'
          subst hName
          exact hPending ⟨ref, hHeld, hPend⟩
  have hNone : n = shadowedName →
      ∀ fields, (n, fields) ∉ (st.space.layout ipc).entries := by
    intro h fields hMem
    have hSome := (hHas fields.content).mp
      (Or.inr ⟨fields, hMem, rfl⟩)
    rw [hShadow h] at hSome
    cases hSome
  apply Option.ext
  intro c
  rw [hRun.inv.found_iff hBounds hTyped hNone]
  exact hHas c

section ShadowedNames

variable {ipc : IpcParams} {s : IpcSpace}

theorem treeFields_of_not_mem
    {name : Nat}
    (h : name ∉ s.treeNames) :
    s.treeFields name = none := by
  unfold IpcSpace.treeFields
  rw [List.lookup_eq_none_iff]
  intro entry hMem
  rw [bne_iff_ne]
  intro hEq
  apply h
  rw [SpaceInv.mem_treeNames_iff, hEq]
  exact ⟨entry.2, hMem⟩

section

variable (hInv : SpaceInv ipc none s) (hSlow : s.isFast = false)
variable (hFree : shadowedName ∉ s.treeNames)
variable (tableOk : Nat → Bool)
include hInv hSlow hFree

/- The name of index zero goes into the tree. -/
theorem SpaceInv.allocNameTurn_shadowed
    (iteOk treeEntry : Bool) :
    ∃ t, SameNames ipc s t ∧ t.isFast = false ∧
      shadowedName ∉ t.treeNames ∧
        ∀ again, allocNameTurn ipc tableOk iteOk shadowedName
            again treeEntry s =
          if treeEntry then
            (.success, some (.node shadowedName),
              allocNode ipc t shadowedName)
          else if iteOk then again true t
          else (.resourceShortage, none, t) := by
  have hIndex : machPortIndex shadowedName = 0 := by decide
  have hPos : ¬ s.isTableSize ≤ 0 :=
    Nat.not_le.mpr hInv.layout.size_pos
  rcases hInv.treeLookup_of_total shadowedName with
    ⟨hRef, tree, hState, hList, hWF⟩
  refine ⟨{ s with isTree := tree },
    SameNames.reshape hInv hList hWF, hSlow, ?_, ?_⟩
  · unfold IpcSpace.treeNames at hFree ⊢
    rw [hList]
    exact hFree
  · intro again
    unfold allocNameTurn
    simp only [hInv.active, hSlow, hIndex, hRef, hState,
      treeFields_of_not_mem hFree, hPos, lt_irrefl,
      false_and, Bool.true_eq_false, Bool.false_eq_true,
      Option.map_none, Option.isSome_none, if_false]

/- A tree entry is all that it needs. -/
theorem SpaceInv.allocName_shadowed
    (iteOk : Bool) :
    (ipcEntryAllocName ipc tableOk iteOk s
      shadowedName).2.1.isSome = iteOk := by
  unfold ipcEntryAllocName
  rcases hInv.allocNameTurn_shadowed hSlow hFree tableOk
    iteOk false with ⟨t, hSame, hSlow', hFree', hTurn⟩
  rw [allocNameLoop_succ, hTurn, if_neg Bool.false_ne_true]
  cases iteOk with
  | false => rfl
  | true =>
      rcases hSame.inv.allocNameTurn_shadowed hSlow' hFree'
        tableOk true true with ⟨u, _, _, _, hTurn'⟩
      rw [if_pos rfl, allocNameLoop_succ, hTurn', if_pos rfl]
      rfl

end

/- Without a tree entry the name is not allocated. -/
theorem SpaceInv.allocName_refused
    (hInv : SpaceInv ipc none s)
    (hFree : shadowedName ∉ s.treeNames)
    (tableOk : Nat → Bool) :
    (ipcEntryAllocName ipc tableOk false s
      shadowedName).2.1 = none := by
  cases hFast : s.isFast with
  | false =>
      have hIs := hInv.allocName_shadowed hFast hFree tableOk
        false
      exact Option.isNone_iff_eq_none.mp
        (Option.isSome_eq_false_iff.mp hIs)
  | true =>
      have hIndex : machPortIndex shadowedName = 0 := by
        decide
      unfold ipcEntryAllocName
      rw [allocNameLoop_succ]
      unfold allocNameTurn
      simp only [hInv.active, hFast, hIndex, lt_irrefl,
        false_and, Bool.true_eq_false, if_false, if_true]

/- The shadowed name is not one of the table. -/
theorem Layout.has_shadowed
    {c : Content}
    (h : (s.layout ipc).Has none shadowedName c) :
    shadowedName ∈ s.treeNames := by
  rcases h with hTable | ⟨fields, hMem, _⟩
  · exact absurd hTable.1 (by decide)
  · exact SpaceInv.mem_treeNames_iff.mpr ⟨fields, hMem⟩

end ShadowedNames

section Shadow

variable {ipc : IpcParams} {isAddr initial : Nat}
variable {isFast : Bool} {st : EntryState} {names : NameMap}

/- The shadowed name is never held. -/
def NoShadow (st : EntryState) (names : NameMap) : Prop :=
  names shadowedName = none ∧
    ∀ name ref, st.held = some (name, ref) →
      name ≠ shadowedName

/- Names of table slots are not the shadowed name. -/
theorem ne_shadowed_of_slot
    {L : Layout}
    {pend : Option EntryRef}
    {name i : Nat}
    {fields : EntryFields}
    (hAt : L.At pend name (.slot i) fields) :
    name ≠ shadowedName := by
  intro h
  rcases hAt with ⟨hi, hPos, _⟩
  rw [h] at hi
  rw [hi] at hPos
  exact absurd hPos (by decide)

theorem NoShadow.step
    (hNo : NoShadow st names)
    (hRun : RunInv ipc st names)
    (op : EntryOp)
    (hLegal : st.Legal op)
    (hAllowed : NotShadowed op) :
    NoShadow (st.step ipc op) (op.effect st names) := by
  cases op with
  | lookup name =>
      refine ⟨hNo.1, ?_⟩
      intro n ref hHeld hShadow
      rcases Option.map_eq_some_iff.mp hHeld with
        ⟨r, hLookup, hEq⟩
      cases hEq
      rw [hShadow, (hRun.settled hLegal.1).1.lookup_shadowed]
        at hLookup
      cases hLookup
  | get =>
      refine ⟨hNo.1, ?_⟩
      intro n ref hHeld
      unfold EntryState.step at hHeld
      dsimp only at hHeld
      have hInv := (hRun.settled hLegal).1
      rcases hInv.get_spec with hGet | ⟨name, i, hGet, hAlloc⟩
      · rw [hGet] at hHeld
        cases hHeld
      · rw [hGet] at hHeld
        cases hHeld
        rcases hAlloc.kept with ⟨fields, hAt⟩
        exact ne_shadowed_of_slot hAt
  | alloc tableOk =>
      refine ⟨hNo.1, ?_⟩
      intro n ref hHeld
      unfold EntryState.step at hHeld
      dsimp only at hHeld
      have hInv := (hRun.settled hLegal).1
      have hSpec := @SpaceInv.alloc_spec ipc tableOk _ hInv
      generalize ipcEntryAlloc ipc tableOk st.space = out
        at hSpec hHeld
      rcases out with ⟨kr, _ | found, s'⟩
      · cases hHeld
      · cases hHeld
        rcases hSpec.2 with ⟨⟨i, hi⟩, hAlloc⟩
        subst hi
        rcases hAlloc.kept with ⟨fields, hAt⟩
        exact ne_shadowed_of_slot hAt
  | allocName tableOk iteOk name =>
      refine ⟨hNo.1, ?_⟩
      intro n ref hHeld
      rcases Option.map_eq_some_iff.mp hHeld with
        ⟨r, hAlloc, hEq⟩
      cases hEq
      intro hShadow
      subst hShadow
      rcases hRun.settled hLegal.1 with ⟨hInv, hNames⟩
      have hFree : shadowedName ∉ st.space.treeNames := by
        intro hMem
        rcases SpaceInv.mem_treeNames_iff.mp hMem with
          ⟨fields, hIn⟩
        have hSome := (hNames shadowedName fields.content).mp
          (Or.inr ⟨fields, hIn, rfl⟩)
        rw [hNo.1] at hSome
        cases hSome
      have hIte := hAllowed rfl
      subst hIte
      rw [hInv.allocName_refused hFree tableOk] at hAlloc
      cases hAlloc
  | grow tableOk target =>
      refine ⟨hNo.1, ?_⟩
      intro n ref hHeld
      cases hHeld
  | assign content =>
      rcases Option.isSome_iff_exists.mp hLegal.1 with
        ⟨⟨name, ref⟩, hHeld⟩
      have hName := hNo.2 name ref hHeld
      unfold EntryState.step EntryOp.effect
      rw [hHeld]
      refine ⟨?_, ?_⟩
      · dsimp only
        rw [update_of_ne hName.symm]
        exact hNo.1
      · intro n r h
        cases h
        exact hName
  | dealloc =>
      rcases hLegal with ⟨⟨name, ref⟩, hHeld, _⟩
      have hName := hNo.2 name ref hHeld
      unfold EntryState.step EntryOp.effect
      rw [hHeld]
      refine ⟨?_, ?_⟩
      · dsimp only
        rw [update_of_ne hName.symm]
        exact hNo.1
      · intro n r h
        cases h

/- In such runs the shadowed name is never allocated. -/
theorem EntryReachable.noShadow
    (hInit : initial < ipc.sizes.last)
    (hRun : EntryReachable ipc NotShadowed isAddr initial
      isFast st names) :
    NoShadow st names := by
  induction hRun with
  | create =>
      refine ⟨rfl, ?_⟩
      intro name ref h
      cases h
  | step hRun op hLegal hAllowed ih =>
      exact ih.step (hRun.runInv hInit) op hLegal hAllowed

/- A step leaves the map alone except for its name. -/
theorem EntryOp.effect_of_not_names
    (op : EntryOp)
    (hNot : ¬ op.Names ipc st n) :
    op.effect st names n = names n := by
  cases op with
  | assign content | dealloc =>
      unfold EntryOp.effect
      cases hHeld : st.held with
      | none => rfl
      | some held =>
          rcases held with ⟨name, ref⟩
          apply update_of_ne
          intro h
          rw [← h] at hHeld
          exact hNot ⟨ref, hHeld⟩
  | _ => rfl

/- A name is pending only while steps work on it. -/
theorem EntryOp.not_pending
    (hRun : RunInv ipc st names)
    (op : EntryOp)
    (hLegal : st.Legal op)
    (hNot : ¬ op.Names ipc st n) :
    ¬ st.Pending n ∧ ¬ (st.step ipc op).Pending n := by
  have hNext := hRun.step op hLegal
  cases op with
  | lookup name =>
      refine ⟨EntryState.not_pending_of_pend hLegal.1 n, ?_⟩
      intro hPending
      have hNone := hNext.unborn n hPending
      rcases hPending with ⟨ref, hHeld, _⟩
      rcases Option.map_eq_some_iff.mp hHeld with
        ⟨r, hLookup, hEq⟩
      cases hEq
      rcases hRun.settled hLegal.1 with ⟨hInv, hNames⟩
      rcases hInv.at_of_lookup hLegal.2 hLookup with
        ⟨fields, hAt⟩
      have hSome := (hNames n fields.content).mp
        (Layout.has_iff.mpr ⟨_, fields, hAt, rfl⟩)
      exact absurd (hNone.symm.trans hSome) (by simp)
  | get | alloc tableOk =>
      refine ⟨EntryState.not_pending_of_pend hLegal n, ?_⟩
      rintro ⟨ref, hHeld, _⟩
      exact hNot ⟨ref, hHeld⟩
  | allocName tableOk iteOk name =>
      refine ⟨EntryState.not_pending_of_pend hLegal.1 n, ?_⟩
      rintro ⟨ref, hHeld, _⟩
      rcases Option.map_eq_some_iff.mp hHeld with ⟨r, _, hEq⟩
      cases hEq
      exact hNot rfl
  | grow tableOk target =>
      refine ⟨EntryState.not_pending_of_pend hLegal n, ?_⟩
      rintro ⟨ref, hHeld, _⟩
      cases hHeld
  | assign content =>
      refine ⟨fun ⟨ref, hHeld, _⟩ => hNot ⟨ref, hHeld⟩, ?_⟩
      rintro ⟨ref, hHeld, _⟩
      unfold EntryState.step at hHeld
      cases hOld : st.held with
      | none =>
          rw [hOld] at hHeld
          exact hNot ⟨ref, hHeld⟩
      | some held =>
          rw [hOld] at hHeld
          cases hHeld
          exact hNot ⟨_, hOld⟩
  | dealloc =>
      refine ⟨fun ⟨ref, hHeld, _⟩ => hNot ⟨ref, hHeld⟩, ?_⟩
      rintro ⟨ref, hHeld, _⟩
      rcases hLegal with ⟨held, hOld, _⟩
      unfold EntryState.step at hHeld
      rw [hOld] at hHeld
      cases hHeld

end Shadow

/-
  In runs where the name that slot zero shadows gets no entry
  a space is the map of what has been stored: lookups give
  what the map holds, and a step on one name changes the
  lookup of no other.
-/
theorem entryReachable_refines_names
    {ipc : IpcParams}
    {isAddr initial : Nat}
    {isFast : Bool}
    {st : EntryState}
    {names : NameMap}
    (hInit : initial < ipc.sizes.last)
    (hRun : EntryReachable ipc NotShadowed isAddr initial
      isFast st names)
    (n : Nat) :
    (st.space.InBounds n → ¬ st.Pending n →
        st.space.found n = names n) ∧
      ∀ op, st.Legal op → NotShadowed op →
        ¬ op.Names ipc st n →
          st.space.InBounds n →
            (st.step ipc op).space.InBounds n →
              (st.step ipc op).space.found n =
                st.space.found n := by
  have hInv := hRun.runInv hInit
  have hNo := hRun.noShadow hInit
  have hNow : st.space.InBounds n → ¬ st.Pending n →
      st.space.found n = names n := by
    intro hBounds hPending
    apply hInv.found_eq hBounds hPending
    intro h
    rw [h]
    exact hNo.1
  refine ⟨hNow, ?_⟩
  intro op hLegal hAllowed hNot hBounds hBounds'
  rcases op.not_pending hInv hLegal hNot with
    ⟨hPending, hPending'⟩
  have hNo' := hNo.step hInv op hLegal hAllowed
  have hNext := (hInv.step op hLegal).found_eq hBounds'
    hPending'
    (by
      intro h
      rw [h]
      exact hNo'.1)
  rw [hNext, hNow hBounds hPending]
  exact op.effect_of_not_names hNot

/- Two names of one index, one of them in the tree. -/
theorem entryReachable_refines_names_colliding :
    (runOps smallParams smallSpace (fun _ => none)
      (receiveOps 0x101 ++
        receiveOps 0x102)).1.space.found 0x102 =
      some receiveContent := by
  have hLegal : LegalRun smallParams NotShadowed smallSpace
      (receiveOps 0x101 ++ receiveOps 0x102) := by
    refine ⟨⟨rfl, by decide, by decide⟩, ?_, ⟨rfl, by decide⟩,
      trivial, ⟨rfl, by decide, by decide⟩, ?_,
      ⟨rfl, by decide⟩, trivial, trivial⟩
    · exact (by decide : 0x101 = shadowedName → true = false)
    · exact (by decide : 0x102 = shadowedName → true = false)
  have hRun := EntryReachable.runOps _
    (@EntryReachable.create smallParams NotShadowed 0 0 false)
    hLegal
  refine ((entryReachable_refines_names (by decide) hRun
    0x102).1 ?_ ?_).trans rfl
  · intro h
    cases h
  · exact EntryState.not_pending_of_pend rfl _

/- The tree entry of the shadowed name is not found. -/
theorem found_shadowedName :
    LegalRun smallParams (fun _ => True) smallSpace
        (receiveOps shadowedName) ∧
      MachPortValid shadowedName ∧
      (runOps smallParams smallSpace (fun _ => none)
        (receiveOps shadowedName)).2 shadowedName =
          some receiveContent ∧
      (runOps smallParams smallSpace (fun _ => none)
        (receiveOps shadowedName)).1.space.found
          shadowedName = none := by
  refine ⟨⟨⟨rfl, by decide, by decide⟩, trivial,
    ⟨rfl, by decide⟩, trivial, trivial⟩, by decide, rfl, rfl⟩

end Ipc

end OsfMach
