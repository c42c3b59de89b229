import OsfMach.Ipc.Allocate

/-
  What a right is allocated under.

  Ports and port sets get the name that was asked for. A dead
  name gets the name that the space picks.

  Main declarations:
    * `Binds`, `GivesOut`
    * `IsNewRight`, `AllocatesName`, `HonoursName`
    * `Binds.found_self`, `Binds.found_other`
    * `GivesOut.unique`
    * `ipcObjectAllocName_outcome`
    * `allocate_name_iff`
-/

------
-- Bindings
------

namespace OsfMach

namespace Ipc

open Function
open Lib

variable {bits right : EntryBits} {s : IpcSpace}
variable {made : IpcSpace → IpcObject}
variable {ref : EntryRef} {t : ObjectSpace} {zero : IpcObject}

/- A new name denotes a content, and nothing else changed. -/
structure Binds
    (ipc : IpcParams)
    (s t : IpcSpace)
    (name : Nat)
    (content : Content) : Prop where
  inv : SpaceInv ipc none t
  absent : ∀ c, ¬ (s.layout ipc).Has none name c
  has :
    ∀ n c, (t.layout ipc).Has none n c ↔
      if n = name then c = content
      else (s.layout ipc).Has none n c
  fast : t.isFast = s.isFast

section Bindings

variable {ipc : IpcParams} {s t : IpcSpace} {name n : Nat}
variable {ref : EntryRef} {content : Content}

theorem IpcSpace.inBounds_of_slow
    (hSlow : s.isFast = false) :
    s.InBounds n := by
  intro hFast
  rw [hSlow] at hFast
  cases hFast

/- Slot zero hides this name. -/
theorem SpaceInv.found_shadowed
    (hInv : SpaceInv ipc none s) :
    s.found shadowedName = none := by
  unfold IpcSpace.found
  dsimp only
  rw [hInv.lookup_shadowed]
  rfl

/- Every other name is found as the space denotes it. -/
theorem SpaceInv.found_settled
    (hInv : SpaceInv ipc none s)
    (hSlow : s.isFast = false)
    (hNe : n ≠ shadowedName)
    (c : Content) :
    s.found n = some c ↔ (s.layout ipc).Has none n c :=
  hInv.found_iff (IpcSpace.inBounds_of_slow hSlow)
    (fun _ _ hAt => hInv.type_of_at hAt (by simp))
    (fun h => absurd h hNe) c

theorem SameNames.found_eq
    (hInv : SpaceInv ipc none s)
    (h : SameNames ipc s t)
    (hSlow : s.isFast = false) :
    t.found n = s.found n := by
  by_cases hNe : n = shadowedName
  · rw [hNe, hInv.found_shadowed, h.inv.found_shadowed]
  · apply Option.ext
    intro c
    rw [h.inv.found_settled (h.fast.trans hSlow) hNe,
      hInv.found_settled hSlow hNe]
    exact h.has n c

theorem Binds.found_self
    (h : Binds ipc s t name content)
    (hSlow : s.isFast = false)
    (hNe : name ≠ shadowedName) :
    t.found name = some content := by
  rw [h.inv.found_settled (h.fast.trans hSlow) hNe, h.has,
    if_pos rfl]

theorem Binds.found_other
    (hInv : SpaceInv ipc none s)
    (h : Binds ipc s t name content)
    (hSlow : s.isFast = false)
    (hOther : n ≠ name) :
    t.found n = s.found n := by
  by_cases hNe : n = shadowedName
  · rw [hNe, hInv.found_shadowed, h.inv.found_shadowed]
  · apply Option.ext
    intro c
    rw [h.inv.found_settled (h.fast.trans hSlow) hNe,
      hInv.found_settled hSlow hNe, h.has, if_neg hOther]

theorem Binds.unbound
    (hInv : SpaceInv ipc none s)
    (h : Binds ipc s t name content)
    (hSlow : s.isFast = false) :
    s.found name = none := by
  by_cases hNe : name = shadowedName
  · rw [hNe]
    exact hInv.found_shadowed
  · apply Option.eq_none_iff_forall_not_mem.mpr
    intro c hFound
    exact h.absent c
      ((hInv.found_settled hSlow hNe c).mp hFound)

/- A new entry has nothing in it yet. -/
theorem Allocated.content_fresh
    (h : Allocated ipc s t name ref) :
    (t.fields ref).content = Content.fresh := by
  rcases h.kept with ⟨fields, hAt⟩
  rw [h.inv.fields_of_at hAt]
  have hHas := (h.has name fields.content).mp
    (Layout.has_iff.mpr ⟨ref, fields, hAt, rfl⟩)
  rcases hHas with hOld | hNew
  · exact absurd hOld (h.absent _)
  · exact hNew.2

theorem ieBitsWithRight_of_none
    (hBits : ieBitsRight bits = 0)
    (hRight : ieBitsRight right = right) :
    ieBitsWithRight bits right = bits ||| right := by
  have hSplit : bits &&& ~~~ieBitsRightMask = bits := by
    unfold ieBitsRight at hBits
    have hAll : bits &&& (ieBitsRightMask |||
        ~~~ieBitsRightMask) = bits := by
      exact BitVec.and_allOnes
    rw [BitVec.and_or_distrib_left, hBits] at hAll
    exact BitVec.zero_or.symm.trans hAll
  unfold ieBitsWithRight
  rw [hSplit, hRight]

/- Entering a right is giving a new entry its content. -/
theorem Allocated.enter_eq
    (h : Allocated ipc s t name ref)
    (hRight : ieBitsRight right = right)
    (object : Nat) :
    t.enter ref right object =
      t.assign ref ⟨right, object, 0⟩ := by
  have hContent := h.content_fresh
  have hBits : ieBitsRight (t.fields ref).ieBits = 0 :=
    congrArg Content.right hContent
  have hRequest : (t.fields ref).ieRequest = 0 :=
    congrArg Content.request hContent
  unfold IpcSpace.enter IpcSpace.assign
  rw [ieBitsWithRight_of_none hBits hRight, hRequest]

theorem Allocated.enterDead_eq
    (h : Allocated ipc s t name ref) :
    t.enterDead ref =
      t.enter ref (machPortTypeDeadName ||| 1#32) 0 := by
  have hObject : (t.fields ref).ieObject = 0 :=
    congrArg Content.object h.content_fresh
  unfold IpcSpace.enterDead IpcSpace.enter
  rw [← hObject]

/- A new name that is given a right denotes it. -/
theorem Allocated.binds
    (h : Allocated ipc s t name ref)
    (hTyped : (⟨right, 0, 0⟩ : Content).Typed)
    (object : Nat) :
    Binds ipc s (t.enter ref right object) name
      ⟨right, object, 0⟩ := by
  rcases h.kept with ⟨fields, hAt⟩
  have hAssign := h.inv.assign_spec (.inr rfl) hAt
    (show (⟨right, object, 0⟩ : Content).Typed from hTyped)
  rw [h.enter_eq hTyped.1]
  refine ⟨hAssign.inv, h.absent, fun n c => ?_,
    hAssign.fast.trans h.fast⟩
  rw [hAssign.has]
  by_cases hSame : n = name
  · rw [if_pos hSame, if_pos hSame]
  · rw [if_neg hSame, if_neg hSame, h.has]
    simp [hSame]

end Bindings

------
-- Success and Entries
------

section Entries

variable {ipc : IpcParams} {tableOk : Nat → Bool} {iteOk : Bool}
variable {name : Nat}

/- A success comes with an entry. -/
def HasEntry
    {α : Type}
    (out : KernReturn × Option α × IpcSpace) : Prop :=
  out.1 = .success → out.2.1.isSome = true

theorem hasEntry_some
    {α : Type}
    (kr : KernReturn)
    (found : α)
    (s : IpcSpace) :
    HasEntry (kr, some found, s) :=
  fun _ => rfl

theorem hasEntry_error
    {α : Type}
    {kr : KernReturn}
    (hError : kr ≠ .success)
    (found : Option α)
    (s : IpcSpace) :
    HasEntry (kr, found, s) :=
  fun h => absurd h hError

/- A growth, and the next turn when it succeeds. -/
theorem hasEntry_grow
    {α : Type}
    {again : IpcSpace → KernReturn × Option α × IpcSpace}
    (grown : KernReturn × IpcSpace)
    (hAgain : ∀ s, HasEntry (again s)) :
    HasEntry
      (match grown with
      | (.success, s) => again s
      | (kr, s) => (kr, none, s)) := by
  rcases grown with ⟨kr, s⟩
  cases kr with
  | success => exact hAgain s
  | _ => exact hasEntry_error (by decide) _ _

theorem allocLoop_hasEntry
    (fuel : Nat)
    (s : IpcSpace) :
    HasEntry (allocLoop ipc tableOk fuel s) := by
  induction fuel generalizing s with
  | zero => exact hasEntry_error (by decide) _ _
  | succ fuel ih =>
      rw [allocLoop_succ]
      unfold allocTurn
      split
      · rcases ipcEntryGet s with ⟨_ | found, s'⟩
        · exact hasEntry_grow _ ih
        · exact hasEntry_some _ _ _
      · exact hasEntry_error (by decide) _ _

theorem allocNameLoop_hasEntry
    (fuel : Nat)
    (treeEntry : Bool)
    (s : IpcSpace) :
    HasEntry
      (allocNameLoop ipc tableOk iteOk name fuel treeEntry
        s) := by
  induction fuel generalizing treeEntry s with
  | zero => exact hasEntry_error (by decide) _ _
  | succ fuel ih =>
      rw [allocNameLoop_succ]
      unfold allocNameTurn
      dsimp only
      split
      · exact hasEntry_error (by decide) _ _
      split
      · exact hasEntry_some _ _ _
      split
      · exact hasEntry_some _ _ _
      split
      · exact hasEntry_error (by decide) _ _
      generalize (if 0 < s.isTreeTotal then treeLookup s name
        else (none, s)) = found
      split
      · rename_i hFound
        exact fun _ => hFound
      split
      · exact hasEntry_grow _ (ih treeEntry)
      split
      · exact hasEntry_some _ _ _
      split
      · exact ih true _
      · exact hasEntry_error (by decide) _ _

theorem ipcEntryAlloc_hasEntry
    {s : IpcSpace} :
    HasEntry (ipcEntryAlloc ipc tableOk s) :=
  allocLoop_hasEntry _ _

theorem ipcEntryAllocName_hasEntry
    {s : IpcSpace} :
    HasEntry (ipcEntryAllocName ipc tableOk iteOk s name) :=
  allocNameLoop_hasEntry _ _ _

end Entries

------
-- The Name That Is Picked
------

/-
  The name that a space gives out next: the head of the free
  list, in its next generation. When there is none the table
  is grown first.
-/
inductive GivesOut
    (ipc : IpcParams)
    (tableOk : Nat → Bool) : IpcSpace → Nat → Prop
| head {s : IpcSpace} :
    (s.isTable 0).ieNext ≠ 0 →
      GivesOut ipc tableOk s
        (machPortMake (s.isTable 0).ieNext
          (ieBitsNewGen
            (s.isTable (s.isTable 0).ieNext).ieBits))
| grown {s t : IpcSpace} {name : Nat} :
    (s.isTable 0).ieNext = 0 →
      ipcEntryGrowTable ipc tableOk s none = (.success, t) →
        GivesOut ipc tableOk t name →
          GivesOut ipc tableOk s name

section Picked

variable {ipc : IpcParams} {tableOk : Nat → Bool}
variable {s t : IpcSpace} {name : Nat}

theorem ipcEntryGet_empty
    (hFree : (s.isTable 0).ieNext = 0) :
    ipcEntryGet s = (none, s) := by
  unfold ipcEntryGet
  rw [if_pos hFree]

theorem ipcEntryGet_head
    (hFree : (s.isTable 0).ieNext ≠ 0) :
    (ipcEntryGet s).1 =
      some (machPortMake (s.isTable 0).ieNext
        (ieBitsNewGen
          (s.isTable (s.isTable 0).ieNext).ieBits),
        .slot (s.isTable 0).ieNext) := by
  unfold ipcEntryGet
  rw [if_neg hFree]

/- What is allocated is what is given out. -/
theorem allocLoop_givesOut
    (fuel : Nat)
    {found : Nat × EntryRef}
    (h : (allocLoop ipc tableOk fuel s).2.1 = some found) :
    GivesOut ipc tableOk s found.1 := by
  induction fuel generalizing s with
  | zero => cases h
  | succ fuel ih =>
      rw [allocLoop_succ] at h
      unfold allocTurn at h
      by_cases hActive : s.isActive = true
      swap
      · rw [if_neg hActive] at h
        cases h
      rw [if_pos hActive] at h
      by_cases hFree : (s.isTable 0).ieNext = 0
      · rw [ipcEntryGet_empty hFree] at h
        dsimp only at h
        generalize hGrow : ipcEntryGrowTable ipc tableOk s
          none = grown at h
        rcases grown with ⟨kr, t⟩
        cases kr with
        | success => exact .grown hFree hGrow (ih h)
        | _ => cases h
      · have hHead := ipcEntryGet_head hFree
        generalize ipcEntryGet s = out at h hHead
        rcases out with ⟨_ | picked, t⟩
        · cases hHead
        · cases h
          cases hHead
          exact .head hFree

section

variable (h : GivesOut ipc tableOk s name)
include h

/- What is given out is allocated. -/
theorem GivesOut.allocLoop
    (hInv : SpaceInv ipc none s)
    {fuel : Nat}
    (hFuel : ipc.sizes.last < fuel + s.isTableNext) :
    ∃ ref t, allocLoop ipc tableOk fuel s =
      (.success, some (name, ref), t) := by
  have hNext := hInv.next_le
  induction h generalizing fuel with
  | @head s hFree =>
      rcases fuel with _ | fuel
      · omega
      rw [allocLoop_succ]
      unfold allocTurn
      rw [if_pos hInv.active]
      have hHead := ipcEntryGet_head hFree
      generalize ipcEntryGet s = out at hHead ⊢
      rcases out with ⟨_ | picked, t⟩
      · cases hHead
      · cases hHead
        exact ⟨_, t, rfl⟩
  | @grown s t name hFree hGrow _ ih =>
      rcases fuel with _ | fuel
      · omega
      have hMore := @SpaceInv.growTable_next_lt ipc tableOk s
        hInv (by rw [hGrow])
      have hSame := hInv.growTable_spec tableOk none
      rw [hGrow] at hMore hSame
      have hLess : ipc.sizes.last < fuel + t.isTableNext := by
        dsimp only at hMore
        omega
      rcases ih hSame.inv hLess hSame.inv.next_le with
        ⟨ref, u, hRun⟩
      refine ⟨ref, u, ?_⟩
      rw [allocLoop_succ]
      unfold allocTurn
      rw [if_pos hInv.active, ipcEntryGet_empty hFree]
      dsimp only
      rw [hGrow]
      exact hRun

theorem GivesOut.alloc
    (hInv : SpaceInv ipc none s) :
    ∃ ref t, ipcEntryAlloc ipc tableOk s =
      (.success, some (name, ref), t) :=
  h.allocLoop hInv (by omega)

/- No two names are given out next. -/
theorem GivesOut.unique
    {name' : Nat}
    (hInv : SpaceInv ipc none s)
    (h' : GivesOut ipc tableOk s name') :
    name = name' := by
  rcases h.alloc hInv with ⟨ref, t, hAlloc⟩
  rcases h'.alloc hInv with ⟨ref', t', hAlloc'⟩
  rw [hAlloc] at hAlloc'
  cases hAlloc'
  rfl

end

end Picked

------
-- Rights under New Names
------

/- The space is well formed, and no new object is taken. -/
structure ObjectSpace.Ok
    (ipc : IpcParams)
    (st : ObjectSpace) : Prop where
  inv :
    st.space.isActive = true → SpaceInv ipc none st.space
  fresh : ∀ a, st.nextObject ≤ a → st.objects a = none

/- Nothing has changed but the shape of the space. -/
structure Unallocated
    (ipc : IpcParams)
    (st t : ObjectSpace) : Prop where
  names : SameNames ipc st.space t.space
  objects : t.objects = st.objects

/- A name denotes a new object. -/
structure NewObject
    (ipc : IpcParams)
    (st t : ObjectSpace)
    (name : Nat)
    (right : EntryBits)
    (made : IpcSpace → IpcObject) : Prop where
  active : st.space.isActive = true
  binds :
    Binds ipc st.space t.space name ⟨right, st.nextObject, 0⟩
  objects :
    t.objects =
      update st.objects st.nextObject (some (made t.space))

section Rights

variable {ipc : IpcParams} {env : AllocateAnswers}
variable {st : ObjectSpace} {zero : IpcObject}
variable {right : EntryBits} {name : Nat}

theorem not_inuse_of_allocated
    {s t : IpcSpace}
    (h : Allocated ipc s t name ref) :
    ipcRightInuse t ref = false := by
  have hRight : ieBitsRight (t.fields ref).ieBits = 0 :=
    congrArg Content.right h.content_fresh
  unfold ipcRightInuse
  rw [← ieBitsType_right, hRight, ieBitsType_zero]
  rfl

theorem SpaceInv.inuse_of_at
    {fields : EntryFields}
    (hInv : SpaceInv ipc none s)
    (hAt : (s.layout ipc).At none name ref fields) :
    ipcRightInuse s ref = true := by
  have hType := hInv.type_of_at hAt (by simp)
  unfold ipcRightInuse
  rw [hInv.fields_of_at hAt]
  exact decide_eq_true hType

theorem ObjectSpace.Ok.freed
    (hOk : st.Ok ipc)
    (zero : Option IpcObject) :
    update
        (update st.objects st.nextObject zero)
        st.nextObject none =
      st.objects := by
  rw [update_idem]
  exact update_eq_self_iff.mpr
    (hOk.fresh _ (le_refl _)).symm

/- `ipc_object_alloc_name` makes the name, or does nothing. -/
theorem ipcObjectAllocName_outcome
    (hOk : st.Ok ipc)
    (hActive : st.space.isActive = true)
    (hValid : 0 < name ∧ name < machPortDead)
    (hTyped : (⟨right, 0, 0⟩ : Content).Typed) :
    (∃ t,
        ipcObjectAllocName ipc env st zero right name =
            (.success, some st.nextObject, t) ∧
          NewObject ipc st t name right
            fun _ => zero.activate) ∨
      ∃ kr t,
        ipcObjectAllocName ipc env st zero right name =
            (kr, none, t) ∧
          kr ≠ .success ∧ Unallocated ipc st t := by
  have hInv := hOk.inv hActive
  unfold ipcObjectAllocName ObjectSpace.ioAlloc
  by_cases hObject : env.objectOk = true
  swap
  · rw [if_neg hObject]
    exact .inr ⟨_, _, rfl, by decide, .refl hInv, rfl⟩
  rw [if_pos hObject]
  dsimp only [ObjectSpace.setObject]
  have hSpec := @SpaceInv.allocName_spec ipc env.tableOk
    env.iteOk st.space name hInv hValid
  have hHas := @ipcEntryAllocName_hasEntry ipc env.tableOk
    env.iteOk name st.space
  generalize ipcEntryAllocName ipc env.tableOk env.iteOk
    st.space name = out at hSpec hHas ⊢
  rcases out with ⟨kr, _ | ref, s⟩
  · have hError : kr ≠ .success := by
      intro hKr
      cases hHas hKr
    have hSame : SameNames ipc st.space s := hSpec
    refine .inr ⟨kr, { st with
      space := s
      objects := update
        (update st.objects st.nextObject (some zero))
        st.nextObject none
      nextObject := st.nextObject + 1 }, ?_, hError, hSame,
      hOk.freed (some zero)⟩
    cases kr with
    | success => exact absurd rfl hError
    | _ => rfl
  · rcases hSpec with ⟨hKr, ⟨hSame, fields, hAt⟩ | hAlloc⟩
    · subst hKr
      dsimp only
      rw [if_pos (hSame.inv.inuse_of_at hAt)]
      exact .inr ⟨_, _, rfl, by decide, hSame,
        hOk.freed (some zero)⟩
    · subst hKr
      dsimp only
      rw [if_neg (by
        rw [not_inuse_of_allocated hAlloc]
        exact Bool.false_ne_true)]
      exact .inl ⟨_, rfl, hActive, hAlloc.binds hTyped _,
        update_idem _ _ _⟩

/- `ipc_object_alloc_dead` gives out a name, or nothing. -/
theorem ipcObjectAllocDead_outcome
    (hOk : st.Ok ipc)
    (hActive : st.space.isActive = true) :
    (∃ picked t,
        ipcObjectAllocDead ipc env st =
            (.success, some picked, t) ∧
          GivesOut ipc env.tableOk st.space picked ∧
          picked ≠ shadowedName ∧
          Binds ipc st.space t.space picked
            ⟨machPortTypeDeadName ||| 1#32, 0, 0⟩ ∧
          t.objects = st.objects) ∨
      ∃ kr t,
        ipcObjectAllocDead ipc env st = (kr, none, t) ∧
          kr ≠ .success ∧ Unallocated ipc st t := by
  have hInv := hOk.inv hActive
  have hSpec := @SpaceInv.alloc_spec ipc env.tableOk
    st.space hInv
  have hHas := @ipcEntryAlloc_hasEntry ipc env.tableOk
    st.space
  have hGives := @allocLoop_givesOut ipc env.tableOk st.space
    (ipc.sizes.last + 2)
  change ∀ {found}, (ipcEntryAlloc ipc env.tableOk
    st.space).2.1 = some found → _ at hGives
  unfold ipcObjectAllocDead
  generalize ipcEntryAlloc ipc env.tableOk st.space = out
    at hSpec hHas hGives ⊢
  rcases out with ⟨kr, _ | ⟨picked, ref⟩, s⟩
  · have hError : kr ≠ .success := by
      intro hKr
      cases hHas hKr
    have hSame : SameNames ipc st.space s := hSpec
    refine .inr ⟨kr, { st with space := s }, ?_, hError,
      hSame, rfl⟩
    cases kr with
    | success => exact absurd rfl hError
    | _ => rfl
  · rcases hSpec with ⟨hKr, ⟨i, hSlot⟩, hAlloc⟩
    subst hKr
    dsimp only at hSlot hAlloc
    subst hSlot
    have hPicked : picked ≠ shadowedName := by
      intro hEq
      rcases hAlloc.kept with ⟨fields, hIndex, hPos, _⟩
      rw [hIndex, hEq] at hPos
      exact absurd hPos (by decide)
    refine .inl ⟨picked, _, rfl, hGives rfl, hPicked, ?_, rfl⟩
    rw [hAlloc.enterDead_eq]
    exact hAlloc.binds (by decide) _

/- No name denotes anything else. -/
def SameFound (st t : ObjectSpace) : Prop :=
  ∀ n, t.space.found n = st.space.found n

theorem Unallocated.sameFound
    (hInv : SpaceInv ipc none st.space)
    (h : Unallocated ipc st t)
    (hSlow : st.space.isFast = false) :
    SameFound st t :=
  fun _ => h.names.found_eq hInv hSlow

theorem ipcEntryAlloc_inactive
    (tableOk : Nat → Bool)
    (hActive : s.isActive = false) :
    ipcEntryAlloc ipc tableOk s = (.invalidTask, none, s) := by
  unfold ipcEntryAlloc
  rw [allocLoop_succ]
  unfold allocTurn
  rw [hActive]
  rfl

theorem ipcEntryAllocName_inactive
    (tableOk : Nat → Bool)
    (iteOk : Bool)
    (hActive : s.isActive = false) :
    ipcEntryAllocName ipc tableOk iteOk s name =
      (.invalidTask, none, s) := by
  unfold ipcEntryAllocName
  rw [allocNameLoop_succ]
  unfold allocNameTurn
  rw [if_pos hActive]

/- In a space without a fixed table. -/
theorem ipcObjectAllocName_cases
    (hOk : st.Ok ipc)
    (hSlow : st.space.isFast = false)
    (hValid : 0 < name ∧ name < machPortDead)
    (hTyped : (⟨right, 0, 0⟩ : Content).Typed) :
    (∃ t,
        ipcObjectAllocName ipc env st zero right name =
            (.success, some st.nextObject, t) ∧
          NewObject ipc st t name right
            fun _ => zero.activate) ∨
      ∃ kr t,
        ipcObjectAllocName ipc env st zero right name =
            (kr, none, t) ∧
          kr ≠ .success ∧ SameFound st t := by
  by_cases hActive : st.space.isActive = true
  · rcases @ipcObjectAllocName_outcome ipc env st zero right
      name hOk hActive hValid hTyped with
      hMade | ⟨kr, t, hOut, hKr, hSame⟩
    · exact .inl hMade
    · exact .inr ⟨kr, t, hOut, hKr,
        hSame.sameFound (hOk.inv hActive) hSlow⟩
  · rw [Bool.not_eq_true] at hActive
    unfold ipcObjectAllocName ObjectSpace.ioAlloc
    by_cases hObject : env.objectOk = true
    · rw [if_pos hObject]
      dsimp only [ObjectSpace.setObject]
      rw [ipcEntryAllocName_inactive _ _ hActive]
      exact .inr ⟨_, _, rfl, by decide, fun _ => rfl⟩
    · rw [if_neg hObject]
      exact .inr ⟨_, _, rfl, by decide, fun _ => rfl⟩

theorem ipcObjectAllocDead_cases
    (hOk : st.Ok ipc)
    (hSlow : st.space.isFast = false) :
    (∃ picked t,
        ipcObjectAllocDead ipc env st =
            (.success, some picked, t) ∧
          GivesOut ipc env.tableOk st.space picked ∧
          picked ≠ shadowedName ∧
          Binds ipc st.space t.space picked
            ⟨machPortTypeDeadName ||| 1#32, 0, 0⟩ ∧
          st.space.isActive = true) ∨
      ∃ kr t,
        ipcObjectAllocDead ipc env st = (kr, none, t) ∧
          kr ≠ .success ∧ SameFound st t ∧
          (st.space.isActive = true → ∀ picked,
            ¬ GivesOut ipc env.tableOk st.space picked) := by
  by_cases hActive : st.space.isActive = true
  · rcases @ipcObjectAllocDead_outcome ipc env st hOk hActive
      with
      ⟨picked, t, hOut, hGives, hNe, hBinds, _⟩ |
        ⟨kr, t, hOut, hKr, hSame⟩
    · exact .inl ⟨picked, t, hOut, hGives, hNe, hBinds,
        hActive⟩
    · refine .inr ⟨kr, t, hOut, hKr,
        hSame.sameFound (hOk.inv hActive) hSlow, ?_⟩
      intro _ picked hGives
      rcases hGives.alloc (hOk.inv hActive) with
        ⟨ref, u, hAlloc⟩
      unfold ipcObjectAllocDead at hOut
      rw [hAlloc] at hOut
      cases hOut
  · rw [Bool.not_eq_true] at hActive
    unfold ipcObjectAllocDead
    rw [ipcEntryAlloc_inactive _ hActive]
    refine .inr ⟨_, _, rfl, by decide, fun _ => rfl, ?_⟩
    intro h
    rw [hActive] at h
    cases h

/- A new object that is written once more. -/
theorem NewObject.rewrite
    (h : NewObject ipc st t name right made)
    (made' : IpcSpace → IpcObject) :
    NewObject ipc st
      (t.setObject st.nextObject (some (made' t.space)))
      name right made' := by
  refine ⟨h.active, h.binds, ?_⟩
  unfold ObjectSpace.setObject
  rw [h.objects, update_idem]

theorem allocateReceive_cases
    (hOk : st.Ok ipc)
    (hSlow : st.space.isFast = false)
    (hValid : 0 < name ∧ name < machPortDead) :
    (∃ t,
        allocateReceive ipc env st 0 ⟨true, false⟩ name =
            ⟨.success, name, t⟩ ∧
          NewObject ipc st t name machPortTypeReceive
            fun s => .port (newPort s.isAddr name)) ∨
      ∃ kr t,
        allocateReceive ipc env st 0 ⟨true, false⟩ name =
            ⟨kr, name, t⟩ ∧
          kr ≠ .success ∧ SameFound st t := by
  unfold allocateReceive ipcPortAllocName
  rcases @ipcObjectAllocName_cases ipc env st (.port zeroPort)
    machPortTypeReceive name hOk hSlow hValid (by decide) with
    ⟨t, hOut, hNew⟩ | ⟨kr, t, hOut, hKr, hSame⟩
  · left
    rw [hOut]
    refine ⟨_, rfl, ?_⟩
    have hPort := hNew.rewrite
      fun s => .port (newPort s.isAddr name)
    have hFinished : finishPort ⟨true, false⟩ 0 st.nextObject
        (t.setObject st.nextObject
          (some (.port (newPort t.space.isAddr name)))) =
        (t.setObject st.nextObject
          (some (.port (newPort t.space.isAddr name)))) := by
      unfold finishPort ObjectSpace.setObject
      simp
    rw [hFinished]
    exact hPort
  · right
    rw [hOut]
    refine ⟨kr, t, ?_, hKr, hSame⟩
    cases kr with
    | success => exact absurd rfl hKr
    | _ => rfl

theorem allocatePortSet_cases
    (hOk : st.Ok ipc)
    (hSlow : st.space.isFast = false)
    (hValid : 0 < name ∧ name < machPortDead) :
    (∃ t,
        allocatePortSet ipc env st ⟨true, false⟩ name =
            ⟨.success, name, t⟩ ∧
          NewObject ipc st t name machPortTypePortSet
            fun _ => .pset (newPset name)) ∨
      ∃ kr t,
        allocatePortSet ipc env st ⟨true, false⟩ name =
            ⟨kr, name, t⟩ ∧
          kr ≠ .success ∧ SameFound st t := by
  unfold allocatePortSet ipcPsetAllocName
  rcases @ipcObjectAllocName_cases ipc env st (.pset zeroPset)
    machPortTypePortSet name hOk hSlow hValid (by decide) with
    ⟨t, hOut, hNew⟩ | ⟨kr, t, hOut, hKr, hSame⟩
  · left
    rw [hOut]
    exact ⟨_, rfl, hNew.rewrite fun _ => .pset (newPset name)⟩
  · right
    rw [hOut]
    refine ⟨kr, t, ?_, hKr, hSame⟩
    cases kr with
    | success => exact absurd rfl hKr
    | _ => rfl

end Rights

------
-- The Shadowed Name
------

section ShadowedObjects

variable {ipc : IpcParams} {env : AllocateAnswers}
variable {st : ObjectSpace}

/- An object gets the shadowed name when it is free. -/
theorem ipcObjectAllocName_shadowed
    (hOk : st.Ok ipc)
    (hSlow : st.space.isFast = false)
    (hTyped : (⟨right, 0, 0⟩ : Content).Typed) :
    (ipcObjectAllocName ipc env st zero right
        shadowedName).1 = .success ↔
      st.space.isActive = true ∧
        shadowedName ∉ st.space.treeNames ∧
        env.objectOk = true ∧ env.iteOk = true := by
  constructor
  · intro hSuccess
    rcases @ipcObjectAllocName_cases ipc env st zero right
      shadowedName hOk hSlow (by decide) hTyped with
      ⟨t, _, hNew⟩ | ⟨kr, t, hOut, hKr, _⟩
    swap
    · rw [hOut] at hSuccess
      exact absurd hSuccess hKr
    have hFree : shadowedName ∉ st.space.treeNames := by
      intro hMem
      rcases SpaceInv.mem_treeNames_iff.mp hMem with
        ⟨fields, hEntry⟩
      exact hNew.binds.absent _ (.inr ⟨fields, hEntry, rfl⟩)
    unfold ipcObjectAllocName ObjectSpace.ioAlloc at hSuccess
    by_cases hObject : env.objectOk = true
    swap
    · rw [if_neg hObject] at hSuccess
      cases hSuccess
    rw [if_pos hObject] at hSuccess
    dsimp only [ObjectSpace.setObject] at hSuccess
    by_cases hActive : st.space.isActive = true
    swap
    · rw [Bool.not_eq_true] at hActive
      rw [ipcEntryAllocName_inactive _ _ hActive] at hSuccess
      cases hSuccess
    have hSome := (hOk.inv hActive).allocName_shadowed hSlow
      hFree env.tableOk env.iteOk
    have hHas := @ipcEntryAllocName_hasEntry ipc env.tableOk
      env.iteOk shadowedName st.space
    generalize ipcEntryAllocName ipc env.tableOk env.iteOk
      st.space shadowedName = out at hSuccess hSome hHas
    rcases out with ⟨kr, _ | ref, s⟩
    · cases kr with
      | success => cases hHas rfl
      | _ => cases hSuccess
    · exact ⟨hActive, hFree, hObject, hSome.symm⟩
  · rintro ⟨hActive, hFree, hObject, hIte⟩
    have hInv := hOk.inv hActive
    have hSpec := @SpaceInv.allocName_spec ipc env.tableOk
      env.iteOk st.space shadowedName hInv (by decide)
    have hSome := hInv.allocName_shadowed hSlow hFree
      env.tableOk env.iteOk
    unfold ipcObjectAllocName ObjectSpace.ioAlloc
    rw [if_pos hObject]
    dsimp only [ObjectSpace.setObject]
    generalize ipcEntryAllocName ipc env.tableOk env.iteOk
      st.space shadowedName = out at hSpec hSome ⊢
    rcases out with ⟨kr, _ | ref, s⟩
    · rw [hIte] at hSome
      cases hSome
    rcases hSpec with ⟨hKr, ⟨hSame, fields, hAt⟩ | hAlloc⟩
    · -- then the name was there before
      have hHas := (hSame.has _ _).mp
        (Layout.has_iff.mpr ⟨ref, fields, hAt, rfl⟩)
      exact absurd (Layout.has_shadowed hHas) hFree
    · subst hKr
      dsimp only
      rw [if_neg (by
        rw [not_inuse_of_allocated hAlloc]
        exact Bool.false_ne_true)]

end ShadowedObjects

------
-- Allocating under a Given Name
------

/- A new right of a kind, as `mach_port_right_t` counts them. -/
def IsNewRight
    (st t : ObjectSpace)
    (right name : Nat)
    (content : Content) : Prop :=
  match right with
  | machPortRightReceive =>
      content = ⟨machPortTypeReceive, content.object, 0⟩ ∧
        st.objects content.object = none ∧
        t.objects content.object =
          some (.port (newPort t.space.isAddr name))
  | machPortRightPortSet =>
      content = ⟨machPortTypePortSet, content.object, 0⟩ ∧
        st.objects content.object = none ∧
        t.objects content.object =
          some (.pset (newPset name))
  | machPortRightDeadName =>
      content = ⟨machPortTypeDeadName ||| 1#32, 0, 0⟩
  | _ => False

/-
  On success the name, which was free, denotes a new right,
  and no other name has changed. On an error none has.
-/
def AllocatesName
    (st : ObjectSpace)
    (right name : Nat)
    (out : KernReturn × Option ObjectSpace) : Prop :=
  ∃ t, out.2 = some t ∧
    if out.1 = .success then
      st.space.found name = none ∧
        (∃ content, t.space.found name = some content ∧
          IsNewRight st t right name content) ∧
        ∀ n, n ≠ name → t.space.found n = st.space.found n
    else SameFound st t

/-
  When the name is honoured: it is the name that a dead name
  gets anyway, and an object is not entered under the name
  that slot zero shadows.
-/
def HonoursName
    (ipc : IpcParams)
    (env : AllocateAnswers)
    (st : ObjectSpace)
    (right name : Nat) : Prop :=
  st.space.isActive = true → st.space.isFast = false →
    if right = machPortRightDeadName then
      ∀ picked, GivesOut ipc env.tableOk st.space picked →
        picked = name
    else
      name = shadowedName → env.objectOk = true →
        env.iteOk = true → name ∈ st.space.treeNames

section Named

variable {ipc : IpcParams} {env : AllocateAnswers}
variable {machRt : Bool} {st t : ObjectSpace} {right name : Nat}
variable {kr : KernReturn}

theorem allocatesName_of_error
    (hKr : kr ≠ .success)
    (hSame : SameFound st t) :
    AllocatesName st right name (kr, some t) := by
  refine ⟨t, rfl, ?_⟩
  rw [if_neg hKr]
  exact hSame

/- The new right of a name that a lookup finds. -/
theorem Binds.allocatesName
    {content : Content}
    (h : Binds ipc st.space t.space name content)
    (hInv : SpaceInv ipc none st.space)
    (hSlow : st.space.isFast = false)
    (hNe : name ≠ shadowedName)
    (hNew : IsNewRight st t right name content) :
    AllocatesName st right name (.success, some t) := by
  refine ⟨t, rfl, ?_⟩
  exact ⟨h.unbound hInv hSlow,
    ⟨content, h.found_self hSlow hNe, hNew⟩,
    fun n hn => h.found_other hInv hSlow hn⟩

/- Nothing is denoted by the shadowed name. -/
theorem not_allocatesName_shadowed
    (hInv : SpaceInv ipc none t.space) :
    ¬ AllocatesName st right shadowedName
      (.success, some t) := by
  rintro ⟨t', hEq, h⟩
  cases hEq
  rcases h.2.1 with ⟨content, hFound, _⟩
  rw [hInv.found_shadowed] at hFound
  cases hFound

theorem NewObject.objects_new
    (h : NewObject ipc st t name bits made)
    (hOk : st.Ok ipc) :
    st.objects st.nextObject = none ∧
      t.objects st.nextObject = some (made t.space) := by
  refine ⟨hOk.fresh _ (le_refl _), ?_⟩
  rw [h.objects]
  exact update_self _ _ _

section MachPortValid

variable (hName : MachPortValid name)

include hName

/- A call with a name in a space with a fixed table. -/
theorem machPortAllocateName_fast
    (hFast : st.space.isFast = true) :
    machPortAllocateName ipc env machRt (some st) right name =
      (.failure, some st) := by
  unfold machPortAllocateName machPortAllocateFull
    refuseAllocation
  simp [hName, hFast]

/- In other spaces such a call is not refused. -/
theorem refuseAllocation_slow
    (hSlow : st.space.isFast = false) :
    refuseAllocation machRt st right 0 ⟨true, false⟩ name =
      none := by
  unfold refuseAllocation
  simp [hName, hSlow]

/- Then each kind of right has a routine of its own. -/
theorem machPortAllocateName_slow
    (hSlow : st.space.isFast = false) :
    (machPortAllocateName ipc env machRt (some st)
        machPortRightReceive name =
      let out := allocateReceive ipc env st 0 ⟨true, false⟩
        name
      (out.kr, some out.st)) ∧
    (machPortAllocateName ipc env machRt (some st)
        machPortRightPortSet name =
      let out := allocatePortSet ipc env st ⟨true, false⟩ name
      (out.kr, some out.st)) ∧
    machPortAllocateName ipc env machRt (some st)
        machPortRightDeadName name =
      let out := allocateDeadName ipc env st name
      (out.kr, some out.st) := by
  unfold machPortAllocateName machPortAllocateFull
  dsimp only [qosTemplate]
  simp only [refuseAllocation_slow hName hSlow]
  exact ⟨rfl, rfl, rfl⟩

end MachPortValid

/- A new object is a new right, but for the shadowed name. -/
theorem NewObject.allocatesName_iff
    (h : NewObject ipc st t name bits made)
    (hInv : SpaceInv ipc none st.space)
    (hSlow : st.space.isFast = false)
    (hNew : IsNewRight st t right name
      ⟨bits, st.nextObject, 0⟩) :
    AllocatesName st right name (.success, some t) ↔
      name ≠ shadowedName := by
  constructor
  · intro hAllocates hEq
    subst hEq
    exact not_allocatesName_shadowed h.binds.inv hAllocates
  · intro hNe
    exact h.binds.allocatesName hInv hSlow hNe hNew

/- The routines for objects return what this one does. -/
theorem allocateReceive_kr :
    (allocateReceive ipc env st 0 ⟨true, false⟩ name).kr =
      (ipcObjectAllocName ipc env st (.port zeroPort)
        machPortTypeReceive name).1 := by
  unfold allocateReceive ipcPortAllocName
  rcases ipcObjectAllocName ipc env st (.port zeroPort)
    machPortTypeReceive name with ⟨kr, _ | object, t⟩ <;>
    cases kr <;> rfl

theorem allocatePortSet_kr :
    (allocatePortSet ipc env st ⟨true, false⟩ name).kr =
      (ipcObjectAllocName ipc env st (.pset zeroPset)
        machPortTypePortSet name).1 := by
  unfold allocatePortSet ipcPsetAllocName
  rcases ipcObjectAllocName ipc env st (.pset zeroPset)
    machPortTypePortSet name with ⟨kr, _ | object, t⟩ <;>
    cases kr <;> rfl

/- The kinds with objects. -/
theorem allocatesName_iff_of_cases
    {out : KernReturn × Option ObjectSpace}
    (hOk : st.Ok ipc)
    (hSlow : st.space.isFast = false)
    (hKind : right ≠ machPortRightDeadName)
    (hTyped : (⟨bits, 0, 0⟩ : Content).Typed)
    (hNew : ∀ t, NewObject ipc st t name bits made →
      IsNewRight st t right name ⟨bits, st.nextObject, 0⟩)
    (hOut : out.1 =
      (ipcObjectAllocName ipc env st zero bits name).1)
    (hCases :
      (∃ t, out = (.success, some t) ∧
          NewObject ipc st t name bits made) ∨
        ∃ kr t, out = (kr, some t) ∧
          kr ≠ .success ∧ SameFound st t) :
    AllocatesName st right name out ↔
      HonoursName ipc env st right name := by
  unfold HonoursName
  rw [if_neg hKind]
  rcases hCases with ⟨t, hEq, hMade⟩ | ⟨kr, t, hEq, hKr, hSame⟩
  · subst hEq
    by_cases hName : name = shadowedName
    · subst hName
      rcases (ipcObjectAllocName_shadowed hOk hSlow hTyped).mp
        hOut.symm with ⟨hActive, hFree, hObject, hIte⟩
      constructor
      · intro h
        exact absurd h
          (not_allocatesName_shadowed hMade.binds.inv)
      · intro h
        exact absurd (h hActive hSlow rfl hObject hIte) hFree
    · constructor
      · intro _ _ _ h
        exact absurd h hName
      · intro _
        exact (hMade.allocatesName_iff
          (hOk.inv hMade.active) hSlow (hNew t hMade)).mpr
          hName
  · subst hEq
    constructor
    · intro _ hActive _ hName hObject hIte
      subst hName
      by_contra hFree
      exact hKr (hOut.trans
        ((ipcObjectAllocName_shadowed hOk hSlow hTyped).mpr
          ⟨hActive, hFree, hObject, hIte⟩))
    · intro _
      exact allocatesName_of_error hKr hSame

/- A dead name gets the name that the space gives out. -/
theorem allocateDeadName_iff
    (hOk : st.Ok ipc)
    (hSlow : st.space.isFast = false)
    {out : Allocation}
    (hOut : out = allocateDeadName ipc env st name) :
    AllocatesName st machPortRightDeadName name
        (out.kr, some out.st) ↔
      HonoursName ipc env st machPortRightDeadName name := by
  unfold allocateDeadName at hOut
  rcases @ipcObjectAllocDead_cases ipc env st hOk hSlow with
    ⟨picked, t, hEq, hGives, hNe, hBinds, hActive⟩ |
      ⟨kr, t, hEq, hKr, hSame, hNone⟩
  · rw [hEq] at hOut
    subst hOut
    have hInv := hOk.inv hActive
    constructor
    · rintro ⟨t', hEq', h⟩ _ _ picked' hGives'
      cases hEq'
      rw [hGives'.unique hInv hGives]
      by_contra hOther
      have hSelf := h.2.2 picked hOther
      rw [hBinds.found_self hSlow hNe,
        hBinds.unbound hInv hSlow] at hSelf
      cases hSelf
    · intro h
      have hName : picked = name := h hActive hSlow picked
        hGives
      subst hName
      exact hBinds.allocatesName hInv hSlow hNe rfl
  · rw [hEq] at hOut
    subst hOut
    constructor
    · intro _ hActive _ picked hGives
      exact absurd hGives (hNone hActive picked)
    · intro _
      exact allocatesName_of_error hKr hSame

end Named

/- The call honours the name just when the condition holds. -/
theorem allocate_name_iff
    (ipc : IpcParams)
    (env : AllocateAnswers)
    (machRt : Bool)
    (st : ObjectSpace)
    (hOk : st.Ok ipc)
    (right name : Nat)
    (hRight : right = machPortRightReceive ∨
      right = machPortRightPortSet ∨
      right = machPortRightDeadName)
    (hName : MachPortValid name)
    (hBound : name < machPortBound) :
    AllocatesName st right name
        (machPortAllocateName ipc env machRt (some st) right
          name) ↔
      HonoursName ipc env st right name := by
  by_cases hFast : st.space.isFast = true
  · rw [machPortAllocateName_fast hName hFast]
    constructor
    · intro _ _ hSlow
      rw [hFast] at hSlow
      cases hSlow
    · intro _
      exact allocatesName_of_error (by decide) fun _ => rfl
  have hSlow : st.space.isFast = false := by simpa using hFast
  have hValid : 0 < name ∧ name < machPortDead := by
    rcases hName with ⟨hNull, hDead⟩
    unfold machPortNull at hNull
    unfold machPortDead at hDead ⊢
    unfold machPortBound at hBound
    omega
  rcases machPortAllocateName_slow hName hSlow with
    ⟨hReceive, hPortSet, hDeadName⟩
  rcases hRight with hRight | hRight | hRight
  · subst hRight
    rw [hReceive]
    apply allocatesName_iff_of_cases hOk hSlow (by decide)
      (by decide) _ allocateReceive_kr
    · rcases @allocateReceive_cases ipc env st name hOk hSlow
        hValid with ⟨t, hOut, hNew⟩ | ⟨kr, t, hOut, hError⟩
      · rw [hOut]
        exact .inl ⟨t, rfl, hNew⟩
      · rw [hOut]
        exact .inr ⟨kr, t, rfl, hError⟩
    · intro t hNew
      exact ⟨rfl, hNew.objects_new hOk⟩
  · subst hRight
    rw [hPortSet]
    apply allocatesName_iff_of_cases hOk hSlow (by decide)
      (by decide) _ allocatePortSet_kr
    · rcases @allocatePortSet_cases ipc env st name hOk hSlow
        hValid with ⟨t, hOut, hNew⟩ | ⟨kr, t, hOut, hError⟩
      · rw [hOut]
        exact .inl ⟨t, rfl, hNew⟩
      · rw [hOut]
        exact .inr ⟨kr, t, rfl, hError⟩
    · intro t hNew
      exact ⟨rfl, hNew.objects_new hOk⟩
  · subst hRight
    rw [hDeadName]
    exact allocateDeadName_iff hOk hSlow rfl

/- A small space without objects, and memory for all. -/
def smallObjects : ObjectSpace :=
  ⟨smallSpace.space, fun _ => none, 64⟩

def allocateAll : AllocateAnswers :=
  ⟨fun _ => true, true, true⟩

/- A receive right under a name of the table. -/
theorem allocate_name_receive :
    AllocatesName smallObjects machPortRightReceive 0x101
      (machPortAllocateName smallParams allocateAll false
        (some smallObjects) machPortRightReceive 0x101) := by
  refine (allocate_name_iff smallParams allocateAll false
    smallObjects ⟨?_, fun _ _ => rfl⟩ machPortRightReceive
    0x101 (.inl rfl) (by decide) (by decide)).mpr ?_
  · intro _
    exact spaceInv_create smallParams 0 (by decide) false
  · intro _ _ hName
    cases hName

/- A dead name is asked for, and another name is made. -/
theorem allocate_name_dead :
    (machPortAllocateName smallParams allocateAll false
        (some smallObjects) machPortRightDeadName 0x201).1 =
          .success ∧
      ((machPortAllocateName smallParams allocateAll false
        (some smallObjects) machPortRightDeadName
          0x201).2.map (·.space.found 0x201)) = some none ∧
      ¬ AllocatesName smallObjects machPortRightDeadName 0x201
        (machPortAllocateName smallParams allocateAll false
          (some smallObjects) machPortRightDeadName
            0x201) := by
  refine ⟨rfl, rfl, ?_⟩
  rintro ⟨t, hEq, h⟩
  cases hEq
  rcases h.2.1 with ⟨content, hFound, _⟩
  cases hFound

end Ipc

end OsfMach
