import OsfMach.Ipc.GrowTable

/-
  The loops of `ipc_entry_alloc` and `ipc_entry_alloc_name`.

  Both grow the table and start again. A growth that succeeds
  makes the table larger, so there are no more turns than
  table sizes.

  Key theorems include:
    * `SpaceInv.alloc_spec`
    * `SpaceInv.allocName_spec`
-/

------
-- Allocating Any Name
------

namespace OsfMach

namespace Ipc

open Lib

variable {ipc : IpcParams} {s s' : IpcSpace}

namespace SameNames

variable {ipc : IpcParams} {s s' s'' : IpcSpace}

/- An allocation in a space that has the same names. -/
theorem allocated
    {name : Nat}
    {ref : EntryRef}
    (h : SameNames ipc s s')
    (h' : Allocated ipc s' s'' name ref) :
    Allocated ipc s s'' name ref :=
  { inv := h'.inv
    valid := h'.valid
    absent := by
      intro c hHas
      exact h'.absent c ((h.has name c).mpr hHas)
    kept := h'.kept
    has := by
      intro n c
      rw [h'.has, h.has]
    fast := h'.fast.trans h.fast
    hash := fun hHash => h'.hash (h.hash hHash) }

/- Reshaping the tree keeps the names. -/
theorem reshape
    {tree : SplayTree EntryFields}
    (hInv : SpaceInv ipc none s)
    (hList : tree.toList = s.isTree.toList)
    (hTree : tree.WellFormed) :
    SameNames ipc s { s with isTree := tree } := by
  have hLayout := @IpcSpace.layout_reshape ipc _ _ hList
  refine ⟨hInv.reshape hList hTree, ?_, ?_, rfl, ?_⟩
  · intro n c
    rw [hLayout]
  · intro n c h
    exact h
  · intro hHash
    unfold HashInv
    rw [hLayout]
    exact HashView.congr hHash ⟨rfl, rfl, rfl, rfl, rfl⟩
      (fun _ _ => Iff.rfl)

end SameNames

/- What an allocation returns. -/
def AllocOutcome
    (ipc : IpcParams)
    (s : IpcSpace) :
    KernReturn × Option (Nat × EntryRef) × IpcSpace → Prop
| (kr, some found, s') =>
    kr = .success ∧ (∃ i, found.2 = .slot i) ∧
      Allocated ipc s s' found.1 found.2
| (_, none, s') => SameNames ipc s s'

theorem SameNames.allocOutcome
    {out : KernReturn × Option (Nat × EntryRef) × IpcSpace}
    (h : SameNames ipc s s')
    (hOut : AllocOutcome ipc s' out) :
    AllocOutcome ipc s out := by
  rcases out with ⟨kr, _ | found, s''⟩
  · exact h.trans hOut
  · exact ⟨hOut.1, hOut.2.1, h.allocated hOut.2.2⟩

theorem allocLoop_succ
    (ipc : IpcParams)
    (tableOk : Nat → Bool)
    (fuel : Nat)
    (s : IpcSpace) :
    allocLoop ipc tableOk (fuel + 1) s =
      allocTurn ipc tableOk
        (allocLoop ipc tableOk fuel) s := rfl

namespace SpaceInv

variable {ipc : IpcParams} {tableOk : Nat → Bool} {s : IpcSpace}

/-
  One turn finds a name, or changes nothing, or grows the
  table and goes on.
-/
theorem allocTurn_cases
    (tableOk : Nat → Bool)
    (hInv : SpaceInv ipc none s) :
    (∃ out, AllocOutcome ipc s out ∧
        ∀ again, allocTurn ipc tableOk again s = out) ∨
      ∃ s', SameNames ipc s s' ∧
        s.isTableNext < s'.isTableNext ∧
        ∀ again, allocTurn ipc tableOk again s = again s' := by
  unfold allocTurn
  simp only [hInv.active, if_true]
  rcases hInv.get_spec with hGet | ⟨name, i, hGet, hAlloc⟩
  · rw [hGet]
    dsimp only
    have hGrow := hInv.growTable_spec tableOk none
    have hNext := @growTable_next_lt ipc tableOk s hInv
    generalize ipcEntryGrowTable ipc tableOk s none =
      grown at hGrow hNext ⊢
    rcases grown with ⟨kr, s'⟩
    cases kr with
    | success =>
        exact Or.inr ⟨s', hGrow, hNext rfl, fun _ => rfl⟩
    | _ =>
        refine Or.inl ⟨_, ?_, fun _ => rfl⟩
        exact hGrow
  · generalize ipcEntryGet s = out at hGet hAlloc ⊢
    rcases out with ⟨found, s'⟩
    subst hGet
    refine Or.inl ⟨_, ?_, fun _ => rfl⟩
    exact ⟨rfl, ⟨i, rfl⟩, hAlloc⟩

theorem allocLoop_spec
    (fuel : Nat)
    (hInv : SpaceInv ipc none s) :
    AllocOutcome ipc s (allocLoop ipc tableOk fuel s) := by
  induction fuel generalizing s with
  | zero => exact SameNames.refl hInv
  | succ fuel ih =>
      unfold allocLoop
      rcases hInv.allocTurn_cases tableOk with
        ⟨out, hOut, hTurn⟩ | ⟨s', hSame, _, hTurn⟩
      · rw [hTurn]
        exact hOut
      · rw [hTurn]
        exact hSame.allocOutcome (ih hSame.inv)

/- `ipc_entry_alloc` finds a new name or changes nothing. -/
theorem alloc_spec
    (hInv : SpaceInv ipc none s) :
    AllocOutcome ipc s (ipcEntryAlloc ipc tableOk s) :=
  allocLoop_spec _ hInv

end SpaceInv

------
-- Allocating a Given Name
------

/- What an allocation of a given name returns. -/
def AllocNameOutcome
    (ipc : IpcParams)
    (s : IpcSpace)
    (name : Nat) :
    KernReturn × Option EntryRef × IpcSpace → Prop
| (kr, some ref, s') =>
    kr = .success ∧
      ((SameNames ipc s s' ∧
          ∃ fields, (s'.layout ipc).At none name ref fields) ∨
        Allocated ipc s s' name ref)
| (_, none, s') => SameNames ipc s s'

theorem SameNames.allocNameOutcome
    {name : Nat}
    {out : KernReturn × Option EntryRef × IpcSpace}
    (h : SameNames ipc s s')
    (hOut : AllocNameOutcome ipc s' name out) :
    AllocNameOutcome ipc s name out := by
  rcases out with ⟨kr, _ | ref, s''⟩
  · exact h.trans hOut
  · rcases hOut with ⟨hKr, ⟨hSame, hAt⟩ | hAlloc⟩
    · exact ⟨hKr, Or.inl ⟨h.trans hSame, hAt⟩⟩
    · exact ⟨hKr, Or.inr (h.allocated hAlloc)⟩

theorem allocNameLoop_succ
    (ipc : IpcParams)
    (tableOk : Nat → Bool)
    (iteOk : Bool)
    (name fuel : Nat)
    (treeEntry : Bool)
    (s : IpcSpace) :
    allocNameLoop ipc tableOk iteOk name (fuel + 1)
        treeEntry s =
      allocNameTurn ipc tableOk iteOk name
        (allocNameLoop ipc tableOk iteOk name fuel)
        treeEntry s := rfl

namespace SpaceInv

variable {ipc : IpcParams} {tableOk : Nat → Bool} {iteOk : Bool}
variable {s : IpcSpace} {name : Nat}

/- The tree is looked at only when it has entries. -/
theorem treeLookup_of_total
    (hInv : SpaceInv ipc none s)
    (name : Nat) :
    ((if 0 < s.isTreeTotal then treeLookup s name
        else (none, s)).1 =
      (s.treeFields name).map (fun _ => .node name)) ∧
      ∃ tree : SplayTree EntryFields,
        (if 0 < s.isTreeTotal then treeLookup s name
            else (none, s)).2 = { s with isTree := tree } ∧
          tree.toList = s.isTree.toList ∧
          tree.WellFormed := by
  split_ifs with hTotal
  · exact hInv.treeLookup_spec name
  · have hNil : s.isTree.toList = [] := by
      apply List.length_eq_zero_iff.mp
      rw [← hInv.total]
      omega
    constructor
    · unfold IpcSpace.treeFields
      rw [hNil]
      rfl
    · exact ⟨s.isTree, rfl, rfl, hInv.tree⟩

/-
  One turn ends the loop, or grows the table and goes on, or
  goes on with a tree entry.
-/
theorem allocNameTurn_cases
    (tableOk : Nat → Bool)
    (iteOk : Bool)
    (hValid : 0 < name ∧ name < machPortDead)
    (treeEntry : Bool)
    (hInv : SpaceInv ipc none s) :
    (∃ out, AllocNameOutcome ipc s name out ∧
        ∀ again, allocNameTurn ipc tableOk iteOk name again
          treeEntry s = out) ∨
      ∃ treeEntry' s', SameNames ipc s s' ∧
        ((treeEntry' = treeEntry ∧
            s.isTableNext < s'.isTableNext) ∨
          (treeEntry = false ∧ treeEntry' = true ∧
            s'.isTableNext = s.isTableNext)) ∧
        ∀ again, allocNameTurn ipc tableOk iteOk name again
          treeEntry s = again treeEntry' s' := by
  have hName : name < machPortBound := by
    have hLt := hValid.2
    unfold machPortDead at hLt
    unfold machPortBound
    omega
  unfold allocNameTurn
  simp only [hInv.active, Bool.true_eq_false, if_false]
  by_cases hFound : 0 < machPortIndex name ∧
      machPortIndex name < s.isTableSize ∧
      ieBitsType
          (s.isTable (machPortIndex name)).ieBits ≠ 0 ∧
      ieBitsGen (s.isTable (machPortIndex name)).ieBits =
        machPortGen name
  · -- the slot is in use for this name
    simp only [if_pos hFound]
    rcases hFound with ⟨hPos, hLt, hType, hGen⟩
    refine Or.inl ⟨_, ?_, fun _ => rfl⟩
    exact ⟨rfl, Or.inl ⟨SameNames.refl hInv, _, rfl, hPos,
      hLt, Or.inl hType, hGen, rfl⟩⟩
  simp only [if_neg hFound]
  by_cases hFree : 0 < machPortIndex name ∧
      machPortIndex name < s.isTableSize ∧
      ieBitsType (s.isTable (machPortIndex name)).ieBits = 0
  · -- the slot is free
    simp only [if_pos hFree]
    rcases hFree with ⟨hPos, hLt, hType⟩
    refine Or.inl ⟨_, ?_, fun _ => rfl⟩
    exact ⟨rfl, Or.inr
      (hInv.allocSlot_spec hName hPos hLt hType)⟩
  simp only [if_neg hFree]
  by_cases hFast : s.isFast = true
  · simp only [if_pos hFast]
    refine Or.inl ⟨_, ?_, fun _ => rfl⟩
    exact SameNames.refl hInv
  simp only [if_neg hFast]
  -- from here on the slot is another name's
  have hSlot : 0 < machPortIndex name →
      machPortIndex name < s.isTableSize →
        (s.layout ipc).Used none (machPortIndex name) ∧
          ieBitsGen
              (s.isTable (machPortIndex name)).ieBits ≠
            machPortGen name := by
    intro hPos hLt
    have hType : ieBitsType
        (s.isTable (machPortIndex name)).ieBits ≠ 0 :=
      fun h => hFree ⟨hPos, hLt, h⟩
    exact ⟨Or.inl hType,
      fun h => hFound ⟨hPos, hLt, hType, h⟩⟩
  rcases hInv.treeLookup_of_total name with
    ⟨hRef, tree, hState, hList, hWF⟩
  have hSame := SameNames.reshape hInv hList hWF
  simp only [hRef, hState]
  cases hTree : s.treeFields name with
  | some fields =>
      refine Or.inl ⟨_, ?_, fun _ => rfl⟩
      refine ⟨rfl, Or.inl ⟨hSame, fields, rfl, ?_⟩⟩
      have hMem := mem_of_lookup_eq_some hTree
      rw [← hList] at hMem
      exact hMem
  | none =>
      simp only [Option.map_none, Option.isSome_none,
        Bool.false_eq_true, if_false]
      split_ifs with hGrowing hNode hOk
      · have hGrow := hSame.inv.growTable_spec tableOk none
        have hNext := @growTable_next_lt ipc tableOk _
          hSame.inv
        generalize ipcEntryGrowTable ipc tableOk _ none =
          grown at hGrow hNext ⊢
        rcases grown with ⟨kr, s'⟩
        have hStep := hSame.trans hGrow
        cases kr with
        | success =>
            exact Or.inr ⟨treeEntry, s', hStep,
              Or.inl ⟨rfl, hNext rfl⟩, fun _ => rfl⟩
        | _ =>
            refine Or.inl ⟨_, ?_, fun _ => rfl⟩
            exact hStep
      · refine Or.inl ⟨_, ?_, fun _ => rfl⟩
        refine ⟨rfl, Or.inr (hSame.allocated ?_)⟩
        apply hSame.inv.allocNode_spec _ hValid _ hSlot
        · simpa using hFast
        · unfold IpcSpace.treeFields at hTree ⊢
          rw [hList]
          exact hTree
      · exact Or.inr ⟨true, _, hSame,
          Or.inr ⟨by simpa using hNode, rfl, rfl⟩,
          fun _ => rfl⟩
      · refine Or.inl ⟨_, ?_, fun _ => rfl⟩
        exact hSame

theorem allocNameLoop_spec
    (hValid : 0 < name ∧ name < machPortDead)
    (fuel : Nat)
    (treeEntry : Bool)
    (hInv : SpaceInv ipc none s) :
    AllocNameOutcome ipc s name
      (allocNameLoop ipc tableOk iteOk name fuel treeEntry
        s) := by
  induction fuel generalizing s treeEntry with
  | zero => exact SameNames.refl hInv
  | succ fuel ih =>
      unfold allocNameLoop
      rcases hInv.allocNameTurn_cases tableOk iteOk hValid
        treeEntry with
        ⟨out, hOut, hTurn⟩ | ⟨treeEntry', s', hSame, _, hTurn⟩
      · rw [hTurn]
        exact hOut
      · rw [hTurn]
        exact hSame.allocNameOutcome
          (ih treeEntry' hSame.inv)

/- `ipc_entry_alloc_name` finds or makes the entry. -/
theorem allocName_spec
    (hInv : SpaceInv ipc none s)
    (hValid : 0 < name ∧ name < machPortDead) :
    AllocNameOutcome ipc s name
      (ipcEntryAllocName ipc tableOk iteOk s name) :=
  allocNameLoop_spec hValid _ _ hInv

end SpaceInv

end Ipc

end OsfMach
