import OsfMach.Ipc.GrowHash

/-
  Growing the table keeps what names denote.

  A growth may be followed by another, and a search for a
  target size by none.

  Main declarations:
    * `SameNames`
    * `SpaceInv.growTo_spec`
    * `SpaceInv.growTurn_cases`
    * `SpaceInv.growTable_spec`
-/

------
-- A Larger Table
------

namespace OsfMach

namespace Ipc

open Lib

/- The names of a space denote what they did. -/
structure SameNames
    (ipc : IpcParams)
    (s s' : IpcSpace) : Prop where
  inv : SpaceInv ipc none s'
  has :
    ∀ n c, (s'.layout ipc).Has none n c ↔
      (s.layout ipc).Has none n c
  table :
    ∀ n c, (s.layout ipc).InTable none n c →
      (s'.layout ipc).InTable none n c
  fast : s'.isFast = s.isFast
  hash : HashInv ipc s → HashInv ipc s'

namespace SpaceInv

variable {ipc : IpcParams} {s : IpcSpace}

/- A larger table holds the same names. -/
theorem growTo_spec
    (hInv : SpaceInv ipc none s)
    {its : Nat}
    (hNext : s.isTableNext ≤ its)
    (hLast : its < ipc.sizes.last) :
    SameNames ipc s (growTo ipc s its) ∧
      (growTo ipc s its).isTableNext = its + 1 := by
  have hNextPos := hInv.next_pos
  have hOsize := hInv.size_eq
  have hPos : 0 < s.isTableSize := hInv.layout.size_pos
  have hGrows : ipc.sizes.itsSize (s.isTableNext - 1) <
      ipc.sizes.itsSize its :=
    ipc.sizes.lt_of_lt (by omega) hLast
  have hLe' := ipc.sizes.le_next hLast
  have hBound := ipc.sizes.size_lt (i := its + 1) (by omega)
  rcases hInv.exists_free with ⟨free, hFree⟩
  have hHash := fun h => hInv.growTo_hashInv h hNext hLast
  unfold growTo at hHash ⊢
  dsimp only at hHash ⊢
  rw [← hOsize] at hGrows hHash ⊢
  have hCopied := copied_of_sameEntries
    (foldl_growHash (List.range s.isTableSize)
      { s with
        isTable := growCopy s s.isTableSize
          (ipc.sizes.itsSize its)
        isTableSize := ipc.sizes.itsSize its
        isTableNext := its + 1 })
  generalize List.foldl growHash _ _ = s1 at hCopied hHash ⊢
  rcases hInv.exists_grownTree hCopied hPos hGrows.le hLe'
    hBound with ⟨front, move, kept, back, hTree⟩
  generalize (if 0 < s1.isTreeTotal then _ else s1 :
    IpcSpace) = s2 at hTree hHash ⊢
  -- the free list of the old table is still there
  have hChain : IndexChain.Chain
      (fun j => (s2.isTable j).ieRequest) 0 free := by
    apply hFree.1.congr
    intro j hj
    have hj' : j < s.isTableSize := by
      rcases List.mem_cons.mp hj with h | h
      · omega
      · exact ((hFree.2.2 j).mp h).2.1
    rw [hTree.grown.low j hj']
    rfl
  rcases @growFreeAll_spec s2 _ (ipc.sizes.itsSize its) _
    hPos hChain
    (fun j hj => ((hFree.2.2 j).mp hj).2.1) with
    ⟨new, hMem, hNodup, hFreed, hChain'⟩
  have hGrown : GrownFreed ipc s s2
      (growFreeAll s2 s.isTableSize (ipc.sizes.itsSize its))
      s.isTableSize (ipc.sizes.itsSize its) front move kept
      back new :=
    { inv := hInv.layout
      osize_eq := rfl
      size_eq := by
        rw [hFreed.frame.size, hTree.frame.size]
        exact hCopied.size_eq
      lt := hGrows
      size_lt := by omega
      grown := hTree.grown
      freed := hFreed
      mem_new := by
        intro j
        rw [hMem]
        have hSum : s.isTableSize +
            (ipc.sizes.itsSize its - s.isTableSize) =
            ipc.sizes.itsSize its := by omega
        rw [hSum] }
  generalize growFreeAll s2 s.isTableSize
    (ipc.sizes.itsSize its) = s3
    at hFreed hChain' hGrown hHash ⊢
  have hNextEq : s3.isTableNext = its + 1 := by
    rw [hFreed.frame.next, hTree.frame.next]
    exact hCopied.next_eq
  have hFast : s3.isFast = s.isFast := by
    rw [hFreed.frame.fast, hTree.frame.fast]
    exact hCopied.fast
  refine ⟨⟨?_, hGrown.has_iff,
    fun n c h => hGrown.inTable h, hFast, hHash⟩, hNextEq⟩
  exact
    { layout := hGrown.layoutInv hNodup hFree hChain'
      tree := by
        rw [hFreed.tree]
        exact hTree.wf
      active := by
        rw [hFreed.frame.active, hTree.frame.active,
          hCopied.active]
        exact hInv.active
      growing := by
        rw [hFreed.frame.growing, hTree.frame.growing,
          hCopied.growing]
        exact hInv.growing
      next_pos := by omega
      next_le := by omega
      size_eq := by
        rw [hNextEq]
        exact hGrown.size_eq
      total := by
        rw [hFreed.total, hFreed.tree]
        exact hTree.total
      small := by
        rw [hFreed.small, hTree.small]
        unfold Layout.smallIndices IpcSpace.layout
        rw [hFreed.tree, hTree.grown.new, hGrown.size_eq,
          hNextEq]
      fast := by
        intro hF
        rw [hFast] at hF
        have hNil := hInv.fast hF
        rw [hTree.grown.old] at hNil
        rw [hFreed.tree, hTree.grown.new]
        have hSub : (front ++ (kept ++ back)).Sublist
            (front ++ (move ++ back)) :=
          (hTree.grown.sub.append_right back).append_left
            front
        rw [hNil] at hSub
        exact List.sublist_nil.mp hSub }

end SpaceInv

------
-- Growing Again
------

namespace SameNames

variable {ipc : IpcParams} {s s' s'' : IpcSpace}

theorem refl
    (hInv : SpaceInv ipc none s) :
    SameNames ipc s s :=
  ⟨hInv, fun _ _ => Iff.rfl, fun _ _ h => h, rfl,
    fun h => h⟩

theorem trans
    (h : SameNames ipc s s')
    (h' : SameNames ipc s' s'') :
    SameNames ipc s s'' :=
  ⟨h'.inv, fun n c => (h'.has n c).trans (h.has n c),
    fun n c hIn => h'.table n c (h.table n c hIn),
    h'.fast.trans h.fast, fun hHash => h'.hash (h.hash hHash)⟩

end SameNames

/-
  The search for a target stops at a size that is new and
  large enough, or at the largest size.
-/
theorem growTarget_spec
    (sizes : TableSizes)
    (target fuel psize its : Nat)
    (hPos : 0 < its)
    (hLe : its ≤ sizes.last)
    (hPrev : psize = sizes.itsSize (its - 1)) :
    ∃ its', growTarget sizes target fuel psize its =
        (sizes.itsSize (its' - 1), its') ∧
      its ≤ its' ∧ its' ≤ sizes.last := by
  induction fuel generalizing psize its with
  | zero =>
      refine ⟨its, ?_, le_refl _, hLe⟩
      unfold growTarget
      rw [hPrev]
  | succ fuel ih =>
      unfold growTarget
      split_ifs with hGo
      · have hNot : its ≠ sizes.last := by
          intro hEq
          have hFlat := sizes.flat
          rw [hEq] at hPrev hGo
          exact hGo.1 (hPrev.trans hFlat.symm)
        rcases ih (sizes.itsSize its) (its + 1) (by omega)
          (by omega) rfl with ⟨its', hEq, hGe, hTop⟩
        exact ⟨its', hEq, by omega, hTop⟩
      · refine ⟨its, ?_, le_refl _, hLe⟩
        rw [hPrev]

/- Two sizes that differ are not the last two. -/
theorem TableSizes.lt_last_of_ne
    (sizes : TableSizes)
    {its : Nat}
    (hLe : its ≤ sizes.last)
    (hNe : sizes.itsSize (its - 1) ≠ sizes.itsSize its) :
    its < sizes.last := by
  by_contra hCon
  have hEq : its = sizes.last := by omega
  rw [hEq] at hNe
  exact hNe sizes.flat.symm

namespace SpaceInv

variable {ipc : IpcParams} {tableOk : Nat → Bool} {s : IpcSpace}

/- One turn changes nothing or grows the table once. -/
theorem growTurn_cases
    (hInv : SpaceInv ipc none s)
    (tableOk : Nat → Bool)
    (target : Option Nat) :
    (∃ kr, growTurn ipc tableOk s target = (some kr, s) ∧
        (target = none → kr ≠ .success)) ∨
      ∃ its, growTurn ipc tableOk s target =
          (none, growTo ipc s its) ∧
        s.isTableNext ≤ its ∧ its < ipc.sizes.last := by
  have hNotGrowing : ¬ s.isGrowing = true := by
    rw [hInv.growing]
    simp
  -- where the search for a size ends
  have hFound : ∃ its,
      growSearch ipc s target =
          (ipc.sizes.itsSize (its - 1), its) ∧
        s.isTableNext ≤ its ∧ its ≤ ipc.sizes.last ∧
        (target = none → its = s.isTableNext) := by
    cases target with
    | none =>
        exact ⟨s.isTableNext, rfl, le_refl _, hInv.next_le,
          fun _ => rfl⟩
    | some target =>
        rcases growTarget_spec ipc.sizes target
          ipc.sizes.last _ s.isTableNext hInv.next_pos
          hInv.next_le rfl with ⟨its, hEq, hGe, hLe⟩
        exact ⟨its, hEq, hGe, hLe, fun h => by cases h⟩
  rcases hFound with ⟨its, hEq, hGe, hLe, hNone⟩
  unfold growTurn
  dsimp only
  rw [hEq]
  rw [if_pos hInv.active]
  split_ifs with hAny hSame hFlat hOk
  · refine Or.inl ⟨.success, rfl, ?_⟩
    intro h
    rw [h] at hAny
    cases hAny
  · exact Or.inl ⟨.noSpace, rfl, fun _ => by simp⟩
  · exact Or.inl ⟨.noSpace, rfl, fun _ => by simp⟩
  · refine Or.inr ⟨its, rfl, hGe, ?_⟩
    apply ipc.sizes.lt_last_of_ne hLe
    intro h
    cases target with
    | none =>
        rw [hNone rfl] at h
        rw [hNone rfl] at hFlat
        exact hFlat h
    | some target => exact hSame ⟨rfl, h⟩
  · exact Or.inl ⟨.resourceShortage, rfl, fun _ => by simp⟩

/- Growing keeps the names. -/
theorem growLoop_spec
    (target : Option Nat)
    (fuel : Nat)
    (hInv : SpaceInv ipc none s) :
    SameNames ipc s
      (growLoop ipc tableOk target fuel s).2 := by
  induction fuel generalizing s with
  | zero => exact SameNames.refl hInv
  | succ fuel ih =>
      unfold growLoop
      rcases hInv.growTurn_cases tableOk target
        with ⟨kr, hTurn, _⟩ | ⟨its, hTurn, hGe, hLt⟩
      · rw [hTurn]
        exact SameNames.refl hInv
      · have hGrow := (hInv.growTo_spec hGe hLt).1
        rw [hTurn]
        dsimp only
        split_ifs
        · exact hGrow.trans (ih hGrow.inv)
        · exact hGrow

/- Growing never shrinks the table. -/
theorem growLoop_next_le
    (target : Option Nat)
    (fuel : Nat)
    (hInv : SpaceInv ipc none s) :
    s.isTableNext ≤
      (growLoop ipc tableOk target fuel s).2.isTableNext := by
  induction fuel generalizing s with
  | zero => exact le_refl _
  | succ fuel ih =>
      unfold growLoop
      rcases hInv.growTurn_cases tableOk target
        with ⟨kr, hTurn, _⟩ | ⟨its, hTurn, hGe, hLt⟩
      · rw [hTurn]
      · rcases hInv.growTo_spec hGe hLt with ⟨hGrow, hNext⟩
        rw [hTurn]
        dsimp only
        split_ifs
        · have hTail := ih hGrow.inv
          omega
        · dsimp only
          omega

/- Without a target, success means a larger table. -/
theorem growLoop_next_lt
    (fuel : Nat)
    (hInv : SpaceInv ipc none s)
    (hOk : (growLoop ipc tableOk none (fuel + 1) s).1 =
      .success) :
    s.isTableNext <
      (growLoop ipc tableOk none
        (fuel + 1) s).2.isTableNext := by
  unfold growLoop at hOk ⊢
  rcases hInv.growTurn_cases tableOk none with
    ⟨kr, hTurn, hKr⟩ | ⟨its, hTurn, hGe, hLt⟩
  · rw [hTurn] at hOk
    exact absurd hOk (hKr rfl)
  · rcases hInv.growTo_spec hGe hLt with ⟨hGrow, hNext⟩
    rw [hTurn]
    dsimp only
    split_ifs
    · have hTail := @growLoop_next_le ipc tableOk _
        none fuel hGrow.inv
      omega
    · dsimp only
      omega

/- `ipc_entry_grow_table` keeps the names. -/
theorem growTable_spec
    (tableOk : Nat → Bool)
    (hInv : SpaceInv ipc none s)
    (target : Option Nat) :
    SameNames ipc s
      (ipcEntryGrowTable ipc tableOk s target).2 :=
  growLoop_spec target _ hInv

theorem growTable_next_lt
    (hInv : SpaceInv ipc none s)
    (hOk : (ipcEntryGrowTable ipc tableOk s none).1 =
      .success) :
    s.isTableNext <
      (ipcEntryGrowTable ipc tableOk s none).2.isTableNext :=
  growLoop_next_lt _ hInv hOk

end SpaceInv

end Ipc

end OsfMach
