import OsfMach.Ipc.SpaceOps

/-
  A space keeps its address.

  Tables and trees come and go, and the space stays where it
  is. Ports name their receiver by this address.

  Key theorems include:
    * `traverse_keeps`
    * `isAddr_entryAllocName`
    * `isAddr_entryDealloc`
-/

------
-- Stores and Hashes
------

namespace OsfMach

namespace Ipc

open Lib

/- What a body keeps, a whole traversal keeps. -/
theorem traverse_keeps
    {σ α : Type}
    {P : σ → Prop}
    {body : σ → Nat → α → σ × Bool}
    (hBody : ∀ s name entry, P s → P (body s name entry).1)
    (splay : SplayTree α)
    {s : σ}
    (h : P s) :
    P (splay.traverse body s).1 := by
  have hLoop : ∀ fuel (s : σ) (result : TravResult α), P s →
      P (traverseLoop body fuel s result).1 := by
    intro fuel
    induction fuel with
    | zero =>
        intro s result h
        cases result <;> exact h
    | succ fuel ih =>
        intro s result h
        cases result with
        | done root => exact h
        | entry current parent =>
            cases current with
            | nil => exact h
            | node l name entry r =>
                exact ih _ _ (hBody s name entry h)
  exact hLoop _ s _ h

section Addresses

variable (ipc : IpcParams) (s : IpcSpace)

@[simp] theorem isAddr_setSlot
    (i : Nat)
    (fields : EntryFields) :
    (s.setSlot i fields).isAddr = s.isAddr := rfl

@[simp] theorem isAddr_store
    (ref : EntryRef)
    (fields : EntryFields) :
    (s.store ref fields).isAddr = s.isAddr := by
  cases ref <;> rfl

@[simp] theorem isAddr_hashLocalInsert
    (obj i : Nat) :
    (ipcHashLocalInsert s obj i).isAddr = s.isAddr := by
  unfold ipcHashLocalInsert
  split <;> rfl

@[simp] theorem isAddr_hashLocalDelete
    (obj i : Nat) :
    (ipcHashLocalDelete s obj i).isAddr = s.isAddr := by
  unfold ipcHashLocalDelete
  split <;> rfl

@[simp] theorem isAddr_hashGlobalDelete
    (obj name : Nat) :
    (ipcHashGlobalDelete ipc s obj name).isAddr =
      s.isAddr := rfl

@[simp] theorem isAddr_hashInsert
    (obj name : Nat)
    (entry : EntryRef) :
    (ipcHashInsert ipc s obj name entry).isAddr =
      s.isAddr := by
  unfold ipcHashInsert
  split
  · exact isAddr_hashLocalInsert s _ _
  · rfl

@[simp] theorem isAddr_hashDelete
    (obj name : Nat)
    (entry : EntryRef) :
    (ipcHashDelete ipc s obj name entry).isAddr =
      s.isAddr := by
  unfold ipcHashDelete
  split
  · exact isAddr_hashLocalDelete s _ _
  · rfl

------
-- Growing
------

theorem isAddr_growHash
    (i : Nat) :
    (growHash s i).isAddr = s.isAddr := by
  unfold growHash
  dsimp only
  split
  · exact isAddr_hashLocalInsert s _ _
  · rfl

theorem isAddr_growMove
    (name : Nat)
    (tentry : EntryFields) :
    (growMove ipc s name tentry).1.isAddr = s.isAddr := by
  unfold growMove
  dsimp only
  split
  · rfl
  · split
    · simp
    · rfl

theorem isAddr_growTree
    (osize size nsize : Nat) :
    (growTree ipc s osize size nsize).isAddr = s.isAddr := by
  have hMove : ∀ (t : IpcSpace) name entry,
      t.isAddr = s.isAddr →
        (growMove ipc t name entry).1.isAddr = s.isAddr := by
    intro t name entry h
    rw [isAddr_growMove]
    exact h
  exact traverse_keeps
    (P := fun t : IpcSpace => t.isAddr = s.isAddr) hMove _ rfl

theorem isAddr_growFreeAll
    (osize size : Nat) :
    (growFreeAll s osize size).isAddr = s.isAddr := by
  have hFold : ∀ (slots : List Nat)
      (state : IpcSpace × Nat),
      (slots.foldl growFree state).1.isAddr =
        state.1.isAddr := by
    intro slots
    induction slots with
    | nil => exact fun _ => rfl
    | cons i slots ih =>
        intro state
        rw [List.foldl_cons, ih]
        unfold growFree
        dsimp only
        split <;> rfl
  unfold growFreeAll
  rw [isAddr_setSlot, hFold]

theorem isAddr_growTo
    (its : Nat) :
    (growTo ipc s its).isAddr = s.isAddr := by
  have hFold : ∀ (slots : List Nat) (t : IpcSpace),
      (slots.foldl growHash t).isAddr = t.isAddr := by
    intro slots
    induction slots with
    | nil => exact fun _ => rfl
    | cons i slots ih =>
        intro t
        rw [List.foldl_cons, ih, isAddr_growHash]
  unfold growTo
  rw [isAddr_growFreeAll]
  split
  · rw [isAddr_growTree, hFold]
  · rw [hFold]

theorem isAddr_growTurn
    (tableOk : Nat → Bool)
    (target : Option Nat) :
    (growTurn ipc tableOk s target).2.isAddr = s.isAddr := by
  unfold growTurn
  dsimp only
  split_ifs <;> first | rfl | exact isAddr_growTo ipc s _

theorem isAddr_growTable
    (tableOk : Nat → Bool)
    (target : Option Nat) :
    (ipcEntryGrowTable ipc tableOk s target).2.isAddr =
      s.isAddr := by
  have hLoop : ∀ fuel (t : IpcSpace),
      (growLoop ipc tableOk target fuel t).2.isAddr =
        t.isAddr := by
    intro fuel
    induction fuel with
    | zero => exact fun _ => rfl
    | succ fuel ih =>
        intro t
        have hTurn := isAddr_growTurn ipc t tableOk target
        unfold growLoop
        generalize growTurn ipc tableOk t target = turn
          at hTurn ⊢
        rcases turn with ⟨_ | kr, u⟩
        · dsimp only
          split
          · rw [ih]
            exact hTurn
          · exact hTurn
        · exact hTurn
  exact hLoop _ s

------
-- Entries
------

theorem isAddr_allocSlot
    (i : Nat)
    (gen : EntryBits) :
    (allocSlot s i gen).isAddr = s.isAddr := by
  unfold allocSlot
  split <;> rfl

theorem isAddr_allocNode
    (name : Nat) :
    (allocNode ipc s name).isAddr = s.isAddr := by
  unfold allocNode
  dsimp only
  split_ifs <;> rfl

theorem isAddr_allocNameLoop
    (tableOk : Nat → Bool)
    (iteOk : Bool)
    (name fuel : Nat)
    (treeEntry : Bool) :
    (allocNameLoop ipc tableOk iteOk name fuel treeEntry
      s).2.2.isAddr = s.isAddr := by
  induction fuel generalizing s treeEntry with
  | zero => rfl
  | succ fuel ih =>
      unfold allocNameLoop allocNameTurn
      dsimp only
      split
      · rfl
      split
      · rfl
      split
      · exact isAddr_allocSlot s _ _
      split
      · rfl
      have hFound :
          (if 0 < s.isTreeTotal then treeLookup s name
            else (none, s)).2.isAddr = s.isAddr := by
        split <;> rfl
      generalize (if 0 < s.isTreeTotal then treeLookup s name
        else (none, s)) = found at hFound ⊢
      split
      · exact hFound
      split
      · have hGrow := isAddr_growTable ipc found.2 tableOk
          none
        generalize ipcEntryGrowTable ipc tableOk found.2
          none = grown at hGrow ⊢
        rcases grown with ⟨kr, t⟩
        cases kr with
        | success =>
            rw [ih]
            exact hGrow.trans hFound
        | _ => exact hGrow.trans hFound
      split
      · rw [isAddr_allocNode]
        exact hFound
      split
      · rw [ih]
        exact hFound
      · exact hFound

theorem isAddr_entryAllocName
    (tableOk : Nat → Bool)
    (iteOk : Bool)
    (name : Nat) :
    (ipcEntryAllocName ipc tableOk iteOk s
      name).2.2.isAddr = s.isAddr :=
  isAddr_allocNameLoop ipc s tableOk iteOk name _ _

theorem isAddr_moveCollision
    (i : Nat) :
    (moveCollision ipc s i).isAddr = s.isAddr := by
  unfold moveCollision
  dsimp only
  split
  · rfl
  · split
    · split <;> simp
    · split <;> simp

theorem isAddr_freeNode
    (name : Nat) :
    (freeNode ipc s name).isAddr = s.isAddr := by
  unfold freeNode
  dsimp only
  split_ifs <;> rfl

theorem isAddr_entryDealloc
    (name : Nat)
    (entry : EntryRef) :
    (ipcEntryDealloc ipc s name entry).isAddr =
      s.isAddr := by
  unfold ipcEntryDealloc
  dsimp only
  split_ifs
  · rfl
  · exact isAddr_moveCollision ipc s _
  · rfl
  · exact isAddr_freeNode ipc s name

end Addresses

end Ipc

end OsfMach
