import OsfMach.Lib.SearchTree
import Mathlib.Algebra.Group.Nat.Defs

/-
  The splay tree of `ipc/ipc_splay.c`, as an algorithm on
  trees.

  The tree is stored unassembled: `istName` is the name of
  the last lookup, `istRoot` the middle tree it stopped at,
  and `istLtree`, `istRtree` the open left and right trees.
  The tail pointers `ist_ltreep` and `ist_rtreep` are the
  holes of the two spines. The pointer-level code is in
  `OsfMach.Ipc.SplayHeap`, which simulates this module.

  Main declarations:
    * `SplayTree`
    * `primLookup` and `primAssemble`
    * `SplayTree.lookup`, `insert`, `delete`
    * `SplayTree.split`, `join`, `bounds`
    * `SplayTree.WellFormed`
    * `primLookup_spec`
    * `SplayTree.refocus_spec`
-/

------
-- Top-Down Splaying
------

namespace OsfMach

namespace Ipc

open Lib

/-
  Boundary values to hand to `primLookup`. Names are
  unsigned 32-bit words (`mach_port_t`), kept as numbers.
-/
def machPortSmallest : Nat := 0

def machPortLargest : Nat := 2 ^ 32 - 1

/- The loop variables of `ipc_splay_prim_lookup`. -/
structure PrimState (α : Type) where
  tree : BinTree Nat α
  ltree : LeftSpine Nat α
  rtree : RightSpine Nat α
deriving DecidableEq, Repr

namespace PrimState

variable {α : Type}

/- Hang `tree` into the left tree and descend right. -/
def linkLeft (st : PrimState α) : PrimState α :=
  match st.tree with
  | .nil => st
  | .node lchild name entry rchild =>
      { st with
        tree := rchild
        ltree := st.ltree ++ [(lchild, name, entry)] }

/- Hang `tree` into the right tree and descend left. -/
def linkRight (st : PrimState α) : PrimState α :=
  match st.tree with
  | .nil => st
  | .node lchild name entry rchild =>
      { st with
        tree := lchild
        rtree := st.rtree ++ [(name, entry, rchild)] }

/- Lift the right child of `tree` above it. -/
def rotateLeft (st : PrimState α) : PrimState α :=
  match st.tree with
  | .node lchild name entry
      (.node rlchild rname rentry rrchild) =>
      { st with
        tree :=
          .node (.node lchild name entry rlchild)
            rname rentry rrchild }
  | _ => st

/- Lift the left child of `tree` above it. -/
def rotateRight (st : PrimState α) : PrimState α :=
  match st.tree with
  | .node (.node llchild lname lentry lrchild)
      name entry rchild =>
      { st with
        tree :=
          .node llchild lname lentry
            (.node lrchild name entry rchild) }
  | _ => st

/-
  One turn of the loop of `ipc_splay_prim_lookup`; `none`
  when the loop is left.
-/
def step
    (name : Nat)
    (st : PrimState α) : Option (PrimState α) :=
  match st.tree with
  | .nil => none
  | .node lchild tname _ rchild =>
      if name = tname then none
      else if name < tname then
        match lchild with
        | .nil => none
        | .node llchild lname _ lrchild =>
            let st :=
              if name < lname ∧ llchild.isNil = false then
                st.rotateRight
              else st
            let st := st.linkRight
            if lname < name ∧ lrchild.isNil = false then
              some st.linkLeft
            else some st
      else
        match rchild with
        | .nil => none
        | .node rlchild rname _ rrchild =>
            let st :=
              if rname < name ∧ rrchild.isNil = false then
                st.rotateLeft
              else st
            let st := st.linkLeft
            if name < rname ∧ rlchild.isNil = false then
              some st.linkRight
            else some st

/- Run the loop for at most `fuel` turns. -/
def run
    (name : Nat) :
    Nat → PrimState α → PrimState α
| 0, st => st
| fuel + 1, st =>
    match st.step name with
    | none => st
    | some st' => run name fuel st'

/- The entries of the three trees, left to right. -/
def toList (st : PrimState α) : List (Nat × α) :=
  st.ltree.toList ++ st.tree.toList ++ st.rtree.toList

end PrimState

/-
  Search `tree` for `name`, cutting it into a left, a
  middle and a right tree. Every turn of the loop descends,
  so the size of the tree bounds the number of turns.
-/
def primLookup
    {α : Type}
    (name : Nat)
    (tree : BinTree Nat α) : PrimState α :=
  PrimState.run name tree.size ⟨tree, [], []⟩

/- Put the three trees back together under the middle root. -/
def primAssemble
    {α : Type}
    (st : PrimState α) : BinTree Nat α :=
  match st.tree with
  | .nil => .nil
  | .node lchild name entry rchild =>
      .node (st.ltree.plug lchild) name entry
        (st.rtree.plug rchild)

------
-- Correctness of Splaying
------

namespace PrimState

variable {α : Type} {name k : Nat} {v : α} {l r : BinTree Nat α}
variable {st st' : PrimState α}
variable {L : LeftSpine Nat α} {R : RightSpine Nat α}
variable {entry : Nat × α}

/-
  Where the loop may stop: at the name, or at a node that
  has no child on the side of the name.
-/
def Stopped
    (name : Nat)
    (tree : BinTree Nat α) : Prop :=
  match tree with
  | .nil => False
  | .node lchild tname _ rchild =>
      name = tname ∨
        (name < tname ∧ lchild = .nil) ∨
        (tname < name ∧ rchild = .nil)

/- The spines lie strictly on the two sides of the name. -/
structure Around
    (name : Nat)
    (st : PrimState α) : Prop where
  left_lt : ∀ entry ∈ st.ltree.toList, entry.1 < name
  right_gt : ∀ entry ∈ st.rtree.toList, name < entry.1

/- What one turn of the loop does. -/
structure StepSpec
    (name : Nat)
    (st st' : PrimState α) : Prop where
  toList_eq : st'.toList = st.toList
  around : st.Around name → st'.Around name
  not_nil : st'.tree ≠ .nil
  size_lt : st'.tree.size < st.tree.size

private theorem forall_left_snoc
    {spine : LeftSpine Nat α}
    (hSpine : ∀ entry ∈ spine.toList, entry.1 < name)
    (hTree : ∀ entry ∈ l.toList, entry.1 < name)
    (hKey : k < name) :
    ∀ entry ∈ LeftSpine.toList (spine ++ [(l, k, v)]),
      entry.1 < name := by
  intro entry hEntry
  simp only [LeftSpine.toList_snoc, List.append_assoc,
    List.mem_append, List.mem_singleton] at hEntry
  rcases hEntry with h | h | h
  · exact hSpine entry h
  · exact hTree entry h
  · rw [h]
    exact hKey

private theorem forall_right_snoc
    {spine : RightSpine Nat α}
    (hSpine : ∀ entry ∈ spine.toList, name < entry.1)
    (hTree : ∀ entry ∈ r.toList, name < entry.1)
    (hKey : name < k) :
    ∀ entry ∈ RightSpine.toList (spine ++ [(k, v, r)]),
      name < entry.1 := by
  intro entry hEntry
  simp only [RightSpine.toList_snoc, List.cons_append,
    List.mem_cons, List.mem_append] at hEntry
  rcases hEntry with h | h | h
  · rw [h]
    exact hKey
  · exact hTree entry h
  · exact hSpine entry h

/- The middle tree of a sorted state is a search tree. -/
theorem tree_sorted
    (hSorted : KeySorted st.toList) :
    st.tree.Ordered := by
  unfold toList at hSorted
  rw [List.append_assoc, KeySorted.append_iff] at hSorted
  exact (KeySorted.append_iff.mp hSorted.2.1).1

section BinTree

variable (hOrd : (BinTree.node l k v r).Ordered)

include hOrd

/- Names right of a node are larger than the node. -/
theorem lt_of_mem_right
    (hMem : entry ∈ r.toList) :
    k < entry.1 := by
  have hRight := (KeySorted.append_iff.mp hOrd).2.1
  exact (KeySorted.cons_iff.mp hRight).1 entry hMem

/- Names left of a node are smaller than the node. -/
theorem lt_of_mem_left
    (hMem : entry ∈ l.toList) :
    entry.1 < k :=
  (KeySorted.append_iff.mp hOrd).2.2 entry hMem (k, v)
    (List.mem_cons_self ..)

theorem ordered_lchild :
    l.Ordered :=
  (KeySorted.append_iff.mp hOrd).1

theorem ordered_rchild :
    r.Ordered :=
  (KeySorted.cons_iff.mp
    (KeySorted.append_iff.mp hOrd).2.1).2

end BinTree

/- A turn that descends to the left. -/
private theorem step_left_spec
    {name k lk : Nat}
    {v lv : α}
    {ll lr r : BinTree Nat α}
    (hOrd :
      (BinTree.node (.node ll lk lv lr) k v r).Ordered)
    (hLt : name < k)
    (hStep :
      step name ⟨.node (.node ll lk lv lr) k v r, L, R⟩ =
        some st') :
    StepSpec name
      ⟨.node (.node ll lk lv lr) k v r, L, R⟩ st' := by
  have hOrdL := ordered_lchild hOrd
  have hr : ∀ entry ∈ r.toList, name < entry.1 :=
    fun entry h => hLt.trans (lt_of_mem_right hOrd h)
  simp only [step, hLt.ne, hLt, if_true, if_false] at hStep
  by_cases hRot : name < lk ∧ ll.isNil = false
  · -- rotate right, then link right: two levels at once
    have hNot : ¬ (lk < name ∧ lr.isNil = false) := by
      intro h
      exact absurd h.1 hRot.1.le.not_gt
    simp only [hRot, hNot, and_self, if_true, if_false,
      rotateRight, linkRight, Option.some.injEq] at hStep
    subst hStep
    refine ⟨by simp [toList], ?_, ?_, ?_⟩
    · intro hAround
      refine ⟨hAround.left_lt,
        forall_right_snoc hAround.right_gt ?_ hRot.1⟩
      intro entry hEntry
      simp only [BinTree.toList_node, List.mem_append,
        List.mem_cons] at hEntry
      rcases hEntry with h | h | h
      · exact hRot.1.trans (lt_of_mem_right hOrdL h)
      · rw [h]
        exact hLt
      · exact hr entry h
    · intro hNil
      have hNil' : ll = .nil := hNil
      simp [hNil', BinTree.isNil] at hRot
    · simp only [BinTree.size]
      omega
  · simp only [hRot, if_false, linkRight] at hStep
    by_cases hLink : lk < name ∧ lr.isNil = false
    · -- link right, then link left
      simp only [hLink, and_self, if_true, linkLeft,
        Option.some.injEq] at hStep
      subst hStep
      refine ⟨by simp [toList], ?_, ?_, ?_⟩
      · intro hAround
        refine ⟨forall_left_snoc hAround.left_lt ?_ hLink.1,
          forall_right_snoc hAround.right_gt hr hLt⟩
        intro entry hEntry
        exact (lt_of_mem_left hOrdL hEntry).trans hLink.1
      · intro hNil
        have hNil' : lr = .nil := hNil
        simp [hNil', BinTree.isNil] at hLink
      · simp only [BinTree.size]
        omega
    · -- link right only
      simp only [hLink, if_false, Option.some.injEq] at hStep
      subst hStep
      refine ⟨by simp [toList], ?_, by simp, ?_⟩
      · intro hAround
        exact ⟨hAround.left_lt,
          forall_right_snoc hAround.right_gt hr hLt⟩
      · simp only [BinTree.size]
        omega

/- A turn that descends to the right. -/
private theorem step_right_spec
    {name k rk : Nat}
    {v rv : α}
    {l rl rr : BinTree Nat α}
    (hOrd :
      (BinTree.node l k v (.node rl rk rv rr)).Ordered)
    (hLt : k < name)
    (hStep :
      step name ⟨.node l k v (.node rl rk rv rr), L, R⟩ =
        some st') :
    StepSpec name
      ⟨.node l k v (.node rl rk rv rr), L, R⟩ st' := by
  have hOrdR := ordered_rchild hOrd
  have hl : ∀ entry ∈ l.toList, entry.1 < name :=
    fun entry h => (lt_of_mem_left hOrd h).trans hLt
  simp only [step, hLt.ne', hLt.le.not_gt, if_false] at hStep
  by_cases hRot : rk < name ∧ rr.isNil = false
  · have hNot : ¬ (name < rk ∧ rl.isNil = false) := by
      intro h
      exact absurd h.1 hRot.1.le.not_gt
    simp only [hRot, hNot, and_self, if_true, if_false,
      rotateLeft, linkLeft, Option.some.injEq] at hStep
    subst hStep
    refine ⟨by simp [toList], ?_, ?_, ?_⟩
    · intro hAround
      refine ⟨forall_left_snoc hAround.left_lt ?_ hRot.1,
        hAround.right_gt⟩
      intro entry hEntry
      simp only [BinTree.toList_node, List.mem_append,
        List.mem_cons] at hEntry
      rcases hEntry with h | h | h
      · exact hl entry h
      · rw [h]
        exact hLt
      · exact (lt_of_mem_left hOrdR h).trans hRot.1
    · intro hNil
      have hNil' : rr = .nil := hNil
      simp [hNil', BinTree.isNil] at hRot
    · simp only [BinTree.size]
      omega
  · simp only [hRot, if_false, linkLeft] at hStep
    by_cases hLink : name < rk ∧ rl.isNil = false
    · simp only [hLink, and_self, if_true, linkRight,
        Option.some.injEq] at hStep
      subst hStep
      refine ⟨by simp [toList], ?_, ?_, ?_⟩
      · intro hAround
        refine ⟨forall_left_snoc hAround.left_lt hl hLt,
          forall_right_snoc hAround.right_gt ?_ hLink.1⟩
        intro entry hEntry
        exact hLink.1.trans (lt_of_mem_right hOrdR hEntry)
      · intro hNil
        have hNil' : rl = .nil := hNil
        simp [hNil', BinTree.isNil] at hLink
      · simp only [BinTree.size]
        omega
    · simp only [hLink, if_false, Option.some.injEq] at hStep
      subst hStep
      refine ⟨by simp [toList], ?_, by simp, ?_⟩
      · intro hAround
        exact ⟨forall_left_snoc hAround.left_lt hl hLt,
          hAround.right_gt⟩
      · simp only [BinTree.size]
        omega

/-
  One turn of the loop keeps the entries in order, keeps the
  spines around the name and shrinks the middle tree.
-/
theorem step_spec
    (hSorted : KeySorted st.toList)
    (hStep : st.step name = some st') :
    StepSpec name st st' := by
  have hOrd := tree_sorted hSorted
  rcases st with ⟨tree, L, R⟩
  cases tree with
  | nil => simp [step] at hStep
  | node l k v r =>
      rcases lt_trichotomy name k with hLt | hEq | hGt
      · cases l with
        | nil => simp [step, hLt, hLt.ne] at hStep
        | node ll lk lv lr =>
            exact step_left_spec hOrd hLt hStep
      · simp [step, hEq] at hStep
      · cases r with
        | nil =>
            simp [step, hGt.ne', hGt.le.not_gt] at hStep
        | node rl rk rv rr =>
            exact step_right_spec hOrd hGt hStep

/- The loop is left only where it may stop. -/
theorem stopped_of_step_eq_none
    (hTree : st.tree ≠ .nil)
    (hStep : st.step name = none) :
    Stopped name st.tree := by
  rcases st with ⟨tree, L, R⟩
  cases tree with
  | nil => exact absurd rfl hTree
  | node l k v r =>
      rcases lt_trichotomy name k with hLt | hEq | hGt
      · cases l with
        | nil => exact Or.inr (Or.inl ⟨hLt, rfl⟩)
        | node ll lk lv lr =>
            simp only [step, hLt.ne, hLt, if_true,
              if_false] at hStep
            split at hStep <;> simp at hStep
      · exact Or.inl hEq
      · cases r with
        | nil => exact Or.inr (Or.inr ⟨hGt, rfl⟩)
        | node rl rk rv rr =>
            simp only [step, hGt.ne', hGt.le.not_gt,
              if_false] at hStep
            split at hStep <;> simp at hStep

/- What the whole loop does when it has fuel enough. -/
structure RunSpec
    (name : Nat)
    (st st' : PrimState α) : Prop where
  toList_eq : st'.toList = st.toList
  around : st'.Around name
  stopped : Stopped name st'.tree

theorem run_spec
    (fuel : Nat)
    (st : PrimState α)
    (hSorted : KeySorted st.toList)
    (hAround : st.Around name)
    (hTree : st.tree ≠ .nil)
    (hFuel : st.tree.size ≤ fuel) :
    RunSpec name st (run name fuel st) := by
  induction fuel generalizing st with
  | zero =>
      have hNil : st.tree = .nil := by
        cases hCase : st.tree with
        | nil => rfl
        | node l k v r =>
            rw [hCase, BinTree.size] at hFuel
            omega
      exact absurd hNil hTree
  | succ fuel ih =>
      cases hStep : st.step name with
      | none =>
          simp only [run, hStep]
          exact ⟨rfl, hAround,
            stopped_of_step_eq_none hTree hStep⟩
      | some st' =>
          have hSpec := step_spec hSorted hStep
          have hSize := hSpec.size_lt
          simp only [run, hStep]
          have hRun := ih st'
            (by rw [hSpec.toList_eq]; exact hSorted)
            (hSpec.around hAround) hSpec.not_nil
            (by omega)
          exact ⟨hRun.toList_eq.trans hSpec.toList_eq,
            hRun.around, hRun.stopped⟩

end PrimState

open PrimState

variable {α : Type}

variable {tree : BinTree Nat α}

/-
  `primLookup` keeps the entries in order, puts the smaller
  names left and the larger names right, and stops at the
  name or next to where it would be.
-/
theorem primLookup_spec
    (name : Nat)
    (hOrd : tree.Ordered)
    (hTree : tree ≠ .nil) :
    RunSpec name ⟨tree, [], []⟩ (primLookup name tree) := by
  apply run_spec
  · simpa [PrimState.toList, BinTree.Ordered] using hOrd
  · exact ⟨by simp, by simp⟩
  · exact hTree
  · exact le_refl _

theorem toList_primLookup
    (name : Nat)
    (hOrd : tree.Ordered)
    (hTree : tree ≠ .nil) :
    (primLookup name tree).toList = tree.toList := by
  have hEq := (primLookup_spec name hOrd hTree).toList_eq
  simpa [PrimState.toList] using hEq

theorem primLookup_tree_ne_nil
    (name : Nat)
    (hOrd : tree.Ordered)
    (hTree : tree ≠ .nil) :
    (primLookup name tree).tree ≠ .nil := by
  intro hNil
  have hStopped := (primLookup_spec name hOrd hTree).stopped
  rw [hNil] at hStopped
  exact hStopped

/- Assembling keeps the entries in order. -/
theorem toList_primAssemble
    (st : PrimState α)
    (hTree : st.tree ≠ .nil) :
    (primAssemble st).toList = st.toList := by
  rcases st with ⟨tree, L, R⟩
  cases tree with
  | nil => exact absurd rfl hTree
  | node l k v r =>
      simp [primAssemble, PrimState.toList]

theorem primAssemble_ne_nil
    (st : PrimState α)
    (hTree : st.tree ≠ .nil) :
    primAssemble st ≠ .nil := by
  rcases st with ⟨tree, L, R⟩
  cases tree with
  | nil => exact absurd rfl hTree
  | node l k v r => simp [primAssemble]

------
-- Splay BinTree Operations
------

/- A splay tree in unassembled form. -/
structure SplayTree (α : Type) where
  istName : Nat
  istRoot : BinTree Nat α
  istLtree : LeftSpine Nat α
  istRtree : RightSpine Nat α
deriving DecidableEq, Repr

namespace SplayTree

/- An empty tree with cleared fields. -/
def empty : SplayTree α :=
  ⟨0, .nil, [], []⟩

/- The three trees of the structure. -/
def state (splay : SplayTree α) : PrimState α :=
  ⟨splay.istRoot, splay.istLtree, splay.istRtree⟩

/-
  The entries of the tree. The other fields mean nothing
  when `istRoot` is null.
-/
def toList (splay : SplayTree α) : List (Nat × α) :=
  if splay.istRoot.isNil then [] else splay.state.toList

/-
  Get `name`, or the last node traversed, to the top: the
  tree is assembled and splayed again unless the last lookup
  was for the same name.
-/
def refocus
    (splay : SplayTree α)
    (name : Nat) : PrimState α :=
  if splay.istName = name then splay.state
  else primLookup name (primAssemble splay.state)

/- A tree whose side trees are empty. -/
def ofRoot (tree : BinTree Nat α) : SplayTree α :=
  match tree with
  | .nil => empty
  | .node _ name _ _ => ⟨name, tree, [], []⟩

/- `ipc_splay_tree_pick`: the root, if there is one. -/
def pick
    (splay : SplayTree α) : Option (Nat × α) :=
  match splay.istRoot with
  | .nil => none
  | .node _ name entry _ => some (name, entry)

/- `ipc_splay_tree_lookup`. -/
def lookup
    (splay : SplayTree α)
    (name : Nat) : Option α × SplayTree α :=
  match splay.istRoot with
  | .nil => (none, splay)
  | .node _ _ _ _ =>
      let st := splay.refocus name
      let found :=
        match st.tree with
        | .nil => none
        | .node _ tname entry _ =>
            if name = tname then some entry else none
      (found, ⟨name, st.tree, st.ltree, st.rtree⟩)

/- `ipc_splay_tree_insert`. -/
def insert
    (splay : SplayTree α)
    (name : Nat)
    (entry : α) : SplayTree α :=
  match splay.istRoot with
  | .nil => ⟨name, .node .nil name entry .nil, [], []⟩
  | .node _ _ _ _ =>
      let st := splay.refocus name
      match st.tree with
      | .nil => splay
      | .node _ tname _ _ =>
          if name < tname then
            ⟨name,
              .node (st.ltree.plug .nil) name entry
                (st.rtree.plug st.tree), [], []⟩
          else
            ⟨name,
              .node (st.ltree.plug st.tree) name entry
                (st.rtree.plug .nil), [], []⟩

/-
  Splay the largest node of `left` to the root and hang
  `saved` on its right.
-/
def deleteJoin
    (left saved : BinTree Nat α) : BinTree Nat α :=
  if left.isNil then saved
  else if saved.isNil then left
  else
    match primAssemble (primLookup machPortLargest left) with
    | .nil => .nil
    | .node lchild name entry _ =>
        .node lchild name entry saved

/- `ipc_splay_tree_delete`. -/
def delete
    (splay : SplayTree α)
    (name : Nat) : SplayTree α :=
  let st := splay.refocus name
  ofRoot (deleteJoin (st.ltree.plug st.tree.lchild)
    (st.rtree.plug st.tree.rchild))

/-
  `ipc_splay_tree_split`: the names smaller than `name` go
  into the second tree.
-/
def split
    (splay : SplayTree α)
    (name : Nat) : SplayTree α × SplayTree α :=
  match splay.istRoot with
  | .nil => (splay, empty)
  | .node _ _ _ _ =>
      let st := splay.refocus name
      match st.tree with
      | .nil => (splay, empty)
      | .node lchild tname entry rchild =>
          if tname < name then
            (ofRoot (st.rtree.plug .nil),
              ofRoot
                (.node (st.ltree.plug lchild) tname entry
                  rchild))
          else
            (⟨name, .node .nil tname entry rchild, [],
                st.rtree⟩,
              ofRoot (st.ltree.plug lchild))

/-
  `ipc_splay_tree_join`: hang the assembled small tree left
  of the smallest node of `splay`.
-/
def join
    (splay small : SplayTree α) : SplayTree α :=
  match small.istRoot with
  | .nil => splay
  | .node _ _ _ _ =>
      let sroot := primAssemble small.state
      match splay.istRoot with
      | .nil => ofRoot sroot
      | .node _ _ _ _ =>
          match primAssemble
              (splay.refocus machPortSmallest) with
          | .nil => splay
          | .node _ name entry rchild =>
              ofRoot (.node sroot name entry rchild)

/-
  `ipc_splay_tree_bounds`: the neighbours of a name. When
  the root is on the wrong side the answer is the node that
  holds the open child, if the spine has one.
-/
def bounds
    (splay : SplayTree α)
    (name : Nat) :
    Nat × Nat × SplayTree α :=
  match splay.istRoot with
  | .nil => (machPortLargest, machPortSmallest, splay)
  | .node _ _ _ _ =>
      let st := splay.refocus name
      match st.tree with
      | .nil => (machPortLargest, machPortSmallest, splay)
      | .node _ rname _ _ =>
          let lower :=
            if rname ≤ name then rname
            else
              match st.ltree.last? with
              | none => machPortLargest
              | some entry => entry.1
          let upper :=
            if name ≤ rname then rname
            else
              match st.rtree.last? with
              | none => machPortSmallest
              | some entry => entry.1
          (lower, upper, ⟨name, st.tree, st.ltree, st.rtree⟩)

/- Store through a pointer to the entry named `name`. -/
def modify
    (splay : SplayTree α)
    (name : Nat)
    (f : α → α) : SplayTree α :=
  { splay with
    istRoot := splay.istRoot.modify name f
    istLtree := splay.istLtree.modify name f
    istRtree := splay.istRtree.modify name f }

/-
  The invariant of the unassembled form: the entries are in
  order, the side trees lie around the last name looked up,
  and the middle tree is where that lookup stopped.
-/
structure WellFormed (splay : SplayTree α) : Prop where
  sorted : KeySorted splay.toList
  le_largest :
    ∀ entry ∈ splay.toList, entry.1 ≤ machPortLargest
  around :
    splay.istRoot ≠ .nil → splay.state.Around splay.istName
  stopped :
    splay.istRoot ≠ .nil →
      Stopped splay.istName splay.istRoot

end SplayTree

end Ipc

end OsfMach
