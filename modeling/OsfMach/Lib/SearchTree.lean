import Mathlib.Data.List.Sort
import Mathlib.Order.Defs.LinearOrder

/-
  Binary search trees with two open spines.

  A top-down splay cuts a tree into a left tree whose
  rightmost child is missing, a middle tree, and a right
  tree whose leftmost child is missing. The open trees are
  recorded as lists of frames from the root down to the
  hole, so that filling the hole is `plug`.

  Everything is compared through the inorder list: a search
  tree is a tree whose inorder list is strictly sorted.

  Main declarations:
    * `BinTree`
    * `BinTree.toList`
    * `BinTree.Ordered`
    * `LeftSpine` and `RightSpine`
    * `LeftSpine.toList_plug`
    * `RightSpine.toList_plug`
    * `KeySorted.lookup_of_mem`
-/

------
-- Key-Sorted Association Lists
------

namespace Lib

variable {κ α : Type}
variable {entries : List (κ × α)} {key : κ}

/- Strictly increasing keys. -/
def KeySorted
    [LT κ]
    (entries : List (κ × α)) : Prop :=
  entries.Pairwise (fun a b => a.1 < b.1)

namespace KeySorted

variable [LinearOrder κ]
variable {entry : κ × α} {small large : List (κ × α)}

theorem nil :
    KeySorted ([] : List (κ × α)) :=
  List.Pairwise.nil

theorem append_iff
    {left right : List (κ × α)} :
    KeySorted (left ++ right) ↔
      KeySorted left ∧ KeySorted right ∧
        ∀ a ∈ left, ∀ b ∈ right, a.1 < b.1 :=
  List.pairwise_append

theorem cons_iff
    {rest : List (κ × α)} :
    KeySorted (entry :: rest) ↔
      (∀ b ∈ rest, entry.1 < b.1) ∧ KeySorted rest :=
  List.pairwise_cons

/- In a key-sorted list an entry is what its key looks up. -/
theorem lookup_of_mem
    (hSorted : KeySorted entries)
    {val : α}
    (hMem : (key, val) ∈ entries) :
    entries.lookup key = some val := by
  induction entries with
  | nil => simp at hMem
  | cons entry rest ih =>
      rw [cons_iff] at hSorted
      rcases List.mem_cons.mp hMem with hHead | hTail
      · subst hHead
        simp
      · rcases entry with ⟨k, v⟩
        have hLt := hSorted.1 _ hTail
        have hNe : (key == k) = false := by
          simpa using (ne_of_lt hLt).symm
        simp only [List.lookup_cons, hNe]
        exact ih hSorted.2 hTail

/- A new key fits between smaller and larger ones. -/
theorem insert_middle
    (val : α)
    (hSorted : KeySorted (small ++ large))
    (hSmall : ∀ a ∈ small, a.1 < key)
    (hLarge : ∀ b ∈ large, key < b.1) :
    KeySorted (small ++ (key, val) :: large) := by
  rw [append_iff] at hSorted
  rw [append_iff, cons_iff]
  refine ⟨hSorted.1, ⟨hLarge, hSorted.2.1⟩, ?_⟩
  intro a hA b hB
  rcases List.mem_cons.mp hB with h | h
  · rw [h]
    exact hSmall a hA
  · exact hSorted.2.2 a hA b h

/- Dropping an entry keeps the keys sorted. -/
theorem remove_middle
    (hSorted : KeySorted (small ++ entry :: large)) :
    KeySorted (small ++ large) := by
  rw [append_iff, cons_iff] at hSorted
  rw [append_iff]
  refine ⟨hSorted.1, hSorted.2.1.2, ?_⟩
  intro a hA b hB
  exact hSorted.2.2 a hA b (List.mem_cons_of_mem _ hB)

/- Dropping entries keeps the keys sorted. -/
theorem sublist
    {entries kept : List (κ × α)}
    (hSorted : KeySorted entries)
    (hKept : kept.Sublist entries) :
    KeySorted kept :=
  List.Pairwise.sublist hKept hSorted

/- Rewriting values keeps the keys sorted. -/
theorem map_val
    (hSorted : KeySorted entries)
    (f : κ × α → α) :
    KeySorted
      (entries.map (fun entry => (entry.1, f entry))) :=
  List.pairwise_map.mpr hSorted

end KeySorted

variable [DecidableEq κ]

theorem mem_of_lookup_eq_some
    {val : α}
    (hLookup : entries.lookup key = some val) :
    (key, val) ∈ entries := by
  rcases List.lookup_eq_some_iff.mp hLookup with
    ⟨front, back, hEq, _⟩
  rw [hEq]
  simp

/- A key that occurs nowhere looks up to nothing. -/
theorem lookup_eq_none_of_forall_ne
    (hNe : ∀ entry ∈ entries, entry.1 ≠ key) :
    entries.lookup key = none := by
  rw [List.lookup_eq_none_iff]
  intro entry hMem
  simpa using (hNe entry hMem).symm

/- A lookup in a key-sorted list is membership. -/
theorem KeySorted.lookup_eq_some_iff
    {κ α : Type}
    [LinearOrder κ]
    {entries : List (κ × α)}
    (hSorted : KeySorted entries)
    {key : κ}
    {val : α} :
    entries.lookup key = some val ↔ (key, val) ∈ entries :=
  ⟨mem_of_lookup_eq_some, hSorted.lookup_of_mem⟩

/- What an insertion does to lookups. -/
theorem KeySorted.lookup_insert
    {κ α : Type}
    [LinearOrder κ]
    {small large : List (κ × α)}
    {key : κ}
    {val : α}
    (hSorted : KeySorted (small ++ (key, val) :: large))
    (other : κ) :
    (small ++ (key, val) :: large).lookup other =
      if other = key then some val
      else (small ++ large).lookup other := by
  by_cases hEq : other = key
  · rw [if_pos hEq, hEq]
    exact hSorted.lookup_of_mem (by simp)
  · rw [if_neg hEq]
    apply Option.ext
    intro v
    rw [hSorted.lookup_eq_some_iff,
      hSorted.remove_middle.lookup_eq_some_iff]
    simp [hEq]

/- What a removal does to lookups. -/
theorem KeySorted.lookup_remove
    {κ α : Type}
    [LinearOrder κ]
    {small large : List (κ × α)}
    {key : κ}
    {val : α}
    (hSorted : KeySorted (small ++ (key, val) :: large))
    (other : κ) :
    (small ++ large).lookup other =
      if other = key then none
      else (small ++ (key, val) :: large).lookup other := by
  by_cases hEq : other = key
  · rw [if_pos hEq, hEq]
    apply lookup_eq_none_of_forall_ne
    intro entry hMem hKey
    rw [append_iff, cons_iff] at hSorted
    rcases List.mem_append.mp hMem with h | h
    · have hLt := hSorted.2.2 entry h (key, val) (by simp)
      exact absurd hKey (ne_of_lt hLt)
    · have hLt := hSorted.2.1.1 entry h
      exact absurd hKey (ne_of_gt hLt)
  · rw [hSorted.lookup_insert, if_neg hEq, if_neg hEq]

end Lib

------
-- Trees
------

namespace Lib

/- Binary trees labelled with keys and values. -/
inductive BinTree (κ α : Type) where
| nil : BinTree κ α
| node
    (lchild : BinTree κ α)
    (key : κ)
    (val : α)
    (rchild : BinTree κ α) : BinTree κ α
deriving DecidableEq, Repr

namespace BinTree

variable {κ α : Type}
variable {tree : BinTree κ α}

/- The entries of a tree, left to right. -/
def toList : BinTree κ α → List (κ × α)
| .nil => []
| .node lchild key val rchild =>
    lchild.toList ++ (key, val) :: rchild.toList

/- The number of nodes. -/
def size : BinTree κ α → Nat
| .nil => 0
| .node lchild _ _ rchild =>
    lchild.size + rchild.size + 1

/- The left and right child fields of a root. -/
def lchild : BinTree κ α → BinTree κ α
| .nil => .nil
| .node lchild _ _ _ => lchild

def rchild : BinTree κ α → BinTree κ α
| .nil => .nil
| .node _ _ _ rchild => rchild

/- A tree with no nodes is the null pointer. -/
def isNil : BinTree κ α → Bool
| .nil => true
| .node _ _ _ _ => false

/- Rewrite the value stored under one key. -/
def modify
    [DecidableEq κ]
    (target : κ)
    (f : α → α) : BinTree κ α → BinTree κ α
| .nil => .nil
| .node lchild key val rchild =>
    .node (lchild.modify target f) key
      (if key = target then f val else val)
      (rchild.modify target f)

/- A search tree has a strictly increasing inorder list. -/
def Ordered
    [LT κ]
    (tree : BinTree κ α) : Prop :=
  KeySorted tree.toList

@[simp] theorem toList_nil :
    (BinTree.nil : BinTree κ α).toList = [] := rfl

@[simp] theorem toList_node
    (l : BinTree κ α)
    (k : κ)
    (v : α)
    (r : BinTree κ α) :
    (BinTree.node l k v r).toList =
      l.toList ++ (k, v) :: r.toList := rfl

theorem isNil_iff :
    tree.isNil = true ↔ tree = .nil := by
  cases tree <;> simp [isNil]

theorem toList_eq_nil_iff :
    tree.toList = [] ↔ tree = .nil := by
  cases tree <;> simp

theorem length_toList
    (tree : BinTree κ α) :
    tree.toList.length = tree.size := by
  induction tree with
  | nil => rfl
  | node l k v r ihL ihR =>
      simp [size, ihL, ihR]
      omega

/- What `modify` does to the inorder list. -/
theorem toList_modify
    [DecidableEq κ]
    (target : κ)
    (f : α → α)
    (tree : BinTree κ α) :
    (tree.modify target f).toList =
      tree.toList.map (fun entry =>
        (entry.1, if entry.1 = target then f entry.2
          else entry.2)) := by
  induction tree with
  | nil => rfl
  | node l k v r ihL ihR =>
      simp [modify, ihL, ihR]

/- Values under two keys are rewritten in either order. -/
theorem modify_comm
    [DecidableEq κ]
    {target other : κ}
    (hNe : target ≠ other)
    (f g : α → α)
    (tree : BinTree κ α) :
    (tree.modify target f).modify other g =
      (tree.modify other g).modify target f := by
  induction tree with
  | nil => rfl
  | node l k v r ihL ihR =>
      simp only [modify]
      rw [ihL, ihR]
      by_cases hk : k = target
      · simp only [hk, hNe, if_true, if_false]
      · simp only [hk, if_false]

end BinTree

------
-- Open Spines
------

/-
  A tree whose largest node has an open right child. Each
  frame holds the closed left child and the label of one
  node of the right spine, from the root down.
-/
abbrev LeftSpine (κ α : Type) := List (BinTree κ α × κ × α)

/-
  A tree whose smallest node has an open left child. Each
  frame holds the label and the closed right child of one
  node of the left spine, from the root down.
-/
abbrev RightSpine (κ α : Type) := List (κ × α × BinTree κ α)

namespace LeftSpine

variable {κ α : Type}
variable {spine : LeftSpine κ α}

/- Store a tree into the open right child. -/
def plug : LeftSpine κ α → BinTree κ α → BinTree κ α
| [], tree => tree
| (lchild, key, val) :: frames, tree =>
    .node lchild key val (plug frames tree)

/- The entries of an open left tree, left to right. -/
def toList : LeftSpine κ α → List (κ × α)
| [] => []
| (lchild, key, val) :: frames =>
    lchild.toList ++ (key, val) :: toList frames

/- The label of the node whose right child is open. -/
def last? (spine : LeftSpine κ α) : Option (κ × α) :=
  spine.getLast?.map (fun frame => frame.2)

/- Rewrite the value stored under one key. -/
def modify
    [DecidableEq κ]
    (target : κ)
    (f : α → α)
    (spine : LeftSpine κ α) : LeftSpine κ α :=
  spine.map (fun frame =>
    (frame.1.modify target f, frame.2.1,
      if frame.2.1 = target then f frame.2.2
      else frame.2.2))

@[simp] theorem toList_nil :
    toList ([] : LeftSpine κ α) = [] := rfl

@[simp] theorem toList_cons
    (l : BinTree κ α)
    (k : κ)
    (v : α)
    (frames : LeftSpine κ α) :
    toList ((l, k, v) :: frames) =
      l.toList ++ (k, v) :: toList frames := rfl

@[simp] theorem toList_snoc
    (spine : LeftSpine κ α)
    (l : BinTree κ α)
    (k : κ)
    (v : α) :
    toList (spine ++ [(l, k, v)]) =
      toList spine ++ l.toList ++ [(k, v)] := by
  induction spine with
  | nil => simp
  | cons frame frames ih =>
      rcases frame with ⟨l', k', v'⟩
      simp [ih]

/- Filling the hole appends the entries of the filler. -/
@[simp] theorem toList_plug
    (spine : LeftSpine κ α)
    (tree : BinTree κ α) :
    (plug spine tree).toList =
      toList spine ++ tree.toList := by
  induction spine with
  | nil => rfl
  | cons frame frames ih =>
      rcases frame with ⟨l, k, v⟩
      simp [plug, ih]

theorem toList_modify
    [DecidableEq κ]
    (target : κ)
    (f : α → α)
    (spine : LeftSpine κ α) :
    toList (modify target f spine) =
      (toList spine).map (fun entry =>
        (entry.1, if entry.1 = target then f entry.2
          else entry.2)) := by
  induction spine with
  | nil => rfl
  | cons frame frames ih =>
      rcases frame with ⟨l, k, v⟩
      have hTail := ih
      simp only [modify] at hTail ⊢
      simp [BinTree.toList_modify, hTail]

theorem modify_comm
    [DecidableEq κ]
    {target other : κ}
    (hNe : target ≠ other)
    (f g : α → α)
    (spine : LeftSpine κ α) :
    modify other g (modify target f spine) =
      modify target f (modify other g spine) := by
  unfold modify
  rw [List.map_map, List.map_map]
  apply List.map_congr_left
  rintro ⟨l, k, v⟩ _
  dsimp only [Function.comp_apply]
  rw [BinTree.modify_comm hNe]
  by_cases hk : k = target
  · simp only [hk, hNe, if_true, if_false]
  · simp only [hk, if_false]

/- The open node carries the largest entry. -/
theorem toList_eq_of_last?
    {entry : κ × α}
    (hLast : last? spine = some entry) :
    ∃ front, toList spine = front ++ [entry] := by
  rcases List.eq_nil_or_concat spine with
    hNil | ⟨frames, frame, hSnoc⟩
  · subst hNil
    simp [last?] at hLast
  · rcases frame with ⟨l, k, v⟩
    rw [hSnoc] at hLast ⊢
    refine ⟨toList frames ++ l.toList, ?_⟩
    simp [last?] at hLast
    subst hLast
    simp

theorem last?_eq_none_iff :
    last? spine = none ↔ spine = [] := by
  simp [last?]

end LeftSpine

namespace RightSpine

variable {κ α : Type}
variable {spine : RightSpine κ α}

/- Store a tree into the open left child. -/
def plug : RightSpine κ α → BinTree κ α → BinTree κ α
| [], tree => tree
| (key, val, rchild) :: frames, tree =>
    .node (plug frames tree) key val rchild

/- The entries of an open right tree, left to right. -/
def toList : RightSpine κ α → List (κ × α)
| [] => []
| (key, val, rchild) :: frames =>
    toList frames ++ (key, val) :: rchild.toList

/- The label of the node whose left child is open. -/
def last? (spine : RightSpine κ α) : Option (κ × α) :=
  spine.getLast?.map (fun frame => (frame.1, frame.2.1))

/- Rewrite the value stored under one key. -/
def modify
    [DecidableEq κ]
    (target : κ)
    (f : α → α)
    (spine : RightSpine κ α) : RightSpine κ α :=
  spine.map (fun frame =>
    (frame.1,
      (if frame.1 = target then f frame.2.1 else frame.2.1),
      frame.2.2.modify target f))

@[simp] theorem toList_nil :
    toList ([] : RightSpine κ α) = [] := rfl

@[simp] theorem toList_cons
    (k : κ)
    (v : α)
    (r : BinTree κ α)
    (frames : RightSpine κ α) :
    toList ((k, v, r) :: frames) =
      toList frames ++ (k, v) :: r.toList := rfl

@[simp] theorem toList_snoc
    (spine : RightSpine κ α)
    (k : κ)
    (v : α)
    (r : BinTree κ α) :
    toList (spine ++ [(k, v, r)]) =
      (k, v) :: r.toList ++ toList spine := by
  induction spine with
  | nil => simp
  | cons frame frames ih =>
      rcases frame with ⟨k', v', r'⟩
      simp [ih]

/- Filling the hole prepends the entries of the filler. -/
@[simp] theorem toList_plug
    (spine : RightSpine κ α)
    (tree : BinTree κ α) :
    (plug spine tree).toList =
      tree.toList ++ toList spine := by
  induction spine with
  | nil => simp [plug]
  | cons frame frames ih =>
      rcases frame with ⟨k, v, r⟩
      simp [plug, ih]

theorem toList_modify
    [DecidableEq κ]
    (target : κ)
    (f : α → α)
    (spine : RightSpine κ α) :
    toList (modify target f spine) =
      (toList spine).map (fun entry =>
        (entry.1, if entry.1 = target then f entry.2
          else entry.2)) := by
  induction spine with
  | nil => rfl
  | cons frame frames ih =>
      rcases frame with ⟨k, v, r⟩
      have hTail := ih
      simp only [modify] at hTail ⊢
      simp [BinTree.toList_modify, hTail]

theorem modify_comm
    [DecidableEq κ]
    {target other : κ}
    (hNe : target ≠ other)
    (f g : α → α)
    (spine : RightSpine κ α) :
    modify other g (modify target f spine) =
      modify target f (modify other g spine) := by
  unfold modify
  rw [List.map_map, List.map_map]
  apply List.map_congr_left
  rintro ⟨k, v, r⟩ _
  dsimp only [Function.comp_apply]
  rw [BinTree.modify_comm hNe]
  by_cases hk : k = target
  · simp only [hk, hNe, if_true, if_false]
  · simp only [hk, if_false]

/- The open node carries the smallest entry. -/
theorem toList_eq_of_last?
    {entry : κ × α}
    (hLast : last? spine = some entry) :
    ∃ back, toList spine = entry :: back := by
  rcases List.eq_nil_or_concat spine with
    hNil | ⟨frames, frame, hSnoc⟩
  · subst hNil
    simp [last?] at hLast
  · rcases frame with ⟨k, v, r⟩
    rw [hSnoc] at hLast ⊢
    refine ⟨r.toList ++ toList frames, ?_⟩
    simp [last?] at hLast
    subst hLast
    simp

theorem last?_eq_none_iff :
    last? spine = none ↔ spine = [] := by
  simp [last?]

end RightSpine

end Lib
