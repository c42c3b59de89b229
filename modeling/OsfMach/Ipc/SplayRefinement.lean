import OsfMach.Ipc.Splay

/-
  The splay tree refines a sorted association list.

  Every operation of `ipc/ipc_splay.c` moves the cut of the
  unassembled tree and then works at the root. The focus
  lemmas say what the cut looks like after a lookup; each
  operation is then one equation between inorder lists.

  Key theorems include:
    * `SplayTree.lookup_spec`
    * `SplayTree.insert_spec`
    * `SplayTree.delete_spec`
    * `SplayTree.split_spec`
    * `SplayTree.join_spec`
    * `SplayTree.bounds_spec`
-/

------
-- The Focus of a Lookup
------

namespace OsfMach

namespace Ipc

open List
open Lib PrimState

variable {α : Type}

/-
  A state focused at a name: sorted entries, spines around
  the name, stopped at the name or next to its place.
-/
structure Focused
    (name : Nat)
    (st : PrimState α) : Prop where
  sorted : KeySorted st.toList
  around : st.Around name
  stopped : Stopped name st.tree

namespace Focused

variable {name : Nat} {st : PrimState α}

/- The root of a focused state is a node. -/
theorem exists_root
    (hFocus : Focused name st) :
    ∃ l k v r, st.tree = .node l k v r := by
  have hStopped := hFocus.stopped
  cases hTree : st.tree with
  | nil =>
      rw [hTree] at hStopped
      exact hStopped.elim
  | node l k v r => exact ⟨l, k, v, r, rfl⟩

variable {l r : BinTree Nat α} {k : Nat} {v : α}

section

variable (hFocus : Focused name st)
include hFocus

theorem ordered
    (hTree : st.tree = .node l k v r) :
    (BinTree.node l k v r).Ordered := by
  rw [← hTree]
  exact tree_sorted hFocus.sorted

/- Left of the root there are only smaller names. -/
theorem left_lt
    (hTree : st.tree = .node l k v r) :
    ∀ entry ∈ st.ltree.toList ++ l.toList,
      entry.1 < name := by
  intro entry hEntry
  rcases mem_append.mp hEntry with h | h
  · exact hFocus.around.left_lt entry h
  · have hLt := lt_of_mem_left (hFocus.ordered hTree) h
    have hStopped := hFocus.stopped
    rw [hTree] at hStopped
    rcases hStopped with hEq | ⟨_, hNil⟩ | ⟨hGt, _⟩
    · rw [hEq]
      exact hLt
    · rw [hNil] at h
      simp at h
    · exact hLt.trans hGt

/- Right of the root there are only larger names. -/
theorem right_gt
    (hTree : st.tree = .node l k v r) :
    ∀ entry ∈ r.toList ++ st.rtree.toList,
      name < entry.1 := by
  intro entry hEntry
  rcases mem_append.mp hEntry with h | h
  · have hGt := lt_of_mem_right (hFocus.ordered hTree) h
    have hStopped := hFocus.stopped
    rw [hTree] at hStopped
    rcases hStopped with hEq | ⟨hLt, _⟩ | ⟨_, hNil⟩
    · rw [hEq]
      exact hGt
    · exact hLt.trans hGt
    · rw [hNil] at h
      simp at h
  · exact hFocus.around.right_gt entry h

end

theorem toList_eq
    (hTree : st.tree = .node l k v r) :
    st.toList =
      (st.ltree.toList ++ l.toList) ++
        (k, v) :: (r.toList ++ st.rtree.toList) := by
  simp [PrimState.toList, hTree]

/- A lookup reads the root and nothing else. -/
theorem lookup_eq
    (hFocus : Focused name st)
    (hTree : st.tree = .node l k v r) :
    st.toList.lookup name =
      if name = k then some v else none := by
  by_cases hEq : name = k
  · subst hEq
    rw [if_pos rfl]
    apply hFocus.sorted.lookup_of_mem
    rw [toList_eq hTree]
    simp
  · rw [if_neg hEq]
    apply lookup_eq_none_of_forall_ne
    intro entry hEntry
    rw [toList_eq hTree] at hEntry
    rcases mem_append.mp hEntry with h | h
    · exact (hFocus.left_lt hTree entry h).ne
    · rcases mem_cons.mp h with h | h
      · rw [h]
        exact fun hk => hEq hk.symm
      · exact (hFocus.right_gt hTree entry h).ne'

section

variable (hFocus : Focused name st)
variable (hTree : st.tree = .node l k v r)
include hFocus hTree

/- A name other than the root's is missing from the tree. -/
theorem ne_of_lookup_eq_none
    (hNone : st.toList.lookup name = none) :
    name ≠ k := by
  intro hEq
  rw [hFocus.lookup_eq hTree, if_pos hEq] at hNone
  simp at hNone

/- Right of the name nothing hangs left of the root. -/
theorem lchild_eq_nil
    (hLt : name < k) :
    l = .nil := by
  have hStopped := hFocus.stopped
  rw [hTree] at hStopped
  rcases hStopped with hEq | ⟨_, hNil⟩ | ⟨hGt, _⟩
  · exact absurd hEq hLt.ne
  · exact hNil
  · exact absurd hGt hLt.le.not_gt

/- Left of the name nothing hangs right of the root. -/
theorem rchild_eq_nil
    (hGt : k < name) :
    r = .nil := by
  have hStopped := hFocus.stopped
  rw [hTree] at hStopped
  rcases hStopped with hEq | ⟨hLt, _⟩ | ⟨_, hNil⟩
  · exact absurd hEq hGt.ne'
  · exact absurd hLt hGt.le.not_gt
  · exact hNil

end

end Focused

------
-- Refinement of Sorted Association Lists
------

namespace SplayTree

variable {splay : SplayTree α}
variable {name : Nat} {st : PrimState α} {k : Nat} {v : α}

theorem toList_of_ne_nil
    (hRoot : splay.istRoot ≠ .nil) :
    splay.toList = splay.state.toList := by
  unfold toList
  rw [if_neg]
  intro hNil
  exact hRoot (BinTree.isNil_iff.mp hNil)

theorem toList_of_nil
    (hRoot : splay.istRoot = .nil) :
    splay.toList = [] := by
  simp [toList, hRoot, BinTree.isNil]

theorem wellFormed_of_nil
    (hRoot : splay.istRoot = .nil) :
    splay.WellFormed := by
  have hList := toList_of_nil hRoot
  refine ⟨?_, ?_, ?_, ?_⟩
  · rw [hList]
    exact KeySorted.nil
  · rw [hList]
    simp
  · exact fun h => absurd hRoot h
  · exact fun h => absurd hRoot h

theorem toList_empty :
    (empty : SplayTree α).toList = [] := rfl

theorem wellFormed_empty :
    (empty : SplayTree α).WellFormed :=
  wellFormed_of_nil rfl

/- A focused state makes a well-formed tree. -/
theorem wellFormed_of_focused
    (hFocus : Focused name st)
    (hLe : ∀ entry ∈ st.toList, entry.1 ≤ machPortLargest) :
    WellFormed ⟨name, st.tree, st.ltree, st.rtree⟩ ∧
      toList ⟨name, st.tree, st.ltree, st.rtree⟩ =
        st.toList := by
  rcases hFocus.exists_root with ⟨l, k, v, r, hTree⟩
  have hNe : st.tree ≠ .nil := by
    rw [hTree]
    simp
  have hList :
      toList ⟨name, st.tree, st.ltree, st.rtree⟩ =
        st.toList :=
    toList_of_ne_nil hNe
  refine ⟨⟨?_, ?_, ?_, ?_⟩, hList⟩
  · rw [hList]
    exact hFocus.sorted
  · rw [hList]
    exact hLe
  · exact fun _ => hFocus.around
  · exact fun _ => hFocus.stopped

/- A search tree under a root makes a well-formed tree. -/
theorem ofRoot_spec
    (tree : BinTree Nat α)
    (hOrd : tree.Ordered)
    (hLe :
      ∀ entry ∈ tree.toList,
        entry.1 ≤ machPortLargest) :
    (ofRoot tree).WellFormed ∧
      (ofRoot tree).toList = tree.toList := by
  cases tree with
  | nil => exact ⟨wellFormed_empty, rfl⟩
  | node l k v r =>
      have hSorted :
          KeySorted (PrimState.toList
            (⟨.node l k v r, [], []⟩ : PrimState α)) := by
        simpa [PrimState.toList, BinTree.Ordered] using hOrd
      have hFocus :
          Focused k (⟨.node l k v r, [], []⟩ :
            PrimState α) :=
        ⟨hSorted, ⟨by simp, by simp⟩, Or.inl rfl⟩
      have hSpec := wellFormed_of_focused hFocus
        (by simpa [PrimState.toList] using hLe)
      simpa [ofRoot, PrimState.toList] using hSpec

/-
  Refocusing keeps the entries and moves the cut to the
  name.
-/
theorem refocus_spec
    (hWF : splay.WellFormed)
    (hRoot : splay.istRoot ≠ .nil)
    (name : Nat) :
    Focused name (splay.refocus name) ∧
      (splay.refocus name).toList = splay.toList := by
  have hList := toList_of_ne_nil hRoot
  have hSorted := hWF.sorted
  unfold refocus
  by_cases hName : splay.istName = name
  · rw [if_pos hName]
    subst hName
    rw [hList] at hSorted
    exact ⟨⟨hSorted, hWF.around hRoot,
      hWF.stopped hRoot⟩, hList.symm⟩
  · rw [if_neg hName]
    have hAsm := toList_primAssemble splay.state hRoot
    have hNe := primAssemble_ne_nil splay.state hRoot
    have hOrd : (primAssemble splay.state).Ordered := by
      unfold BinTree.Ordered
      rw [hAsm, ← hList]
      exact hSorted
    have hSpec := primLookup_spec name hOrd hNe
    have hEq := toList_primLookup name hOrd hNe
    rw [hAsm, ← hList] at hEq
    refine ⟨⟨?_, hSpec.around, hSpec.stopped⟩, hEq⟩
    rw [hEq]
    exact hSorted

/- A tree with entries refocuses onto a root. -/
theorem refocus_root
    (hWF : splay.WellFormed)
    (hRoot : splay.istRoot ≠ .nil)
    (name : Nat) :
    ∃ l k v r, (splay.refocus name).tree = .node l k v r ∧
      Focused name (splay.refocus name) ∧
      (splay.refocus name).toList = splay.toList ∧
      ∀ entry ∈ (splay.refocus name).toList,
        entry.1 ≤ machPortLargest := by
  rcases refocus_spec hWF hRoot name with ⟨hFocus, hList⟩
  rcases hFocus.exists_root with ⟨l, k, v, r, hTree⟩
  refine ⟨l, k, v, r, hTree, hFocus, hList, ?_⟩
  rw [hList]
  exact hWF.le_largest

/- The lookup answers as the list does and changes nothing. -/
theorem lookup_spec
    (hWF : splay.WellFormed)
    (name : Nat) :
    (splay.lookup name).1 = splay.toList.lookup name ∧
      (splay.lookup name).2.toList = splay.toList ∧
      (splay.lookup name).2.WellFormed := by
  cases hRoot : splay.istRoot with
  | nil =>
      simp [lookup, hRoot, toList_of_nil hRoot, hWF]
  | node rl rk rv rr =>
      rcases refocus_root hWF (by simp [hRoot]) name with
        ⟨l, k, v, r, hTree, hFocus, hList, hLe⟩
      rw [← hList]
      have hNew := wellFormed_of_focused hFocus hLe
      simp only [lookup, hRoot]
      refine ⟨?_, hNew.2, hNew.1⟩
      rw [hFocus.lookup_eq hTree, hTree]

/- A root placed between smaller and larger names. -/
private theorem ofRoot_insert
    (small large : List (Nat × α))
    (entry : α)
    (tree : BinTree Nat α)
    (hTree : tree.toList = small ++ (name, entry) :: large)
    (hSorted : KeySorted (small ++ large))
    (hSmall : ∀ a ∈ small, a.1 < name)
    (hLarge : ∀ b ∈ large, name < b.1)
    (hName : name ≤ machPortLargest)
    (hLe : ∀ a ∈ small ++ large, a.1 ≤ machPortLargest) :
    (ofRoot tree).WellFormed ∧
      (ofRoot tree).toList =
        small ++ (name, entry) :: large := by
  rw [← hTree]
  apply ofRoot_spec
  · unfold BinTree.Ordered
    rw [hTree]
    exact hSorted.insert_middle entry hSmall hLarge
  · intro a hA
    rw [hTree] at hA
    rcases mem_append.mp hA with h | h
    · exact hLe a (mem_append_left _ h)
    · rcases mem_cons.mp h with h | h
      · rw [h]
        exact hName
      · exact hLe a (mem_append_right _ h)

/- What an insertion of a missing name does. -/
theorem insert_spec
    (hWF : splay.WellFormed)
    (hName : name ≤ machPortLargest)
    (hNone : splay.toList.lookup name = none)
    (entry : α) :
    (splay.insert name entry).WellFormed ∧
      ∃ small large,
        splay.toList = small ++ large ∧
          (splay.insert name entry).toList =
            small ++ (name, entry) :: large := by
  cases hRoot : splay.istRoot with
  | nil =>
      have hSpec := ofRoot_spec
        (BinTree.node .nil name entry .nil)
        (by simp [BinTree.Ordered, KeySorted])
        (by simpa using hName)
      simp only [insert, hRoot]
      refine ⟨hSpec.1, [], [], ?_, hSpec.2⟩
      simp [toList_of_nil hRoot]
  | node rl rk rv rr =>
      rcases refocus_root hWF (by simp [hRoot]) name with
        ⟨l, k, v, r, hTree, hFocus, hList, hLe⟩
      rw [← hList] at hNone ⊢
      have hKey := hFocus.ne_of_lookup_eq_none hTree hNone
      have hSplit := Focused.toList_eq hTree
      have hLeft := hFocus.left_lt hTree
      have hRight := hFocus.right_gt hTree
      have hSorted := hFocus.sorted
      rw [hSplit] at hSorted hLe
      simp only [insert, hRoot, hTree]
      by_cases hLt : name < k
      · -- the root stays on the right
        rw [if_pos hLt]
        have hNil := hFocus.lchild_eq_nil hTree hLt
        have hSpec := ofRoot_insert
          ((splay.refocus name).ltree.toList ++ l.toList)
          ((k, v) :: (r.toList ++
            (splay.refocus name).rtree.toList))
          entry
          (.node ((splay.refocus name).ltree.plug .nil)
            name entry
            ((splay.refocus name).rtree.plug
              (.node l k v r)))
          (by simp [hNil]) hSorted hLeft
          (by
            intro b hB
            rcases mem_cons.mp hB with h | h
            · rw [h]
              exact hLt
            · exact hRight b h)
          hName hLe
        exact ⟨hSpec.1, _, _, hSplit, hSpec.2⟩
      · -- the root goes to the left
        rw [if_neg hLt]
        have hGt : k < name :=
          lt_of_le_of_ne (not_lt.mp hLt) hKey.symm
        have hNil := hFocus.rchild_eq_nil hTree hGt
        have hSplit' :
            (splay.refocus name).toList =
              ((splay.refocus name).ltree.toList ++
                l.toList ++ [(k, v)]) ++
              (r.toList ++
                (splay.refocus name).rtree.toList) := by
          simp [hSplit]
        have hSpec := ofRoot_insert
          ((splay.refocus name).ltree.toList ++
            l.toList ++ [(k, v)])
          (r.toList ++ (splay.refocus name).rtree.toList)
          entry
          (.node ((splay.refocus name).ltree.plug
            (.node l k v r)) name entry
            ((splay.refocus name).rtree.plug .nil))
          (by simp [hNil])
          (by
            rw [← hSplit']
            exact hFocus.sorted)
          (by
            intro b hB
            rcases mem_append.mp hB with h | h
            · exact hLeft b h
            · rw [mem_singleton.mp h]
              exact hGt)
          hRight hName
          (by
            rw [← hSplit', hSplit]
            exact hLe)
        exact ⟨hSpec.1, _, _, hSplit', hSpec.2⟩

/- Joining a left and a right tree keeps the entries. -/
theorem toList_deleteJoin
    (left saved : BinTree Nat α)
    (hOrd : left.Ordered)
    (hLe :
      ∀ entry ∈ left.toList,
        entry.1 ≤ machPortLargest) :
    (deleteJoin left saved).toList =
      left.toList ++ saved.toList := by
  unfold deleteJoin
  by_cases hLeft : left.isNil = true
  · rw [if_pos hLeft, BinTree.isNil_iff.mp hLeft]
    simp
  · rw [if_neg hLeft]
    have hNe : left ≠ .nil := fun h =>
      hLeft (BinTree.isNil_iff.mpr h)
    by_cases hSaved : saved.isNil = true
    · rw [if_pos hSaved, BinTree.isNil_iff.mp hSaved]
      simp
    · rw [if_neg hSaved]
      have hSpec := primLookup_spec machPortLargest hOrd hNe
      have hList := toList_primLookup machPortLargest hOrd hNe
      have hFocus :
          Focused machPortLargest
            (primLookup machPortLargest left) := by
        refine ⟨?_, hSpec.around, hSpec.stopped⟩
        rw [hList]
        exact hOrd
      rcases hFocus.exists_root with ⟨l, k, v, r, hTree⟩
      -- no name is larger than the largest one
      have hEmpty :
          r.toList ++
            (primLookup machPortLargest left).rtree.toList =
              [] := by
        rw [eq_nil_iff_forall_not_mem]
        intro entry hEntry
        have hGt := hFocus.right_gt hTree entry hEntry
        have hMem : entry ∈ left.toList := by
          rw [← hList, Focused.toList_eq hTree]
          exact mem_append_right _
            (mem_cons_of_mem _ hEntry)
        exact absurd hGt (hLe entry hMem).not_gt
      rw [← hList, Focused.toList_eq hTree, hEmpty]
      simp [primAssemble, hTree]

/- The saved tree is hung right of the new root. -/
theorem deleteJoin_rchild
    {left saved l r : BinTree Nat α}
    (hLeft : left ≠ .nil)
    (hSaved : saved ≠ .nil)
    (hJoin : deleteJoin left saved = .node l k v r) :
    r = saved := by
  have hLeft' : ¬ left.isNil = true := fun h =>
    hLeft (BinTree.isNil_iff.mp h)
  have hSaved' : ¬ saved.isNil = true := fun h =>
    hSaved (BinTree.isNil_iff.mp h)
  unfold deleteJoin at hJoin
  rw [if_neg hLeft', if_neg hSaved'] at hJoin
  split at hJoin
  · simp at hJoin
  · simp only [BinTree.node.injEq] at hJoin
    exact hJoin.2.2.2.symm

section

variable (hWF : splay.WellFormed)
include hWF

/- What a deletion of a present name does. -/
theorem delete_spec
    {entry : α}
    (hSome : splay.toList.lookup name = some entry) :
    (splay.delete name).WellFormed ∧
      ∃ small large,
        splay.toList = small ++ (name, entry) :: large ∧
          (splay.delete name).toList = small ++ large := by
  have hNe : splay.istRoot ≠ .nil := by
    intro hNil
    rw [toList_of_nil hNil] at hSome
    simp at hSome
  rcases refocus_root hWF hNe name with
    ⟨l, k, v, r, hTree, hFocus, hList, hLe⟩
  rw [← hList] at hSome ⊢
  rw [hFocus.lookup_eq hTree] at hSome
  have hKey : name = k := by
    by_contra hCon
    rw [if_neg hCon] at hSome
    simp at hSome
  rw [if_pos hKey, Option.some.injEq] at hSome
  subst hKey
  subst hSome
  have hSplit := Focused.toList_eq hTree
  have hSorted := hFocus.sorted
  rw [hSplit] at hSorted hLe
  have hOut := hSorted.remove_middle
  have hLeftOrd := (KeySorted.append_iff.mp hOut).1
  have hJoin := toList_deleteJoin
    ((splay.refocus name).ltree.plug l)
    ((splay.refocus name).rtree.plug r)
    (by simpa [BinTree.Ordered] using hLeftOrd)
    (by
      intro a hA
      apply hLe a
      apply mem_append_left
      simpa using hA)
  have hJoin' :
      (deleteJoin ((splay.refocus name).ltree.plug l)
        ((splay.refocus name).rtree.plug r)).toList =
        ((splay.refocus name).ltree.toList ++ l.toList) ++
          (r.toList ++
            (splay.refocus name).rtree.toList) := by
    rw [hJoin]
    simp
  have hSpec := ofRoot_spec
    (deleteJoin ((splay.refocus name).ltree.plug l)
      ((splay.refocus name).rtree.plug r))
    (by
      unfold BinTree.Ordered
      rw [hJoin']
      exact hOut)
    (by
      intro a hA
      rw [hJoin'] at hA
      apply hLe a
      rcases mem_append.mp hA with h | h
      · exact mem_append_left _ h
      · exact mem_append_right _
          (mem_cons_of_mem _ h))
  simp only [delete, hTree, BinTree.lchild, BinTree.rchild]
  exact ⟨hSpec.1, _, _, hSplit, hSpec.2.trans hJoin'⟩

/- What a split does. -/
theorem split_spec
    (name : Nat) :
    (splay.split name).1.WellFormed ∧
      (splay.split name).2.WellFormed ∧
      splay.toList =
        (splay.split name).2.toList ++
          (splay.split name).1.toList ∧
      (∀ a ∈ (splay.split name).2.toList, a.1 < name) ∧
      (∀ a ∈ (splay.split name).1.toList, name ≤ a.1) := by
  cases hRoot : splay.istRoot with
  | nil =>
      simp [split, hRoot, hWF, wellFormed_empty,
        toList_of_nil hRoot, toList_empty]
  | node rl rk rv rr =>
      rcases refocus_root hWF (by simp [hRoot]) name with
        ⟨l, k, v, r, hTree, hFocus, hList, hLe⟩
      have hSplit := Focused.toList_eq hTree
      have hLeft := hFocus.left_lt hTree
      have hRight := hFocus.right_gt hTree
      have hSorted := hFocus.sorted
      rw [hSplit] at hSorted hLe
      rw [← hList]
      simp only [split, hRoot, hTree]
      by_cases hLt : k < name
      · -- the root goes into the small tree
        rw [if_pos hLt]
        have hNil := hFocus.rchild_eq_nil hTree hLt
        subst hNil
        have hParts := KeySorted.append_iff.mp hSorted
        have hLarge := ofRoot_spec
          ((splay.refocus name).rtree.plug .nil)
          (by simpa [BinTree.Ordered] using
            (KeySorted.cons_iff.mp hParts.2.1).2)
          (by
            intro a hA
            apply hLe a
            apply mem_append_right
            apply mem_cons_of_mem
            simpa using hA)
        have hSmall := ofRoot_spec
          (.node ((splay.refocus name).ltree.plug l) k v
            .nil)
          (by
            have hFront :
                KeySorted
                  (((splay.refocus name).ltree.toList ++
                    l.toList ++ [(k, v)]) ++
                    (splay.refocus name).rtree.toList) := by
              simpa using hSorted
            simpa [BinTree.Ordered] using
              (KeySorted.append_iff.mp hFront).1)
          (by
            intro a hA
            apply hLe a
            simp only [BinTree.toList_node,
              LeftSpine.toList_plug, BinTree.toList_nil,
              mem_append, mem_singleton] at hA
            simp only [mem_append, mem_cons]
            tauto)
        refine ⟨hLarge.1, hSmall.1, ?_, ?_, ?_⟩
        · rw [hLarge.2, hSmall.2, hSplit]
          simp
        · intro a hA
          rw [hSmall.2] at hA
          simp only [BinTree.toList_node, LeftSpine.toList_plug,
            BinTree.toList_nil, mem_append, mem_singleton] at hA
          rcases hA with h | h
          · exact hLeft a (mem_append.mpr h)
          · rw [h]
            exact hLt
        · intro a hA
          rw [hLarge.2] at hA
          exact (hRight a (by simpa using hA)).le
      · -- the root stays
        rw [if_neg hLt]
        have hGe := not_lt.mp hLt
        have hParts := KeySorted.append_iff.mp hSorted
        have hSmall := ofRoot_spec
          ((splay.refocus name).ltree.plug l)
          (by simpa [BinTree.Ordered] using hParts.1)
          (by
            intro a hA
            apply hLe a
            apply mem_append_left
            simpa using hA)
        have hFocus' :
            Focused name
              (⟨.node .nil k v r, [],
                (splay.refocus name).rtree⟩ :
                PrimState α) := by
          refine ⟨?_, ⟨by simp, hFocus.around.right_gt⟩, ?_⟩
          · simpa [PrimState.toList] using hParts.2.1
          · rcases hGe.lt_or_eq with h | h
            · exact Or.inr (Or.inl ⟨h, rfl⟩)
            · exact Or.inl h
        have hLarge := wellFormed_of_focused hFocus'
          (by
            intro a hA
            apply hLe a
            apply mem_append_right
            simpa [PrimState.toList] using hA)
        refine ⟨hLarge.1, hSmall.1, ?_, ?_, ?_⟩
        · rw [hLarge.2, hSmall.2, hSplit]
          simp [PrimState.toList]
        · intro a hA
          rw [hSmall.2] at hA
          exact hLeft a (by simpa using hA)
        · intro a hA
          rw [hLarge.2] at hA
          simp only [PrimState.toList, LeftSpine.toList_nil,
            BinTree.toList_node, BinTree.toList_nil, nil_append,
            cons_append, mem_cons] at hA
          rcases hA with h | h
          · rw [h]
            exact hGe
          · exact (hRight a h).le

/- What a join with smaller names does. -/
theorem join_spec
    {small : SplayTree α}
    (hSmall : small.WellFormed)
    (hLt :
      ∀ a ∈ small.toList, ∀ b ∈ splay.toList, a.1 < b.1) :
    (splay.join small).WellFormed ∧
      (splay.join small).toList =
        small.toList ++ splay.toList := by
  cases hSRoot : small.istRoot with
  | nil =>
      simp [join, hSRoot, toList_of_nil hSRoot, hWF]
  | node sl sk sv sr =>
      have hSNe : small.istRoot ≠ .nil := by
        rw [hSRoot]
        simp
      have hSList := toList_of_ne_nil hSNe
      have hAsm := toList_primAssemble small.state hSNe
      rw [← hSList] at hAsm
      have hAsmOrd : (primAssemble small.state).Ordered := by
        unfold BinTree.Ordered
        rw [hAsm]
        exact hSmall.sorted
      cases hRoot : splay.istRoot with
      | nil =>
          have hSpec := ofRoot_spec
            (primAssemble small.state) hAsmOrd
            (by
              rw [hAsm]
              exact hSmall.le_largest)
          simp only [join, hSRoot, hRoot]
          rw [toList_of_nil hRoot, append_nil, ← hAsm]
          exact hSpec
      | node rl rk rv rr =>
          rcases refocus_root hWF (by simp [hRoot])
            machPortSmallest with
            ⟨l, k, v, r, hTree, hFocus, hList, -⟩
          have hSplit := Focused.toList_eq hTree
          -- no name is smaller than the smallest one
          have hNil :
              (splay.refocus machPortSmallest).ltree.toList ++
                l.toList = [] := by
            rw [eq_nil_iff_forall_not_mem]
            intro a hA
            exact absurd (hFocus.left_lt hTree a hA)
              (Nat.not_lt_zero _)
          rw [hNil, nil_append] at hSplit
          have hMiddle :
              splay.toList =
                (k, v) :: (r.toList ++
                  (splay.refocus
                    machPortSmallest).rtree.toList) := by
            rw [← hList, hSplit]
          have hTree' :
              (BinTree.node (primAssemble small.state) k v
                ((splay.refocus
                  machPortSmallest).rtree.plug r)).toList =
                small.toList ++ splay.toList := by
            rw [hMiddle]
            simp [hAsm]
          have hSpec := ofRoot_spec
            (.node (primAssemble small.state) k v
              ((splay.refocus
                machPortSmallest).rtree.plug r))
            (by
              unfold BinTree.Ordered
              rw [hTree', KeySorted.append_iff]
              exact ⟨hSmall.sorted, hWF.sorted, hLt⟩)
            (by
              rw [hTree']
              intro a hA
              rcases mem_append.mp hA with h | h
              · exact hSmall.le_largest a h
              · exact hWF.le_largest a h)
          rw [hTree'] at hSpec
          simpa [join, hSRoot, hRoot, primAssemble,
            hTree] using hSpec

/- Storing through an entry pointer. -/
theorem modify_spec
    (name : Nat)
    (f : α → α) :
    (splay.modify name f).WellFormed ∧
      (splay.modify name f).toList =
        splay.toList.map (fun entry =>
          (entry.1, if entry.1 = name then f entry.2
            else entry.2)) := by
  have hRootIff :
      (splay.modify name f).istRoot = .nil ↔
        splay.istRoot = .nil := by
    cases hRoot : splay.istRoot <;>
      simp [modify, hRoot, BinTree.modify]
  by_cases hRoot : splay.istRoot = .nil
  · have hRoot' := hRootIff.mpr hRoot
    refine ⟨wellFormed_of_nil hRoot', ?_⟩
    rw [toList_of_nil hRoot', toList_of_nil hRoot]
    rfl
  · have hRoot' : (splay.modify name f).istRoot ≠ .nil :=
      fun h => hRoot (hRootIff.mp h)
    have hMap :
        (splay.modify name f).toList =
          splay.toList.map (fun entry =>
            (entry.1, if entry.1 = name then f entry.2
              else entry.2)) := by
      rw [toList_of_ne_nil hRoot', toList_of_ne_nil hRoot]
      simp [modify, state, PrimState.toList,
        BinTree.toList_modify, LeftSpine.toList_modify,
        RightSpine.toList_modify]
    refine ⟨⟨?_, ?_, ?_, ?_⟩, hMap⟩
    · rw [hMap]
      exact hWF.sorted.map_val _
    · rw [hMap]
      intro a hA
      rcases mem_map.mp hA with ⟨b, hB, hEq⟩
      rw [← hEq]
      exact hWF.le_largest b hB
    · intro _
      have hAround := hWF.around hRoot
      refine ⟨?_, ?_⟩
      · intro a hA
        simp only [modify, state, LeftSpine.toList_modify] at hA
        rcases mem_map.mp hA with ⟨b, hB, hEq⟩
        rw [← hEq]
        exact hAround.left_lt b hB
      · intro a hA
        simp only [modify, state,
          RightSpine.toList_modify] at hA
        rcases mem_map.mp hA with ⟨b, hB, hEq⟩
        rw [← hEq]
        exact hAround.right_gt b hB
    · intro _
      have hStopped := hWF.stopped hRoot
      cases hCase : splay.istRoot with
      | nil => exact absurd hCase hRoot
      | node l k v r =>
          rw [hCase] at hStopped
          simp only [modify, hCase, BinTree.modify]
          rcases hStopped with h | ⟨h, hl⟩ | ⟨h, hr⟩
          · exact Or.inl h
          · exact Or.inr (Or.inl ⟨h, by simp [hl,
              BinTree.modify]⟩)
          · exact Or.inr (Or.inr ⟨h, by simp [hr,
              BinTree.modify]⟩)

end

/- Two names are stored to in either order. -/
theorem modify_comm
    {name other : Nat}
    (hNe : name ≠ other)
    (f g : α → α) :
    (splay.modify name f).modify other g =
      (splay.modify other g).modify name f := by
  unfold modify
  rw [BinTree.modify_comm hNe, LeftSpine.modify_comm hNe,
    RightSpine.modify_comm hNe]

/- A picked entry is in the tree. -/
theorem mem_of_pick_eq_some
    {entry : Nat × α}
    (hPick : splay.pick = some entry) :
    entry ∈ splay.toList := by
  unfold pick at hPick
  cases hRoot : splay.istRoot with
  | nil =>
      rw [hRoot] at hPick
      simp at hPick
  | node l k v r =>
      rw [hRoot] at hPick
      have hNe : splay.istRoot ≠ .nil := by
        rw [hRoot]
        simp
      rw [toList_of_ne_nil hNe,
        @Focused.toList_eq _ splay.state _ _ _ _ hRoot]
      simp only [Option.some.injEq] at hPick
      rw [← hPick]
      simp

/- Only an empty tree has nothing to pick. -/
theorem pick_eq_none_iff :
    splay.pick = none ↔ splay.toList = [] := by
  unfold pick
  cases hRoot : splay.istRoot with
  | nil => simp [toList_of_nil hRoot]
  | node l k v r =>
      have hNe : splay.istRoot ≠ .nil := by
        rw [hRoot]
        simp
      rw [toList_of_ne_nil hNe,
        @Focused.toList_eq _ splay.state _ _ _ _ hRoot]
      simp

/-
  The largest name of `entries` not above `name`, or the
  largest name of all when there is none.
-/
def IsLower
    (entries : List (Nat × α))
    (name lower : Nat) : Prop :=
  (lower = machPortLargest ∧ ∀ a ∈ entries, name < a.1) ∨
    ((∃ v, (lower, v) ∈ entries) ∧ lower ≤ name ∧
      ∀ a ∈ entries, a.1 ≤ name → a.1 ≤ lower)

/-
  The smallest name of `entries` not below `name`, or the
  smallest name of all when there is none.
-/
def IsUpper
    (entries : List (Nat × α))
    (name upper : Nat) : Prop :=
  (upper = machPortSmallest ∧ ∀ a ∈ entries, a.1 < name) ∨
    ((∃ v, (upper, v) ∈ entries) ∧ name ≤ upper ∧
      ∀ a ∈ entries, name ≤ a.1 → upper ≤ a.1)

/- The lower neighbour read off a focused state. -/
private theorem isLower_of_focused
    {l r : BinTree Nat α}
    (hFocus : Focused name st)
    (hTree : st.tree = .node l k v r) :
    IsLower st.toList name
      (if k ≤ name then k
        else
          match st.ltree.last? with
          | none => machPortLargest
          | some entry => entry.1) := by
  have hSplit := Focused.toList_eq hTree
  have hRight := hFocus.right_gt hTree
  have hSorted := hFocus.sorted
  rw [hSplit] at hSorted ⊢
  have hParts := KeySorted.append_iff.mp hSorted
  by_cases hLe : k ≤ name
  · rw [if_pos hLe]
    refine Or.inr ⟨⟨v, by simp⟩, hLe, ?_⟩
    intro a hA hAName
    rcases mem_append.mp hA with h | h
    · exact (hParts.2.2 a h (k, v)
        (mem_cons_self ..)).le
    · rcases mem_cons.mp h with h | h
      · rw [h]
      · exact absurd (hRight a h) hAName.not_gt
  · rw [if_neg hLe]
    have hLt := not_le.mp hLe
    have hNil := hFocus.lchild_eq_nil hTree hLt
    -- what is right of the hole is above the name
    have hAbove :
        ∀ a ∈ (k, v) :: (r.toList ++ st.rtree.toList),
          name < a.1 := by
      intro a hA
      rcases mem_cons.mp hA with h | h
      · rw [h]
        exact hLt
      · exact hRight a h
    subst hNil
    cases hLast : st.ltree.last? with
    | none =>
        have hEmpty := LeftSpine.last?_eq_none_iff.mp hLast
        refine Or.inl ⟨rfl, ?_⟩
        intro a hA
        rw [hEmpty] at hA
        exact hAbove a (by simpa using hA)
    | some entry =>
        rcases LeftSpine.toList_eq_of_last? hLast with
          ⟨front, hFront⟩
        have hLeft := hFocus.left_lt hTree
        rw [hFront] at hLeft hParts ⊢
        have hOrd := hParts.1
        rw [BinTree.toList_nil, append_nil] at hOrd
        refine Or.inr ⟨⟨entry.2, by simp⟩, ?_, ?_⟩
        · exact (hLeft entry (by simp)).le
        · intro a hA hAName
          rcases mem_append.mp hA with h | h
          · rw [BinTree.toList_nil, append_nil] at h
            rcases mem_append.mp h with h | h
            · exact ((KeySorted.append_iff.mp hOrd).2.2
                a h entry (mem_singleton.mpr rfl)).le
            · rw [mem_singleton.mp h]
          · exact absurd (hAbove a h) hAName.not_gt

/- The upper neighbour read off a focused state. -/
private theorem isUpper_of_focused
    {l r : BinTree Nat α}
    (hFocus : Focused name st)
    (hTree : st.tree = .node l k v r) :
    IsUpper st.toList name
      (if name ≤ k then k
        else
          match st.rtree.last? with
          | none => machPortSmallest
          | some entry => entry.1) := by
  have hSplit := Focused.toList_eq hTree
  have hLeft := hFocus.left_lt hTree
  have hSorted := hFocus.sorted
  rw [hSplit] at hSorted ⊢
  have hParts := KeySorted.append_iff.mp hSorted
  by_cases hLe : name ≤ k
  · rw [if_pos hLe]
    refine Or.inr ⟨⟨v, by simp⟩, hLe, ?_⟩
    intro a hA hAName
    rcases mem_append.mp hA with h | h
    · exact absurd (hLeft a h) hAName.not_gt
    · rcases mem_cons.mp h with h | h
      · rw [h]
      · exact ((KeySorted.cons_iff.mp hParts.2.1).1 a h).le
  · rw [if_neg hLe]
    have hGt := not_le.mp hLe
    have hNil := hFocus.rchild_eq_nil hTree hGt
    have hBelow :
        ∀ a ∈ st.ltree.toList ++ l.toList, a.1 < name :=
      hLeft
    subst hNil
    cases hLast : st.rtree.last? with
    | none =>
        have hEmpty := RightSpine.last?_eq_none_iff.mp hLast
        refine Or.inl ⟨rfl, ?_⟩
        intro a hA
        rw [hEmpty] at hA
        rcases mem_append.mp hA with h | h
        · exact hBelow a h
        · rcases mem_cons.mp h with h | h
          · rw [h]
            exact hGt
          · simp at h
    | some entry =>
        rcases RightSpine.toList_eq_of_last? hLast with
          ⟨back, hBack⟩
        have hRight := hFocus.right_gt hTree
        rw [hBack] at hRight hParts ⊢
        have hOrd := (KeySorted.cons_iff.mp hParts.2.1).2
        refine Or.inr ⟨⟨entry.2, by simp⟩, ?_, ?_⟩
        · exact (hRight entry (by simp)).le
        · intro a hA hAName
          rcases mem_append.mp hA with h | h
          · exact absurd (hBelow a h) hAName.not_gt
          · rcases mem_cons.mp h with h | h
            · rw [h] at hAName
              exact absurd hGt hAName.not_gt
            · rcases mem_cons.mp h with h | h
              · rw [h]
              · exact ((KeySorted.cons_iff.mp hOrd).1
                  a h).le

/- The neighbours of a name, and nothing else changes. -/
theorem bounds_spec
    (hWF : splay.WellFormed)
    (name : Nat) :
    IsLower splay.toList name (splay.bounds name).1 ∧
      IsUpper splay.toList name (splay.bounds name).2.1 ∧
      (splay.bounds name).2.2.toList = splay.toList ∧
      (splay.bounds name).2.2.WellFormed := by
  cases hRoot : splay.istRoot with
  | nil =>
      simp [bounds, hRoot, toList_of_nil hRoot, hWF,
        IsLower, IsUpper]
  | node rl rk rv rr =>
      rcases refocus_root hWF (by simp [hRoot]) name with
        ⟨l, k, v, r, hTree, hFocus, hList, hLe⟩
      rw [← hList]
      have hNew := wellFormed_of_focused hFocus hLe
      rw [hTree] at hNew
      simp only [bounds, hRoot, hTree]
      exact ⟨isLower_of_focused hFocus hTree,
        isUpper_of_focused hFocus hTree, hNew.2, hNew.1⟩

end SplayTree

end Ipc

end OsfMach
