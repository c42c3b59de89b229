import OsfMach.Ipc.SplayOps

/-
  Runs of the splay tree operations refine finite maps.

  A store holds the node heap and a family of splay
  structures. Nodes outside the trees belong to the callers,
  who may write to them at any time; a node is handed over
  by an insert and handed back by a delete.

  Main declarations:
    * `SplayStore`, `SplayOp`, `SplayStore.exec`
    * `SplayMaps`, `SplayMaps.Legal`, `SplayMaps.exec`
    * `RepMaps`
    * `RepMaps.exec_sim`
    * `splayStore_refines_maps`
-/

------
-- Runs over a Store
------

namespace OsfMach

namespace Ipc

open Function
open List
open Lib

/- Node memory and a family of splay structures. -/
structure SplayStore where
  heap : NodeHeap Nat
  splays : Nat → SplayRegs

/-
  The calls of a client, and a client's stores into a node
  that is in no tree.
-/
inductive SplayOp where
| lookup (tree : Nat) (name : Nat)
| insert (tree : Nat) (name : Nat) (entry : Nat)
| delete (tree : Nat) (name : Nat)
| split (tree : Nat) (name : Nat) (small : Nat)
| join (tree small : Nat)
| write (entry : Nat) (node : Node Nat)
deriving DecidableEq, Repr

namespace SplayStore

/- Raw structures after `ipc_splay_tree_init`. -/
def init
    (heap : NodeHeap Nat)
    (raw : Nat → SplayRegs) : SplayStore :=
  ⟨heap, fun i => (raw i).init⟩

/-
  One call. The result of a lookup is listed, with the null
  pointer as `none`; the other calls return nothing.
-/
def exec
    (fuel : Nat)
    (store : SplayStore) :
    SplayOp → Option (SplayStore × List (Option Nat))
| .lookup i name => do
    let (p, heap, splay) ←
      (store.splays i).lookup fuel store.heap name
    some (⟨heap, update store.splays i splay⟩,
      [if p = 0 then none else some p])
| .insert i name entry => do
    let (heap, splay) ←
      (store.splays i).insert fuel store.heap name entry
    some (⟨heap, update store.splays i splay⟩, [])
| .delete i name => do
    let (heap, splay) ←
      (store.splays i).delete fuel store.heap name
    some (⟨heap, update store.splays i splay⟩, [])
| .split i name j => do
    let (heap, splay, small) ←
      (store.splays i).split fuel store.heap name
        (store.splays j)
    some (⟨heap, update
      (update store.splays i splay) j small⟩, [])
| .join i j => do
    let (heap, splay, small) ←
      (store.splays i).join fuel store.heap (store.splays j)
    some (⟨heap, update
      (update store.splays i splay) j small⟩, [])
| .write entry node =>
    some ({ store with
      heap := update store.heap entry node }, [])

/- A sequence of calls, with all lookup results in order. -/
def run
    (fuel : Nat) :
    SplayStore → List SplayOp →
      Option (SplayStore × List (Option Nat))
| store, [] => some (store, [])
| store, op :: ops => do
    let (store, out) ← store.exec fuel op
    let (store, outs) ← run fuel store ops
    some (store, out ++ outs)

end SplayStore

/- What the structures stand for: finite maps to nodes. -/
abbrev SplayMaps := Nat → Nat → Option Nat

namespace SplayMaps

def empty : SplayMaps := fun _ _ => none

/- The map operations that the calls stand for. -/
def exec
    (maps : SplayMaps) :
    SplayOp → SplayMaps × List (Option Nat)
| .lookup i name => (maps, [maps i name])
| .insert i name entry =>
    (update maps i (update (maps i) name (some entry)), [])
| .delete i name =>
    (update maps i (update (maps i) name none), [])
| .split i name j =>
    (update
      (update maps i
        (fun n => if name ≤ n then maps i n else none)) j
        (fun n => if n < name then maps i n else none), [])
| .join i j =>
    (update
      (update maps i
        (fun n => (maps j n).or (maps i n))) j
        (fun _ => none), [])
| .write _ _ => (maps, [])

/-
  What the callers guarantee: an inserted name is absent and
  its node is new, a deleted name is present, a tree is
  joined only with a tree of smaller names, and only free
  nodes are written to.
-/
def Legal (maps : SplayMaps) : SplayOp → Prop
| .lookup _ _ => True
| .insert i name entry =>
    name ≤ machPortLargest ∧ maps i name = none ∧
      entry ≠ 0 ∧ ∀ j n, maps j n ≠ some entry
| .delete i name => maps i name ≠ none
| .split i _ j => i ≠ j
| .join i j =>
    i ≠ j ∧ ∀ m n, maps j m ≠ none → maps i n ≠ none → m < n
| .write entry _ => ∀ j n, maps j n ≠ some entry

def run :
    SplayMaps → List SplayOp → SplayMaps × List (Option Nat)
| maps, [] => (maps, [])
| maps, op :: ops =>
    let rest := run (maps.exec op).1 ops
    (rest.1, (maps.exec op).2 ++ rest.2)

def LegalRun : SplayMaps → List SplayOp → Prop
| _, [] => True
| maps, op :: ops =>
    maps.Legal op ∧ LegalRun (maps.exec op).1 ops

end SplayMaps

/- The nodes a call hands over. -/
def SplayOp.nodes : SplayOp → List Nat
| .insert _ _ entry => [entry]
| _ => []

/-
  The store holds well-formed trees in disjoint nodes, taken
  from a list of nodes in use, and the trees hold the maps.
-/
structure RepMaps
    (used : List Nat)
    (store : SplayStore)
    (trees : Nat → SplayTree Nat)
    (maps : SplayMaps) : Prop where
  rep : ∀ i, RepSplay store.heap (store.splays i) (trees i)
  wf : ∀ i, (trees i).WellFormed
  lookup :
    ∀ i name, (trees i).toList.lookup name = maps i name
  disjoint :
    ∀ i j, i ≠ j → ∀ a ∈ (trees i).addrs,
      a ∉ (trees j).addrs
  sub : ∀ i, ∀ a ∈ (trees i).addrs, a ∈ used

namespace RepMaps

variable {used : List Nat} {store : SplayStore}
variable {trees : Nat → SplayTree Nat} {maps : SplayMaps}
variable {entry fuel : Nat}
variable {i name j : Nat}

section

variable (hRep : RepMaps used store trees maps)
include hRep

/- The nodes in use bound the turns of every loop. -/
theorem length_le
    (i : Nat) :
    (trees i).toList.length ≤ used.length := by
  have hLen : (trees i).toList.length =
      (trees i).addrs.length := by
    simp [SplayTree.addrs]
  rw [hLen]
  have hSub : (trees i).addrs ⊆ used := hRep.sub i
  exact (subperm_of_subset (hRep.rep i).nodup hSub).length_le

/- A node of a tree is the value of some name. -/
theorem exists_name
    {i a : Nat}
    (ha : a ∈ (trees i).addrs) :
    ∃ name, maps i name = some a := by
  rcases mem_map.mp ha with ⟨⟨name, b⟩, hMem, hEq⟩
  refine ⟨name, ?_⟩
  rw [← hRep.lookup]
  rw [← hEq]
  exact (hRep.wf i).sorted.lookup_of_mem hMem

/- A new node is in no tree. -/
theorem not_mem_addrs
    (hNew : ∀ j n, maps j n ≠ some entry)
    (i : Nat) :
    entry ∉ (trees i).addrs := by
  intro hMem
  rcases hRep.exists_name hMem with ⟨name, hName⟩
  exact hNew i name hName

/-
  A call that works on the trees `i` and `j` and on some new
  nodes leaves the other trees alone.
-/
private theorem change
    {i j : Nat}
    {nodes : List Nat}
    {store' : SplayStore}
    {trees' : Nat → SplayTree Nat}
    {maps' : SplayMaps}
    (hNodes : ∀ a ∈ nodes, ∀ k, a ∉ (trees k).addrs)
    (hFrame : SameOutside
      (nodes ++ ((trees i).addrs ++ (trees j).addrs))
      store.heap store'.heap)
    (hOther : ∀ k, k ≠ i → k ≠ j →
      store'.splays k = store.splays k ∧
        trees' k = trees k ∧ maps' k = maps k)
    (hI : RepSplay store'.heap (store'.splays i) (trees' i) ∧
      (trees' i).WellFormed ∧
      ∀ n, (trees' i).toList.lookup n = maps' i n)
    (hJ : RepSplay store'.heap (store'.splays j) (trees' j) ∧
      (trees' j).WellFormed ∧
      ∀ n, (trees' j).toList.lookup n = maps' j n)
    (hDisj : i ≠ j →
      ∀ a ∈ (trees' i).addrs, a ∉ (trees' j).addrs)
    (hSub : ∀ k, k = i ∨ k = j → ∀ a ∈ (trees' k).addrs,
      a ∈ nodes ++ ((trees i).addrs ++ (trees j).addrs)) :
    RepMaps (nodes ++ used) store' trees' maps' := by
  have hAway : ∀ k, k ≠ i → k ≠ j →
      ∀ a ∈ (trees k).addrs, a ∉
        nodes ++ ((trees i).addrs ++ (trees j).addrs) := by
    intro k hki hkj a ha hMem
    simp only [mem_append] at hMem
    rcases hMem with h | h | h
    · exact hNodes a h k ha
    · exact hRep.disjoint k i hki a ha h
    · exact hRep.disjoint k j hkj a ha h
  -- disjointness of a changed and an unchanged tree
  have hMixed : ∀ k l, (k = i ∨ k = j) → l ≠ i → l ≠ j →
      ∀ a ∈ (trees' k).addrs, a ∉ (trees' l).addrs := by
    intro k l hk hli hlj a ha hMem
    rw [(hOther l hli hlj).2.1] at hMem
    exact hAway l hli hlj a hMem (hSub k hk a ha)
  refine ⟨?_, ?_, ?_, ?_, ?_⟩
  · intro k
    by_cases hki : k = i
    · rw [hki]
      exact hI.1
    by_cases hkj : k = j
    · rw [hkj]
      exact hJ.1
    rw [(hOther k hki hkj).1, (hOther k hki hkj).2.1]
    apply (hRep.rep k).congr
    intro a ha
    exact hFrame a (hAway k hki hkj a ha)
  · intro k
    by_cases hki : k = i
    · rw [hki]
      exact hI.2.1
    by_cases hkj : k = j
    · rw [hkj]
      exact hJ.2.1
    rw [(hOther k hki hkj).2.1]
    exact hRep.wf k
  · intro k n
    by_cases hki : k = i
    · rw [hki]
      exact hI.2.2 n
    by_cases hkj : k = j
    · rw [hkj]
      exact hJ.2.2 n
    rw [(hOther k hki hkj).2.1, (hOther k hki hkj).2.2]
    exact hRep.lookup k n
  · intro k l hkl a ha hMem
    by_cases hk : k = i ∨ k = j
    · by_cases hl : l = i ∨ l = j
      · rcases hk with rfl | rfl <;> rcases hl with rfl | rfl
        · exact hkl rfl
        · exact hDisj hkl a ha hMem
        · exact hDisj hkl.symm a hMem ha
        · exact hkl rfl
      · rw [not_or] at hl
        exact hMixed k l hk hl.1 hl.2 a ha hMem
    · rw [not_or] at hk
      by_cases hl : l = i ∨ l = j
      · exact hMixed l k hl hk.1 hk.2 a hMem ha
      · rw [not_or] at hl
        rw [(hOther k hk.1 hk.2).2.1] at ha
        rw [(hOther l hl.1 hl.2).2.1] at hMem
        exact hRep.disjoint k l hkl a ha hMem
  · intro k a ha
    by_cases hk : k = i ∨ k = j
    · have hIn := hSub k hk a ha
      simp only [mem_append] at hIn ⊢
      rcases hIn with h | h | h
      · exact Or.inl h
      · exact Or.inr (hRep.sub i a h)
      · exact Or.inr (hRep.sub j a h)
    · rw [not_or] at hk
      rw [(hOther k hk.1 hk.2).2.1] at ha
      exact mem_append_right _ (hRep.sub k a ha)

/- A call that works on one tree. -/
theorem change_one
    {i : Nat}
    {nodes : List Nat}
    {heap' : NodeHeap Nat}
    {splay' : SplayRegs}
    {tree' : SplayTree Nat}
    {map' : Nat → Option Nat}
    (hNodes : ∀ a ∈ nodes, ∀ k, a ∉ (trees k).addrs)
    (hFrame : SameOutside (nodes ++ (trees i).addrs)
      store.heap heap')
    (hTree : RepSplay heap' splay' tree')
    (hWF : tree'.WellFormed)
    (hMap : ∀ n, tree'.toList.lookup n = map' n)
    (hSub : ∀ a ∈ tree'.addrs,
      a ∈ nodes ++ (trees i).addrs) :
    RepMaps (nodes ++ used)
      ⟨heap', update store.splays i splay'⟩
      (update trees i tree')
      (update maps i map') := by
  have hI : RepSplay heap'
        (update store.splays i splay' i)
        (update trees i tree' i) ∧
      (update trees i tree' i).WellFormed ∧
      ∀ n, (update trees i tree' i).toList.lookup
        n = update maps i map' i n := by
    simp only [update_self]
    exact ⟨hTree, hWF, hMap⟩
  refine @change _ _ _ _ hRep i i nodes
    ⟨heap', update store.splays i splay'⟩ _ _
    hNodes ?_ ?_ hI hI (fun h => absurd rfl h) ?_
  · intro b hb
    apply hFrame b
    simp only [mem_append, not_or] at hb ⊢
    exact ⟨hb.1, hb.2.1⟩
  · intro k hk _
    simp only [update_of_ne hk, and_self]
  · intro k hk a ha
    have hki : k = i := hk.elim id id
    rw [hki, update_self] at ha
    have hIn := hSub a ha
    simp only [mem_append] at hIn ⊢
    rcases hIn with h | h
    · exact Or.inl h
    · exact Or.inr (Or.inl h)

end

section RepMaps

variable (hRep : RepMaps used store trees maps)

include hRep

section

variable (hFuel : used.length ≤ fuel)
include hFuel

private theorem exec_lookup
    (i : Nat)
    (name : Nat) :
    ∃ store' trees',
      store.exec fuel (.lookup i name) =
          some (store', [maps i name]) ∧
        RepMaps used store' trees' maps := by
  have hLen := (hRep.length_le i).trans hFuel
  have hSpec := SplayTree.lookup_spec (hRep.wf i) name
  rcases (hRep.rep i).lookup_sim (hRep.wf i) hLen name with
    ⟨p, heap', splay', hExec, hOut, hTree, hFrame⟩
  have hAddrs : ((trees i).lookup name).2.addrs =
      (trees i).addrs := by
    simp only [SplayTree.addrs, hSpec.2.1]
  have hNew := @change_one _ _ _ _ hRep i [] _ _ _ (maps i)
    (by simp) hFrame hTree hSpec.2.2
    (fun n => by rw [hSpec.2.1]; exact hRep.lookup i n)
    (by simp [hAddrs])
  rw [update_eq_self] at hNew
  refine ⟨_, _, ?_, hNew⟩
  rw [hSpec.1, hRep.lookup] at hOut
  simp [SplayStore.exec, hExec, hOut]

private theorem exec_insert
    (hLegal : maps.Legal (.insert i name entry)) :
    ∃ store' trees',
      store.exec fuel (.insert i name entry) =
          some (store', []) ∧
        RepMaps (entry :: used) store' trees'
          (maps.exec (.insert i name entry)).1 := by
  rcases hLegal with ⟨hName, hNone, hEntry, hNew⟩
  have hLen := (hRep.length_le i).trans hFuel
  rw [← hRep.lookup] at hNone
  rcases SplayTree.insert_spec (hRep.wf i) hName hNone
      entry with ⟨hWF, small, large, hOld, hList⟩
  rcases (hRep.rep i).insert_sim (hRep.wf i) hLen hEntry
      (hRep.not_mem_addrs hNew i) with
    ⟨heap', splay', hExec, hTree, hFrame⟩
  have hSorted := hWF.sorted
  rw [hList] at hSorted
  refine ⟨_, _, ?_, @change_one _ _ _ _ hRep i [entry] _ _ _
    _ ?_ hFrame hTree hWF ?_ ?_⟩
  · simp [SplayStore.exec, hExec]
  · intro a ha k
    rw [mem_singleton.mp ha]
    exact hRep.not_mem_addrs hNew k
  · intro n
    rw [hList, hSorted.lookup_insert, ← hOld, hRep.lookup]
    simp only [update_apply]
  · intro a ha
    simp only [SplayTree.addrs, hList, hOld, map_append,
      map_cons, mem_append, mem_cons] at ha ⊢
    tauto

private theorem exec_delete
    (hLegal : maps.Legal (.delete i name)) :
    ∃ store' trees',
      store.exec fuel (.delete i name) = some (store', []) ∧
        RepMaps used store' trees'
          (maps.exec (.delete i name)).1 := by
  have hLen := (hRep.length_le i).trans hFuel
  rcases Option.ne_none_iff_exists'.mp hLegal with
    ⟨entry, hSome⟩
  rw [← hRep.lookup] at hSome
  rcases SplayTree.delete_spec (hRep.wf i) hSome with
    ⟨hWF, small, large, hOld, hList⟩
  rcases (hRep.rep i).delete_sim (hRep.wf i) hLen hSome with
    ⟨heap', splay', hExec, hTree, hFrame⟩
  have hSorted := (hRep.wf i).sorted
  rw [hOld] at hSorted
  refine ⟨_, _, ?_, @change_one _ _ _ _ hRep i [] _ _ _
    _ (by simp) hFrame hTree hWF ?_ ?_⟩
  · simp [SplayStore.exec, hExec]
  · intro n
    rw [hList, hSorted.lookup_remove, ← hOld, hRep.lookup]
    simp only [update_apply]
  · intro a ha
    simp only [SplayTree.addrs, hList, hOld, map_append,
      map_cons, mem_append, mem_cons, nil_append] at ha ⊢
    tauto

end

private theorem exec_write
    {node : Node Nat}
    (hLegal : maps.Legal (.write entry node)) :
    ∃ store' trees',
      store.exec fuel (.write entry node) =
          some (store', []) ∧
        RepMaps used store' trees' maps := by
  refine ⟨_, trees, rfl, ?_, hRep.wf, hRep.lookup,
    hRep.disjoint, hRep.sub⟩
  intro i
  apply (hRep.rep i).congr
  intro a ha
  apply update_of_ne
  intro hEq
  rw [hEq] at ha
  exact hRep.not_mem_addrs hLegal i ha

section

variable (hFuel : used.length ≤ fuel)
include hFuel

private theorem exec_split
    (name : Nat)
    (hNe : i ≠ j) :
    ∃ store' trees',
      store.exec fuel (.split i name j) =
          some (store', []) ∧
        RepMaps used store' trees'
          (maps.exec (.split i name j)).1 := by
  have hLen := (hRep.length_le i).trans hFuel
  rcases SplayTree.split_spec (hRep.wf i) name with
    ⟨hWF, hSmallWF, hList, hSmall, hLarge⟩
  rcases (hRep.rep i).split_sim (hRep.wf i) hLen name
      (store.splays j) with
    ⟨heap', splay', small', hExec, hTree, hTreeS, hFrame⟩
  have hSorted := (hRep.wf i).sorted
  have hAddrs : (trees i).addrs =
      ((trees i).split name).2.addrs ++
        ((trees i).split name).1.addrs := by
    simp only [SplayTree.addrs, ← map_append, ← hList]
  have hNodup := (hRep.rep i).nodup
  rw [hAddrs, nodup_append] at hNodup
  refine ⟨⟨heap', update
      (update store.splays i splay') j small'⟩,
    update
      (update trees i ((trees i).split name).1) j
      ((trees i).split name).2, ?_,
    @change _ _ _ _ hRep i j [] _ _ _ (by simp) ?_ ?_ ?_ ?_
      ?_ ?_⟩
  · simp [SplayStore.exec, hExec]
  · intro b hb
    apply hFrame b
    simp only [nil_append, mem_append, not_or] at hb
    exact hb.1
  · intro k hki hkj
    simp only [SplayMaps.exec, update_of_ne hkj,
      update_of_ne hki, and_self]
  · simp only [SplayMaps.exec, update_of_ne hNe, update_self]
    refine ⟨hTree, hWF, ?_⟩
    intro n
    rw [← hRep.lookup]
    by_cases hLe : name ≤ n
    · rw [if_pos hLe]
      apply Option.ext
      intro v
      rw [hWF.sorted.lookup_eq_some_iff,
        hSorted.lookup_eq_some_iff, hList, mem_append]
      refine ⟨Or.inr, fun h => h.resolve_left ?_⟩
      intro hMem
      exact absurd (hSmall _ hMem) hLe.not_gt
    · rw [if_neg hLe]
      apply lookup_eq_none_of_forall_ne
      intro entry hMem hEq
      exact hLe (hEq ▸ hLarge entry hMem)
  · simp only [SplayMaps.exec, update_self]
    refine ⟨hTreeS, hSmallWF, ?_⟩
    intro n
    rw [← hRep.lookup]
    by_cases hLt : n < name
    · rw [if_pos hLt]
      apply Option.ext
      intro v
      rw [hSmallWF.sorted.lookup_eq_some_iff,
        hSorted.lookup_eq_some_iff, hList, mem_append]
      refine ⟨Or.inl, fun h => h.resolve_right ?_⟩
      intro hMem
      exact absurd hLt (hLarge _ hMem).not_gt
    · rw [if_neg hLt]
      apply lookup_eq_none_of_forall_ne
      intro entry hMem hEq
      exact hLt (hEq ▸ hSmall entry hMem)
  · intro _ a ha hMem
    rw [update_of_ne hNe, update_self] at ha
    rw [update_self] at hMem
    exact hNodup.2.2 a hMem a ha rfl
  · intro k hk a ha
    rw [hAddrs]
    simp only [nil_append, mem_append]
    rcases hk with hk | hk
    · rw [hk, update_of_ne hNe, update_self] at ha
      exact Or.inl (Or.inr ha)
    · rw [hk, update_self] at ha
      exact Or.inl (Or.inl ha)

private theorem exec_join
    (hLegal : maps.Legal (.join i j)) :
    ∃ store' trees',
      store.exec fuel (.join i j) = some (store', []) ∧
        RepMaps used store' trees'
          (maps.exec (.join i j)).1 := by
  rcases hLegal with ⟨hNe, hLt⟩
  have hLen := (hRep.length_le i).trans hFuel
  have hBelow : ∀ a ∈ (trees j).toList,
      ∀ b ∈ (trees i).toList, a.1 < b.1 := by
    intro a ha b hb
    apply hLt
    · rw [← hRep.lookup, (hRep.wf j).sorted.lookup_of_mem ha]
      simp
    · rw [← hRep.lookup, (hRep.wf i).sorted.lookup_of_mem hb]
      simp
  rcases SplayTree.join_spec (hRep.wf i) (hRep.wf j)
      hBelow with ⟨hWF, hList⟩
  rcases (hRep.rep i).join_sim (hRep.wf i) hLen (hRep.rep j)
      (hRep.disjoint i j hNe) with
    ⟨heap', splay', small', hExec, hTree, hZero, hFrame⟩
  refine ⟨⟨heap', update
      (update store.splays i splay') j small'⟩,
    update
      (update trees i ((trees i).join (trees j))) j
      SplayTree.empty, ?_,
    @change _ _ _ _ hRep i j [] _ _ _ (by simp) ?_ ?_ ?_ ?_
      ?_ ?_⟩
  · simp [SplayStore.exec, hExec]
  · exact hFrame
  · intro k hki hkj
    simp only [SplayMaps.exec, update_of_ne hkj,
      update_of_ne hki, and_self]
  · simp only [SplayMaps.exec, update_of_ne hNe, update_self]
    refine ⟨hTree, hWF, ?_⟩
    intro n
    rw [hList, lookup_append, hRep.lookup, hRep.lookup]
  · simp only [SplayMaps.exec, update_self]
    exact ⟨RepSplay.of_nil hZero rfl,
      SplayTree.wellFormed_empty,
      fun _ => by simp [SplayTree.toList_empty]⟩
  · intro _ a _ hMem
    simp [SplayTree.addrs, SplayTree.toList_empty] at hMem
  · intro k hk a ha
    rcases hk with hk | hk
    · rw [hk, update_of_ne hNe, update_self] at ha
      simp only [SplayTree.addrs, hList, map_append,
        mem_append, nil_append] at ha ⊢
      exact ha.symm
    · rw [hk, update_self] at ha
      simp [SplayTree.addrs, SplayTree.toList_empty] at ha

/- A legal call does what the map operation does. -/
theorem exec_sim
    {op : SplayOp}
    (hLegal : maps.Legal op) :
    ∃ store' trees',
      store.exec fuel op = some (store', (maps.exec op).2) ∧
        RepMaps (op.nodes ++ used) store' trees'
          (maps.exec op).1 := by
  cases op with
  | lookup i name => exact hRep.exec_lookup hFuel i name
  | insert i name entry =>
      exact hRep.exec_insert hFuel hLegal
  | delete i name => exact hRep.exec_delete hFuel hLegal
  | split i name j =>
      exact hRep.exec_split hFuel name hLegal
  | join i j => exact hRep.exec_join hFuel hLegal
  | write entry node => exact hRep.exec_write hLegal

end

end RepMaps

/- A legal sequence of calls does what the maps do. -/
theorem run_sim
    {fuel : Nat}
    (ops : List SplayOp)
    {used : List Nat}
    {store : SplayStore}
    {trees : Nat → SplayTree Nat}
    {maps : SplayMaps}
    (hRep : RepMaps used store trees maps)
    (hFuel : used.length + ops.length ≤ fuel)
    (hLegal : maps.LegalRun ops) :
    ∃ used' store' trees',
      store.run fuel ops = some (store', (maps.run ops).2) ∧
        RepMaps used' store' trees' (maps.run ops).1 := by
  induction ops generalizing used store trees maps with
  | nil => exact ⟨used, store, trees, rfl, hRep⟩
  | cons op ops ih =>
      simp only [length_cons] at hFuel
      have hFuel₀ : used.length ≤ fuel := by omega
      rcases hRep.exec_sim hFuel₀ hLegal.1 with
        ⟨store₁, trees₁, hExec, hRep₁⟩
      have hNodes : op.nodes.length ≤ 1 := by
        cases op <;> simp [SplayOp.nodes]
      have hFuel₁ : (op.nodes ++ used).length +
          ops.length ≤ fuel := by
        simp only [length_append]
        omega
      rcases ih hRep₁ hFuel₁ hLegal.2 with
        ⟨used₂, store₂, trees₂, hRun, hRep₂⟩
      refine ⟨used₂, store₂, trees₂, ?_, hRep₂⟩
      simp [SplayStore.run, SplayMaps.run, hExec, hRun]

/- Freshly initialised structures hold empty maps. -/
theorem init
    (heap : NodeHeap Nat)
    (raw : Nat → SplayRegs) :
    RepMaps [] (SplayStore.init heap raw)
      (fun _ => SplayTree.empty) SplayMaps.empty := by
  refine ⟨?_, ?_, ?_, ?_, ?_⟩
  · exact fun i => RepSplay.of_nil rfl rfl
  · exact fun i => SplayTree.wellFormed_empty
  · intro i name
    simp [SplayTree.toList_empty, SplayMaps.empty]
  · intro i j _ a ha
    simp [SplayTree.addrs, SplayTree.toList_empty] at ha
  · intro i a ha
    simp [SplayTree.addrs, SplayTree.toList_empty] at ha

end RepMaps

/-
  What the structures in memory amount to: a null root is an
  empty map, and under any other root the three pieces
  assemble to a search tree that holds the map.
-/
def SplayStore.Holds
    (store : SplayStore)
    (maps : SplayMaps) : Prop :=
  ∀ i,
    ((store.splays i).istRoot = 0 →
      ∀ name, maps i name = none) ∧
    ((store.splays i).istRoot ≠ 0 →
      ∃ tree : BinTree Nat Nat,
        RepTree
            ((store.splays i).regs store.heap).assemble.heap
            (store.splays i).istRoot tree ∧
          tree.Ordered ∧
          ∀ name, tree.toList.lookup name = maps i name)

theorem RepMaps.holds
    {used : List Nat}
    {store : SplayStore}
    {trees : Nat → SplayTree Nat}
    {maps : SplayMaps}
    (hRep : RepMaps used store trees maps) :
    store.Holds maps := by
  intro i
  constructor
  · intro hZero name
    have hNil := (hRep.rep i).istRoot_eq_zero_iff.mp hZero
    rw [← hRep.lookup, SplayTree.toList_of_nil hNil]
    rfl
  · intro hNe
    have hNil : (trees i).istRoot ≠ .nil := fun h =>
      hNe ((hRep.rep i).istRoot_eq_zero_iff.mpr h)
    have hList :
        (primAssemble (trees i).state).toList =
          (trees i).toList := by
      rw [SplayTree.toList_of_ne_nil hNil]
      exact toList_primAssemble _ hNil
    refine ⟨primAssemble (trees i).state,
      ((hRep.rep i).assemble_sim hNil).1, ?_, ?_⟩
    · unfold BinTree.Ordered
      rw [hList]
      exact (hRep.wf i).sorted
    · intro name
      rw [hList]
      exact hRep.lookup i name

/-
  Splay trees refine finite maps. Every legal sequence of
  calls from initialised structures runs to its end, returns
  for each lookup what the map holds, and leaves structures
  that hold the updated maps.
-/
theorem splayStore_refines_maps
    (heap : NodeHeap Nat)
    (raw : Nat → SplayRegs)
    (ops : List SplayOp)
    (fuel : Nat)
    (hLegal : SplayMaps.empty.LegalRun ops)
    (hFuel : ops.length ≤ fuel) :
    ∃ store,
      (SplayStore.init heap raw).run fuel ops =
          some (store, (SplayMaps.empty.run ops).2) ∧
        store.Holds (SplayMaps.empty.run ops).1 := by
  rcases RepMaps.run_sim ops (RepMaps.init heap raw)
      (by simpa using hFuel) hLegal with
    ⟨used, store, trees, hRun, hRep⟩
  exact ⟨store, hRun, hRep.holds⟩

/- The calls of a short run over two trees. -/
def sampleSplayOps : List SplayOp :=
  [.insert 0 5 1, .insert 0 3 2, .split 0 4 1, .delete 0 5,
    .insert 0 8 1, .join 0 1, .lookup 0 3, .lookup 0 5]

theorem splayStore_refines_maps_sample :
    ∃ store,
      (SplayStore.init (fun _ => ⟨0, 0, 0⟩)
          (fun _ => ⟨0, 0, 0, .own, 0, .own⟩)).run 8
        sampleSplayOps = some (store, [some 2, none]) ∧
        store.Holds
          (SplayMaps.empty.run sampleSplayOps).1 := by
  apply splayStore_refines_maps (fun _ => ⟨0, 0, 0⟩)
    (fun _ => ⟨0, 0, 0, .own, 0, .own⟩) sampleSplayOps 8
  · simp [sampleSplayOps, SplayMaps.LegalRun,
      SplayMaps.Legal, SplayMaps.exec, SplayMaps.empty,
      machPortLargest, update_apply]
    refine ⟨?_, ?_, ?_⟩
    · intro j n
      split <;> simp [SplayMaps.empty,
        update_apply]
    · intro j n
      split
      · grind
      · by_cases hj : j = 1
        · simp only [hj, if_true]
          grind
        · grind [SplayMaps.empty]
    · grind
  · decide

end Ipc

end OsfMach
