import OsfMach.Ipc.SplayHeap

/-
  The operations of `ipc/ipc_splay.c` on a splay structure
  and its nodes in memory.

  Every operation simulates the operation on trees, given
  fuel for one turn of the loop per node, and changes no
  node outside its trees.

  Main declarations:
    * `SplayRegs` and its operations
    * `RepSplay`
    * `RepSplay.refocus_sim`
    * `RepSplay.lookup_sim`, `insert_sim`, `delete_sim`
    * `RepSplay.split_sim`, `join_sim`
-/

------
-- Operations in Memory
------

namespace OsfMach

namespace Ipc

open Function
open List
open Lib

/- `struct ipc_splay_tree`. -/
structure SplayRegs where
  istName : Nat
  istRoot : Nat
  istLtree : Nat
  istLtreep : TailPtr
  istRtree : Nat
  istRtreep : TailPtr
deriving DecidableEq, Repr

/- `ipc_splay_prim_lookup` starts with empty side trees. -/
def PrimRegs.primLookup
    (name : Nat)
    (fuel : Nat)
    (s : PrimRegs) : Option PrimRegs :=
  PrimRegs.run name fuel
    { s with ltreep := .own, rtreep := .own }

namespace SplayRegs

/- The arguments an operation hands to the primitives. -/
def regs
    (splay : SplayRegs)
    (heap : NodeHeap Nat) : PrimRegs :=
  { heap := heap
    tree := splay.istRoot
    ltree := splay.istLtree
    ltreep := splay.istLtreep
    rtree := splay.istRtree
    rtreep := splay.istRtreep }

/- What the primitives leave in the structure. -/
def ofRegs
    (name : Nat)
    (s : PrimRegs) : SplayRegs :=
  { istName := name
    istRoot := s.tree
    istLtree := s.ltree
    istLtreep := s.ltreep
    istRtree := s.rtree
    istRtreep := s.rtreep }

/- Store a closed tree as the root. -/
def close
    (name : Nat)
    (s : PrimRegs)
    (root : Nat) : SplayRegs :=
  if root = 0 then ofRegs name { s with tree := root }
  else
    ofRegs (s.heap root).key
      { s with tree := root, ltreep := .own, rtreep := .own }

/- Assemble and splay, unless the name was looked up last. -/
def refocus
    (fuel : Nat)
    (heap : NodeHeap Nat)
    (splay : SplayRegs)
    (name : Nat) : Option PrimRegs :=
  if splay.istName = name then some (splay.regs heap)
  else
    PrimRegs.primLookup name fuel (splay.regs heap).assemble

/- `ipc_splay_tree_init`. -/
def init (splay : SplayRegs) : SplayRegs :=
  { splay with istRoot := 0 }

section

variable (fuel : Nat) (heap : NodeHeap Nat) (splay : SplayRegs)

/- `ipc_splay_tree_lookup`; the null pointer is zero. -/
def lookup
    (name : Nat) :
    Option (Nat × NodeHeap Nat × SplayRegs) :=
  if splay.istRoot = 0 then some (0, heap, splay)
  else do
    let s ← splay.refocus fuel heap name
    let root :=
      if name ≠ (s.heap s.tree).key then 0 else s.tree
    some (root, s.heap, ofRegs name s)

/- `ipc_splay_tree_insert`. -/
def insert
    (name : Nat)
    (entry : Nat) :
    Option (NodeHeap Nat × SplayRegs) :=
  if splay.istRoot = 0 then
    some (update heap entry ⟨name, 0, 0⟩,
      { splay with
        istName := name
        istRoot := entry
        istLtreep := .own
        istRtreep := .own })
  else do
    let s ← splay.refocus fuel heap name
    let s :=
      if name < (s.heap s.tree).key then
        (s.storeLtreep 0).storeRtreep s.tree
      else (s.storeLtreep s.tree).storeRtreep 0
    let heap := update s.heap entry ⟨name, s.ltree, s.rtree⟩
    some (heap,
      ofRegs name
        { s with
          tree := entry
          ltreep := .own
          rtreep := .own })

/-
  `ipc_splay_tree_delete`. The node of the root is freed
  once its children have been read.
-/
def delete
    (name : Nat) :
    Option (NodeHeap Nat × SplayRegs) := do
  let s ← splay.refocus fuel heap name
  let root := s.tree
  let s := s.storeLtreep (s.heap root).lchild
  let s := s.storeRtreep (s.heap root).rchild
  let root := s.ltree
  let saved := s.rtree
  if root = 0 then
    some (s.heap, close splay.istName s saved)
  else if saved ≠ 0 then
    let s ← PrimRegs.primLookup machPortLargest fuel
      { s with tree := root }
    let s := s.assemble
    let s := { s with heap := s.heap.setR s.tree saved }
    some (s.heap, close splay.istName s s.tree)
  else
    some (s.heap, close splay.istName s root)

/- `ipc_splay_tree_split`. -/
def split
    (name : Nat)
    (small : SplayRegs) :
    Option (NodeHeap Nat × SplayRegs × SplayRegs) :=
  let small := small.init
  if splay.istRoot = 0 then some (heap, splay, small)
  else do
    let s ← splay.refocus fuel heap name
    let root := s.tree
    if (s.heap root).key < name then
      let s := s.storeLtreep (s.heap root).lchild
      let s := s.storeRtreep 0
      let s := { s with heap := s.heap.setL root s.ltree }
      some (s.heap, close splay.istName s s.rtree,
        { small with
          istName := (s.heap root).key
          istRoot := root
          istLtreep := .own
          istRtreep := .own })
    else
      let s := s.storeLtreep (s.heap root).lchild
      let s := { s with heap := s.heap.setL root 0 }
      let small :=
        if s.ltree = 0 then small
        else
          { small with
            istName := (s.heap s.ltree).key
            istRoot := s.ltree
            istLtreep := .own
            istRtreep := .own }
      some (s.heap, ofRegs name { s with ltreep := .own },
        small)

end

/- `ipc_splay_tree_join`; also returns the emptied tree. -/
def join
    (fuel : Nat)
    (heap : NodeHeap Nat)
    (splay small : SplayRegs) :
    Option (NodeHeap Nat × SplayRegs × SplayRegs) :=
  if small.istRoot = 0 then some (heap, splay, small)
  else
    let sroot := small.istRoot
    let t := (small.regs heap).assemble
    let small := ofRegs small.istName { t with tree := 0 }
    if splay.istRoot = 0 then
      some (t.heap,
        close splay.istName (splay.regs t.heap) sroot, small)
    else do
      let s ← splay.refocus fuel t.heap machPortSmallest
      let s := s.assemble
      let s := { s with heap := s.heap.setL s.tree sroot }
      some (s.heap, close splay.istName s s.tree, small)

end SplayRegs

------
-- Simulation of the Operations
------

/- The node addresses of a splay tree. -/
def SplayTree.addrs (tree : SplayTree Nat) : List Nat :=
  tree.toList.map Prod.snd

/-
  A structure in memory holds a splay tree. All but the root
  field is unconstrained when the tree is empty.
-/
structure RepSplay
    (heap : NodeHeap Nat)
    (splay : SplayRegs)
    (tree : SplayTree Nat) : Prop where
  root : RepTree heap splay.istRoot tree.istRoot
  name : tree.istRoot ≠ .nil → splay.istName = tree.istName
  state :
    tree.istRoot ≠ .nil →
      RepState (splay.regs heap) tree.state

namespace RepSplay

variable {heap heap' : NodeHeap Nat} {splay : SplayRegs}
variable {tree : SplayTree Nat} {name : Nat} {s : PrimRegs}
variable {fuel k a : Nat}
variable {p entry : Nat} {h : NodeHeap Nat} {q : Nat}
variable {l r u : BinTree Nat Nat} {L : LeftSpine Nat Nat}
variable {R : RightSpine Nat Nat}

theorem istRoot_eq_zero_iff
    (hRep : RepSplay heap splay tree) :
    splay.istRoot = 0 ↔ tree.istRoot = .nil :=
  hRep.root.eq_zero_iff

theorem of_nil
    (hRoot : splay.istRoot = 0)
    (hNil : tree.istRoot = .nil) :
    RepSplay heap splay tree := by
  refine ⟨?_, fun h => absurd hNil h,
    fun h => absurd hNil h⟩
  rw [hNil]
  exact hRoot

/- Only the nodes of the tree matter. -/
theorem congr
    (hRep : RepSplay heap splay tree)
    (hSame : ∀ a ∈ tree.addrs, heap' a = heap a) :
    RepSplay heap' splay tree := by
  by_cases hNil : tree.istRoot = .nil
  · exact of_nil (hRep.istRoot_eq_zero_iff.mpr hNil) hNil
  · have hState := hRep.state hNil
    have hList := SplayTree.toList_of_ne_nil hNil
    have hIn : ∀ a ∈ tree.state.addrs, heap' a = heap a := by
      intro a ha
      apply hSame
      rw [SplayTree.addrs, hList, ← PrimState.addrs_eq]
      exact ha
    have hTree : RepTree heap' splay.istRoot
        tree.istRoot := by
      apply hRep.root.congr
      intro a ha
      apply hIn
      simp only [PrimState.addrs, mem_append]
      exact Or.inl (Or.inr ha)
    refine ⟨hTree, hRep.name, fun _ => ⟨hTree, ?_, ?_,
      hState.nodup⟩⟩
    · apply hState.left.congr
      intro a ha
      apply hIn
      simp only [PrimState.addrs, mem_append]
      exact Or.inl (Or.inl ha)
    · apply hState.right.congr
      intro a ha
      apply hIn
      simp only [PrimState.addrs, mem_append]
      exact Or.inr ha

theorem nodup
    (hRep : RepSplay heap splay tree) :
    tree.addrs.Nodup := by
  by_cases hNil : tree.istRoot = .nil
  · simp [SplayTree.addrs, SplayTree.toList_of_nil hNil]
  · rw [SplayTree.addrs, SplayTree.toList_of_ne_nil hNil,
      ← PrimState.addrs_eq]
    exact (hRep.state hNil).nodup

/- A structure with empty side trees. -/
theorem of_closed
    {t : BinTree Nat Nat}
    (hTree : RepTree heap splay.istRoot t)
    (hNodup : t.addrs.Nodup)
    (hFields : splay.istRoot ≠ 0 →
      splay.istName = (heap splay.istRoot).key ∧
        splay.istLtreep = .own ∧ splay.istRtreep = .own) :
    RepSplay heap splay (SplayTree.ofRoot t) := by
  cases t with
  | nil => exact of_nil hTree rfl
  | node l k a r =>
      have hNe : splay.istRoot ≠ 0 := by
        intro hp
        have hNil := hTree.eq_zero_iff.mp hp
        simp at hNil
      rcases hFields hNe with ⟨hName, hL, hR⟩
      refine ⟨hTree, fun _ => ?_, fun _ => ⟨hTree, hL,
        hR, ?_⟩⟩
      · rw [hName, hTree.1]
        exact hTree.2.2.1
      · simpa [PrimState.addrs, SplayTree.ofRoot,
          SplayTree.state] using hNodup

/- Storing a closed tree gives a splay tree. -/
theorem close
    {t : BinTree Nat Nat}
    (hHeap : s.heap = heap)
    (hTree : RepTree heap p t)
    (hNodup : t.addrs.Nodup) :
    RepSplay heap (SplayRegs.close name s p)
      (SplayTree.ofRoot t) := by
  subst hHeap
  unfold SplayRegs.close
  by_cases hp : p = 0
  · rw [if_pos hp]
    exact of_closed hTree hNodup (fun h => absurd hp h)
  · rw [if_neg hp]
    exact of_closed hTree hNodup (fun _ => ⟨rfl, rfl, rfl⟩)

theorem addrs_state
    (hRoot : tree.istRoot ≠ .nil) :
    tree.state.addrs = tree.addrs := by
  rw [SplayTree.addrs, SplayTree.toList_of_ne_nil hRoot,
    PrimState.addrs_eq]

theorem addrs_assemble
    (hRoot : tree.istRoot ≠ .nil) :
    (primAssemble tree.state).addrs = tree.addrs := by
  rw [← addrs_state hRoot, PrimState.addrs_eq, BinTree.addrs,
    toList_primAssemble tree.state hRoot]

/- Assembling the structure in memory. -/
theorem assemble_sim
    (hRep : RepSplay heap splay tree)
    (hRoot : tree.istRoot ≠ .nil) :
    RepTree (splay.regs heap).assemble.heap splay.istRoot
        (primAssemble tree.state) ∧
      SameOutside tree.addrs heap
        (splay.regs heap).assemble.heap := by
  have hState := hRep.state hRoot
  rw [← addrs_state hRoot]
  cases hCase : tree.istRoot with
  | nil => exact absurd hCase hRoot
  | node l k a r =>
      have hSt : tree.state = ⟨.node l k a r,
          tree.istLtree, tree.istRtree⟩ := by
        simp [SplayTree.state, hCase]
      rw [hSt] at hState ⊢
      exact RepState.assemble_sim hState

/- `ipc_splay_prim_lookup` of a closed tree. -/
theorem primLookup_sim
    {fuel : Nat}
    {s : PrimRegs}
    {t : BinTree Nat Nat}
    (hTree : RepTree s.heap s.tree t)
    (hNodup : t.addrs.Nodup)
    (hOrd : t.Ordered)
    (hNe : t ≠ .nil)
    (hFuel : t.size ≤ fuel)
    (name : Nat) :
    ∃ s', PrimRegs.primLookup name fuel s = some s' ∧
      RepState s' (primLookup name t) ∧
      (primLookup name t).addrs = t.addrs ∧
      SameOutside t.addrs s.heap s'.heap := by
  have hAddrs : PrimState.addrs ⟨t, [], []⟩ = t.addrs := by
    simp [PrimState.addrs]
  have hStart : RepState
      { s with ltreep := .own, rtreep := .own }
      ⟨t, [], []⟩ :=
    ⟨hTree, rfl, rfl, hAddrs ▸ hNodup⟩
  have hSorted : KeySorted
      (PrimState.toList ⟨t, [], []⟩) := by
    simpa [PrimState.toList, BinTree.Ordered] using hOrd
  rcases @RepState.run_sim name fuel _ _ _ hStart hSorted
      hNe (le_refl _) hFuel with ⟨s', hRun, hSim⟩
  have hFrame := hSim.frame
  have hEq := hSim.addrs_eq
  rw [hAddrs] at hFrame hEq
  exact ⟨s', hRun, hSim.rep, hEq, hFrame⟩

section

variable (hRep : RepSplay heap splay tree)
include hRep

/- The primitives follow `refocus` on trees. -/
theorem refocus_sim
    (hWF : tree.WellFormed)
    (hRoot : tree.istRoot ≠ .nil)
    (hFuel : tree.toList.length ≤ fuel)
    (name : Nat) :
    ∃ s, splay.refocus fuel heap name = some s ∧
      RepState s (tree.refocus name) ∧
      (tree.refocus name).addrs = tree.addrs ∧
      SameOutside tree.addrs heap s.heap := by
  have hList := SplayTree.toList_of_ne_nil hRoot
  unfold SplayRegs.refocus SplayTree.refocus
  rw [hRep.name hRoot]
  by_cases hName : tree.istName = name
  · rw [if_pos hName, if_pos hName]
    exact ⟨_, rfl, hRep.state hRoot, addrs_state hRoot,
      SameOutside.refl⟩
  · rw [if_neg hName, if_neg hName]
    rcases hRep.assemble_sim hRoot with ⟨hTree, hFrame⟩
    have hAddrs := addrs_assemble hRoot
    have hAsm := toList_primAssemble tree.state hRoot
    rw [← hList] at hAsm
    have hOrd : (primAssemble tree.state).Ordered := by
      unfold BinTree.Ordered
      rw [hAsm]
      exact hWF.sorted
    have hSize : (primAssemble tree.state).size ≤ fuel := by
      rw [← BinTree.length_toList, hAsm]
      exact hFuel
    rcases @primLookup_sim fuel (splay.regs heap).assemble _
        hTree (hAddrs ▸ hRep.nodup) hOrd
        (primAssemble_ne_nil _ hRoot) hSize name with
      ⟨s, hRun, hRepS, hEq, hOut⟩
    rw [hAddrs] at hEq hOut
    exact ⟨s, hRun, hRepS, hEq, hFrame.trans hOut⟩

/- The focused state and the pieces around its root. -/
private theorem focus
    (hWF : tree.WellFormed)
    (hRoot : tree.istRoot ≠ .nil)
    (hFuel : tree.toList.length ≤ fuel)
    (name : Nat) :
    ∃ s l k a r L R,
      splay.refocus fuel heap name = some s ∧
        tree.refocus name = ⟨.node l k a r, L, R⟩ ∧
        RepState s ⟨.node l k a r, L, R⟩ ∧
        PrimState.addrs ⟨.node l k a r, L, R⟩ = tree.addrs ∧
        SameOutside tree.addrs heap s.heap ∧
        s.tree = a ∧ a ≠ 0 ∧ (s.heap a).key = k := by
  rcases hRep.refocus_sim hWF hRoot hFuel name with
    ⟨s, hRun, hRepS, hEq, hFrame⟩
  have hFocus := (SplayTree.refocus_spec hWF hRoot name).1
  rcases hFocus.exists_root with ⟨l, k, a, r, hTree⟩
  have hSt : tree.refocus name = ⟨.node l k a r,
      (tree.refocus name).ltree,
      (tree.refocus name).rtree⟩ := by
    rw [← hTree]
  rw [hSt] at hRepS hEq
  exact ⟨s, l, k, a, r, _, _, hRun, hSt, hRepS, hEq, hFrame,
    hRepS.tree.1, hRepS.tree.2.1, hRepS.tree.2.2.1⟩

theorem lookup_sim
    (hWF : tree.WellFormed)
    (hFuel : tree.toList.length ≤ fuel)
    (name : Nat) :
    ∃ p heap' splay',
      splay.lookup fuel heap name =
          some (p, heap', splay') ∧
        (if p = 0 then none else some p) =
          (tree.lookup name).1 ∧
        RepSplay heap' splay' (tree.lookup name).2 ∧
        SameOutside tree.addrs heap heap' := by
  by_cases hNil : tree.istRoot = .nil
  · have hZero := hRep.istRoot_eq_zero_iff.mpr hNil
    refine ⟨0, heap, splay, ?_, ?_, ?_, SameOutside.refl⟩
    · simp [SplayRegs.lookup, hZero]
    · simp [SplayTree.lookup, hNil]
    · simpa [SplayTree.lookup, hNil] using hRep
  · have hNe : splay.istRoot ≠ 0 := fun h =>
      hNil (hRep.istRoot_eq_zero_iff.mp h)
    rcases hRep.focus hWF hNil hFuel name with
      ⟨s, l, k, a, r, L, R, hRun, hSt, hRepS, hEq, hFrame,
        hTree, ha, hk⟩
    have hLookup : tree.lookup name =
        (if name = k then some a else none,
          ⟨name, .node l k a r, L, R⟩) := by
      cases hCase : tree.istRoot with
      | nil => exact absurd hCase hNil
      | node tl tk tv tr =>
          simp [SplayTree.lookup, hCase, hSt]
    rw [hLookup]
    refine ⟨if name ≠ k then 0 else a, s.heap,
      SplayRegs.ofRegs name s, ?_, ?_, ?_, hFrame⟩
    · simp [SplayRegs.lookup, hNe, hRun, hTree, hk]
    · by_cases hName : name = k
      · simp [hName, ha]
      · simp [hName]
    · exact ⟨hRepS.tree, fun _ => rfl, fun _ => hRepS⟩

end

/- A node hung over two closed trees. -/
private theorem insert_close
    {s : PrimRegs}
    {p q a : Nat}
    {name : Nat}
    {t u : BinTree Nat Nat}
    (hT : RepTree s.heap p t)
    (hU : RepTree s.heap q u)
    (ha : a ≠ 0)
    (hNodup : (BinTree.node t name a u).addrs.Nodup) :
    RepSplay (update s.heap a ⟨name, p, q⟩)
      (SplayRegs.ofRegs name
        { s with tree := a, ltreep := .own, rtreep := .own })
      ⟨name, .node t name a u, [], []⟩ := by
  have hOut : ∀ b ∈ t.addrs ++ u.addrs,
      update s.heap a ⟨name, p, q⟩ b = s.heap b := by
    intro b hb
    apply update_of_ne
    intro hEq
    subst hEq
    simp only [BinTree.addrs_node, nodup_append, nodup_cons,
      mem_append, mem_cons] at hNodup hb
    grind
  have hTree : RepTree
      (update s.heap a ⟨name, p, q⟩) a
      (.node t name a u) := by
    refine ⟨rfl, ha, by simp, ?_, ?_⟩
    · rw [update_self]
      exact hT.congr (fun b hb => hOut b (by simp [hb]))
    · rw [update_self]
      exact hU.congr (fun b hb => hOut b (by simp [hb]))
  refine ⟨hTree, fun _ => rfl,
    fun _ => ⟨hTree, rfl, rfl, ?_⟩⟩
  simpa [PrimState.addrs, SplayTree.state] using hNodup

theorem insert_sim
    (hRep : RepSplay heap splay tree)
    (hWF : tree.WellFormed)
    (hFuel : tree.toList.length ≤ fuel)
    (hEntry : entry ≠ 0)
    (hFresh : entry ∉ tree.addrs) :
    ∃ heap' splay',
      splay.insert fuel heap name entry =
          some (heap', splay') ∧
        RepSplay heap' splay' (tree.insert name entry) ∧
        SameOutside (entry :: tree.addrs) heap heap' := by
  by_cases hNil : tree.istRoot = .nil
  · have hZero := hRep.istRoot_eq_zero_iff.mpr hNil
    have hInsert : tree.insert name entry =
        ⟨name, .node .nil name entry .nil, [], []⟩ := by
      simp [SplayTree.insert, hNil]
    refine ⟨update heap entry ⟨name, 0, 0⟩, _,
      by simp only [SplayRegs.insert, hZero, if_true]; rfl,
      ?_, ?_⟩
    · rw [hInsert]
      exact @insert_close (splay.regs heap) 0 0 entry name
        .nil .nil rfl rfl hEntry (by simp)
    · intro b hb
      simp only [mem_cons, not_or] at hb
      exact update_of_ne hb.1 _ _
  · have hNe : splay.istRoot ≠ 0 := fun h =>
      hNil (hRep.istRoot_eq_zero_iff.mp h)
    rcases hRep.focus hWF hNil hFuel name with
      ⟨s, l, k, a, r, L, R, hRun, hSt, hRepS, hEq, hFrame,
        hTree, ha, hk⟩
    have hNodup := hRepS.nodup
    rw [← hEq] at hFresh
    have hSub : ∀ b, b ∉ entry :: tree.addrs →
        b ≠ entry ∧ b ∉ tree.addrs ∧
          b ∉ LeftSpine.addrs L ++ RightSpine.addrs R := by
      intro b hb
      rw [← hEq] at hb ⊢
      simp only [PrimState.addrs, mem_cons,
        mem_append, not_or] at hb ⊢
      exact ⟨hb.1, hb.2, hb.2.1.1, hb.2.2⟩
    by_cases hLt : name < k
    · -- the root goes into the right tree
      have hInsert : tree.insert name entry =
          ⟨name, .node (LeftSpine.plug L .nil) name entry
            (RightSpine.plug R (.node l k a r)),
            [], []⟩ := by
        cases hCase : tree.istRoot with
        | nil => exact absurd hCase hNil
        | node tl tk tv tr =>
            simp [SplayTree.insert, hCase, hSt, hLt]
      have hClose := @RepState.close_sim L R s 0 s.tree
        .nil (.node l k a r) hRepS.left hRepS.right rfl
        hRepS.tree (by
          simpa [PrimState.addrs] using hNodup)
      rcases hClose with ⟨hT, hU, hOut⟩
      refine ⟨_, _, by
        simp only [SplayRegs.insert, hNe, hRun, hTree, hk,
          hLt, if_true, if_false, Option.bind_eq_bind,
          Option.bind_some]
        rfl, ?_, ?_⟩
      · rw [hInsert]
        rw [hTree] at hT hU
        apply insert_close hT hU hEntry
        simp only [PrimState.addrs, BinTree.addrs_node,
          LeftSpine.addrs_plug, RightSpine.addrs_plug,
          BinTree.addrs_nil, append_nil, nodup_append,
          nodup_cons, mem_append, mem_cons] at hNodup hFresh ⊢
        grind
      · intro b hb
        rcases hSub b hb with ⟨h₁, h₂, h₃⟩
        rw [update_of_ne h₁, ← hTree, hOut b h₃]
        exact hFrame b h₂
    · have hInsert : tree.insert name entry =
          ⟨name, .node (LeftSpine.plug L (.node l k a r))
            name entry (RightSpine.plug R .nil),
            [], []⟩ := by
        cases hCase : tree.istRoot with
        | nil => exact absurd hCase hNil
        | node tl tk tv tr =>
            simp [SplayTree.insert, hCase, hSt, hLt]
      have hClose := @RepState.close_sim L R s s.tree 0
        (.node l k a r) .nil hRepS.left hRepS.right
        hRepS.tree rfl (by
          simpa [PrimState.addrs] using hNodup)
      rcases hClose with ⟨hT, hU, hOut⟩
      refine ⟨_, _, by
        simp only [SplayRegs.insert, hNe, hRun, hTree, hk, hLt,
          if_false, Option.bind_eq_bind, Option.bind_some]
        rfl, ?_, ?_⟩
      · rw [hInsert]
        rw [hTree] at hT hU
        apply insert_close hT hU hEntry
        simp only [PrimState.addrs, BinTree.addrs_node,
          LeftSpine.addrs_plug, RightSpine.addrs_plug,
          BinTree.addrs_nil, nil_append, nodup_append,
          nodup_cons, mem_append, mem_cons] at hNodup hFresh ⊢
        grind
      · intro b hb
        rcases hSub b hb with ⟨h₁, h₂, h₃⟩
        rw [update_of_ne h₁, ← hTree, hOut b h₃]
        exact hFrame b h₂

/- The largest node of a closed tree comes to its root. -/
theorem largest_sim
    {fuel : Nat}
    {s : PrimRegs}
    {t : BinTree Nat Nat}
    (hTree : RepTree s.heap s.tree t)
    (hNodup : t.addrs.Nodup)
    (hOrd : t.Ordered)
    (hNe : t ≠ .nil)
    (hFuel : t.size ≤ fuel)
    (name : Nat) :
    ∃ s', PrimRegs.primLookup name fuel s = some s' ∧
      RepTree s'.assemble.heap s'.assemble.tree
        (primAssemble (primLookup name t)) ∧
      SameOutside t.addrs s.heap s'.assemble.heap := by
  rcases primLookup_sim hTree hNodup hOrd hNe hFuel name with
    ⟨s', hRun, hRepS, hEq, hFrame⟩
  have hNil := primLookup_tree_ne_nil name hOrd hNe
  refine ⟨s', hRun, ?_⟩
  rcases hCase : primLookup name t with ⟨u, L, R⟩
  rw [hCase] at hRepS hNil hEq
  cases u with
  | nil => exact absurd rfl hNil
  | node l k a r =>
      rcases RepState.assemble_sim hRepS with ⟨hAsm, hOut⟩
      rw [hEq] at hOut
      exact ⟨hAsm, hFrame.trans hOut⟩

/- Hanging a closed tree right of a root. -/
theorem setR_rep
    (hTree : RepTree h p (.node l k a r))
    (hU : RepTree h q u)
    (hL : a ∉ l.addrs)
    (hA : a ∉ u.addrs) :
    RepTree (h.setR p q) p (.node l k a u) := by
  rcases hTree with ⟨hEq, ha, hk, hl, hr⟩
  subst hEq
  refine ⟨rfl, ha, by simp [hk], ?_, ?_⟩
  · rw [NodeHeap.setR_self]
    apply hl.congr
    intro b hb
    apply h.setR_of_ne
    intro hEq
    exact hL (hEq ▸ hb)
  · rw [NodeHeap.setR_self]
    apply hU.congr
    intro b hb
    apply h.setR_of_ne
    intro hEq
    exact hA (hEq ▸ hb)

/- Hanging a closed tree left of a root. -/
private theorem setL_rep
    (hTree : RepTree h p (.node l k a r))
    (hU : RepTree h q u)
    (hR : a ∉ r.addrs)
    (hA : a ∉ u.addrs) :
    RepTree (h.setL p q) p (.node u k a r) := by
  rcases hTree with ⟨hEq, ha, hk, hl, hr⟩
  subst hEq
  refine ⟨rfl, ha, by simp [hk], ?_, ?_⟩
  · rw [NodeHeap.setL_self]
    apply hU.congr
    intro b hb
    apply h.setL_of_ne
    intro hEq
    exact hA (hEq ▸ hb)
  · rw [NodeHeap.setL_self]
    apply hr.congr
    intro b hb
    apply h.setL_of_ne
    intro hEq
    exact hR (hEq ▸ hb)

/- The tail of `ipc_splay_tree_delete`. -/
private theorem deleteJoin_sim
    {fuel : Nat}
    {name : Nat}
    {s : PrimRegs}
    {t u : BinTree Nat Nat}
    (hT : RepTree s.heap s.ltree t)
    (hU : RepTree s.heap s.rtree u)
    (hNodup : (t.addrs ++ u.addrs).Nodup)
    (hOrd : t.Ordered)
    (hFuel : t.size ≤ fuel) :
    ∃ heap' splay',
      (if s.ltree = 0 then
          some (s.heap, SplayRegs.close name s s.rtree)
        else if s.rtree ≠ 0 then do
          let s₁ ← PrimRegs.primLookup machPortLargest fuel
            { s with tree := s.ltree }
          let s₂ := s₁.assemble
          let s₃ := { s₂ with
            heap := s₂.heap.setR s₂.tree s.rtree }
          some (s₃.heap, SplayRegs.close name s₃ s₃.tree)
        else
          some (s.heap, SplayRegs.close name s s.ltree)) =
        some (heap', splay') ∧
      RepSplay heap' splay' (SplayTree.ofRoot
        (SplayTree.deleteJoin t u)) ∧
      SameOutside t.addrs s.heap heap' := by
  have hParts := nodup_append.mp hNodup
  by_cases hTNil : t = .nil
  · have hZero := hT.eq_zero_iff.mpr hTNil
    refine ⟨s.heap, _, by rw [if_pos hZero], ?_,
      SameOutside.refl⟩
    simp only [SplayTree.deleteJoin, hTNil, BinTree.isNil,
      if_true]
    exact close rfl hU hParts.2.1
  · have hNe : s.ltree ≠ 0 := fun h =>
      hTNil (hT.eq_zero_iff.mp h)
    have hIsNil : ¬ t.isNil = true := fun h =>
      hTNil (BinTree.isNil_iff.mp h)
    by_cases hUNil : u = .nil
    · have hZero := hU.eq_zero_iff.mpr hUNil
      refine ⟨s.heap, _, by
        rw [if_neg hNe, if_neg (by simp [hZero])], ?_,
        SameOutside.refl⟩
      have hJoin : SplayTree.deleteJoin t u = t := by
        unfold SplayTree.deleteJoin
        rw [if_neg hIsNil, if_pos]
        exact BinTree.isNil_iff.mpr hUNil
      rw [hJoin]
      exact close rfl hT hParts.1
    · have hNeU : s.rtree ≠ 0 := fun h =>
        hUNil (hU.eq_zero_iff.mp h)
      have hIsNilU : ¬ u.isNil = true := fun h =>
        hUNil (BinTree.isNil_iff.mp h)
      rcases @largest_sim fuel { s with tree := s.ltree } t
          hT hParts.1 hOrd hTNil hFuel machPortLargest with
        ⟨s', hRun, hAsm, hFrame⟩
      have hList :
          (primAssemble
            (primLookup machPortLargest t)).toList =
              t.toList := by
        rw [toList_primAssemble _
          (primLookup_tree_ne_nil _ hOrd hTNil),
          toList_primLookup _ hOrd hTNil]
      cases hCase :
          primAssemble (primLookup machPortLargest t) with
      | nil =>
          rw [hCase] at hList
          exact absurd
            (BinTree.toList_eq_nil_iff.mp hList.symm) hTNil
      | node l k a r =>
          have hJoin : SplayTree.deleteJoin t u =
              .node l k a u := by
            simp [SplayTree.deleteJoin, hIsNil, hIsNilU, hCase]
          rw [hCase] at hAsm hList
          have hAddrs : t.addrs =
              l.addrs ++ a :: r.addrs := by
            simp [BinTree.addrs, ← hList]
          have hU' : RepTree s'.assemble.heap s.rtree u := by
            apply hU.congr
            intro b hb
            apply hFrame b
            intro hMem
            exact hParts.2.2 b hMem b hb rfl
          have hNew := setR_rep hAsm hU' (by grind)
            (by grind)
          refine ⟨_, _, by
            rw [if_neg hNe, if_pos hNeU, hRun]
            rfl, ?_, ?_⟩
          · rw [hJoin]
            apply close rfl hNew
            simp only [BinTree.addrs_node, nodup_append,
              nodup_cons, mem_cons]
            grind
          · apply hFrame.setR
            rw [hAsm.1, hAddrs]
            simp

theorem delete_sim
    (hRep : RepSplay heap splay tree)
    (hWF : tree.WellFormed)
    (hFuel : tree.toList.length ≤ fuel)
    (hSome : tree.toList.lookup name = some entry) :
    ∃ heap' splay',
      splay.delete fuel heap name = some (heap', splay') ∧
        RepSplay heap' splay' (tree.delete name) ∧
        SameOutside tree.addrs heap heap' := by
  have hNil : tree.istRoot ≠ .nil := by
    intro hNil
    rw [SplayTree.toList_of_nil hNil] at hSome
    simp at hSome
  rcases hRep.focus hWF hNil hFuel name with
    ⟨s, l, k, a, r, L, R, hRun, hSt, hRepS, hEq, hFrame,
      hTree, ha, hk⟩
  rcases hRepS.close_children_sim with ⟨hT, hU, hOut⟩
  have hStore := hRepS.storeLtreep_heap (s.heap a).lchild
  set s' := (s.storeLtreep (s.heap a).lchild).storeRtreep
    (s.heap a).rchild with hs'
  have hNodup : ((LeftSpine.plug L l).addrs ++
      (RightSpine.plug R r).addrs).Nodup := by
    have h := hRepS.nodup
    simp only [PrimState.addrs, BinTree.addrs_node,
      LeftSpine.addrs_plug, RightSpine.addrs_plug, nodup_append,
      nodup_cons, mem_append, mem_cons] at h ⊢
    grind
  have hFocus := SplayTree.refocus_spec hWF hNil name
  rw [hSt] at hFocus
  have hOrd : (LeftSpine.plug L l).Ordered := by
    have h := hFocus.1.sorted
    rw [Focused.toList_eq rfl, KeySorted.append_iff] at h
    simpa [BinTree.Ordered] using h.1
  have hSize : (LeftSpine.plug L l).size ≤ fuel := by
    have h := congrArg List.length hFocus.2
    rw [Focused.toList_eq rfl] at h
    rw [← BinTree.length_toList, LeftSpine.toList_plug]
    simp only [length_append, length_cons] at h hFuel ⊢
    omega
  rcases @deleteJoin_sim fuel splay.istName s' _ _ hT hU
      hNodup hOrd hSize with
    ⟨heap', splay', hExec, hRep', hFrame'⟩
  refine ⟨heap', splay', ?_, ?_, ?_⟩
  · unfold SplayRegs.delete
    rw [hRun]
    simp only [Option.bind_eq_bind, Option.bind_some]
    rw [hTree, hStore, ← hs']
    exact hExec
  · unfold SplayTree.delete
    rw [hSt]
    exact hRep'
  · intro b hb
    have hb' := hb
    rw [← hEq] at hb'
    simp only [PrimState.addrs, BinTree.addrs_node,
      mem_append, mem_cons, not_or] at hb'
    rw [hFrame' b ?_, hOut b ?_, hFrame b hb]
    · simp [hb'.1.1, hb'.2]
    · simp only [LeftSpine.addrs_plug, mem_append, not_or]
      exact ⟨hb'.1.1, hb'.1.2.1⟩

/- The split off tree when the root is below the name. -/
private theorem split_lt_sim
    (hRep : RepState s ⟨.node l k a r, L, R⟩) :
    let s' := (s.storeLtreep (s.heap a).lchild).storeRtreep 0
    let heap' := s'.heap.setL a s'.ltree
    RepTree heap' a (.node (LeftSpine.plug L l) k a r) ∧
      RepTree heap' s'.rtree (RightSpine.plug R .nil) ∧
      SameOutside (PrimState.addrs ⟨.node l k a r, L, R⟩)
        s.heap heap' := by
  have hNodup := hRep.nodup
  rcases hRep.tree with ⟨hEq, ha, hk, hl, hr⟩
  have hClose := @RepState.close_sim L R s _ 0 l .nil
    hRep.left hRep.right hl rfl (by
      simp only [PrimState.addrs, BinTree.addrs_node,
        BinTree.addrs_nil, nodup_append, nodup_cons,
        mem_append, mem_cons] at hNodup ⊢
      grind)
  rcases hClose with ⟨hT, hU, hOut⟩
  intro s' heap'
  simp only [PrimState.addrs, BinTree.addrs_node, nodup_append,
    nodup_cons, mem_append, mem_cons] at hNodup
  have hNode : s'.heap a = s.heap a := hOut a (by grind)
  have hr' : RepTree s'.heap (s'.heap a).rchild r := by
    rw [hNode]
    exact hr.congr (fun b hb =>
      hOut b (by grind))
  have hl' : ∀ b ∈ (LeftSpine.plug L l).addrs,
      b ∈ LeftSpine.addrs L ∨ b ∈ l.addrs := by
    intro b hb
    rw [LeftSpine.addrs_plug, mem_append] at hb
    exact hb
  have hR' : ∀ b ∈ (RightSpine.plug R .nil).addrs,
      b ∈ RightSpine.addrs R := by
    intro b hb
    simpa [RightSpine.addrs_plug] using hb
  refine ⟨⟨rfl, ha, ?_, ?_, ?_⟩, ?_, ?_⟩
  · simp only [heap', NodeHeap.setL_self]
    rw [hNode]
    exact hk
  · simp only [heap', NodeHeap.setL_self]
    apply hT.congr
    intro b hb
    exact NodeHeap.setL_of_ne _ (by grind) _
  · simp only [heap', NodeHeap.setL_self]
    apply hr'.congr
    intro b hb
    exact NodeHeap.setL_of_ne _ (by grind) _
  · apply hU.congr
    intro b hb
    exact NodeHeap.setL_of_ne _ (by grind) _
  · have hIn : SameOutside
        (PrimState.addrs ⟨.node l k a r, L, R⟩)
        s.heap s'.heap := by
      intro b hb
      apply hOut b
      simp only [PrimState.addrs, mem_append, not_or] at hb ⊢
      exact ⟨hb.1.1, hb.2⟩
    apply hIn.setL
    simp [PrimState.addrs]

/- The split off tree when the root is not below the name. -/
private theorem split_ge_sim
    (hRep : RepState s ⟨.node l k a r, L, R⟩) :
    let s' := s.storeLtreep (s.heap a).lchild
    let heap' := s'.heap.setL a 0
    RepState { s' with heap := heap', ltreep := .own }
        ⟨.node .nil k a r, [], R⟩ ∧
      RepTree heap' s'.ltree (LeftSpine.plug L l) ∧
      SameOutside (PrimState.addrs ⟨.node l k a r, L, R⟩)
        s.heap heap' := by
  have hNodup := hRep.nodup
  rcases hRep.tree with ⟨hEq, ha, hk, hl, hr⟩
  intro s' heap'
  have hT : RepTree s'.heap s'.ltree (LeftSpine.plug L l) :=
    hRep.left.plug hl (by
      simp only [PrimState.addrs, BinTree.addrs_node,
        nodup_append, nodup_cons, mem_append,
        mem_cons] at hNodup ⊢
      grind)
  have hOut : SameOutside (LeftSpine.addrs L) s.heap
      s'.heap :=
    fun b hb => hRep.left.storeLeft_frame hb _
  simp only [PrimState.addrs, BinTree.addrs_node, nodup_append,
    nodup_cons, mem_append, mem_cons] at hNodup
  have hKeep : ∀ b, b ∉ LeftSpine.addrs L → b ≠ a →
      heap' b = s.heap b := by
    intro b hb hNe
    simp only [heap']
    rw [NodeHeap.setL_of_ne _ hNe]
    exact hOut b hb
  have hNode : heap' a = { s.heap a with lchild := 0 } := by
    simp only [heap', NodeHeap.setL_self]
    rw [hOut a (by grind)]
  refine ⟨⟨⟨hEq, ha, ?_, ?_, ?_⟩, rfl, ?_, ?_⟩, ?_, ?_⟩
  · change (heap' a).key = k
    rw [hNode]
    exact hk
  · change (heap' a).lchild = 0
    rw [hNode]
  · change RepTree heap' (heap' a).rchild r
    rw [hNode]
    exact hr.congr (fun b hb =>
      hKeep b (by grind) (by grind))
  · exact hRep.right.congr (fun b hb =>
      hKeep b (by grind) (by grind))
  · simp only [PrimState.addrs, BinTree.addrs_node,
      BinTree.addrs_nil, LeftSpine.addrs_nil, nodup_append,
      nodup_cons, mem_append, mem_cons]
    grind
  · apply hT.congr
    intro b hb
    rw [LeftSpine.addrs_plug, mem_append] at hb
    exact NodeHeap.setL_of_ne _ (by grind) _
  · intro b hb
    simp only [PrimState.addrs, BinTree.addrs_node,
      mem_append, mem_cons, not_or] at hb
    exact hKeep b hb.1.1 hb.1.2.2.1

theorem split_sim
    (hRep : RepSplay heap splay tree)
    (hWF : tree.WellFormed)
    (hFuel : tree.toList.length ≤ fuel)
    (name : Nat)
    (small : SplayRegs) :
    ∃ heap' splay' small',
      splay.split fuel heap name small =
          some (heap', splay', small') ∧
        RepSplay heap' splay' (tree.split name).1 ∧
        RepSplay heap' small' (tree.split name).2 ∧
        SameOutside tree.addrs heap heap' := by
  by_cases hNil : tree.istRoot = .nil
  · have hZero := hRep.istRoot_eq_zero_iff.mpr hNil
    refine ⟨heap, splay, small.init, ?_, ?_, ?_,
      SameOutside.refl⟩
    · simp [SplayRegs.split, hZero]
    · simpa [SplayTree.split, hNil] using hRep
    · simp only [SplayTree.split, hNil]
      exact of_nil rfl rfl
  · have hNe : splay.istRoot ≠ 0 := fun h =>
      hNil (hRep.istRoot_eq_zero_iff.mp h)
    rcases hRep.focus hWF hNil hFuel name with
      ⟨s, l, k, a, r, L, R, hRun, hSt, hRepS, hEq, hFrame,
        hTree, ha, hk⟩
    have hNodup := hRepS.nodup
    simp only [PrimState.addrs, BinTree.addrs_node,
      nodup_append, nodup_cons, mem_append, mem_cons] at hNodup
    by_cases hLt : k < name
    · have hSplit : tree.split name =
          (SplayTree.ofRoot (RightSpine.plug R .nil),
            SplayTree.ofRoot
              (.node (LeftSpine.plug L l) k a r)) := by
        cases hCase : tree.istRoot with
        | nil => exact absurd hCase hNil
        | node tl tk tv tr =>
            simp [SplayTree.split, hCase, hSt, hLt]
      rcases split_lt_sim hRepS with ⟨hSmall, hLarge, hOut⟩
      rw [hEq] at hOut
      rw [hSplit]
      refine ⟨_, _, _, by
        simp only [SplayRegs.split, hNe, hRun, hTree, hk,
          hLt, if_true, if_false, Option.bind_eq_bind,
          Option.bind_some]
        rfl, ?_, ?_, hFrame.trans hOut⟩
      · refine close ?_ hLarge ?_
        · rfl
        rw [RightSpine.addrs_plug, nodup_append]
        simp only [BinTree.addrs_nil]
        grind
      · have hNodupS : (BinTree.node (LeftSpine.plug L l) k a
            r).addrs.Nodup := by
          simp only [BinTree.addrs_node, LeftSpine.addrs_plug,
            nodup_append, nodup_cons, mem_append, mem_cons]
          grind
        exact @of_closed _ _
          (.node (LeftSpine.plug L l) k a r) hSmall hNodupS
          (fun _ => ⟨rfl, rfl, rfl⟩)
    · have hSplit : tree.split name =
          (⟨name, .node .nil k a r, [], R⟩,
            SplayTree.ofRoot (LeftSpine.plug L l)) := by
        cases hCase : tree.istRoot with
        | nil => exact absurd hCase hNil
        | node tl tk tv tr =>
            simp [SplayTree.split, hCase, hSt, hLt]
      rcases split_ge_sim hRepS with ⟨hLarge, hSmall, hOut⟩
      rw [hEq] at hOut
      rw [hSplit]
      refine ⟨_, _, _, by
        simp only [SplayRegs.split, hNe, hRun, hTree, hk, hLt,
          if_false, Option.bind_eq_bind, Option.bind_some]
        rfl, ?_, ?_, hFrame.trans hOut⟩
      · exact ⟨hLarge.tree, fun _ => rfl, fun _ => hLarge⟩
      · have hNodupL : (LeftSpine.plug L l).addrs.Nodup := by
          rw [LeftSpine.addrs_plug, nodup_append]
          grind
        split
        case isTrue hZero =>
          have hNilL := hSmall.eq_zero_iff.mp hZero
          rw [hNilL]
          exact of_nil rfl rfl
        case isFalse hNeL =>
          exact of_closed hSmall hNodupL
            (fun _ => ⟨rfl, rfl, rfl⟩)

/-
  Joining: the assembled small tree is hung left of the
  smallest node of the other tree.
-/
theorem join_sim
    {small : SplayRegs}
    {stree : SplayTree Nat}
    (hRep : RepSplay heap splay tree)
    (hWF : tree.WellFormed)
    (hFuel : tree.toList.length ≤ fuel)
    (hSmall : RepSplay heap small stree)
    (hDisj : ∀ a ∈ tree.addrs, a ∉ stree.addrs) :
    ∃ heap' splay' small',
      splay.join fuel heap small =
          some (heap', splay', small') ∧
        RepSplay heap' splay' (tree.join stree) ∧
        small'.istRoot = 0 ∧
        SameOutside (tree.addrs ++ stree.addrs)
          heap heap' := by
  by_cases hSNil : stree.istRoot = .nil
  · have hZero := hSmall.istRoot_eq_zero_iff.mpr hSNil
    refine ⟨heap, splay, small, ?_, ?_, hZero, SameOutside.refl⟩
    · simp [SplayRegs.join, hZero]
    · simpa [SplayTree.join, hSNil] using hRep
  · have hSNe : small.istRoot ≠ 0 := fun h =>
      hSNil (hSmall.istRoot_eq_zero_iff.mp h)
    rcases hSmall.assemble_sim hSNil with ⟨hSTree, hSFrame⟩
    have hSAddrs := addrs_assemble hSNil
    have hSNodup : (primAssemble stree.state).addrs.Nodup :=
      hSAddrs ▸ hSmall.nodup
    by_cases hNil : tree.istRoot = .nil
    · have hZero := hRep.istRoot_eq_zero_iff.mpr hNil
      have hJoin : tree.join stree =
          SplayTree.ofRoot (primAssemble stree.state) := by
        cases hCase : stree.istRoot with
        | nil => exact absurd hCase hSNil
        | node tl tk tv tr =>
            simp [SplayTree.join, hCase, hNil]
      refine ⟨_, _, _, by
        simp only [SplayRegs.join, hSNe, hZero, if_true,
          if_false]
        rfl, ?_, rfl, ?_⟩
      · rw [hJoin]
        exact close rfl hSTree hSNodup
      · intro b hb
        simp only [mem_append, not_or] at hb
        exact hSFrame b hb.2
    · have hNe : splay.istRoot ≠ 0 := fun h =>
        hNil (hRep.istRoot_eq_zero_iff.mp h)
      have hRep' : RepSplay (small.regs heap).assemble.heap
          splay tree := by
        apply hRep.congr
        intro a ha
        exact hSFrame a (hDisj a ha)
      rcases hRep'.focus hWF hNil hFuel machPortSmallest with
        ⟨s, l, k, a, r, L, R, hRun, hSt, hRepS, hEq,
          hFrame, hTree, ha, hk⟩
      rcases RepState.assemble_sim hRepS with ⟨hAsm, hOut⟩
      rw [hEq] at hOut
      have hNodup := hRepS.nodup
      have hIn : ∀ b ∈ PrimState.addrs
          ⟨.node l k a r, L, R⟩, b ∉ stree.addrs := by
        rw [hEq]
        exact hDisj
      rw [← hSAddrs] at hIn hDisj
      simp only [PrimState.addrs, BinTree.addrs_node,
        nodup_append, nodup_cons, mem_append,
        mem_cons] at hNodup hIn
      have hSTree' : RepTree s.assemble.heap small.istRoot
          (primAssemble stree.state) := by
        apply hSTree.congr
        intro b hb
        have hb' : b ∉ tree.addrs := fun h => hDisj b h hb
        rw [hOut b hb', hFrame b hb']
      have hR : a ∉ (RightSpine.plug R r).addrs := by
        rw [RightSpine.addrs_plug, mem_append]
        grind
      have hA : a ∉ (primAssemble stree.state).addrs := by
        grind
      have hNew := setL_rep hAsm hSTree' hR hA
      have hJoin : tree.join stree = SplayTree.ofRoot
          (.node (primAssemble stree.state) k a
            (RightSpine.plug R r)) := by
        cases hCase : stree.istRoot with
        | nil => exact absurd hCase hSNil
        | node tl tk tv tr =>
            cases hCase' : tree.istRoot with
            | nil => exact absurd hCase' hNil
            | node ul uk uv ur =>
                simp [SplayTree.join, hCase, hCase', hSt,
                  primAssemble]
      refine ⟨_, _, _, by
        simp only [SplayRegs.join, hSNe, hNe, hRun, if_false,
          Option.bind_eq_bind, Option.bind_some]
        rfl, ?_, rfl, ?_⟩
      · rw [hJoin]
        refine close ?_ hNew ?_
        · rfl
        · simp only [BinTree.addrs_node, RightSpine.addrs_plug,
            nodup_append, nodup_cons, mem_append, mem_cons]
          grind
      · have hAll : SameOutside
            (tree.addrs ++ stree.addrs) heap
            s.assemble.heap := by
          intro b hb
          simp only [mem_append, not_or] at hb
          rw [hOut b hb.1, hFrame b hb.1, hSFrame b hb.2]
        apply hAll.setL
        apply mem_append_left
        rw [← hEq, show s.assemble.tree = a from hTree]
        simp [PrimState.addrs]

end RepSplay

end Ipc

end OsfMach
