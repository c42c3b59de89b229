import OsfMach.Ipc.SplayOps
import OsfMach.Ipc.SplayTraverse

/-
  The pointer-inverting traversal of `ipc/ipc_splay.c` on a
  splay structure and its nodes in memory.

  On the way down a child field holds the pointer to the
  parent. A node that is freed may be overwritten with
  anything, so it is never read again.

  Main declarations:
    * `SplayRegs.traverseStart`, `traverseNext`,
      `traverseFinish`
    * `SplayRegs.traverse`
    * `RepUp`, `RepTrav`
    * `RepSplay.traverse_sim`
    * `splayTraverse_yields`
-/

------
-- The State Machine in Memory
------

namespace OsfMach

namespace Ipc

open List
open Lib

variable {σ : Type} {heap : NodeHeap Nat}
variable {addrs addrs' : List Nat} {junk : Nat → Node Nat}
variable {splay : SplayRegs} {parent : List (TravFrame Nat)}
variable {k a fuel : Nat}

/- `ite_free`: the allocator may write to the node. -/
def iteFree
    (junk : Nat → Node Nat)
    (heap : NodeHeap Nat)
    (a : Nat) : NodeHeap Nat :=
  Function.update heap a (junk a)

namespace SplayRegs

/-
  The label `traverse_entry`; the returned pointer, the
  nodes and the structure.
-/
def traverseEntry
    (heap : NodeHeap Nat)
    (splay : SplayRegs)
    (current parent : Nat) :
    Nat × NodeHeap Nat × SplayRegs :=
  (current, heap,
    { splay with istLtree := current, istRtree := parent })

/- The label `traverse_left`. -/
def traverseLeft :
    Nat → NodeHeap Nat → SplayRegs → Nat → Nat →
      Option (Nat × NodeHeap Nat × SplayRegs)
| 0, _, _, _, _ => none
| fuel + 1, heap, splay, current, parent =>
    if (heap current).lchild ≠ 0 then
      traverseLeft fuel (heap.setL current parent) splay
        (heap current).lchild current
    else some (traverseEntry heap splay current parent)

/- The label `traverse_back`. -/
def traverseBack :
    Nat → NodeHeap Nat → SplayRegs → Nat → Nat →
      Option (Nat × NodeHeap Nat × SplayRegs)
| 0, _, _, _, _ => none
| fuel + 1, heap, splay, current, parent =>
    if parent = 0 then
      some (0, heap, { splay with istRoot := current })
    else if (heap current).key < (heap parent).key then
      some (traverseEntry (heap.setL parent current) splay
        parent (heap parent).lchild)
    else
      traverseBack fuel (heap.setR parent current) splay
        parent (heap parent).rchild

/- The label `traverse_right`. -/
def traverseRight
    (fuel : Nat)
    (heap : NodeHeap Nat)
    (splay : SplayRegs)
    (current parent : Nat) :
    Option (Nat × NodeHeap Nat × SplayRegs) :=
  if (heap current).rchild ≠ 0 then
    traverseLeft fuel (heap.setR current parent) splay
      (heap current).rchild current
  else traverseBack fuel heap splay current parent

/- `ipc_splay_traverse_start`. -/
def traverseStart
    (fuel : Nat)
    (heap : NodeHeap Nat)
    (splay : SplayRegs) :
    Option (Nat × NodeHeap Nat × SplayRegs) :=
  if splay.istRoot = 0 then some (0, heap, splay)
  else
    let s := (splay.regs heap).assemble
    traverseLeft fuel s.heap
      { splay with istLtree := s.ltree, istRtree := s.rtree }
      splay.istRoot 0

/-
  `ipc_splay_traverse_next`. A failed assertion ends the
  run; the local side trees start out uninitialised.
-/
def traverseNext
    (junk : Nat → Node Nat)
    (fuel : Nat)
    (heap : NodeHeap Nat)
    (splay : SplayRegs)
    (delete : Bool) :
    Option (Nat × NodeHeap Nat × SplayRegs) :=
  let current := splay.istLtree
  let parent := splay.istRtree
  if current = 0 then none
  else if !delete then
    traverseRight fuel heap splay current parent
  else if (heap current).lchild = 0 then
    if (heap current).rchild = 0 then
      if parent = 0 then
        some (0, iteFree junk heap current,
          { splay with istRoot := 0 })
      else if (heap current).key < (heap parent).key then
        let heap := iteFree junk heap current
        some (traverseEntry (heap.setL parent 0) splay
          parent (heap parent).lchild)
      else
        let heap := iteFree junk heap current
        traverseBack fuel (heap.setR parent 0) splay
          parent (heap parent).rchild
    else
      traverseLeft fuel (iteFree junk heap current) splay
        (heap current).rchild parent
  else if (heap current).rchild = 0 then
    traverseBack fuel (iteFree junk heap current) splay
      (heap current).lchild parent
  else do
    let prev := current
    let s ← PrimRegs.primLookup machPortLargest fuel
      ⟨heap, (heap prev).lchild, 0, .own, 0, .own⟩
    let s := s.assemble
    if (s.heap s.tree).rchild ≠ 0 then none
    else
      let heap := s.heap.setR s.tree (s.heap prev).rchild
      traverseRight fuel (iteFree junk heap prev) splay
        s.tree parent

/- `ipc_splay_traverse_finish`. -/
def traverseFinish
    (heap : NodeHeap Nat)
    (splay : SplayRegs) : SplayRegs :=
  if splay.istRoot ≠ 0 then
    { splay with
      istName := (heap splay.istRoot).key
      istLtreep := .own
      istRtreep := .own }
  else splay

/-
  The loop of the callers. The body reads the current entry,
  updates its own state, and says whether to delete.
-/
def traverseLoop
    (junk : Nat → Node Nat)
    (fuel : Nat)
    (body : σ → Nat → Nat → σ × Bool) :
    Nat → σ → Nat × NodeHeap Nat × SplayRegs →
      Option (σ × NodeHeap Nat × SplayRegs)
| 0, s, (entry, heap, splay) =>
    if entry = 0 then some (s, heap, splay) else none
| turns + 1, s, (entry, heap, splay) =>
    if entry = 0 then some (s, heap, splay)
    else do
      let (s, delete) := body s (heap entry).key entry
      let next ← traverseNext junk fuel heap splay delete
      traverseLoop junk fuel body turns s next

/- A whole traversal, from start to finish. -/
def traverse
    (junk : Nat → Node Nat)
    (fuel : Nat)
    (heap : NodeHeap Nat)
    (splay : SplayRegs)
    (body : σ → Nat → Nat → σ × Bool)
    (s : σ) :
    Option (σ × NodeHeap Nat × SplayRegs) := do
  let start ← traverseStart fuel heap splay
  let (s, heap, splay) ←
    traverseLoop junk fuel body fuel s start
  some (s, heap, traverseFinish heap splay)

end SplayRegs

------
-- Half-Inverted Trees
------

/- The nodes of the inverted part. -/
def upAddrs : List (TravFrame Nat) → List Nat
| [] => []
| .left _ a rchild :: parent =>
    a :: (rchild.addrs ++ upAddrs parent)
| .right lchild _ a :: parent =>
    a :: (lchild.addrs ++ upAddrs parent)

/-
  The pointer leads up to the root: on one side of a frame
  hangs a subtree, on the other the rest of the way up.
-/
def RepUp
    (h : NodeHeap Nat) :
    Nat → List (TravFrame Nat) → Prop
| p, [] => p = 0
| p, .left name a rchild :: parent =>
    p = a ∧ a ≠ 0 ∧ (h a).key = name ∧
      RepTree h (h a).rchild rchild ∧
      RepUp h (h a).lchild parent
| p, .right lchild name a :: parent =>
    p = a ∧ a ≠ 0 ∧ (h a).key = name ∧
      RepTree h (h a).lchild lchild ∧
      RepUp h (h a).rchild parent

/- The nodes on the way up are those of the two lists. -/
theorem upAddrs_perm
    (parent : List (TravFrame Nat)) :
    (upAddrs parent).Perm
      ((travBefore parent ++
        travAfter parent).map Prod.snd) := by
  induction parent with
  | nil => exact List.Perm.refl _
  | cons frame parent ih =>
      cases frame with
      | left name a rchild =>
          simp only [upAddrs, travBefore, travAfter,
            BinTree.addrs, map_append, map_cons]
            at ih ⊢
          grind
      | right lchild name a =>
          simp only [upAddrs, travBefore, travAfter,
            BinTree.addrs, map_append, map_cons,
            map_nil] at ih ⊢
          grind

/- Only the nodes on the way up matter. -/
theorem RepUp.congr
    {h h' : NodeHeap Nat}
    {p : Nat}
    {parent : List (TravFrame Nat)}
    (hUp : RepUp h p parent)
    (hSame : ∀ a ∈ upAddrs parent, h' a = h a) :
    RepUp h' p parent := by
  induction parent generalizing p with
  | nil => exact hUp
  | cons frame parent ih =>
      cases frame with
      | left name a rchild | right lchild name a =>
          rcases hUp with ⟨hEq, ha, hKey, hTree, hRest⟩
          have hA := hSame a (by simp [upAddrs])
          refine ⟨hEq, ha, by rw [hA, hKey], ?_, ?_⟩
          · rw [hA]
            exact hTree.congr (fun b hb =>
              hSame b (by simp [upAddrs, hb]))
          · rw [hA]
            exact ih hRest (fun b hb =>
              hSame b (by simp [upAddrs, hb]))

/- The state of a traversal in memory. -/
def RepTrav
    (out : Nat × NodeHeap Nat × SplayRegs) :
    TravResult Nat → Prop
| .entry current parent =>
    out.1 = out.2.2.istLtree ∧
      RepTree out.2.1 out.2.2.istLtree current ∧
      RepUp out.2.1 out.2.2.istRtree parent ∧
      (current.addrs ++ upAddrs parent).Nodup
| .done root =>
    out.1 = 0 ∧ RepTree out.2.1 out.2.2.istRoot root ∧
      root.addrs.Nodup

/- Moving a root to the way up moves its node along. -/
theorem addrs_left_perm
    (l r : BinTree Nat Nat)
    (k a : Nat)
    (parent : List (TravFrame Nat)) :
    (l.addrs ++ upAddrs (.left k a r :: parent)).Perm
      ((BinTree.node l k a r).addrs ++ upAddrs parent) := by
  simp only [upAddrs, BinTree.addrs_node]
  grind

theorem addrs_right_perm
    (l r : BinTree Nat Nat)
    (k a : Nat)
    (parent : List (TravFrame Nat)) :
    (r.addrs ++ upAddrs (.right l k a :: parent)).Perm
      ((BinTree.node l k a r).addrs ++ upAddrs parent) := by
  simp only [upAddrs, BinTree.addrs_node]
  grind

theorem SameOutside.mono
    {h h' : NodeHeap Nat}
    (hSame : SameOutside addrs h h')
    (hSub : addrs ⊆ addrs') :
    SameOutside addrs' h h' :=
  fun b hb => hSame b (fun hMem => hb (hSub hMem))

------
-- Inverting a Pointer and Putting It Back
------

section Pointers

variable {heap : NodeHeap Nat} {parent : List (TravFrame Nat)}
variable {p q k a : Nat} {l r : BinTree Nat Nat}
variable {c : Nat} {current : BinTree Nat Nat}

/- Down to the left. -/
theorem push_left
    (hTree : RepTree heap p (.node l k a r))
    (hUp : RepUp heap q parent)
    (hNodup : ((BinTree.node l k a r).addrs ++
      upAddrs parent).Nodup) :
    RepTree (heap.setL p q) (heap p).lchild l ∧
      RepUp (heap.setL p q) p (.left k a r :: parent) := by
  rcases hTree with ⟨hEq, ha, hKey, hL, hR⟩
  subst hEq
  simp only [BinTree.addrs_node, nodup_append,
    nodup_cons, mem_append, mem_cons]
    at hNodup
  have hSame : ∀ b ∈ l.addrs ++ (r.addrs ++ upAddrs parent),
      heap.setL p q b = heap b := by
    intro b hb
    apply heap.setL_of_ne
    intro hEq
    grind
  refine ⟨hL.congr (fun b hb => hSame b (by simp [hb])),
    rfl, ha, by simp [hKey], ?_, ?_⟩
  · rw [NodeHeap.setL_self]
    exact hR.congr (fun b hb => hSame b (by simp [hb]))
  · rw [NodeHeap.setL_self]
    exact hUp.congr (fun b hb => hSame b (by simp [hb]))

/- Down to the right. -/
theorem push_right
    (hTree : RepTree heap p (.node l k a r))
    (hUp : RepUp heap q parent)
    (hNodup : ((BinTree.node l k a r).addrs ++
      upAddrs parent).Nodup) :
    RepTree (heap.setR p q) (heap p).rchild r ∧
      RepUp (heap.setR p q) p (.right l k a :: parent) := by
  rcases hTree with ⟨hEq, ha, hKey, hL, hR⟩
  subst hEq
  simp only [BinTree.addrs_node, nodup_append,
    nodup_cons, mem_append, mem_cons]
    at hNodup
  have hSame : ∀ b ∈ l.addrs ++ (r.addrs ++ upAddrs parent),
      heap.setR p q b = heap b := by
    intro b hb
    apply heap.setR_of_ne
    intro hEq
    grind
  refine ⟨hR.congr (fun b hb => hSame b (by simp [hb])),
    rfl, ha, by simp [hKey], ?_, ?_⟩
  · rw [NodeHeap.setR_self]
    exact hL.congr (fun b hb => hSame b (by simp [hb]))
  · rw [NodeHeap.setR_self]
    exact hUp.congr (fun b hb => hSame b (by simp [hb]))

/- Back up from the left. -/
theorem pop_left
    (hTree : RepTree heap c current)
    (hUp : RepUp heap p (.left k a r :: parent))
    (hNodup : (current.addrs ++
      upAddrs (.left k a r :: parent)).Nodup) :
    RepTree (heap.setL p c) p (.node current k a r) ∧
      RepUp (heap.setL p c) (heap p).lchild parent := by
  rcases hUp with ⟨hEq, ha, hKey, hR, hUp⟩
  subst hEq
  simp only [upAddrs, nodup_append,
    nodup_cons, mem_append, mem_cons]
    at hNodup
  have hSame : ∀ b ∈ current.addrs ++
      (r.addrs ++ upAddrs parent),
      heap.setL p c b = heap b := by
    intro b hb
    apply heap.setL_of_ne
    intro hEq
    grind
  refine ⟨⟨rfl, ha, by simp [hKey], ?_, ?_⟩,
    hUp.congr (fun b hb => hSame b (by simp [hb]))⟩
  · rw [NodeHeap.setL_self]
    exact hTree.congr (fun b hb => hSame b (by simp [hb]))
  · rw [NodeHeap.setL_self]
    exact hR.congr (fun b hb => hSame b (by simp [hb]))

/- Back up from the right. -/
theorem pop_right
    (hTree : RepTree heap c current)
    (hUp : RepUp heap p (.right l k a :: parent))
    (hNodup : (current.addrs ++
      upAddrs (.right l k a :: parent)).Nodup) :
    RepTree (heap.setR p c) p (.node l k a current) ∧
      RepUp (heap.setR p c) (heap p).rchild parent := by
  rcases hUp with ⟨hEq, ha, hKey, hL, hUp⟩
  subst hEq
  simp only [upAddrs, nodup_append,
    nodup_cons, mem_append, mem_cons]
    at hNodup
  have hSame : ∀ b ∈ current.addrs ++
      (l.addrs ++ upAddrs parent),
      heap.setR p c b = heap b := by
    intro b hb
    apply heap.setR_of_ne
    intro hEq
    grind
  refine ⟨⟨rfl, ha, by simp [hKey], ?_, ?_⟩,
    hUp.congr (fun b hb => hSame b (by simp [hb]))⟩
  · rw [NodeHeap.setR_self]
    exact hL.congr (fun b hb => hSame b (by simp [hb]))
  · rw [NodeHeap.setR_self]
    exact hTree.congr (fun b hb => hSame b (by simp [hb]))

end Pointers

------
-- Simulation of the Labels
------

/-
  A label ran to its end: what it leaves stands for the
  result on trees, and only the given nodes changed.
-/
def TravReaches
    (addrs : List Nat)
    (heap : NodeHeap Nat)
    (out : Option (Nat × NodeHeap Nat × SplayRegs))
    (result : TravResult Nat) : Prop :=
  ∃ next, out = some next ∧ RepTrav next result ∧
    SameOutside addrs heap next.2.1

/- Stores before a label only touch the given nodes. -/
theorem TravReaches.after
    {heap heap' : NodeHeap Nat}
    {out : Option (Nat × NodeHeap Nat × SplayRegs)}
    {result : TravResult Nat}
    (hReach : TravReaches addrs' heap' out result)
    (hFrame : SameOutside addrs heap heap')
    (hSub : addrs' ⊆ addrs) :
    TravReaches addrs heap out result := by
  rcases hReach with ⟨next, hOut, hRep, hSame⟩
  exact ⟨next, hOut, hRep, hFrame.trans (hSame.mono hSub)⟩

/- The label `traverse_left`. -/
theorem traverseLeft_sim
    {splay : SplayRegs}
    (tree : BinTree Nat Nat)
    {heap : NodeHeap Nat}
    {parent : List (TravFrame Nat)}
    {p q : Nat}
    {fuel : Nat}
    (hTree : RepTree heap p tree)
    (hNe : tree ≠ .nil)
    (hUp : RepUp heap q parent)
    (hNodup : (tree.addrs ++ upAddrs parent).Nodup)
    (hFuel : tree.size ≤ fuel) :
    TravReaches (tree.addrs ++ upAddrs parent) heap
      (SplayRegs.traverseLeft fuel heap splay p q)
      (traverseLeft tree parent) := by
  induction tree generalizing heap parent p q fuel with
  | nil => exact absurd rfl hNe
  | node l k a r ihL _ =>
      rw [BinTree.size] at hFuel
      cases fuel with
      | zero => omega
      | succ fuel =>
          cases l with
          | nil =>
              have hZero : (heap p).lchild = 0 :=
                hTree.1 ▸ hTree.2.2.2.1
              have hRun : SplayRegs.traverseLeft (fuel + 1)
                  heap splay p q =
                    some (SplayRegs.traverseEntry heap
                      splay p q) := by
                simp [SplayRegs.traverseLeft, hZero]
              exact ⟨_, hRun, ⟨rfl, hTree, hUp, hNodup⟩,
                SameOutside.refl⟩
          | node ll lk la lr =>
              have hChild : (heap p).lchild ≠ 0 := by
                intro hZero
                have hL := hTree.2.2.2.1
                rw [← hTree.1, hZero] at hL
                exact hL.2.1 hL.1.symm
              have hRun : SplayRegs.traverseLeft (fuel + 1)
                  heap splay p q =
                    SplayRegs.traverseLeft fuel
                      (heap.setL p q) splay
                      (heap p).lchild p := by
                simp [SplayRegs.traverseLeft, hChild]
              rcases push_left hTree hUp hNodup with
                ⟨hTree', hUp'⟩
              have hPerm := addrs_left_perm
                (.node ll lk la lr) r k a parent
              have hReach := @ihL _ _ _ _ fuel hTree'
                (by simp) hUp' (hPerm.nodup_iff.mpr hNodup)
                (by omega)
              rw [hRun]
              apply hReach.after _ hPerm.subset
              exact SameOutside.refl.setL
                (by simp [hTree.1]) q

theorem rootName_eq
    {p : Nat}
    {tree : BinTree Nat Nat}
    (hTree : RepTree heap p tree)
    (hNe : tree ≠ .nil) :
    (heap p).key = rootName tree := by
  cases tree with
  | nil => exact absurd rfl hNe
  | node l k a r =>
      rw [hTree.1]
      exact hTree.2.2.1

/-
  The label `traverse_back`. The order of the entries makes
  the comparison of the names tell the side of the parent.
-/
theorem traverseBack_sim
    {splay : SplayRegs}
    (parent : List (TravFrame Nat))
    {heap : NodeHeap Nat}
    {current : BinTree Nat Nat}
    {p q : Nat}
    {fuel : Nat}
    (hTree : RepTree heap p current)
    (hNe : current ≠ .nil)
    (hUp : RepUp heap q parent)
    (hNodup : (current.addrs ++ upAddrs parent).Nodup)
    (hSorted :
      KeySorted (travBefore parent ++
        (current.toList ++ travAfter parent)))
    (hFuel : parent.length < fuel) :
    TravReaches (current.addrs ++ upAddrs parent) heap
      (SplayRegs.traverseBack fuel heap splay p q)
      (traverseBack current parent) := by
  have hKey := rootName_eq hTree hNe
  rcases rootName_mem hNe with ⟨w, hRoot⟩
  induction parent generalizing heap current p q fuel w with
  | nil =>
      have hZero : q = 0 := hUp
      cases fuel with
      | zero => simp at hFuel
      | succ fuel =>
          have hRun : SplayRegs.traverseBack (fuel + 1)
              heap splay p q =
                some (0, heap,
                  { splay with istRoot := p }) := by
            simp [SplayRegs.traverseBack, hZero]
          refine ⟨_, hRun, ⟨rfl, hTree, ?_⟩, SameOutside.refl⟩
          exact (nodup_append.mp hNodup).1
  | cons frame parent ih =>
      simp only [length_cons] at hFuel
      cases fuel with
      | zero => omega
      | succ fuel =>
          cases frame with
          | left k a r =>
              have hParts :=
                (KeySorted.append_iff.mp hSorted).2.1
              have hLt : rootName current < k :=
                (KeySorted.append_iff.mp hParts).2.2 _ hRoot
                  (k, a) (by simp [travAfter])
              have hq : q ≠ 0 := hUp.1 ▸ hUp.2.1
              have hqKey : (heap q).key = k :=
                hUp.1 ▸ hUp.2.2.1
              have hRun : SplayRegs.traverseBack (fuel + 1)
                  heap splay p q =
                    some (SplayRegs.traverseEntry
                      (heap.setL q p) splay q
                      (heap q).lchild) := by
                simp [SplayRegs.traverseBack, hq, hKey,
                  hqKey, hLt]
              rcases pop_left hTree hUp hNodup with
                ⟨hTree', hUp'⟩
              have hPerm := addrs_left_perm current r k a
                parent
              simp only [traverseBack, hLt, if_true]
              refine ⟨_, hRun, ⟨rfl, hTree', hUp',
                hPerm.nodup_iff.mp hNodup⟩, ?_⟩
              exact SameOutside.refl.setL
                (by simp [hUp.1, upAddrs]) p
          | right l k a =>
              have hLt : k < rootName current :=
                (KeySorted.append_iff.mp hSorted).2.2 (k, a)
                  (by simp [travBefore]) _
                  (mem_append_left _ hRoot)
              have hNot : ¬ rootName current < k := by omega
              have hq : q ≠ 0 := hUp.1 ▸ hUp.2.1
              have hqKey : (heap q).key = k :=
                hUp.1 ▸ hUp.2.2.1
              have hRun : SplayRegs.traverseBack (fuel + 1)
                  heap splay p q =
                    SplayRegs.traverseBack fuel
                      (heap.setR q p) splay q
                      (heap q).rchild := by
                simp [SplayRegs.traverseBack, hq, hKey,
                  hqKey, hNot]
              rcases pop_right hTree hUp hNodup with
                ⟨hTree', hUp'⟩
              have hPerm := addrs_right_perm l current k a
                parent
              have hReach := @ih (heap.setR q p)
                (.node l k a current) q (heap q).rchild fuel
                hTree' (by simp) hUp'
                (hPerm.nodup_iff.mp hNodup)
                (by
                  simpa [travBefore, travAfter] using hSorted)
                (by omega) (rootName_eq hTree' (by simp)) a
                (by simp [rootName])
              simp only [traverseBack, hNot, if_false]
              rw [hRun]
              apply hReach.after _ hPerm.symm.subset
              exact SameOutside.refl.setR
                (by simp [hUp.1, upAddrs]) p

/- The label `traverse_right`. -/
theorem traverseRight_sim
    {splay : SplayRegs}
    {heap : NodeHeap Nat}
    {parent : List (TravFrame Nat)}
    {l r : BinTree Nat Nat}
    {k a p q : Nat}
    {fuel : Nat}
    (hTree : RepTree heap p (.node l k a r))
    (hUp : RepUp heap q parent)
    (hNodup : ((BinTree.node l k a r).addrs ++
      upAddrs parent).Nodup)
    (hSorted :
      KeySorted (travBefore parent ++
        ((BinTree.node l k a r).toList ++
          travAfter parent)))
    (hFuel : r.size + parent.length < fuel) :
    TravReaches ((BinTree.node l k a r).addrs ++
        upAddrs parent) heap
      (SplayRegs.traverseRight fuel heap splay p q)
      (traverseRight (.node l k a r) parent) := by
  cases r with
  | nil =>
      have hZero : (heap p).rchild = 0 :=
        hTree.1 ▸ hTree.2.2.2.2
      have hRun : SplayRegs.traverseRight fuel heap splay p q =
          SplayRegs.traverseBack fuel heap splay p q := by
        simp [SplayRegs.traverseRight, hZero]
      rw [hRun]
      exact traverseBack_sim parent hTree (by simp) hUp hNodup
        hSorted (by omega)
  | node rl rk ra rr =>
      have hChild : (heap p).rchild ≠ 0 := by
        intro hZero
        have hR := hTree.2.2.2.2
        rw [← hTree.1, hZero] at hR
        exact hR.2.1 hR.1.symm
      have hRun : SplayRegs.traverseRight fuel heap splay p q =
          SplayRegs.traverseLeft fuel (heap.setR p q) splay
            (heap p).rchild p := by
        simp [SplayRegs.traverseRight, hChild]
      rcases push_right hTree hUp hNodup with ⟨hTree', hUp'⟩
      have hPerm := addrs_right_perm l (.node rl rk ra rr) k a
        parent
      have hReach := @traverseLeft_sim splay
        (.node rl rk ra rr) _ _ _ _ fuel hTree' (by simp)
        hUp' (hPerm.nodup_iff.mpr hNodup) (by omega)
      rw [hRun]
      apply hReach.after _ hPerm.subset
      exact SameOutside.refl.setR (by simp [hTree.1]) q

------
-- One Step
------

/-
  Splaying the largest name brings up a root without a right
  child.
-/
theorem largest_root
    {left : BinTree Nat Nat}
    (hOrd : left.Ordered)
    (hNe : left ≠ .nil)
    (hLe :
      ∀ entry ∈ left.toList,
        entry.1 ≤ machPortLargest) :
    ∃ l k a,
      primAssemble (primLookup machPortLargest left) =
        .node l k a .nil := by
  have hNil : ¬ left.isNil = true := fun h =>
    hNe (BinTree.isNil_iff.mp h)
  have hJoin := SplayTree.toList_deleteJoin left left hOrd hLe
  have hList :
      (primAssemble
        (primLookup machPortLargest left)).toList =
          left.toList := by
    rw [toList_primAssemble _
      (primLookup_tree_ne_nil _ hOrd hNe),
      toList_primLookup _ hOrd hNe]
  unfold SplayTree.deleteJoin at hJoin
  rw [if_neg hNil, if_neg hNil] at hJoin
  cases hCase :
      primAssemble (primLookup machPortLargest left) with
  | nil =>
      rw [hCase] at hList
      exact absurd
        (BinTree.toList_eq_nil_iff.mp hList.symm) hNe
  | node l k a r =>
      rw [hCase] at hJoin hList
      have hFront : (l.toList ++ [(k, a)]) ++ left.toList =
          left.toList ++ left.toList := by
        rw [← hJoin]
        simp
      have hWhole := append_cancel_right hFront
      have hRight : r.toList = [] := by
        rw [← hWhole] at hList
        simpa using hList
      rw [BinTree.toList_eq_nil_iff.mp hRight]
      exact ⟨l, k, a, rfl⟩

theorem length_le_upAddrs
    (parent : List (TravFrame Nat)) :
    parent.length ≤ (upAddrs parent).length := by
  induction parent with
  | nil => simp
  | cons frame parent ih =>
      cases frame <;>
        simp only [upAddrs, length_cons,
          length_append] <;> omega

theorem length_addrs
    (tree : BinTree Nat Nat) :
    tree.addrs.length = tree.size := by
  rw [BinTree.addrs, length_map, BinTree.length_toList]

section Free

variable {junk : Nat → Node Nat} {heap : NodeHeap Nat} {a : Nat}

theorem iteFree_of_ne
    {b : Nat}
    (hNe : b ≠ a) :
    iteFree junk heap a b = heap b :=
  Function.update_of_ne hNe _ _

theorem iteFree_frame
    (ha : a ∈ addrs) :
    SameOutside addrs heap (iteFree junk heap a) := by
  intro b hb
  exact iteFree_of_ne (fun hEq => hb (hEq ▸ ha))

/- A tree without the node is not affected. -/
theorem repTree_free
    {p : Nat}
    {tree : BinTree Nat Nat}
    (hTree : RepTree heap p tree)
    (hOut : a ∉ tree.addrs) :
    RepTree (iteFree junk heap a) p tree :=
  hTree.congr (fun _ hb =>
    iteFree_of_ne (fun hEq => hOut (hEq ▸ hb)))

theorem RepUp.free
    {p : Nat}
    {parent : List (TravFrame Nat)}
    (hUp : RepUp heap p parent)
    (hOut : a ∉ upAddrs parent) :
    RepUp (iteFree junk heap a) p parent :=
  hUp.congr (fun _ hb =>
    iteFree_of_ne (fun hEq => hOut (hEq ▸ hb)))

end Free

/- Deleting an entry without children. -/
theorem traverseNext_leaf_sim
    {frame : TravFrame Nat}
    (hTree : RepTree heap splay.istLtree
      (.node .nil k a .nil))
    (hUp : RepUp heap splay.istRtree (frame :: parent))
    (hNodup : ((BinTree.node .nil k a .nil).addrs ++
      upAddrs (frame :: parent)).Nodup)
    (hSorted :
      KeySorted (travBefore (frame :: parent) ++
        ((BinTree.node .nil k a .nil).toList ++
          travAfter (frame :: parent))))
    (hRest :
      KeySorted (travBefore (frame :: parent) ++
        ((BinTree.nil : BinTree Nat Nat).toList ++
          ((BinTree.nil : BinTree Nat Nat).toList ++
            travAfter (frame :: parent)))))
    (hFuel : ((BinTree.node .nil k a .nil).addrs ++
      upAddrs (frame :: parent)).length ≤ fuel) :
    TravReaches ((BinTree.node .nil k a .nil).addrs ++
        upAddrs (frame :: parent)) heap
      (SplayRegs.traverseNext junk fuel heap splay true)
      (traverseNext (.node .nil k a .nil) (frame :: parent)
        true) := by
  have hLen := length_le_upAddrs (frame :: parent)
  rw [length_append, length_addrs, BinTree.size] at hFuel
  have hEq : splay.istLtree = a := hTree.1
  have ha : a ≠ 0 := hTree.2.1
  have hKey : (heap a).key = k := hTree.2.2.1
  have hZero : (heap a).lchild = 0 := hTree.2.2.2.1
  have hZero' : (heap a).rchild = 0 := hTree.2.2.2.2
  have hSplit := nodup_cons.mp hNodup
  have hFree : SameOutside
      ((BinTree.node .nil k a .nil).addrs ++
        upAddrs (frame :: parent)) heap
      (iteFree junk heap a) := iteFree_frame (by simp)
  have hUp' := @RepUp.free junk _ _ _ _ hUp hSplit.1
  cases frame with
  | left pk pa pr =>
      have hTail := (KeySorted.append_iff.mp hSorted).2.1
      have hLt : k < pk :=
        (KeySorted.append_iff.mp hTail).2.2 (k, a) (by simp)
          (pk, pa) (by simp [travAfter])
      have hp : splay.istRtree ≠ 0 := hUp.1 ▸ hUp.2.1
      have hpKey : (heap splay.istRtree).key = pk :=
        hUp.1 ▸ hUp.2.2.1
      have hRun : SplayRegs.traverseNext junk fuel heap splay
          true = some (SplayRegs.traverseEntry
            ((iteFree junk heap a).setL splay.istRtree 0)
            splay splay.istRtree
            (iteFree junk heap a splay.istRtree).lchild) := by
        simp [SplayRegs.traverseNext, hEq, ha, hZero, hZero',
          hp, hKey, hpKey, hLt]
      have hNil : RepTree (iteFree junk heap a) 0 .nil := rfl
      rcases pop_left hNil hUp' (by simpa using hSplit.2) with
        ⟨hTree', hUp''⟩
      have hPerm := addrs_left_perm .nil pr pk pa parent
      simp only [traverseNext, if_true, hLt]
      refine ⟨_, hRun, ⟨rfl, hTree', hUp'',
        hPerm.nodup_iff.mp (by simpa using hSplit.2)⟩, ?_⟩
      exact hFree.setL (by simp [hUp.1, upAddrs]) 0
  | right pl pk pa =>
      have hLt : pk < k :=
        (KeySorted.append_iff.mp hSorted).2.2 (pk, pa)
          (by simp [travBefore]) (k, a) (by simp)
      have hNot : ¬ k < pk := by omega
      have hp : splay.istRtree ≠ 0 := hUp.1 ▸ hUp.2.1
      have hpKey : (heap splay.istRtree).key = pk :=
        hUp.1 ▸ hUp.2.2.1
      have hRun : SplayRegs.traverseNext junk fuel heap splay
          true = SplayRegs.traverseBack fuel
            ((iteFree junk heap a).setR splay.istRtree 0)
            splay splay.istRtree
            (iteFree junk heap a splay.istRtree).rchild := by
        simp [SplayRegs.traverseNext, hEq, ha, hZero, hZero',
          hp, hKey, hpKey, hNot]
      have hNil : RepTree (iteFree junk heap a) 0 .nil := rfl
      rcases pop_right hNil hUp' (by simpa using hSplit.2) with
        ⟨hTree', hUp''⟩
      have hPerm := addrs_right_perm pl .nil pk pa parent
      have hReach := @traverseBack_sim splay parent _ _ _ _
        fuel hTree' (by simp) hUp''
        (hPerm.nodup_iff.mp (by simpa using hSplit.2))
        (by simpa [travBefore, travAfter] using hRest)
        (by simp only [length_cons] at hLen; omega)
      simp only [traverseNext, if_true, hNot, if_false]
      rw [hRun]
      apply hReach.after
      · exact hFree.setR (by simp [hUp.1, upAddrs]) 0
      · intro b hb
        simp only [BinTree.addrs_node, BinTree.addrs_nil,
          upAddrs, mem_append, mem_cons] at hb ⊢
        tauto

/-
  Deleting an entry with two children. The freed node is out
  of the subtrees that are joined.
-/
theorem traverseNext_join_sim
    {ll lr rl rr : BinTree Nat Nat}
    {lk la rk ra : Nat}
    (hTree : RepTree heap splay.istLtree
      (.node (.node ll lk la lr) k a (.node rl rk ra rr)))
    (hUp : RepUp heap splay.istRtree parent)
    (hNodup : ((BinTree.node (.node ll lk la lr) k a
      (.node rl rk ra rr)).addrs ++ upAddrs parent).Nodup)
    (hRest :
      KeySorted (travBefore parent ++
        ((BinTree.node ll lk la lr).toList ++
          ((BinTree.node rl rk ra rr).toList ++
            travAfter parent))))
    (hLe :
      ∀ entry ∈ (BinTree.node ll lk la lr).toList,
        entry.1 ≤ machPortLargest)
    (hFuel : ((BinTree.node (.node ll lk la lr) k a
      (.node rl rk ra rr)).addrs ++
        upAddrs parent).length ≤ fuel) :
    TravReaches ((BinTree.node (.node ll lk la lr) k a
        (.node rl rk ra rr)).addrs ++ upAddrs parent) heap
      (SplayRegs.traverseNext junk fuel heap splay true)
      (traverseNext (.node (.node ll lk la lr) k a
        (.node rl rk ra rr)) parent true) := by
  have hLen := length_le_upAddrs parent
  rw [length_append, length_addrs, BinTree.size] at hFuel
  rcases hTree with ⟨hEq, ha, hKey, hL, hR⟩
  have hChildL : (heap a).lchild ≠ 0 := fun h =>
    absurd (hL.eq_zero_iff.mp h) (by simp)
  have hChildR : (heap a).rchild ≠ 0 := fun h =>
    absurd (hR.eq_zero_iff.mp h) (by simp)
  have hOrd : (BinTree.node ll lk la lr).Ordered :=
    (KeySorted.append_iff.mp
      (KeySorted.append_iff.mp hRest).2.1).1
  have hNeL : BinTree.node ll lk la lr ≠ .nil := by simp
  have hParts := hNodup
  rw [BinTree.addrs_node] at hParts
  simp only [nodup_append, nodup_cons,
    mem_append, mem_cons] at hParts
  rcases largest_root hOrd hNeL hLe with ⟨jl, jk, ja, hJoin⟩
  rcases @RepSplay.largest_sim fuel
      ⟨heap, (heap a).lchild, 0, .own, 0, .own⟩ _ hL
      hParts.1.1 hOrd hNeL (by omega)
      machPortLargest with
    ⟨s, hLookup, hAsm, hFrame⟩
  have hList :
      (primAssemble (primLookup machPortLargest
        (.node ll lk la lr))).toList =
          (BinTree.node ll lk la lr).toList := by
    rw [toList_primAssemble _
      (primLookup_tree_ne_nil _ hOrd hNeL),
      toList_primLookup _ hOrd hNeL]
  have hStep : traverseNext (.node (.node ll lk la lr) k a
      (.node rl rk ra rr)) parent true =
        traverseRight (.node jl jk ja (.node rl rk ra rr))
          parent := by
    simp only [traverseNext, if_true, SplayTree.deleteJoin,
      BinTree.isNil, Bool.false_eq_true, if_false, hJoin]
  rw [hJoin] at hAsm hList
  have hAddrs : (BinTree.node ll lk la lr).addrs =
      jl.addrs ++ [ja] := by
    simp only [BinTree.addrs, ← hList]
    simp
  rw [hStep]
  generalize BinTree.node rl rk ra rr = right at *
  rw [hAddrs] at hParts hFrame
  have hPrev : s.assemble.heap a = heap a :=
    hFrame a (by
      grind)
  have hLast : (s.assemble.heap s.assemble.tree).rchild =
      0 := by
    have hNil := hAsm.2.2.2.2
    rw [← hAsm.1] at hNil
    exact hNil
  have hRun : SplayRegs.traverseNext junk fuel heap splay
      true = SplayRegs.traverseRight fuel
        (iteFree junk (s.assemble.heap.setR s.assemble.tree
          (heap a).rchild) a) splay s.assemble.tree
        splay.istRtree := by
    simp [SplayRegs.traverseNext, hEq, ha, hChildL, hChildR,
      hLookup, hLast, hPrev]
  -- away from the joined nodes nothing has changed
  have hSame : ∀ b ∈ right.addrs ++ upAddrs parent,
      s.assemble.heap b = heap b := by
    intro b hb
    apply hFrame
    grind
  have hR' : RepTree s.assemble.heap (heap a).rchild right :=
    hR.congr (fun b hb => hSame b (by simp [hb]))
  have hNew := RepSplay.setR_rep hAsm hR' (by grind)
    (by grind)
  have hNew' := @repTree_free junk _ a _ _ hNew (by
    simp only [BinTree.addrs_node, mem_append, mem_cons]
    grind)
  have hUp' : RepUp (iteFree junk
      (s.assemble.heap.setR s.assemble.tree
        (heap a).rchild) a) splay.istRtree parent := by
    apply RepUp.free _ (by grind)
    apply hUp.congr
    intro b hb
    rw [NodeHeap.setR_of_ne _ (by rw [hAsm.1]; grind)]
    exact hSame b (by simp [hb])
  have hReach := @traverseRight_sim splay _ parent jl right
    jk ja _ _ fuel hNew' hUp' (by
      simp only [BinTree.addrs_node, nodup_append,
        nodup_cons, mem_append, mem_cons]
      grind)
    (by
      rw [← hList] at hRest
      simpa using hRest) (by omega)
  rw [hRun]
  apply hReach.after
  · intro b hb
    simp only [BinTree.addrs_node, hAddrs, mem_append,
      mem_cons, not_or] at hb
    rw [iteFree_of_ne hb.1.2.1, NodeHeap.setR_of_ne _
      (by rw [hAsm.1]; exact hb.1.1.2.1)]
    apply hFrame
    simp only [mem_append, mem_singleton, not_or]
    exact ⟨hb.1.1.1, hb.1.1.2.1⟩
  · intro b hb
    simp only [BinTree.addrs_node, hAddrs, mem_append,
      mem_cons] at hb ⊢
    tauto

/-
  `ipc_splay_traverse_next` follows the step on trees, and no
  assertion fails.
-/
theorem traverseNext_sim
    {junk : Nat → Node Nat}
    {heap : NodeHeap Nat}
    {splay : SplayRegs}
    {parent : List (TravFrame Nat)}
    {l r : BinTree Nat Nat}
    {k a : Nat}
    {fuel : Nat}
    (hTree : RepTree heap splay.istLtree (.node l k a r))
    (hUp : RepUp heap splay.istRtree parent)
    (hNodup : ((BinTree.node l k a r).addrs ++
      upAddrs parent).Nodup)
    (hSorted :
      KeySorted (travBefore parent ++
        ((BinTree.node l k a r).toList ++
          travAfter parent)))
    (hLe : ∀ entry ∈ l.toList, entry.1 ≤ machPortLargest)
    (hFuel : ((BinTree.node l k a r).addrs ++
      upAddrs parent).length ≤ fuel)
    (delete : Bool) :
    TravReaches ((BinTree.node l k a r).addrs ++
        upAddrs parent) heap
      (SplayRegs.traverseNext junk fuel heap splay delete)
      (traverseNext (.node l k a r) parent delete) := by
  have hLen := length_le_upAddrs parent
  have hCount : l.size + r.size + 1 + parent.length ≤
      fuel := by
    rw [length_append, length_addrs, BinTree.size] at hFuel
    omega
  have hEq : splay.istLtree = a := hTree.1
  have ha : a ≠ 0 := hTree.2.1
  have hL : RepTree heap (heap a).lchild l := hTree.2.2.2.1
  have hR : RepTree heap (heap a).rchild r := hTree.2.2.2.2
  have hMem : a ∈ (BinTree.node l k a r).addrs ++
      upAddrs parent := by simp
  cases delete with
  | false =>
      have hRun : SplayRegs.traverseNext junk fuel heap splay
          false = SplayRegs.traverseRight fuel heap splay
            splay.istLtree splay.istRtree := by
        simp [SplayRegs.traverseNext, hEq, ha]
      rw [hRun]
      exact traverseRight_sim hTree hUp hNodup hSorted
        (by omega)
  | true =>
      have hOut : a ∉ l.addrs ∧ a ∉ r.addrs ∧
          a ∉ upAddrs parent := by
        simp only [BinTree.addrs_node, nodup_append,
          nodup_cons, mem_append, mem_cons]
          at hNodup
        grind
      have hFree : SameOutside
          ((BinTree.node l k a r).addrs ++ upAddrs parent)
          heap (iteFree junk heap a) := iteFree_frame hMem
      have hUp' := @RepUp.free junk _ _ _ _ hUp hOut.2.2
      -- the list without the deleted entry
      have hRest : KeySorted (travBefore parent ++
          (l.toList ++ (r.toList ++ travAfter parent))) := by
        have hMiddle : KeySorted
            ((travBefore parent ++ l.toList) ++
              (k, a) :: (r.toList ++ travAfter parent)) := by
          simpa using hSorted
        simpa using hMiddle.remove_middle
      cases l with
      | nil =>
          have hZero : (heap a).lchild = 0 := hL
          cases r with
          | nil =>
              have hZero' : (heap a).rchild = 0 := hR
              cases parent with
              | nil =>
                  have hTop : splay.istRtree = 0 := hUp
                  have hRun : SplayRegs.traverseNext junk
                      fuel heap splay true =
                        some (0, iteFree junk heap a,
                          { splay with istRoot := 0 }) := by
                    simp [SplayRegs.traverseNext, hEq, ha,
                      hZero, hZero', hTop]
                  exact ⟨_, hRun, ⟨rfl, rfl, nodup_nil⟩, hFree⟩
              | cons frame parent =>
                  exact traverseNext_leaf_sim hTree hUp
                    hNodup hSorted hRest hFuel
          | node rl rk ra rr =>
              have hChild : (heap a).rchild ≠ 0 := fun h =>
                absurd (hR.eq_zero_iff.mp h) (by simp)
              have hRun : SplayRegs.traverseNext junk fuel
                  heap splay true =
                    SplayRegs.traverseLeft fuel
                      (iteFree junk heap a) splay
                      (heap a).rchild splay.istRtree := by
                simp [SplayRegs.traverseNext, hEq, ha, hZero,
                  hChild]
              have hR' := @repTree_free junk _ _ _ _ hR
                hOut.2.1
              have hReach := @traverseLeft_sim splay _ _ _ _
                _ fuel hR' (by simp) hUp'
                (hNodup.sublist (by simp)) (by omega)
              rw [hRun]
              exact hReach.after hFree (by simp)
      | node ll lk la lr =>
          have hChildL : (heap a).lchild ≠ 0 := fun h =>
            absurd (hL.eq_zero_iff.mp h) (by simp)
          cases r with
          | nil =>
              have hZero : (heap a).rchild = 0 := hR
              have hRun : SplayRegs.traverseNext junk fuel
                  heap splay true =
                    SplayRegs.traverseBack fuel
                      (iteFree junk heap a) splay
                      (heap a).lchild splay.istRtree := by
                simp [SplayRegs.traverseNext, hEq, ha, hZero,
                  hChildL]
              have hL' := @repTree_free junk _ _ _ _ hL hOut.1
              have hReach := @traverseBack_sim splay parent _ _
                _ _ fuel hL' (by simp) hUp'
                (hNodup.sublist (by simp))
                (by simpa using hRest) (by omega)
              rw [hRun]
              apply hReach.after hFree
              intro b hb
              simp only [BinTree.addrs_node, mem_append,
                mem_cons] at hb ⊢
              tauto
          | node rl rk ra rr =>
              exact traverseNext_join_sim hTree hUp hNodup
                hRest hLe hFuel

------
-- Whole Traversals
------

/- The nodes of a state are those of its two lists. -/
theorem travAddrs_perm
    {parent : List (TravFrame Nat)}
    {l r : BinTree Nat Nat}
    {k a : Nat} :
    ((BinTree.node l k a r).addrs ++ upAddrs parent).Perm
      (((travBefore parent ++ l.toList) ++
        (k, a) :: (r.toList ++ travAfter parent)).map
          Prod.snd) := by
  have hUp := upAddrs_perm parent
  simp only [BinTree.addrs, BinTree.toList_node,
    map_append, map_cons] at hUp ⊢
  grind

/- The loop in memory follows the loop on trees. -/
theorem traverseLoop_sim
    {junk : Nat → Node Nat}
    {fuel : Nat}
    (body : σ → Nat → Nat → σ × Bool)
    (turns : Nat)
    (s : σ)
    {out : Nat × NodeHeap Nat × SplayRegs}
    {result : TravResult Nat}
    {visited rest : List (Nat × Nat)}
    (hRep : RepTrav out result)
    (hView : result.View visited rest)
    (hSorted : KeySorted (visited ++ rest))
    (hLe :
      ∀ entry ∈ visited ++ rest,
        entry.1 ≤ machPortLargest)
    (hFuel : (visited ++ rest).length ≤ fuel)
    (hTurns : rest.length ≤ turns) :
    ∃ heap' splay',
      SplayRegs.traverseLoop junk fuel body turns s out =
          some ((traverseLoop body turns s result).1, heap',
            splay') ∧
        RepTree heap' splay'.istRoot
          (traverseLoop body turns s result).2 ∧
        (traverseLoop body turns s result).2.addrs.Nodup ∧
        SameOutside ((visited ++ rest).map Prod.snd)
          out.2.1 heap' := by
  induction turns generalizing s out result visited rest with
  | zero =>
      have hNil := length_eq_zero_iff.mp
        (Nat.le_zero.mp hTurns)
      subst hNil
      cases result with
      | done root =>
          rcases hRep with ⟨hZero, hTree, hNodup⟩
          refine ⟨out.2.1, out.2.2, ?_, hTree, hNodup,
            SameOutside.refl⟩
          simp [SplayRegs.traverseLoop, traverseLoop, hZero]
      | entry current parent =>
          rcases hView with ⟨l, k, v, r, _, _, hRest⟩
          simp at hRest
  | succ turns ih =>
      cases result with
      | done root =>
          rcases hRep with ⟨hZero, hTree, hNodup⟩
          refine ⟨out.2.1, out.2.2, ?_, hTree, hNodup,
            SameOutside.refl⟩
          simp [SplayRegs.traverseLoop, traverseLoop, hZero]
      | entry current parent =>
          rcases hView with
            ⟨l, k, a, r, hCurrent, hVisited, hRest⟩
          subst hCurrent
          subst hVisited
          subst hRest
          rcases hRep with ⟨hOut, hTree, hUp, hNodup⟩
          have hPerm := @travAddrs_perm parent l r k a
          have hSorted' : KeySorted (travBefore parent ++
              ((BinTree.node l k a r).toList ++
                travAfter parent)) := by
            simpa using hSorted
          have hLeL : ∀ entry ∈ l.toList,
              entry.1 ≤ machPortLargest :=
            fun entry hEntry => hLe entry (by simp [hEntry])
          have hCount : ((BinTree.node l k a r).addrs ++
              upAddrs parent).length ≤ fuel := by
            rw [hPerm.length_eq, length_map]
            exact hFuel
          have hEntry : out.1 = a := hOut.trans hTree.1
          have ha : a ≠ 0 := hTree.2.1
          have hKey : (out.2.1 a).key = k := hTree.2.2.1
          rcases @traverseNext_sim junk _ _ _ _ _ _ _ fuel
              hTree hUp hNodup hSorted' hLeL hCount
              (body s k a).2 with
            ⟨next, hNext, hRep', hFrame⟩
          have hView' := traverseNext_spec parent l k a r
            (body s k a).2 hSorted' hLeL
          -- the entries that are left are among the old ones
          have hSub : ((travBefore parent ++ (l.toList ++
              if (body s k a).2 then [] else [(k, a)])) ++
                (r.toList ++ travAfter parent)).Sublist
              ((travBefore parent ++ l.toList) ++
                (k, a) :: (r.toList ++
                  travAfter parent)) := by
            cases (body s k a).2 <;> simp
          have hTurns' : (r.toList ++
              travAfter parent).length ≤ turns := by
            simpa using hTurns
          rcases ih (body s k a).1 hRep' hView'
              (hSorted.sublist hSub)
              (fun entry h => hLe entry (hSub.subset h))
              (hSub.length_le.trans hFuel) hTurns' with
            ⟨heap', splay', hRun, hRoot, hNodup', hFrame'⟩
          refine ⟨heap', splay', ?_, hRoot, hNodup', ?_⟩
          · simp only [SplayRegs.traverseLoop, hEntry, ha,
              if_false, hKey, hNext, Option.bind_eq_bind,
              Option.bind_some, hRun, traverseLoop]
          · have hAll := hFrame.mono hPerm.subset
            exact hAll.trans (hFrame'.mono
              (hSub.map Prod.snd).subset)

/-
  A traversal of a structure in memory ends, runs its body
  over the entries in order, and keeps those that the body
  does not delete.
-/
theorem RepSplay.traverse_sim
    {junk : Nat → Node Nat}
    {heap : NodeHeap Nat}
    {splay : SplayRegs}
    {tree : SplayTree Nat}
    {fuel : Nat}
    (hRep : RepSplay heap splay tree)
    (hWF : tree.WellFormed)
    (hFuel : tree.toList.length ≤ fuel)
    (body : σ → Nat → Nat → σ × Bool)
    (s : σ) :
    ∃ heap' splay' tree',
      splay.traverse junk fuel heap body s =
          some ((travFold body s tree.toList).1, heap',
            splay') ∧
        RepSplay heap' splay' tree' ∧
        tree'.WellFormed ∧
        tree'.toList = (travFold body s tree.toList).2 ∧
        SameOutside tree.addrs heap heap' := by
  have hStart : ∃ out result,
      SplayRegs.traverseStart fuel heap splay = some out ∧
        RepTrav out result ∧
        result.View [] tree.toList ∧
        SameOutside tree.addrs heap out.2.1 := by
    by_cases hNil : tree.istRoot = .nil
    · have hZero := hRep.istRoot_eq_zero_iff.mpr hNil
      refine ⟨(0, heap, splay), .done .nil, ?_, ?_, ?_,
        SameOutside.refl⟩
      · simp [SplayRegs.traverseStart, hZero]
      · exact ⟨rfl, hZero, nodup_nil⟩
      · exact ⟨SplayTree.toList_of_nil hNil, rfl⟩
    · have hNe : splay.istRoot ≠ 0 := fun h =>
        hNil (hRep.istRoot_eq_zero_iff.mp h)
      rcases hRep.assemble_sim hNil with ⟨hTree, hFrame⟩
      have hAddrs := RepSplay.addrs_assemble hNil
      have hList := toList_primAssemble tree.state hNil
      rw [← SplayTree.toList_of_ne_nil hNil] at hList
      have hAsm := primAssemble_ne_nil tree.state hNil
      have hNodup : ((primAssemble tree.state).addrs ++
          upAddrs []).Nodup := by
        rw [upAddrs, append_nil, hAddrs]
        exact hRep.nodup
      have hSize : (primAssemble tree.state).size ≤
          fuel := by
        rw [← BinTree.length_toList, hList]
        exact hFuel
      rcases @traverseLeft_sim
          { splay with
            istLtree := (splay.regs heap).assemble.ltree
            istRtree := (splay.regs heap).assemble.rtree }
          _ _ [] splay.istRoot 0 fuel hTree hAsm rfl hNodup
          hSize with ⟨out, hRun, hTrav, hOut⟩
      have hView := traverseLeft_spec _ hAsm []
      refine ⟨out, _, ?_, hTrav, ?_, ?_⟩
      · simp only [SplayRegs.traverseStart, hNe, if_false]
        exact hRun
      · simpa [travBefore, travAfter, hList] using hView
      · rw [upAddrs, append_nil, hAddrs] at hOut
        exact hFrame.trans hOut
  rcases hStart with ⟨out, result, hRun, hTrav, hView, hFrame⟩
  have hSorted : KeySorted ([] ++ tree.toList) := by
    simpa using hWF.sorted
  have hLe : ∀ entry ∈ [] ++ tree.toList,
      entry.1 ≤ machPortLargest := by
    simpa using hWF.le_largest
  rcases @traverseLoop_sim _ junk fuel body fuel s _ _ _ _
      hTrav hView hSorted hLe (by simpa using hFuel) hFuel
    with ⟨heap', splay', hLoop, hRoot, hNodup, hFrame'⟩
  have hSpec := traverseLoop_spec body fuel s result hView
    hSorted hLe hFuel
  have hKept := travFold_sublist body s tree.toList
  generalize traverseLoop body fuel s result = final at *
  have hClosed : RepSplay heap'
      (SplayRegs.traverseFinish heap' splay')
      (SplayTree.ofRoot final.2) := by
    unfold SplayRegs.traverseFinish
    by_cases hZero : splay'.istRoot = 0
    · rw [if_neg (by simp [hZero])]
      exact RepSplay.of_closed hRoot hNodup
        (fun h => absurd hZero h)
    · rw [if_pos hZero]
      exact RepSplay.of_closed hRoot hNodup
        (fun _ => ⟨rfl, rfl, rfl⟩)
  have hOfRoot := SplayTree.ofRoot_spec final.2
    (by
      unfold BinTree.Ordered
      rw [hSpec.2]
      exact hWF.sorted.sublist hKept)
    (by
      rw [hSpec.2]
      intro entry hEntry
      exact hWF.le_largest entry (hKept.subset hEntry))
  refine ⟨heap', _, _, ?_, hClosed, hOfRoot.1,
    hOfRoot.2.trans hSpec.2, ?_⟩
  · simp [SplayRegs.traverse, hRun, hLoop, hSpec.1]
  · exact hFrame.trans hFrame'

/-
  A caller that notes every entry it is given and takes its
  decisions from a list fixed in advance.
-/
def noteEntry
    (deletes : Nat → Bool)
    (visited : List (Nat × Nat))
    (name entry : Nat) : List (Nat × Nat) × Bool :=
  (visited ++ [(name, entry)], deletes visited.length)

/- The entries that the decisions keep. -/
def keptEntries
    (deletes : Nat → Bool)
    (entries : List (Nat × Nat)) : List (Nat × Nat) :=
  (entries.zipIdx.filter (fun e => !deletes e.2)).map
    Prod.fst

theorem travFold_noteEntry
    (deletes : Nat → Bool)
    (visited rest : List (Nat × Nat)) :
    travFold (noteEntry deletes) visited rest =
      (visited ++ rest,
        ((rest.zipIdx visited.length).filter
          (fun e => !deletes e.2)).map Prod.fst) := by
  induction rest generalizing visited with
  | nil => simp [travFold]
  | cons entry rest ih =>
      have hTail := ih (visited ++ [entry])
      simp only [travFold, noteEntry] at hTail ⊢
      rw [hTail]
      by_cases hDelete : deletes visited.length = true
      · simp [zipIdx_cons, hDelete]
      · simp [zipIdx_cons, hDelete]

/-
  The traversal of any splay tree under any decisions ends.
  It yields every entry once, in the order of the names, and
  leaves a search tree with the entries that were not to be
  deleted; it reads no node that it has freed.
-/
theorem splayTraverse_yields
    (junk : Nat → Node Nat)
    (heap : NodeHeap Nat)
    (splay : SplayRegs)
    (tree : SplayTree Nat)
    (deletes : Nat → Bool)
    (fuel : Nat)
    (hRep : RepSplay heap splay tree)
    (hWF : tree.WellFormed)
    (hFuel : tree.toList.length ≤ fuel) :
    ∃ yielded heap' splay' tree',
      splay.traverse junk fuel heap (noteEntry deletes) [] =
          some (yielded, heap', splay') ∧
        yielded = tree.toList ∧
        yielded.Pairwise (fun e e' => e.1 < e'.1) ∧
        RepSplay heap' splay' tree' ∧
        tree'.WellFormed ∧
        tree'.toList = keptEntries deletes tree.toList ∧
        SameOutside tree.addrs heap heap' := by
  rcases @RepSplay.traverse_sim _ junk _ _ _ _ hRep hWF hFuel
      (noteEntry deletes) [] with
    ⟨heap', splay', tree', hRun, hRep', hWF', hList, hFrame⟩
  rw [travFold_noteEntry] at hRun hList
  exact ⟨_, heap', splay', tree', hRun, rfl, hWF.sorted,
    hRep', hWF', hList, hFrame⟩

/- Three nodes below a root that is deleted. -/
def sampleTravHeap : NodeHeap Nat :=
  fun a =>
    match a with
    | 1 => ⟨5, 2, 3⟩
    | 2 => ⟨3, 0, 0⟩
    | 3 => ⟨8, 0, 0⟩
    | _ => ⟨0, 0, 0⟩

def sampleTravTree : SplayTree Nat :=
  ⟨5, .node (.node .nil 3 2 .nil) 5 1 (.node .nil 8 3 .nil),
    [], []⟩

theorem splayTraverse_yields_sample :
    ∃ yielded heap' splay' tree',
      SplayRegs.traverse (fun _ => ⟨0, 7, 7⟩) 3
          sampleTravHeap ⟨5, 1, 0, .own, 0, .own⟩
          (noteEntry (fun i => i == 1)) [] =
          some (yielded, heap', splay') ∧
        yielded = [(3, 2), (5, 1), (8, 3)] ∧
        yielded.Pairwise (fun e e' => e.1 < e'.1) ∧
        RepSplay heap' splay' tree' ∧
        tree'.WellFormed ∧
        tree'.toList = [(3, 2), (8, 3)] ∧
        SameOutside sampleTravTree.addrs sampleTravHeap
          heap' := by
  have hTree : RepTree sampleTravHeap 1
      sampleTravTree.istRoot :=
    ⟨rfl, by decide, rfl,
      ⟨rfl, by decide, rfl, rfl, rfl⟩,
      ⟨rfl, by decide, rfl, rfl, rfl⟩⟩
  apply splayTraverse_yields (fun _ => ⟨0, 7, 7⟩)
    sampleTravHeap ⟨5, 1, 0, .own, 0, .own⟩ sampleTravTree
    (fun i => i == 1) 3
  · exact ⟨hTree, fun _ => rfl,
      fun _ => ⟨hTree, rfl, rfl, by decide⟩⟩
  · exact (SplayTree.ofRoot_spec sampleTravTree.istRoot
      (by simp [BinTree.Ordered, KeySorted, sampleTravTree])
      (by simp [sampleTravTree, machPortLargest])).1
  · decide

end Ipc

end OsfMach
