import OsfMach.Lib.SearchTree

/-
  Trees in a heap of nodes with child pointers.

  A heap maps addresses to nodes; address zero is the null
  pointer. `RepTree` says that a pointer leads to a tree of
  addresses, `RepLeft` and `RepRight` that a pointer leads
  to an open spine whose hole is the field a tail pointer
  designates. The field under the tail pointer itself is
  not constrained.

  Main declarations:
    * `NodeHeap`, `TailPtr`
    * `RepTree`, `RepLeft`, `RepRight`
    * `storeLeft`, `storeRight`
    * `RepTree.congr`
    * `RepLeft.snoc` and `RepLeft.plug`
    * `RepRight.snoc` and `RepRight.plug`
    * `repTree_mirror`, `repRight_mirror`
-/

------
-- Heaps
------

namespace Lib

open List

/- The fields of a node that make up the tree. -/
structure Node (κ : Type) where
  key : κ
  lchild : Nat
  rchild : Nat
deriving DecidableEq, Repr

/- A heap of nodes. -/
abbrev NodeHeap (κ : Type) := Nat → Node κ

/-
  Where a tail pointer points: at the owner's own root
  field, or at a child field of a node.
-/
inductive TailPtr where
| own : TailPtr
| child : Nat → TailPtr
deriving DecidableEq, Repr

namespace NodeHeap

variable {κ : Type}
variable {a b : Nat}

section

variable (h : NodeHeap κ)
include h

/- Store into the left child field of a node. -/
def setL
    (a p : Nat) : NodeHeap κ :=
  Function.update h a { h a with lchild := p }

/- Store into the right child field of a node. -/
def setR
    (a p : Nat) : NodeHeap κ :=
  Function.update h a { h a with rchild := p }

@[simp] theorem setL_self
    (a p : Nat) :
    h.setL a p a = { h a with lchild := p } := by
  simp [setL]

@[simp] theorem setR_self
    (a p : Nat) :
    h.setR a p a = { h a with rchild := p } := by
  simp [setR]

theorem setL_of_ne
    (hNe : b ≠ a)
    (p : Nat) :
    h.setL a p b = h b := by
  simp [setL, hNe]

theorem setR_of_ne
    (hNe : b ≠ a)
    (p : Nat) :
    h.setR a p b = h b := by
  simp [setR, hNe]

end

end NodeHeap

------
-- Represented Trees
------

variable {κ : Type}

/- The node addresses of a tree of addresses. -/
def BinTree.addrs (tree : BinTree κ Nat) : List Nat :=
  tree.toList.map Prod.snd

/- The pointer `p` leads to the tree. -/
def RepTree
    (h : NodeHeap κ) : Nat → BinTree κ Nat → Prop
| p, .nil => p = 0
| p, .node l k a r =>
    p = a ∧ a ≠ 0 ∧ (h a).key = k ∧
      RepTree h (h a).lchild l ∧
      RepTree h (h a).rchild r

@[simp] theorem BinTree.addrs_nil :
    (BinTree.nil : BinTree κ Nat).addrs = [] := rfl

@[simp] theorem BinTree.addrs_node
    (l r : BinTree κ Nat)
    (k : κ)
    (a : Nat) :
    (BinTree.node l k a r).addrs =
      l.addrs ++ a :: r.addrs := by
  simp [BinTree.addrs]

namespace RepTree

variable {h h' : NodeHeap κ}
variable {tree : BinTree κ Nat} {p : Nat}

/- A tree only depends on its own nodes. -/
theorem congr
    {tree : BinTree κ Nat}
    {p : Nat}
    (hRep : RepTree h p tree)
    (hSame : ∀ a ∈ tree.addrs, h' a = h a) :
    RepTree h' p tree := by
  induction tree generalizing p with
  | nil => exact hRep
  | node l k a r ihL ihR =>
      rcases hRep with ⟨hp, ha, hk, hl, hr⟩
      have hA : h' a = h a := hSame a (by simp)
      refine ⟨hp, ha, by rw [hA]; exact hk, ?_, ?_⟩
      · rw [hA]
        exact ihL hl (fun b hb => hSame b (by simp [hb]))
      · rw [hA]
        exact ihR hr (fun b hb => hSame b (by simp [hb]))

/- The pointer is null exactly for the empty tree. -/
theorem eq_zero_iff
    (hRep : RepTree h p tree) :
    p = 0 ↔ tree = .nil := by
  cases tree with
  | nil =>
      have hp : p = 0 := hRep
      simp [hp]
  | node l k a r =>
      have hp : p = a := hRep.1
      have ha : a ≠ 0 := hRep.2.1
      simp [hp, ha]

/- A tree is gone into where its address is not null. -/
theorem entered_iff
    (hRep : RepTree h p tree)
    (c : Prop) :
    c ∧ tree.isNil = false ↔ c ∧ p ≠ 0 := by
  rw [← Bool.not_eq_true, BinTree.isNil_iff, ne_eq,
    hRep.eq_zero_iff]

end RepTree

------
-- Represented Left Spines
------

/- The node addresses of an open left tree. -/
def LeftSpine.addrs (spine : LeftSpine κ Nat) : List Nat :=
  (LeftSpine.toList spine).map Prod.snd

@[simp] theorem LeftSpine.addrs_nil :
    LeftSpine.addrs ([] : LeftSpine κ Nat) = [] := rfl

@[simp] theorem LeftSpine.addrs_cons
    (l : BinTree κ Nat)
    (k : κ)
    (a : Nat)
    (frames : LeftSpine κ Nat) :
    LeftSpine.addrs ((l, k, a) :: frames) =
      l.addrs ++ a :: LeftSpine.addrs frames := by
  simp [LeftSpine.addrs, BinTree.addrs]

theorem LeftSpine.addrs_plug
    (spine : LeftSpine κ Nat)
    (tree : BinTree κ Nat) :
    (LeftSpine.plug spine tree).addrs =
      LeftSpine.addrs spine ++ tree.addrs := by
  simp [BinTree.addrs, LeftSpine.addrs]

/-
  The root field `p` and the tail pointer `tp` hold the open
  left tree.
-/
def RepLeft
    (h : NodeHeap κ)
    (tp : TailPtr) : Nat → LeftSpine κ Nat → Prop
| _, [] => tp = .own
| p, [(l, k, a)] =>
    p = a ∧ a ≠ 0 ∧ (h a).key = k ∧
      RepTree h (h a).lchild l ∧ tp = .child a
| p, (l, k, a) :: frame :: frames =>
    p = a ∧ a ≠ 0 ∧ (h a).key = k ∧
      RepTree h (h a).lchild l ∧
      RepLeft h tp (h a).rchild (frame :: frames)

/- Store `q` through the tail pointer of a left tree. -/
def storeLeft
    (h : NodeHeap κ)
    (tp : TailPtr)
    (p q : Nat) : NodeHeap κ × Nat :=
  match tp with
  | .own => (h, q)
  | .child a => (h.setR a q, p)

namespace RepLeft

variable {h h' : NodeHeap κ} {tp : TailPtr}
variable {spine : LeftSpine κ Nat}
variable {p a : Nat}

theorem congr
    {spine : LeftSpine κ Nat}
    {p : Nat}
    (hRep : RepLeft h tp p spine)
    (hSame : ∀ a ∈ LeftSpine.addrs spine, h' a = h a) :
    RepLeft h' tp p spine := by
  induction spine generalizing p with
  | nil => exact hRep
  | cons frame frames ih =>
      rcases frame with ⟨l, k, a⟩
      have hA : h' a = h a := hSame a (by simp)
      have hL : ∀ b ∈ l.addrs, h' b = h b :=
        fun b hb => hSame b (by simp [hb])
      have hF : ∀ b ∈ LeftSpine.addrs frames, h' b = h b :=
        fun b hb => hSame b (by simp [hb])
      cases frames with
      | nil =>
          rcases hRep with ⟨hp, ha, hk, hl, htp⟩
          refine ⟨hp, ha, by rw [hA]; exact hk, ?_, htp⟩
          rw [hA]
          exact hl.congr hL
      | cons frame' frames' =>
          rcases hRep with ⟨hp, ha, hk, hl, hrest⟩
          refine ⟨hp, ha, by rw [hA]; exact hk, ?_, ?_⟩
          · rw [hA]
            exact hl.congr hL
          · rw [hA]
            exact ih hrest hF

/- A tail pointer into the heap points at a spine node. -/
theorem mem_addrs_of_child
    (hRep : RepLeft h (.child a) p spine) :
    a ∈ LeftSpine.addrs spine := by
  induction spine generalizing p with
  | nil =>
      have hEq : TailPtr.child a = TailPtr.own := hRep
      simp at hEq
  | cons frame frames ih =>
      rcases frame with ⟨l, k, b⟩
      cases frames with
      | nil =>
          have hEq : TailPtr.child a = TailPtr.child b :=
            hRep.2.2.2.2
          simp only [TailPtr.child.injEq] at hEq
          simp [hEq]
      | cons frame' frames' =>
          have hRest := ih hRep.2.2.2.2
          simp only [LeftSpine.addrs_cons, mem_append, mem_cons]
          exact Or.inr (Or.inr hRest)

/- A nonempty spine has its hole in the heap. -/
theorem exists_child
    {frame : BinTree κ Nat × κ × Nat}
    {frames : LeftSpine κ Nat}
    (hRep : RepLeft h tp p (frame :: frames)) :
    ∃ c, tp = .child c := by
  induction frames generalizing frame p with
  | nil => exact ⟨frame.2.2, hRep.2.2.2.2⟩
  | cons frame' frames' ih => exact ih hRep.2.2.2.2

/- A store through the tail pointer stays in the spine. -/
theorem storeLeft_frame
    {p b : Nat}
    (hRep : RepLeft h tp p spine)
    (hOut : b ∉ LeftSpine.addrs spine)
    (q : Nat) :
    (storeLeft h tp p q).1 b = h b := by
  cases tp with
  | own => rfl
  | child a =>
      have hMem := hRep.mem_addrs_of_child
      have hNe : b ≠ a := fun hEq => hOut (hEq ▸ hMem)
      exact h.setR_of_ne hNe q

/-
  What a store through the tail pointer makes true at the
  hole, and what the nodes above keep, is true of the spine.
-/
theorem fill
    {p c q : Nat}
    {P : Nat → LeftSpine κ Nat → Prop}
    (hRep : RepLeft h (.child c) p spine)
    (hNodup : (LeftSpine.addrs spine).Nodup)
    (hHole : P q [])
    (hFrame : ∀ l k a frames, a ≠ 0 →
      (h.setR c q a).key = k →
      RepTree (h.setR c q) (h.setR c q a).lchild l →
      P (h.setR c q a).rchild frames →
      P a ((l, k, a) :: frames)) :
    P p spine := by
  induction spine generalizing p with
  | nil => cases (hRep : TailPtr.child c = TailPtr.own)
  | cons frame frames ih =>
      rcases frame with ⟨l, k, a⟩
      rw [LeftSpine.addrs_cons] at hNodup
      have hParts := nodup_append.mp hNodup
      have hA := nodup_cons.mp hParts.2.1
      cases frames with
      | nil =>
          rcases hRep with ⟨rfl, ha, hk, hl, ⟨⟩⟩
          apply hFrame l k _ [] ha
          · rw [NodeHeap.setR_self]
            exact hk
          · rw [NodeHeap.setR_self]
            apply hl.congr
            intro b hb
            exact h.setR_of_ne
              (hParts.2.2 b hb _ mem_cons_self) q
          · rw [NodeHeap.setR_self]
            exact hHole
      | cons frame' frames' =>
          rcases hRep with ⟨rfl, ha, hk, hl, hrest⟩
          have hMem := hrest.mem_addrs_of_child
          have hKeep : h.setR c q p = h p :=
            h.setR_of_ne (ne_of_mem_of_not_mem hMem hA.1).symm q
          apply hFrame l k p _ ha
          · rw [hKeep]
            exact hk
          · rw [hKeep]
            apply hl.congr
            intro b hb
            apply h.setR_of_ne
            exact hParts.2.2 b hb c (mem_cons_of_mem _ hMem)
          · rw [hKeep]
            exact ih hrest hA.2

/-
  Storing a closed tree through the tail pointer closes the
  left tree.
-/
theorem plug
    {p q : Nat}
    {tree : BinTree κ Nat}
    (hRep : RepLeft h tp p spine)
    (hTree : RepTree h q tree)
    (hNodup : (LeftSpine.addrs spine ++ tree.addrs).Nodup) :
    RepTree (storeLeft h tp p q).1 (storeLeft h tp p q).2
      (LeftSpine.plug spine tree) := by
  cases spine with
  | nil =>
      have htp : tp = .own := hRep
      subst htp
      exact hTree
  | cons frame frames =>
      rcases hRep.exists_child with ⟨c, rfl⟩
      have hParts := nodup_append.mp hNodup
      apply hRep.fill (P := fun p spine =>
        RepTree (h.setR c q) p (LeftSpine.plug spine tree))
        hParts.1
      · apply hTree.congr
        intro b hb
        apply h.setR_of_ne
        exact (hParts.2.2 c hRep.mem_addrs_of_child b hb).symm
      · exact fun l k a frames ha hk hl hRest =>
          ⟨rfl, ha, hk, hl, hRest⟩

/-
  Hanging a node into the hole moves the hole to its right
  child.
-/
theorem snoc
    {l : BinTree κ Nat}
    {k : κ}
    (hRep : RepLeft h tp p spine)
    (ha : a ≠ 0)
    (hk : (h a).key = k)
    (hl : RepTree h (h a).lchild l)
    (hNodup :
      (LeftSpine.addrs spine ++ (l.addrs ++ [a])).Nodup) :
    RepLeft (storeLeft h tp p a).1 (.child a)
      (storeLeft h tp p a).2 (spine ++ [(l, k, a)]) := by
  cases spine with
  | nil =>
      have htp : tp = .own := hRep
      subst htp
      exact ⟨rfl, ha, hk, hl, rfl⟩
  | cons frame frames =>
      rcases hRep.exists_child with ⟨c, rfl⟩
      have hParts := nodup_append.mp hNodup
      have hKeep : ∀ b ∈ l.addrs ++ [a], h.setR c a b = h b :=
        fun b hb => h.setR_of_ne
          (hParts.2.2 c hRep.mem_addrs_of_child b hb).symm a
      apply hRep.fill (P := fun p spine =>
        RepLeft (h.setR c a) (.child a) p
          (spine ++ [(l, k, a)])) hParts.1
      · refine ⟨rfl, ha, ?_, ?_, rfl⟩
        · rw [hKeep a (by simp)]
          exact hk
        · rw [hKeep a (by simp)]
          exact hl.congr
            fun b hb => hKeep b (mem_append_left _ hb)
      · rintro l' k' a' (_ | ⟨frame', frames'⟩) ha' hk' hl' hRest
        · exact ⟨rfl, ha', hk', hl', hRest⟩
        · exact ⟨rfl, ha', hk', hl', hRest⟩

end RepLeft

------
-- Represented Right Spines
------

/- The node addresses of an open right tree. -/
def RightSpine.addrs
    (spine : RightSpine κ Nat) : List Nat :=
  (RightSpine.toList spine).map Prod.snd

@[simp] theorem RightSpine.addrs_nil :
    RightSpine.addrs ([] : RightSpine κ Nat) = [] := rfl

@[simp] theorem RightSpine.addrs_cons
    (k : κ)
    (a : Nat)
    (r : BinTree κ Nat)
    (frames : RightSpine κ Nat) :
    RightSpine.addrs ((k, a, r) :: frames) =
      RightSpine.addrs frames ++ a :: r.addrs := by
  simp [RightSpine.addrs, BinTree.addrs]

theorem RightSpine.addrs_plug
    (spine : RightSpine κ Nat)
    (tree : BinTree κ Nat) :
    (RightSpine.plug spine tree).addrs =
      tree.addrs ++ RightSpine.addrs spine := by
  simp [BinTree.addrs, RightSpine.addrs]

/-
  The root field `p` and the tail pointer `tp` hold the open
  right tree.
-/
def RepRight
    (h : NodeHeap κ)
    (tp : TailPtr) : Nat → RightSpine κ Nat → Prop
| _, [] => tp = .own
| p, [(k, a, r)] =>
    p = a ∧ a ≠ 0 ∧ (h a).key = k ∧
      RepTree h (h a).rchild r ∧ tp = .child a
| p, (k, a, r) :: frame :: frames =>
    p = a ∧ a ≠ 0 ∧ (h a).key = k ∧
      RepTree h (h a).rchild r ∧
      RepRight h tp (h a).lchild (frame :: frames)

/- Store `q` through the tail pointer of a right tree. -/
def storeRight
    (h : NodeHeap κ)
    (tp : TailPtr)
    (p q : Nat) : NodeHeap κ × Nat :=
  match tp with
  | .own => (h, q)
  | .child a => (h.setL a q, p)

------
-- Mirror Images
------

namespace BinTree

/- A tree with left and right exchanged. -/
def mirror : BinTree κ Nat → BinTree κ Nat
| .nil => .nil
| .node l k a r => .node r.mirror k a l.mirror

@[simp] theorem addrs_mirror
    (tree : BinTree κ Nat) :
    tree.mirror.addrs = tree.addrs.reverse := by
  induction tree with
  | nil => rfl
  | node l k a r ihL ihR => simp [mirror, ihL, ihR]

end BinTree

namespace RightSpine

/- The left spine that a right spine is the image of. -/
def mirror (spine : RightSpine κ Nat) : LeftSpine κ Nat :=
  spine.map fun frame =>
    (frame.2.2.mirror, frame.1, frame.2.1)

@[simp] theorem addrs_mirror
    (spine : RightSpine κ Nat) :
    LeftSpine.addrs (mirror spine) = (addrs spine).reverse := by
  induction spine with
  | nil => rfl
  | cons frame frames ih =>
      rcases frame with ⟨k, a, r⟩
      have hTail := ih
      simp only [mirror] at hTail ⊢
      simp [hTail]

theorem plug_mirror
    (spine : RightSpine κ Nat)
    (tree : BinTree κ Nat) :
    LeftSpine.plug (mirror spine) tree.mirror =
      (plug spine tree).mirror := by
  induction spine with
  | nil => rfl
  | cons frame frames ih =>
      exact congrArg (BinTree.node _ _ _) ih

end RightSpine

/- The children of every node are exchanged. -/
def NodeHeap.mirror (h : NodeHeap κ) : NodeHeap κ :=
  fun a => ⟨(h a).key, (h a).rchild, (h a).lchild⟩

section Mirror

variable {h : NodeHeap κ} {tp : TailPtr}
variable {spine : RightSpine κ Nat} {tree : BinTree κ Nat}
variable {p : Nat}

theorem repTree_mirror :
    RepTree h.mirror p tree.mirror ↔ RepTree h p tree := by
  induction tree generalizing p with
  | nil => exact Iff.rfl
  | node l k a r ihL ihR =>
      simp only [BinTree.mirror, RepTree, NodeHeap.mirror]
        at ihL ihR ⊢
      rw [ihL, ihR, and_comm (a := RepTree h _ r)]

theorem repRight_mirror :
    RepLeft h.mirror tp p (RightSpine.mirror spine) ↔
      RepRight h tp p spine := by
  induction spine generalizing p with
  | nil => exact Iff.rfl
  | cons frame frames ih =>
      cases frames with
      | nil =>
          exact and_congr_right fun _ => and_congr_right
            fun _ => and_congr_right fun _ =>
              and_congr_left fun _ => repTree_mirror
      | cons frame' frames' =>
          exact and_congr_right fun _ => and_congr_right
            fun _ => and_congr_right fun _ =>
              and_congr repTree_mirror ih

theorem storeRight_mirror
    (h : NodeHeap κ)
    (tp : TailPtr)
    (p q : Nat) :
    storeRight h tp p q =
      ((storeLeft h.mirror tp p q).1.mirror,
        (storeLeft h.mirror tp p q).2) := by
  cases tp with
  | own => rfl
  | child a =>
      refine Prod.ext (funext fun b => ?_) rfl
      by_cases hb : b = a
      · subst hb
        simp [storeRight, storeLeft, NodeHeap.mirror]
      · simp [storeRight, storeLeft, NodeHeap.mirror,
          NodeHeap.setL_of_ne _ hb, NodeHeap.setR_of_ne _ hb]

end Mirror

namespace RepRight

variable {h h' : NodeHeap κ} {tp : TailPtr}
variable {spine : RightSpine κ Nat}
variable {p a : Nat}

theorem congr
    (hRep : RepRight h tp p spine)
    (hSame : ∀ a ∈ RightSpine.addrs spine, h' a = h a) :
    RepRight h' tp p spine := by
  apply repRight_mirror.mp
  apply (repRight_mirror.mpr hRep).congr
  intro a ha
  rw [RightSpine.addrs_mirror, mem_reverse] at ha
  simp only [NodeHeap.mirror, hSame a ha]

/- A tail pointer into the heap points at a spine node. -/
theorem mem_addrs_of_child
    (hRep : RepRight h (.child a) p spine) :
    a ∈ RightSpine.addrs spine := by
  have hMem := (repRight_mirror.mpr hRep).mem_addrs_of_child
  rwa [RightSpine.addrs_mirror, mem_reverse] at hMem

/- A store through the tail pointer stays in the spine. -/
theorem storeRight_frame
    {p b : Nat}
    (hRep : RepRight h tp p spine)
    (hOut : b ∉ RightSpine.addrs spine)
    (q : Nat) :
    (storeRight h tp p q).1 b = h b := by
  cases tp with
  | own => rfl
  | child a =>
      have hMem := hRep.mem_addrs_of_child
      have hNe : b ≠ a := fun hEq => hOut (hEq ▸ hMem)
      exact h.setL_of_ne hNe q

/-
  Storing a closed tree through the tail pointer closes the
  right tree.
-/
theorem plug
    {p q : Nat}
    {tree : BinTree κ Nat}
    (hRep : RepRight h tp p spine)
    (hTree : RepTree h q tree)
    (hNodup :
      (tree.addrs ++ RightSpine.addrs spine).Nodup) :
    RepTree (storeRight h tp p q).1 (storeRight h tp p q).2
      (RightSpine.plug spine tree) := by
  rw [storeRight_mirror, ← repTree_mirror,
    ← RightSpine.plug_mirror]
  apply (repRight_mirror.mpr hRep).plug
    (repTree_mirror.mpr hTree)
  rw [RightSpine.addrs_mirror, BinTree.addrs_mirror,
    ← reverse_append, nodup_reverse]
  exact hNodup

/-
  Hanging a node into the hole moves the hole to its left
  child.
-/
theorem snoc
    {r : BinTree κ Nat}
    {k : κ}
    (hRep : RepRight h tp p spine)
    (ha : a ≠ 0)
    (hk : (h a).key = k)
    (hr : RepTree h (h a).rchild r)
    (hNodup :
      ((a :: r.addrs) ++ RightSpine.addrs spine).Nodup) :
    RepRight (storeRight h tp p a).1 (.child a)
      (storeRight h tp p a).2 (spine ++ [(k, a, r)]) := by
  rw [storeRight_mirror, ← repRight_mirror]
  have hEnd := (repRight_mirror.mpr hRep).snoc ha hk
    (repTree_mirror.mpr hr) (by
      rw [RightSpine.addrs_mirror, BinTree.addrs_mirror,
        ← reverse_cons, ← reverse_append, nodup_reverse]
      exact hNodup)
  rw [RightSpine.mirror, map_append]
  exact hEnd

end RepRight

end Lib
