import OsfMach.Lib.TreeHeap
import OsfMach.Ipc.SplayRefinement

/-
  The splay tree of `ipc/ipc_splay.c` at pointer level.

  Nodes live in a heap and are changed in place. The splay
  structure holds the pointers `ist_root`, `ist_ltree`,
  `ist_rtree` and the tail pointers `ist_ltreep`,
  `ist_rtreep`, which point into the open trees or at the
  structure's own fields. Each routine is shown to simulate
  the tree algorithm of `OsfMach.Ipc.Splay`; it leaves all
  nodes outside its trees alone.

  Main declarations:
    * `PrimRegs` and its macros
    * `PrimRegs.run`, `PrimRegs.assemble`
    * `RepState`
    * `RepState.step_sim`
    * `RepState.run_sim`
    * `RepState.assemble_sim`
-/

------
-- Macros of ipc_splay_prim_lookup
------

namespace OsfMach

namespace Ipc

open List
open Lib

/-
  The memory and the local variables of
  `ipc_splay_prim_lookup`: the heap, the current node, and
  the root field and tail pointer of the two side trees.
-/
structure PrimRegs where
  heap : NodeHeap Nat
  tree : Nat
  ltree : Nat
  ltreep : TailPtr
  rtree : Nat
  rtreep : TailPtr

namespace PrimRegs

/- `*ltreep = p`. -/
def storeLtreep (s : PrimRegs) (p : Nat) : PrimRegs :=
  { s with
    heap := (storeLeft s.heap s.ltreep s.ltree p).1
    ltree := (storeLeft s.heap s.ltreep s.ltree p).2 }

/- `*rtreep = p`. -/
def storeRtreep (s : PrimRegs) (p : Nat) : PrimRegs :=
  { s with
    heap := (Lib.storeRight s.heap s.rtreep s.rtree p).1
    rtree := (Lib.storeRight s.heap s.rtreep s.rtree p).2 }

def linkLeft (s : PrimRegs) : PrimRegs :=
  let s' := s.storeLtreep s.tree
  { s' with
    ltreep := .child s.tree
    tree := (s'.heap s.tree).rchild }

def linkRight (s : PrimRegs) : PrimRegs :=
  let s' := s.storeRtreep s.tree
  { s' with
    rtreep := .child s.tree
    tree := (s'.heap s.tree).lchild }

def rotateLeft (s : PrimRegs) : PrimRegs :=
  let temp := s.tree
  let tree := (s.heap temp).rchild
  let heap := s.heap.setR temp (s.heap tree).lchild
  { s with heap := heap.setL tree temp, tree := tree }

def rotateRight (s : PrimRegs) : PrimRegs :=
  let temp := s.tree
  let tree := (s.heap temp).lchild
  let heap := s.heap.setL temp (s.heap tree).rchild
  { s with heap := heap.setR tree temp, tree := tree }

/- One turn of the loop; `none` when the loop is left. -/
def step
    (name : Nat)
    (s : PrimRegs) : Option PrimRegs :=
  let tname := (s.heap s.tree).key
  if name = tname then none
  else if name < tname then
    let lchild := (s.heap s.tree).lchild
    if lchild = 0 then none
    else
      let tname := (s.heap lchild).key
      let s :=
        if name < tname ∧ (s.heap lchild).lchild ≠ 0 then
          s.rotateRight
        else s
      let s := s.linkRight
      if tname < name ∧ (s.heap lchild).rchild ≠ 0 then
        some s.linkLeft
      else some s
  else
    let rchild := (s.heap s.tree).rchild
    if rchild = 0 then none
    else
      let tname := (s.heap rchild).key
      let s :=
        if tname < name ∧ (s.heap rchild).rchild ≠ 0 then
          s.rotateLeft
        else s
      let s := s.linkLeft
      if name < tname ∧ (s.heap rchild).lchild ≠ 0 then
        some s.linkRight
      else some s

/- The loop; `none` when the fuel runs out. -/
def run
    (name : Nat) : Nat → PrimRegs → Option PrimRegs
| 0, _ => none
| fuel + 1, s =>
    match s.step name with
    | none => some s
    | some s' => run name fuel s'

/- `ipc_splay_prim_assemble`. -/
def assemble (s : PrimRegs) : PrimRegs :=
  let s := s.storeLtreep (s.heap s.tree).lchild
  let s := s.storeRtreep (s.heap s.tree).rchild
  let heap := s.heap.setL s.tree s.ltree
  { s with heap := heap.setR s.tree s.rtree }

end PrimRegs

------
-- The Simulation Relation
------

/- The node addresses of the three trees. -/
def PrimState.addrs (st : PrimState Nat) : List Nat :=
  LeftSpine.addrs st.ltree ++ st.tree.addrs ++
    RightSpine.addrs st.rtree

theorem PrimState.addrs_eq
    (st : PrimState Nat) :
    st.addrs = st.toList.map Prod.snd := by
  simp [PrimState.addrs, PrimState.toList,
    LeftSpine.addrs, BinTree.addrs, RightSpine.addrs]

/- The registers hold the three trees, in disjoint nodes. -/
structure RepState
    (s : PrimRegs)
    (st : PrimState Nat) : Prop where
  tree : RepTree s.heap s.tree st.tree
  left : RepLeft s.heap s.ltreep s.ltree st.ltree
  right : RepRight s.heap s.rtreep s.rtree st.rtree
  nodup : st.addrs.Nodup

/- Two heaps agree outside a list of addresses. -/
def SameOutside
    (addrs : List Nat)
    (h h' : NodeHeap Nat) : Prop :=
  ∀ b, b ∉ addrs → h' b = h b

namespace SameOutside

variable {addrs : List Nat} {h h' h'' : NodeHeap Nat}
variable {a : Nat}

theorem refl : SameOutside addrs h h :=
  fun _ _ => rfl

theorem trans
    (h₁ : SameOutside addrs h h')
    (h₂ : SameOutside addrs h' h'') :
    SameOutside addrs h h'' :=
  fun b hb => (h₂ b hb).trans (h₁ b hb)

theorem setL
    (hSame : SameOutside addrs h h')
    (ha : a ∈ addrs)
    (p : Nat) :
    SameOutside addrs h (h'.setL a p) := by
  intro b hb
  have hNe : b ≠ a := fun hEq => hb (hEq ▸ ha)
  rw [h'.setL_of_ne hNe]
  exact hSame b hb

theorem setR
    (hSame : SameOutside addrs h h')
    (ha : a ∈ addrs)
    (p : Nat) :
    SameOutside addrs h (h'.setR a p) := by
  intro b hb
  have hNe : b ≠ a := fun hEq => hb (hEq ▸ ha)
  rw [h'.setR_of_ne hNe]
  exact hSame b hb

end SameOutside

namespace RepState

variable {s : PrimRegs} {L : LeftSpine Nat Nat}
variable {R : RightSpine Nat Nat} {l r : BinTree Nat Nat}
variable {k a : Nat} {st st' : PrimState Nat}
variable {rl rr : BinTree Nat Nat} {rk ra : Nat}
variable {ll lr : BinTree Nat Nat} {lk la name : Nat}

/- The pieces of a state are pairwise disjoint. -/
theorem disjoint
    (hRep : RepState s ⟨.node l k a r, L, R⟩) :
    a ∉ LeftSpine.addrs L ∧ a ∉ RightSpine.addrs R ∧
      a ∉ l.addrs ∧ a ∉ r.addrs ∧
      (∀ b ∈ LeftSpine.addrs L, b ∉ l.addrs ∧
        b ∉ r.addrs ∧ b ∉ RightSpine.addrs R) ∧
      (∀ b ∈ l.addrs, b ∉ r.addrs ∧
        b ∉ RightSpine.addrs R) ∧
      (∀ b ∈ r.addrs, b ∉ RightSpine.addrs R) := by
  have hNodup := hRep.nodup
  simp only [PrimState.addrs, BinTree.addrs_node, nodup_append,
    nodup_cons, mem_append, mem_cons] at hNodup
  grind

/- What a macro or a turn of the loop does to a state. -/
structure Sim
    (s : PrimRegs)
    (st : PrimState Nat)
    (s' : PrimRegs)
    (st' : PrimState Nat) : Prop where
  rep : RepState s' st'
  addrs_eq : st'.addrs = st.addrs
  frame : SameOutside st.addrs s.heap s'.heap

theorem Sim.trans
    {s s' s'' : PrimRegs}
    {st st' st'' : PrimState Nat}
    (h₁ : Sim s st s' st')
    (h₂ : Sim s' st' s'' st'') :
    Sim s st s'' st'' :=
  ⟨h₂.rep, h₂.addrs_eq.trans h₁.addrs_eq,
    h₁.frame.trans (h₁.addrs_eq ▸ h₂.frame)⟩

theorem Sim.refl
    (hRep : RepState s st) :
    Sim s st s st :=
  ⟨hRep, rfl, SameOutside.refl⟩

theorem linkLeft_sim
    (hRep : RepState s ⟨.node l k a r, L, R⟩) :
    Sim s ⟨.node l k a r, L, R⟩ s.linkLeft
      ⟨r, L ++ [(l, k, a)], R⟩ := by
  have hDisj := hRep.disjoint
  rcases hRep.tree with ⟨hEq, ha, hk, hl, hr⟩
  have hFrame : SameOutside (LeftSpine.addrs L) s.heap
      (storeLeft s.heap s.ltreep s.ltree s.tree).1 :=
    fun b hb => hRep.left.storeLeft_frame hb s.tree
  have hA := hFrame a hDisj.1
  have hAddrs :
      PrimState.addrs ⟨r, L ++ [(l, k, a)], R⟩ =
        PrimState.addrs ⟨.node l k a r, L, R⟩ := by
    simp [PrimState.addrs_eq, PrimState.toList]
  refine ⟨⟨?_, ?_, ?_, hAddrs ▸ hRep.nodup⟩, hAddrs, ?_⟩
  · simp only [PrimRegs.linkLeft, PrimRegs.storeLtreep]
    rw [hEq] at hA ⊢
    rw [hA]
    apply hr.congr
    intro b hb
    apply (hEq ▸ hFrame) b
    intro hMem
    exact (hDisj.2.2.2.2.1 b hMem).2.1 hb
  · simp only [PrimRegs.linkLeft, PrimRegs.storeLtreep]
    rw [hEq]
    apply hRep.left.snoc ha hk hl
    have hNodup := hRep.nodup
    simp only [PrimState.addrs, BinTree.addrs_node,
      nodup_append, nodup_cons, mem_append,
      mem_cons] at hNodup ⊢
    grind
  · apply hRep.right.congr
    intro b hb
    apply hFrame b
    intro hMem
    exact (hDisj.2.2.2.2.1 b hMem).2.2 hb
  · intro b hb
    apply hFrame b
    intro hMem
    apply hb
    simp [PrimState.addrs, hMem]

theorem linkRight_sim
    (hRep : RepState s ⟨.node l k a r, L, R⟩) :
    Sim s ⟨.node l k a r, L, R⟩ s.linkRight
      ⟨l, L, R ++ [(k, a, r)]⟩ := by
  have hDisj := hRep.disjoint
  rcases hRep.tree with ⟨hEq, ha, hk, hl, hr⟩
  have hFrame : SameOutside (RightSpine.addrs R) s.heap
      (Lib.storeRight s.heap s.rtreep s.rtree s.tree).1 :=
    fun b hb => hRep.right.storeRight_frame hb s.tree
  have hA := hFrame a hDisj.2.1
  have hAddrs :
      PrimState.addrs ⟨l, L, R ++ [(k, a, r)]⟩ =
        PrimState.addrs ⟨.node l k a r, L, R⟩ := by
    simp [PrimState.addrs_eq, PrimState.toList]
  refine ⟨⟨?_, ?_, ?_, hAddrs ▸ hRep.nodup⟩, hAddrs, ?_⟩
  · simp only [PrimRegs.linkRight, PrimRegs.storeRtreep]
    rw [hEq] at hA ⊢
    rw [hA]
    apply hl.congr
    intro b hb
    apply (hEq ▸ hFrame) b
    intro hMem
    exact (hDisj.2.2.2.2.2.1 b hb).2 hMem
  · apply hRep.left.congr
    intro b hb
    apply hFrame b
    intro hMem
    exact (hDisj.2.2.2.2.1 b hb).2.2 hMem
  · simp only [PrimRegs.linkRight, PrimRegs.storeRtreep]
    rw [hEq]
    apply hRep.right.snoc ha hk hr
    have hNodup := hRep.nodup
    simp only [PrimState.addrs, BinTree.addrs_node,
      nodup_append, nodup_cons, mem_append,
      mem_cons, cons_append] at hNodup ⊢
    grind
  · intro b hb
    apply hFrame b
    intro hMem
    apply hb
    simp [PrimState.addrs, hMem]

theorem rotateLeft_sim
    (hRep :
      RepState s ⟨.node l k a (.node rl rk ra rr), L, R⟩) :
    Sim s ⟨.node l k a (.node rl rk ra rr), L, R⟩
      s.rotateLeft
      ⟨.node (.node l k a rl) rk ra rr, L, R⟩ := by
  have hNodup := hRep.nodup
  rcases hRep.tree with ⟨hEq, ha, hk, hl, hEqR, hra, hrk,
    hrl, hrr⟩
  have hAddrs :
      PrimState.addrs
          ⟨.node (.node l k a rl) rk ra rr, L, R⟩ =
        PrimState.addrs
          ⟨.node l k a (.node rl rk ra rr), L, R⟩ := by
    simp [PrimState.addrs_eq, PrimState.toList]
  have hFrame : SameOutside [a, ra] s.heap
      s.rotateLeft.heap := by
    simp only [PrimRegs.rotateLeft]
    rw [hEq, hEqR]
    exact (SameOutside.refl.setR (by simp) _).setL
      (by simp) _
  simp only [PrimState.addrs, BinTree.addrs_node, nodup_append,
    nodup_cons, mem_append, mem_cons] at hNodup
  have hNe : ra ≠ a := by grind
  have hKeep : ∀ b, b ≠ a → b ≠ ra →
      s.rotateLeft.heap b = s.heap b :=
    fun b h₁ h₂ => hFrame b (by simp [h₁, h₂])
  have hHeapA : s.rotateLeft.heap a =
      { s.heap a with rchild := (s.heap ra).lchild } := by
    simp only [PrimRegs.rotateLeft]
    rw [hEq, hEqR, NodeHeap.setL_of_ne _ hNe.symm,
      NodeHeap.setR_self]
  have hHeapR : s.rotateLeft.heap ra =
      { s.heap ra with lchild := a } := by
    simp only [PrimRegs.rotateLeft]
    rw [hEq, hEqR, NodeHeap.setL_self,
      NodeHeap.setR_of_ne _ hNe]
  refine ⟨⟨?_, ?_, ?_, hAddrs ▸ hRep.nodup⟩, hAddrs, ?_⟩
  · have hTop : s.rotateLeft.tree = ra := by
      simp only [PrimRegs.rotateLeft]
      rw [hEq, hEqR]
    refine ⟨hTop, hra, ?_, ⟨?_, ha, ?_, ?_, ?_⟩, ?_⟩
    · rw [hHeapR]
      exact hrk
    · rw [hHeapR]
    · rw [hHeapA]
      exact hk
    · rw [hHeapA]
      exact hl.congr (fun b hb =>
        hKeep b (by grind) (by grind))
    · rw [hHeapA]
      exact hrl.congr (fun b hb =>
        hKeep b (by grind) (by grind))
    · rw [hHeapR]
      exact hrr.congr (fun b hb =>
        hKeep b (by grind) (by grind))
  · exact hRep.left.congr (fun b hb =>
      hKeep b (by grind) (by grind))
  · exact hRep.right.congr (fun b hb =>
      hKeep b (by grind) (by grind))
  · intro b hb
    apply hFrame b
    intro hMem
    apply hb
    simp only [PrimState.addrs, BinTree.addrs_node,
      mem_append, mem_cons]
    grind

theorem rotateRight_sim
    (hRep :
      RepState s ⟨.node (.node ll lk la lr) k a r, L, R⟩) :
    Sim s ⟨.node (.node ll lk la lr) k a r, L, R⟩
      s.rotateRight
      ⟨.node ll lk la (.node lr k a r), L, R⟩ := by
  have hNodup := hRep.nodup
  rcases hRep.tree with ⟨hEq, ha, hk,
    ⟨hEqL, hla, hlk, hll, hlr⟩, hr⟩
  have hAddrs :
      PrimState.addrs
          ⟨.node ll lk la (.node lr k a r), L, R⟩ =
        PrimState.addrs
          ⟨.node (.node ll lk la lr) k a r, L, R⟩ := by
    simp [PrimState.addrs_eq, PrimState.toList]
  have hFrame : SameOutside [a, la] s.heap
      s.rotateRight.heap := by
    simp only [PrimRegs.rotateRight]
    rw [hEq, hEqL]
    exact (SameOutside.refl.setL (by simp) _).setR
      (by simp) _
  simp only [PrimState.addrs, BinTree.addrs_node, nodup_append,
    nodup_cons, mem_append, mem_cons] at hNodup
  have hNe : la ≠ a := by grind
  have hKeep : ∀ b, b ≠ a → b ≠ la →
      s.rotateRight.heap b = s.heap b :=
    fun b h₁ h₂ => hFrame b (by simp [h₁, h₂])
  have hHeapA : s.rotateRight.heap a =
      { s.heap a with lchild := (s.heap la).rchild } := by
    simp only [PrimRegs.rotateRight]
    rw [hEq, hEqL, NodeHeap.setR_of_ne _ hNe.symm,
      NodeHeap.setL_self]
  have hHeapL : s.rotateRight.heap la =
      { s.heap la with rchild := a } := by
    simp only [PrimRegs.rotateRight]
    rw [hEq, hEqL, NodeHeap.setR_self,
      NodeHeap.setL_of_ne _ hNe]
  refine ⟨⟨?_, ?_, ?_, hAddrs ▸ hRep.nodup⟩, hAddrs, ?_⟩
  · have hTop : s.rotateRight.tree = la := by
      simp only [PrimRegs.rotateRight]
      rw [hEq, hEqL]
    refine ⟨hTop, hla, ?_, ?_, ⟨?_, ha, ?_, ?_, ?_⟩⟩
    · rw [hHeapL]
      exact hlk
    · rw [hHeapL]
      exact hll.congr (fun b hb =>
        hKeep b (by grind) (by grind))
    · rw [hHeapL]
    · rw [hHeapA]
      exact hk
    · rw [hHeapA]
      exact hlr.congr (fun b hb =>
        hKeep b (by grind) (by grind))
    · rw [hHeapA]
      exact hr.congr (fun b hb =>
        hKeep b (by grind) (by grind))
  · exact hRep.left.congr (fun b hb =>
      hKeep b (by grind) (by grind))
  · exact hRep.right.congr (fun b hb =>
      hKeep b (by grind) (by grind))
  · intro b hb
    apply hFrame b
    intro hMem
    apply hb
    simp only [PrimState.addrs, BinTree.addrs_node,
      mem_append, mem_cons]
    grind

/- A turn of the loop that descends to the left. -/
private theorem step_left_sim
    (hRep :
      RepState s ⟨.node (.node ll lk la lr) k a r, L, R⟩)
    (hLt : name < k)
    (hStep :
      PrimState.step name
          ⟨.node (.node ll lk la lr) k a r, L, R⟩ =
        some st') :
    ∃ s', s.step name = some s' ∧
      Sim s ⟨.node (.node ll lk la lr) k a r, L, R⟩
        s' st' := by
  rcases hRep.tree with ⟨hEq, ha, hk,
    ⟨hEqL, hla, hlk, hll, hlr⟩, hr⟩
  simp only [PrimState.step, hLt.ne, hLt, if_true,
    if_false] at hStep
  simp only [PrimRegs.step, hEq, hk, hEqL, hlk, hLt.ne,
    hLt, hla, if_true, if_false]
  by_cases hRot : name < lk ∧ ll.isNil = false
  · -- the rotation makes the second test fail
    have hNot : ¬ lk < name := hRot.1.le.not_gt
    have hRot' := (hll.entered_iff _).mp hRot
    have hSim := hRep.rotateRight_sim
    simp only [hRot, hNot, hRot', and_self, false_and, if_true,
      if_false, ne_eq, not_false_eq_true, PrimState.rotateRight,
      PrimState.linkRight, Option.some.injEq] at hStep ⊢
    subst hStep
    exact ⟨_, rfl, hSim.trans hSim.rep.linkRight_sim⟩
  · have hRot' := mt (hll.entered_iff _).mpr hRot
    have hSim := hRep.linkRight_sim
    have hEnter := hSim.rep.tree.2.2.2.2.entered_iff
    simp only [hRot, hRot', if_false,
      PrimState.linkRight] at hStep ⊢
    by_cases hLink : lk < name ∧ lr.isNil = false
    · have hLink' := (hEnter _).mp hLink
      simp only [hLink, hLink', and_self, if_true, ne_eq,
        not_false_eq_true, PrimState.linkLeft,
        Option.some.injEq] at hStep ⊢
      subst hStep
      exact ⟨_, rfl, hSim.trans hSim.rep.linkLeft_sim⟩
    · have hLink' := mt (hEnter _).mpr hLink
      simp only [hLink, hLink', if_false,
        Option.some.injEq] at hStep ⊢
      subst hStep
      exact ⟨_, rfl, hSim⟩

/- A turn of the loop that descends to the right. -/
private theorem step_right_sim
    (hRep :
      RepState s ⟨.node l k a (.node rl rk ra rr), L, R⟩)
    (hLt : k < name)
    (hStep :
      PrimState.step name
          ⟨.node l k a (.node rl rk ra rr), L, R⟩ =
        some st') :
    ∃ s', s.step name = some s' ∧
      Sim s ⟨.node l k a (.node rl rk ra rr), L, R⟩
        s' st' := by
  rcases hRep.tree with ⟨hEq, ha, hk, hl,
    hEqR, hra, hrk, hrl, hrr⟩
  simp only [PrimState.step, hLt.ne', hLt.le.not_gt,
    if_false] at hStep
  simp only [PrimRegs.step, hEq, hk, hEqR, hrk, hLt.ne',
    hLt.le.not_gt, hra, if_false]
  by_cases hRot : rk < name ∧ rr.isNil = false
  · have hNot : ¬ name < rk := hRot.1.le.not_gt
    have hRot' := (hrr.entered_iff _).mp hRot
    have hSim := hRep.rotateLeft_sim
    simp only [hRot, hNot, hRot', and_self, false_and, if_true,
      if_false, ne_eq, not_false_eq_true, PrimState.rotateLeft,
      PrimState.linkLeft, Option.some.injEq] at hStep ⊢
    subst hStep
    exact ⟨_, rfl, hSim.trans hSim.rep.linkLeft_sim⟩
  · have hRot' := mt (hrr.entered_iff _).mpr hRot
    have hSim := hRep.linkLeft_sim
    have hEnter := hSim.rep.tree.2.2.2.1.entered_iff
    simp only [hRot, hRot', if_false,
      PrimState.linkLeft] at hStep ⊢
    by_cases hLink : name < rk ∧ rl.isNil = false
    · have hLink' := (hEnter _).mp hLink
      simp only [hLink, hLink', and_self, if_true, ne_eq,
        not_false_eq_true, PrimState.linkRight,
        Option.some.injEq] at hStep ⊢
      subst hStep
      exact ⟨_, rfl, hSim.trans hSim.rep.linkRight_sim⟩
    · have hLink' := mt (hEnter _).mpr hLink
      simp only [hLink, hLink', if_false,
        Option.some.injEq] at hStep ⊢
      subst hStep
      exact ⟨_, rfl, hSim⟩

/- A turn of the loop follows the turn on trees. -/
theorem step_sim
    (hRep : RepState s st)
    (hStep : st.step name = some st') :
    ∃ s', s.step name = some s' ∧ Sim s st s' st' := by
  rcases st with ⟨tree, L, R⟩
  cases tree with
  | nil => simp [PrimState.step] at hStep
  | node l k a r =>
      rcases lt_trichotomy name k with hLt | hEq | hGt
      · cases l with
        | nil =>
            simp [PrimState.step, hLt, hLt.ne] at hStep
        | node ll lk la lr =>
            exact step_left_sim hRep hLt hStep
      · simp [PrimState.step, hEq] at hStep
      · cases r with
        | nil =>
            simp [PrimState.step, hGt.ne',
              hGt.le.not_gt] at hStep
        | node rl rk ra rr =>
            exact step_right_sim hRep hGt hStep

/- The loop is left where the loop on trees is left. -/
theorem step_eq_none
    (hRep : RepState s st)
    (hTree : st.tree ≠ .nil)
    (hStep : st.step name = none) :
    s.step name = none := by
  have hStopped :=
    PrimState.stopped_of_step_eq_none hTree hStep
  rcases st with ⟨tree, L, R⟩
  cases tree with
  | nil => exact absurd rfl hTree
  | node l k a r =>
      rcases hRep.tree with ⟨hEq, ha, hk, hl, hr⟩
      rcases hStopped with hName | ⟨hLt, hNil⟩ | ⟨hGt, hNil⟩
      · simp [PrimRegs.step, hEq, hk, hName]
      · have hZero := hl.eq_zero_iff.mpr hNil
        simp [PrimRegs.step, hEq, hk, hLt, hLt.ne, hZero]
      · have hZero := hr.eq_zero_iff.mpr hNil
        simp [PrimRegs.step, hEq, hk, hGt.ne',
          hGt.le.not_gt, hZero]

/-
  The whole loop. The fuel of either loop does not matter
  once it reaches the size of the middle tree.
-/
theorem run_sim
    {name : Nat}
    {fuel bound : Nat}
    {s : PrimRegs}
    {st : PrimState Nat}
    (hRep : RepState s st)
    (hSorted : KeySorted st.toList)
    (hTree : st.tree ≠ .nil)
    (hBound : st.tree.size ≤ bound)
    (hFuel : st.tree.size ≤ fuel) :
    ∃ s', s.run name fuel = some s' ∧
      Sim s st s' (PrimState.run name bound st) := by
  induction fuel generalizing s st bound with
  | zero =>
      have hSize := Nat.le_zero.mp hFuel
      rw [← BinTree.length_toList, length_eq_zero_iff,
        BinTree.toList_eq_nil_iff] at hSize
      exact absurd hSize hTree
  | succ fuel ih =>
      cases bound with
      | zero =>
          have hSize := Nat.le_zero.mp hBound
          rw [← BinTree.length_toList, length_eq_zero_iff,
            BinTree.toList_eq_nil_iff] at hSize
          exact absurd hSize hTree
      | succ bound =>
          cases hStep : st.step name with
          | none =>
              have hNone := hRep.step_eq_none hTree hStep
              simp only [PrimRegs.run, PrimState.run,
                hNone, hStep]
              exact ⟨s, rfl, Sim.refl hRep⟩
          | some st' =>
              rcases hRep.step_sim hStep with
                ⟨s', hStep', hSim⟩
              have hSpec :=
                PrimState.step_spec hSorted hStep
              have hSize := hSpec.size_lt
              have hSorted' : KeySorted st'.toList := by
                rw [hSpec.toList_eq]
                exact hSorted
              rcases @ih bound s' st' hSim.rep hSorted'
                  hSpec.not_nil (by omega) (by omega) with
                ⟨s'', hRun, hSim'⟩
              simp only [PrimRegs.run, PrimState.run,
                hStep, hStep']
              exact ⟨s'', hRun, hSim.trans hSim'⟩

/-
  Storing closed trees through both tail pointers closes
  the side trees.
-/
theorem close_sim
    {s : PrimRegs}
    {p q : Nat}
    {t u : BinTree Nat Nat}
    (hLeft : RepLeft s.heap s.ltreep s.ltree L)
    (hRight : RepRight s.heap s.rtreep s.rtree R)
    (hT : RepTree s.heap p t)
    (hU : RepTree s.heap q u)
    (hNodup :
      ((LeftSpine.addrs L ++ t.addrs) ++
        (u.addrs ++ RightSpine.addrs R)).Nodup) :
    let s' := (s.storeLtreep p).storeRtreep q
    RepTree s'.heap s'.ltree (LeftSpine.plug L t) ∧
      RepTree s'.heap s'.rtree (RightSpine.plug R u) ∧
      SameOutside
        (LeftSpine.addrs L ++ RightSpine.addrs R)
        s.heap s'.heap := by
  have hParts := nodup_append.mp hNodup
  have hL : RepTree (s.storeLtreep p).heap
      (s.storeLtreep p).ltree (LeftSpine.plug L t) :=
    hLeft.plug hT hParts.1
  have hFrameL : SameOutside (LeftSpine.addrs L) s.heap
      (s.storeLtreep p).heap :=
    fun b hb => hLeft.storeLeft_frame hb p
  have hRight' : RepRight (s.storeLtreep p).heap s.rtreep
      s.rtree R := by
    apply hRight.congr
    intro b hb
    apply hFrameL b
    intro hMem
    exact hParts.2.2 b (by simp [hMem]) b (by simp [hb]) rfl
  have hU' : RepTree (s.storeLtreep p).heap q u := by
    apply hU.congr
    intro b hb
    apply hFrameL b
    intro hMem
    exact hParts.2.2 b (by simp [hMem]) b (by simp [hb]) rfl
  have hFrameR : SameOutside (RightSpine.addrs R)
      (s.storeLtreep p).heap
      ((s.storeLtreep p).storeRtreep q).heap :=
    fun b hb => hRight'.storeRight_frame hb q
  refine ⟨?_, hRight'.plug hU' hParts.2.1, ?_⟩
  · apply hL.congr
    intro b hb
    apply hFrameR b
    intro hMem
    rw [LeftSpine.addrs_plug] at hb
    exact hParts.2.2 b hb b (by simp [hMem]) rfl
  · intro b hb
    simp only [mem_append, not_or] at hb
    rw [hFrameR b hb.2, hFrameL b hb.1]

/- `*ltreep` leaves the current node alone. -/
theorem storeLtreep_heap
    (hRep : RepState s ⟨.node l k a r, L, R⟩)
    (p : Nat) :
    (s.storeLtreep p).heap a = s.heap a :=
  hRep.left.storeLeft_frame hRep.disjoint.1 p

/- Closing the side trees around the children of the root. -/
theorem close_children_sim
    (hRep : RepState s ⟨.node l k a r, L, R⟩) :
    let s' := (s.storeLtreep (s.heap a).lchild).storeRtreep
      (s.heap a).rchild
    RepTree s'.heap s'.ltree (LeftSpine.plug L l) ∧
      RepTree s'.heap s'.rtree (RightSpine.plug R r) ∧
      SameOutside
        (LeftSpine.addrs L ++ RightSpine.addrs R)
        s.heap s'.heap := by
  rcases hRep.tree with ⟨hEq, ha, hk, hl, hr⟩
  apply close_sim hRep.left hRep.right hl hr
  have hNodup := hRep.nodup
  simp only [PrimState.addrs, BinTree.addrs_node, nodup_append,
    nodup_cons, mem_append, mem_cons] at hNodup ⊢
  grind

/- Assembling puts the three trees under the middle root. -/
theorem assemble_sim
    (hRep : RepState s ⟨.node l k a r, L, R⟩) :
    RepTree s.assemble.heap s.tree
        (primAssemble ⟨.node l k a r, L, R⟩) ∧
      SameOutside (PrimState.addrs ⟨.node l k a r, L, R⟩)
        s.heap s.assemble.heap := by
  have hDisj := hRep.disjoint
  have hClose := hRep.close_children_sim
  have hStore := hRep.storeLtreep_heap (s.heap a).lchild
  rcases hRep.tree with ⟨hEq, ha, hk, hl, hr⟩
  set s' := (s.storeLtreep (s.heap a).lchild).storeRtreep
    (s.heap a).rchild with hs'
  rcases hClose with ⟨hL, hR, hFrame⟩
  have hTree' : s'.tree = a := hEq
  have hHeap : s.assemble.heap =
      (s'.heap.setL a s'.ltree).setR a s'.rtree := by
    simp only [PrimRegs.assemble]
    have hEq' :
        (s.storeLtreep (s.heap a).lchild).tree = a := hEq
    rw [hEq, hEq', hStore, ← hs', hTree']
  have hKeep : ∀ b, b ≠ a →
      s.assemble.heap b = s'.heap b := by
    intro b hb
    rw [hHeap, NodeHeap.setR_of_ne _ hb,
      NodeHeap.setL_of_ne _ hb]
  have hNode : s.assemble.heap a =
      ⟨(s.heap a).key, s'.ltree, s'.rtree⟩ := by
    rw [hHeap, NodeHeap.setR_self, NodeHeap.setL_self,
      hFrame a (by simp [hDisj.1, hDisj.2.1])]
  constructor
  · refine ⟨hEq, ha, ?_, ?_, ?_⟩
    · rw [hNode]
      exact hk
    · rw [hNode]
      apply hL.congr
      intro b hb
      apply hKeep
      intro hBA
      subst hBA
      rw [LeftSpine.addrs_plug, mem_append] at hb
      rcases hb with h | h
      · exact hDisj.1 h
      · exact hDisj.2.2.1 h
    · rw [hNode]
      apply hR.congr
      intro b hb
      apply hKeep
      intro hBA
      subst hBA
      rw [RightSpine.addrs_plug, mem_append] at hb
      rcases hb with h | h
      · exact hDisj.2.2.2.1 h
      · exact hDisj.2.1 h
  · intro b hb
    simp only [PrimState.addrs, BinTree.addrs_node,
      mem_append, mem_cons, not_or] at hb
    rw [hKeep b hb.1.2.2.1,
      hFrame b (by simp [hb.1.1, hb.2])]

end RepState

end Ipc

end OsfMach
