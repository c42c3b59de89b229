import OsfMach.Ipc.SplayRefinement

/-
  Traversal of a splay tree, from `ipc/ipc_splay.c`.

  The traversal descends by inverting child pointers: on the
  way down the child field of an entry points back to its
  parent. The inverted part of the tree is a list of frames
  from the current entry up to the root. The side of a frame
  is found again by comparing names, as in the source.

  Main declarations:
    * `TravFrame`, `TravResult`
    * `traverseStart`, `traverseNext`, `traverseFinish`
    * `traverse`
    * `travFold`
    * `traverseNext_spec`
    * `SplayTree.traverse_spec`
-/

------
-- The State Machine
------

namespace OsfMach

namespace Ipc

open Lib

variable {α σ : Type}

/-
  An entry on the way up. Its left or its right child field
  holds the pointer to the parent.
-/
inductive TravFrame (α : Type) where
| left
    (name : Nat)
    (entry : α)
    (rchild : BinTree Nat α) : TravFrame α
| right
    (lchild : BinTree Nat α)
    (name : Nat)
    (entry : α) : TravFrame α
deriving DecidableEq, Repr

/- The next entry with its way up, or the final root. -/
inductive TravResult (α : Type) where
| entry
    (current : BinTree Nat α)
    (parent : List (TravFrame α)) : TravResult α
| done (root : BinTree Nat α) : TravResult α
deriving DecidableEq, Repr

/- The label `traverse_left`. -/
def traverseLeft :
    BinTree Nat α → List (TravFrame α) → TravResult α
| .node (.node ll lk lv lr) name entry rchild, parent =>
    traverseLeft (.node ll lk lv lr)
      (.left name entry rchild :: parent)
| current, parent => .entry current parent

/- The name of a root. -/
def rootName : BinTree Nat α → Nat
| .nil => 0
| .node _ name _ _ => name

/-
  The label `traverse_back`. The comparison of the names
  always agrees with the side of the frame.
-/
def traverseBack :
    BinTree Nat α → List (TravFrame α) → TravResult α
| current, [] => .done current
| current, .left name entry rchild :: parent =>
    if rootName current < name then
      .entry (.node current name entry rchild) parent
    else .done current
| current, .right lchild name entry :: parent =>
    if rootName current < name then .done current
    else traverseBack (.node lchild name entry current) parent

/- The label `traverse_right`. -/
def traverseRight
    (current : BinTree Nat α)
    (parent : List (TravFrame α)) : TravResult α :=
  match current with
  | .node lchild name entry (.node rl rk rv rr) =>
      traverseLeft (.node rl rk rv rr)
        (.right lchild name entry :: parent)
  | _ => traverseBack current parent

/- `ipc_splay_traverse_start`. -/
def traverseStart (splay : SplayTree α) : TravResult α :=
  match splay.istRoot with
  | .nil => .done .nil
  | .node _ _ _ _ =>
      traverseLeft (primAssemble splay.state) []

/-
  `ipc_splay_traverse_next`. A deleted entry with one child
  is replaced by it, and one with two children by the
  largest entry of its left subtree.
-/
def traverseNext
    (current : BinTree Nat α)
    (parent : List (TravFrame α))
    (delete : Bool) : TravResult α :=
  if delete then
    match current with
    | .nil => .done .nil
    | .node .nil name _ .nil =>
        match parent with
        | [] => .done .nil
        | .left pname pentry rchild :: parent =>
            if name < pname then
              .entry (.node .nil pname pentry rchild) parent
            else .done .nil
        | .right lchild pname pentry :: parent =>
            if name < pname then .done .nil
            else
              traverseBack (.node lchild pname pentry .nil)
                parent
    | .node .nil _ _ rchild => traverseLeft rchild parent
    | .node lchild _ _ .nil => traverseBack lchild parent
    | .node lchild _ _ rchild =>
        traverseRight (SplayTree.deleteJoin lchild rchild)
          parent
  else traverseRight current parent

/- `ipc_splay_traverse_finish`. -/
def traverseFinish
    (root : BinTree Nat α) : SplayTree α :=
  SplayTree.ofRoot root

/-
  The loop of the callers. The body reads the current entry,
  updates its own state, and says whether to delete.
-/
def traverseLoop
    (body : σ → Nat → α → σ × Bool) :
    Nat → σ → TravResult α → σ × BinTree Nat α
| _, s, .done root => (s, root)
| 0, s, .entry current _ => (s, current)
| fuel + 1, s, .entry current parent =>
    match current with
    | .nil => (s, .nil)
    | .node _ name entry _ =>
        traverseLoop body fuel (body s name entry).1
          (traverseNext current parent
            (body s name entry).2)

/- A whole traversal, from start to finish. -/
def SplayTree.traverse
    (splay : SplayTree α)
    (body : σ → Nat → α → σ × Bool)
    (s : σ) : σ × SplayTree α :=
  let result := traverseLoop body splay.toList.length s
    (traverseStart splay)
  (result.1, traverseFinish result.2)

------
-- Correctness of the Traversal
------

/- The entries left of the current subtree. -/
def travBefore :
    List (TravFrame α) → List (Nat × α)
| [] => []
| .left _ _ _ :: parent => travBefore parent
| .right lchild name entry :: parent =>
    travBefore parent ++ (lchild.toList ++ [(name, entry)])

/- The entries right of the current subtree. -/
def travAfter :
    List (TravFrame α) → List (Nat × α)
| [] => []
| .left name entry rchild :: parent =>
    ((name, entry) :: rchild.toList) ++ travAfter parent
| .right _ _ _ :: parent => travAfter parent

/-
  Where the traversal stands: the entries visited and kept,
  and the entries from the current one on.
-/
def TravResult.View
    (visited rest : List (Nat × α)) :
    TravResult α → Prop
| .done root => rest = [] ∧ root.toList = visited
| .entry current parent =>
    ∃ l k v r,
      current = .node l k v r ∧
        visited = travBefore parent ++ l.toList ∧
        rest = (k, v) :: (r.toList ++ travAfter parent)

theorem traverseLeft_spec
    (tree : BinTree Nat α)
    (hTree : tree ≠ .nil)
    (parent : List (TravFrame α)) :
    (traverseLeft tree parent).View (travBefore parent)
      (tree.toList ++ travAfter parent) := by
  induction tree generalizing parent with
  | nil => exact absurd rfl hTree
  | node l k v r ihL _ =>
      cases l with
      | nil =>
          exact ⟨.nil, k, v, r, rfl, by simp, by simp⟩
      | node ll lk lv lr =>
          simp only [traverseLeft]
          have hLeft := ihL (by simp) (.left k v r :: parent)
          simpa [travBefore, travAfter] using hLeft

theorem rootName_mem
    {tree : BinTree Nat α}
    (hTree : tree ≠ .nil) :
    ∃ v, (rootName tree, v) ∈ tree.toList := by
  cases tree with
  | nil => exact absurd rfl hTree
  | node l k v r => exact ⟨v, by simp [rootName]⟩

theorem traverseBack_spec
    (parent : List (TravFrame α))
    (current : BinTree Nat α)
    (hCurrent : current ≠ .nil)
    (hSorted :
      KeySorted (travBefore parent ++
        (current.toList ++ travAfter parent))) :
    (traverseBack current parent).View
      (travBefore parent ++ current.toList)
      (travAfter parent) := by
  induction parent generalizing current with
  | nil => exact ⟨rfl, by simp [travBefore]⟩
  | cons frame parent ih =>
      rcases rootName_mem hCurrent with ⟨w, hRoot⟩
      cases frame with
      | left k v r =>
          have hParts := (KeySorted.append_iff.mp hSorted).2.1
          have hLt : rootName current < k :=
            (KeySorted.append_iff.mp hParts).2.2 _ hRoot
              (k, v) (by simp [travAfter])
          simp only [traverseBack, hLt, if_true]
          exact ⟨current, k, v, r, rfl, by simp [travBefore],
            by simp [travAfter]⟩
      | right l k v =>
          have hLt : k < rootName current :=
            (KeySorted.append_iff.mp hSorted).2.2 (k, v)
              (by simp [travBefore]) _
              (List.mem_append_left _ hRoot)
          have hNot : ¬ rootName current < k := by omega
          simp only [traverseBack, hNot, if_false]
          have hBack := ih (.node l k v current) (by simp)
            (by
              simpa [travBefore, travAfter] using hSorted)
          simpa [travBefore, travAfter] using hBack

section

variable (parent : List (TravFrame α)) (l : BinTree Nat α)
variable (k : Nat) (v : α) (r : BinTree Nat α)

theorem traverseRight_spec
    (hSorted :
      KeySorted (travBefore parent ++
        ((BinTree.node l k v r).toList ++
          travAfter parent))) :
    (traverseRight (.node l k v r) parent).View
      (travBefore parent ++ (l.toList ++ [(k, v)]))
      (r.toList ++ travAfter parent) := by
  cases r with
  | nil =>
      simp only [traverseRight]
      have hBack := traverseBack_spec parent
        (.node l k v .nil) (by simp) hSorted
      simpa using hBack
  | node rl rk rv rr =>
      simp only [traverseRight]
      have hLeft := traverseLeft_spec (.node rl rk rv rr)
        (by simp) (.right l k v :: parent)
      simpa [travBefore, travAfter] using hLeft

/-
  A step of the traversal moves past the current entry. The
  entry joins the visited ones unless it is deleted.
-/
theorem traverseNext_spec
    (delete : Bool)
    (hSorted :
      KeySorted (travBefore parent ++
        ((BinTree.node l k v r).toList ++
          travAfter parent)))
    (hLe : ∀ entry ∈ l.toList, entry.1 ≤ machPortLargest) :
    (traverseNext (.node l k v r) parent delete).View
      (travBefore parent ++
        (l.toList ++ if delete then [] else [(k, v)]))
      (r.toList ++ travAfter parent) := by
  cases delete with
  | false =>
      exact traverseRight_spec parent l k v r hSorted
  | true =>
      simp only [traverseNext, if_true, List.append_nil]
      -- the list without the deleted entry
      have hRest : KeySorted (travBefore parent ++
          (l.toList ++ (r.toList ++ travAfter parent))) := by
        have hMiddle : KeySorted
            ((travBefore parent ++ l.toList) ++
              (k, v) :: (r.toList ++ travAfter parent)) := by
          simpa using hSorted
        simpa using hMiddle.remove_middle
      cases l with
      | nil =>
          cases r with
          | nil =>
              cases parent with
              | nil => exact ⟨rfl, rfl⟩
              | cons frame parent =>
                  cases frame with
                  | left pk pv pr =>
                      have hTail :=
                        (KeySorted.append_iff.mp hSorted).2.1
                      have hLt : k < pk :=
                        (KeySorted.append_iff.mp
                          hTail).2.2 (k, v) (by simp) (pk, pv)
                          (by simp [travAfter])
                      simp only [hLt, if_true]
                      exact ⟨.nil, pk, pv, pr, rfl, rfl,
                        by simp [travAfter]⟩
                  | right pl pk pv =>
                      have hLt : pk < k :=
                        (KeySorted.append_iff.mp
                          hSorted).2.2 (pk, pv)
                          (by simp [travBefore]) (k, v)
                          (by simp)
                      have hNot : ¬ k < pk := by omega
                      simp only [hNot, if_false]
                      have hBack := traverseBack_spec parent
                        (.node pl pk pv .nil) (by simp)
                        (by simpa [travBefore, travAfter]
                          using hRest)
                      simpa [travBefore, travAfter]
                        using hBack
          | node rl rk rv rr =>
              have hLeft := traverseLeft_spec
                (.node rl rk rv rr) (by simp) parent
              simpa using hLeft
      | node ll lk lv lr =>
          cases r with
          | nil =>
              have hBack := traverseBack_spec parent
                (.node ll lk lv lr) (by simp)
                (by simpa using hRest)
              simpa using hBack
          | node rl rk rv rr =>
              have hOrd :
                  (BinTree.node ll lk lv lr).Ordered :=
                (KeySorted.append_iff.mp
                  (KeySorted.append_iff.mp hRest).2.1).1
              have hJoin := SplayTree.toList_deleteJoin
                (.node ll lk lv lr) (.node rl rk rv rr)
                hOrd hLe
              cases hCase : SplayTree.deleteJoin
                  (.node ll lk lv lr) (.node rl rk rv rr) with
              | nil =>
                  rw [hCase] at hJoin
                  simp at hJoin
              | node jl jk jv jr =>
                  have hRight : jr = .node rl rk rv rr :=
                    SplayTree.deleteJoin_rchild (by simp) (by simp)
                      hCase
                  subst hRight
                  rw [hCase] at hJoin
                  have hJoin' :
                      (jl.toList ++ [(jk, jv)]) ++
                        (BinTree.node rl rk rv rr).toList =
                      (BinTree.node ll lk lv lr).toList ++
                        (BinTree.node rl rk rv rr).toList := by
                    rw [← hJoin]
                    simp
                  have hVisited :=
                    List.append_cancel_right hJoin'
                  have hSorted' : KeySorted
                      (travBefore parent ++
                        ((BinTree.node jl jk jv
                          (.node rl rk rv rr)).toList ++
                          travAfter parent)) := by
                    rw [hJoin, List.append_assoc]
                    exact hRest
                  have hRight := traverseRight_spec parent jl
                    jk jv (.node rl rk rv rr) hSorted'
                  rw [hVisited, ← hCase] at hRight
                  exact hRight

end

/- What the body does over a list of entries. -/
def travFold
    (body : σ → Nat → α → σ × Bool) :
    σ → List (Nat × α) → σ × List (Nat × α)
| s, [] => (s, [])
| s, (k, v) :: rest =>
    let tail := travFold body (body s k v).1 rest
    (tail.1,
      if (body s k v).2 then tail.2 else (k, v) :: tail.2)

theorem traverseLoop_spec
    (body : σ → Nat → α → σ × Bool)
    (fuel : Nat)
    (s : σ)
    (result : TravResult α)
    {visited rest : List (Nat × α)}
    (hView : result.View visited rest)
    (hSorted : KeySorted (visited ++ rest))
    (hLe :
      ∀ entry ∈ visited ++ rest,
        entry.1 ≤ machPortLargest)
    (hFuel : rest.length ≤ fuel) :
    (traverseLoop body fuel s result).1 =
        (travFold body s rest).1 ∧
      (traverseLoop body fuel s result).2.toList =
        visited ++ (travFold body s rest).2 := by
  induction fuel generalizing s result visited rest with
  | zero =>
      have hNil := List.length_eq_zero_iff.mp
        (Nat.le_zero.mp hFuel)
      subst hNil
      cases result with
      | done root =>
          simp [traverseLoop, travFold, hView.2]
      | entry current parent =>
          rcases hView with ⟨l, k, v, r, _, _, hRest⟩
          simp at hRest
  | succ fuel ih =>
      cases result with
      | done root =>
          rcases hView with ⟨hRest, hRoot⟩
          subst hRest
          simp [traverseLoop, travFold, hRoot]
      | entry current parent =>
          rcases hView with
            ⟨l, k, v, r, hCurrent, hVisited, hRest⟩
          subst hCurrent
          subst hVisited
          subst hRest
          have hSorted' : KeySorted (travBefore parent ++
              ((BinTree.node l k v r).toList ++
                travAfter parent)) := by
            simpa using hSorted
          have hNext := traverseNext_spec parent l k v r
            (body s k v).2 hSorted'
            (fun entry hEntry => hLe entry (by simp [hEntry]))
          have hLen : (r.toList ++
              travAfter parent).length ≤ fuel := by
            simpa using hFuel
          simp only [traverseLoop, travFold]
          cases hDelete : (body s k v).2 with
          | true =>
              rw [hDelete] at hNext
              simp only [if_true, List.append_nil] at hNext
              have hTail := ih (body s k v).1 _ hNext
                hSorted.remove_middle
                (fun entry hEntry => hLe entry (by
                  simp only [List.mem_append,
                    List.mem_cons] at hEntry ⊢
                  tauto)) hLen
              simpa using hTail
          | false =>
              rw [hDelete] at hNext
              simp only [Bool.false_eq_true, if_false] at hNext
              have hTail := ih (body s k v).1 _ hNext
                (by simpa using hSorted)
                (fun entry hEntry => hLe entry (by
                  simp only [List.mem_append,
                    List.mem_cons] at hEntry ⊢
                  tauto)) hLen
              simpa using hTail

theorem travFold_sublist
    (body : σ → Nat → α → σ × Bool)
    (s : σ)
    (rest : List (Nat × α)) :
    (travFold body s rest).2.Sublist rest := by
  induction rest generalizing s with
  | nil => exact List.Sublist.refl _
  | cons entry rest ih =>
      rcases entry with ⟨k, v⟩
      have hTail := ih (body s k v).1
      simp only [travFold]
      cases (body s k v).2 with
      | true => exact hTail.cons _
      | false => exact hTail.cons_cons _

namespace SplayTree

variable {splay : SplayTree α}

/-
  A traversal runs its body over the entries in the order of
  their names, and keeps those that the body does not delete.
-/
theorem traverse_spec
    (hWF : splay.WellFormed)
    (body : σ → Nat → α → σ × Bool)
    (s : σ) :
    (splay.traverse body s).1 =
        (travFold body s splay.toList).1 ∧
      (splay.traverse body s).2.toList =
        (travFold body s splay.toList).2 ∧
      (splay.traverse body s).2.WellFormed := by
  have hStart :
      (traverseStart splay).View [] splay.toList := by
    unfold traverseStart
    cases hRoot : splay.istRoot with
    | nil => exact ⟨toList_of_nil hRoot, rfl⟩
    | node l k v r =>
        have hNe : splay.istRoot ≠ .nil := by
          rw [hRoot]
          simp
        have hLeft := traverseLeft_spec
          (primAssemble splay.state)
          (primAssemble_ne_nil _ hNe) []
        rw [toList_primAssemble _ hNe] at hLeft
        rw [toList_of_ne_nil hNe]
        simpa [travBefore, travAfter] using hLeft
  have hLoop := traverseLoop_spec body splay.toList.length s
    _ hStart (by simpa using hWF.sorted)
    (by simpa using hWF.le_largest) (le_refl _)
  have hKept := travFold_sublist body s splay.toList
  have hRoot := ofRoot_spec
    (traverseLoop body splay.toList.length s
      (traverseStart splay)).2
    (by
      unfold BinTree.Ordered
      rw [hLoop.2]
      exact hWF.sorted.sublist hKept)
    (by
      rw [hLoop.2]
      intro entry hEntry
      exact hWF.le_largest entry (hKept.subset hEntry))
  exact ⟨hLoop.1, hRoot.2.trans hLoop.2, hRoot.1⟩

end SplayTree

end Ipc

end OsfMach
