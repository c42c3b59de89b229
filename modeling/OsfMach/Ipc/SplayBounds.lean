import OsfMach.Ipc.SplayStore
import OsfMach.Ipc.SplayTraverseHeap

/-
  The neighbours of a name in a splay tree, from
  `ipc/ipc_splay.c`.

  `ipc_splay_tree_bounds` turns the tail pointers of the side
  trees back into entries. It is called in any order with
  the other operations and with traversals, and itself moves
  the cached state.

  Main declarations:
    * `SplayRegs.bounds`
    * `SplayCall`, `SplayStore.runCalls`
    * `SplayMaps.runCalls`, `SplayMaps.LegalCalls`
    * `IsLowerName`, `IsUpperName`
    * `RepSplay.bounds_sim`
    * `splayBounds_tight`
-/

------
-- Bounds in Memory
------

namespace OsfMach

namespace Ipc

open Function
open Lib

variable {h : NodeHeap Nat} {tp : TailPtr} {p : Nat}

/- The name of the entry that holds the tail pointer. -/
def tailName
    (heap : NodeHeap Nat)
    (tp : TailPtr)
    (default : Nat) : Nat :=
  match tp with
  | .own => default
  | .child a => (heap a).key

/- `ipc_splay_tree_bounds`. -/
def SplayRegs.bounds
    (fuel : Nat)
    (heap : NodeHeap Nat)
    (splay : SplayRegs)
    (name : Nat) :
    Option (Nat × Nat × NodeHeap Nat × SplayRegs) :=
  if splay.istRoot = 0 then
    some (machPortLargest, machPortSmallest, heap, splay)
  else do
    let s ← splay.refocus fuel heap name
    let rname := (s.heap s.tree).key
    let lower :=
      if rname ≤ name then rname
      else tailName s.heap s.ltreep machPortLargest
    let upper :=
      if name ≤ rname then rname
      else tailName s.heap s.rtreep machPortSmallest
    some (lower, upper, s.heap, ofRegs name s)

/- The tail pointer of a left tree is in its last entry. -/
theorem tailName_left
    {spine : LeftSpine Nat Nat}
    (hRep : RepLeft h tp p spine)
    (default : Nat) :
    tailName h tp default =
      match spine.last? with
      | none => default
      | some entry => entry.1 := by
  induction spine generalizing p with
  | nil =>
      have hOwn : tp = .own := hRep
      simp [hOwn, tailName, LeftSpine.last?]
  | cons frame frames ih =>
      rcases frame with ⟨l, k, a⟩
      cases frames with
      | nil =>
          rcases hRep with ⟨_, _, hKey, _, hChild⟩
          simp [hChild, tailName, LeftSpine.last?, hKey]
      | cons frame' frames' =>
          have hTail := ih hRep.2.2.2.2
          rw [hTail]
          simp [LeftSpine.last?]

/- The tail pointer of a right tree is in its last entry. -/
theorem tailName_right
    {spine : RightSpine Nat Nat}
    (hRep : RepRight h tp p spine)
    (default : Nat) :
    tailName h tp default =
      match spine.last? with
      | none => default
      | some entry => entry.1 := by
  induction spine generalizing p with
  | nil =>
      have hOwn : tp = .own := hRep
      simp [hOwn, tailName, RightSpine.last?]
  | cons frame frames ih =>
      rcases frame with ⟨k, a, r⟩
      cases frames with
      | nil =>
          rcases hRep with ⟨_, _, hKey, _, hChild⟩
          simp [hChild, tailName, RightSpine.last?, hKey]
      | cons frame' frames' =>
          have hTail := ih hRep.2.2.2.2
          rw [hTail]
          simp [RightSpine.last?]

/- The call in memory follows `SplayTree.bounds`. -/
theorem RepSplay.bounds_sim
    {heap : NodeHeap Nat}
    {splay : SplayRegs}
    {tree : SplayTree Nat}
    {fuel : Nat}
    (hRep : RepSplay heap splay tree)
    (hWF : tree.WellFormed)
    (hFuel : tree.toList.length ≤ fuel)
    (name : Nat) :
    ∃ heap' splay',
      splay.bounds fuel heap name =
          some ((tree.bounds name).1, (tree.bounds name).2.1,
            heap', splay') ∧
        RepSplay heap' splay' (tree.bounds name).2.2 ∧
        SameOutside tree.addrs heap heap' := by
  by_cases hNil : tree.istRoot = .nil
  · have hZero := hRep.istRoot_eq_zero_iff.mpr hNil
    have hBounds : tree.bounds name =
        (machPortLargest, machPortSmallest, tree) := by
      simp [SplayTree.bounds, hNil]
    rw [hBounds]
    refine ⟨heap, splay, ?_, hRep, SameOutside.refl⟩
    simp [SplayRegs.bounds, hZero]
  · have hNe : splay.istRoot ≠ 0 := fun h =>
      hNil (hRep.istRoot_eq_zero_iff.mp h)
    rcases hRep.refocus_sim hWF hNil hFuel name with
      ⟨s, hRun, hRepS, _, hFrame⟩
    have hFocus := (SplayTree.refocus_spec hWF hNil name).1
    rcases hFocus.exists_root with ⟨l, k, a, r, hTree⟩
    have hRoot := hRepS.tree
    rw [hTree] at hRoot
    have hKey : (s.heap s.tree).key = k := by
      rw [hRoot.1]
      exact hRoot.2.2.1
    have hBounds : tree.bounds name =
        (if k ≤ name then k
          else
            match (tree.refocus name).ltree.last? with
            | none => machPortLargest
            | some entry => entry.1,
          if name ≤ k then k
          else
            match (tree.refocus name).rtree.last? with
            | none => machPortSmallest
            | some entry => entry.1,
          ⟨name, (tree.refocus name).tree,
            (tree.refocus name).ltree,
            (tree.refocus name).rtree⟩) := by
      cases hCase : tree.istRoot with
      | nil => exact absurd hCase hNil
      | node tl tk tv tr =>
          simp only [SplayTree.bounds, hCase, hTree]
          cases (tree.refocus name).ltree.last? <;>
            cases (tree.refocus name).rtree.last? <;> rfl
    rw [hBounds]
    refine ⟨s.heap, SplayRegs.ofRegs name s, ?_, ?_, hFrame⟩
    · simp only [SplayRegs.bounds, hNe, if_false, hRun,
        Option.bind_eq_bind, Option.bind_some, hKey,
        tailName_left hRepS.left, tailName_right hRepS.right]
    · exact ⟨hRepS.tree, fun _ => rfl, fun _ => hRepS⟩

------
-- Bounds in Every Reachable State
------

/-
  The calls of a client: the operations, bounds, and a
  traversal that deletes the given names.
-/
inductive SplayCall where
| op (op : SplayOp)
| bounds (tree : Nat) (name : Nat)
| traverse (tree : Nat) (deletes : List Nat)
deriving DecidableEq, Repr

/- The body of a traversal that deletes some names. -/
def deleteNames
    (deletes : List Nat)
    (s : Unit)
    (name _entry : Nat) : Unit × Bool :=
  (s, decide (name ∈ deletes))

namespace SplayStore

/- The bounds of a name in one of the trees. -/
def bounds
    (fuel : Nat)
    (store : SplayStore)
    (i name : Nat) : Option (SplayStore × Nat × Nat) := do
  let (lower, upper, heap, splay) ←
    (store.splays i).bounds fuel store.heap name
  some (⟨heap, update store.splays i splay⟩,
    lower, upper)

/- One call, without its results. -/
def call
    (junk : Nat → Node Nat)
    (fuel : Nat)
    (store : SplayStore) : SplayCall → Option SplayStore
| .op op => do
    let (store, _) ← store.exec fuel op
    some store
| .bounds i name => do
    let (store, _) ← store.bounds fuel i name
    some store
| .traverse i deletes => do
    let (_, heap, splay) ←
      (store.splays i).traverse junk fuel store.heap
        (deleteNames deletes) ()
    some ⟨heap, update store.splays i splay⟩

/- A sequence of calls. -/
def runCalls
    (junk : Nat → Node Nat)
    (fuel : Nat) :
    SplayStore → List SplayCall → Option SplayStore
| store, [] => some store
| store, call :: calls => do
    let store ← store.call junk fuel call
    runCalls junk fuel store calls

end SplayStore

namespace SplayMaps

/- What a call does to the maps. -/
def call
    (maps : SplayMaps) : SplayCall → SplayMaps
| .op op => (maps.exec op).1
| .bounds _ _ => maps
| .traverse i deletes =>
    update maps i
      (fun n => if n ∈ deletes then none else maps i n)

def runCalls : SplayMaps → List SplayCall → SplayMaps
| maps, [] => maps
| maps, call :: calls => runCalls (maps.call call) calls

/- Only the operations ask something of their callers. -/
def LegalCall (maps : SplayMaps) : SplayCall → Prop
| .op op => maps.Legal op
| .bounds _ _ => True
| .traverse _ _ => True

def LegalCalls : SplayMaps → List SplayCall → Prop
| _, [] => True
| maps, call :: calls =>
    maps.LegalCall call ∧ LegalCalls (maps.call call) calls

end SplayMaps

/-
  The greatest name of a map not above `name`, or the
  largest name of all when there is none.
-/
def IsLowerName
    (map : Nat → Option Nat)
    (name lower : Nat) : Prop :=
  (lower = machPortLargest ∧ ∀ n, map n ≠ none → name < n) ∨
    (map lower ≠ none ∧ lower ≤ name ∧
      ∀ n, map n ≠ none → n ≤ name → n ≤ lower)

/-
  The smallest name of a map not below `name`, or the
  smallest name of all when there is none.
-/
def IsUpperName
    (map : Nat → Option Nat)
    (name upper : Nat) : Prop :=
  (upper = machPortSmallest ∧
      ∀ n, map n ≠ none → n < name) ∨
    (map upper ≠ none ∧ name ≤ upper ∧
      ∀ n, map n ≠ none → name ≤ n → upper ≤ n)

namespace RepMaps

variable {used : List Nat} {store : SplayStore}
variable {trees : Nat → SplayTree Nat} {maps : SplayMaps}

section

variable (hRep : RepMaps used store trees maps)
include hRep

/- The names of a map are those of the entries. -/
theorem ne_none_iff
    (i name : Nat) :
    maps i name ≠ none ↔
      ∃ a, (name, a) ∈ (trees i).toList := by
  rw [← hRep.lookup]
  constructor
  · intro hSome
    rcases Option.ne_none_iff_exists'.mp hSome with
      ⟨a, hLookup⟩
    exact ⟨a, mem_of_lookup_eq_some hLookup⟩
  · rintro ⟨a, hMem⟩
    rw [(hRep.wf i).sorted.lookup_of_mem hMem]
    simp

theorem isLowerName
    {i name lower : Nat}
    (hLower :
      SplayTree.IsLower (trees i).toList name lower) :
    IsLowerName (maps i) name lower := by
  rcases hLower with ⟨hNone, hAll⟩ | ⟨hMem, hLe, hAll⟩
  · refine Or.inl ⟨hNone, ?_⟩
    intro n hn
    rcases (hRep.ne_none_iff i n).mp hn with ⟨a, ha⟩
    exact hAll (n, a) ha
  · refine Or.inr
      ⟨(hRep.ne_none_iff i lower).mpr hMem, hLe, ?_⟩
    intro n hn hnName
    rcases (hRep.ne_none_iff i n).mp hn with ⟨a, ha⟩
    exact hAll (n, a) ha hnName

theorem isUpperName
    {i name upper : Nat}
    (hUpper :
      SplayTree.IsUpper (trees i).toList name upper) :
    IsUpperName (maps i) name upper := by
  rcases hUpper with ⟨hNone, hAll⟩ | ⟨hMem, hLe, hAll⟩
  · refine Or.inl ⟨hNone, ?_⟩
    intro n hn
    rcases (hRep.ne_none_iff i n).mp hn with ⟨a, ha⟩
    exact hAll (n, a) ha
  · refine Or.inr
      ⟨(hRep.ne_none_iff i upper).mpr hMem, hLe, ?_⟩
    intro n hn hnName
    rcases (hRep.ne_none_iff i n).mp hn with ⟨a, ha⟩
    exact hAll (n, a) ha hnName

end

/- What a traversal that deletes some names keeps. -/
theorem travFold_deleteNames
    (deletes : List Nat)
    (s : Unit)
    (entries : List (Nat × Nat)) :
    travFold (deleteNames deletes) s entries =
      ((), entries.filter (fun e => e.1 ∉ deletes)) := by
  induction entries generalizing s with
  | nil => rfl
  | cons entry entries ih =>
      simp only [travFold, deleteNames] at ih ⊢
      rw [ih]
      by_cases hMem : entry.1 ∈ deletes
      · simp [hMem]
      · simp [hMem]

theorem lookup_filter_key
    (deletes : List Nat)
    (entries : List (Nat × Nat))
    (name : Nat) :
    (entries.filter (fun e => e.1 ∉ deletes)).lookup name =
      if name ∈ deletes then none
      else entries.lookup name := by
  induction entries with
  | nil => simp
  | cons entry entries ih =>
      rcases entry with ⟨k, a⟩
      by_cases hEq : name = k
      · subst hEq
        by_cases hMem : name ∈ deletes
        · simpa [List.filter_cons, hMem] using ih
        · simp [hMem]
      · have hNe : (name == k) = false := by simp [hEq]
        by_cases hMem : k ∈ deletes
        · simpa [List.filter_cons, hMem, List.lookup_cons, hNe]
            using ih
        · simpa [List.filter_cons, hMem, List.lookup_cons, hNe]
            using ih

/- Asking for bounds changes no map. -/
theorem bounds_sim
    {fuel : Nat}
    (hRep : RepMaps used store trees maps)
    (hFuel : used.length ≤ fuel)
    (i name : Nat) :
    ∃ store' trees' lower upper,
      store.bounds fuel i name =
          some (store', lower, upper) ∧
        RepMaps used store' trees' maps ∧
        IsLowerName (maps i) name lower ∧
        IsUpperName (maps i) name upper := by
  have hLen := (hRep.length_le i).trans hFuel
  rcases SplayTree.bounds_spec (hRep.wf i) name with
    ⟨hLower, hUpper, hList, hWF⟩
  rcases (hRep.rep i).bounds_sim (hRep.wf i) hLen name with
    ⟨heap', splay', hBounds, hTree, hFrame⟩
  have hAddrs : ((trees i).bounds name).2.2.addrs =
      (trees i).addrs := by
    simp only [SplayTree.addrs, hList]
  have hNew := @change_one _ _ _ _ hRep i [] _ _ _ (maps i)
    (by simp) hFrame hTree hWF
    (fun n => by rw [hList]; exact hRep.lookup i n)
    (by simp [hAddrs])
  rw [update_eq_self] at hNew
  refine ⟨_, _, _, _, ?_, hNew, hRep.isLowerName hLower,
    hRep.isUpperName hUpper⟩
  simp [SplayStore.bounds, hBounds]

/- A traversal deletes its names from the map. -/
theorem traverse_sim
    {junk : Nat → Node Nat}
    {fuel : Nat}
    (hRep : RepMaps used store trees maps)
    (hFuel : used.length ≤ fuel)
    (i : Nat)
    (deletes : List Nat) :
    ∃ store' trees',
      store.call junk fuel (.traverse i deletes) =
          some store' ∧
        RepMaps used store' trees'
          (maps.call (.traverse i deletes)) := by
  have hLen := (hRep.length_le i).trans hFuel
  rcases @RepSplay.traverse_sim _ junk _ _ _ _ (hRep.rep i)
      (hRep.wf i) hLen (deleteNames deletes) () with
    ⟨heap', splay', tree', hRun, hTree, hWF, hList, hFrame⟩
  have hKept := travFold_sublist (deleteNames deletes) ()
    (trees i).toList
  rw [travFold_deleteNames] at hList hKept
  have hCall : store.call junk fuel (.traverse i deletes) =
      some ⟨heap',
        update store.splays i splay'⟩ := by
    simp [SplayStore.call, hRun]
  refine ⟨_, _, hCall, @change_one _ _ _ _ hRep i [] _ _ _ _
    (by simp) hFrame hTree hWF ?_ ?_⟩
  · intro n
    rw [hList, lookup_filter_key, hRep.lookup]
  · intro a ha
    rw [SplayTree.addrs, hList] at ha
    exact (hKept.map Prod.snd).subset ha

/- One legal call. -/
theorem call_sim
    {junk : Nat → Node Nat}
    {fuel : Nat}
    {call : SplayCall}
    (hRep : RepMaps used store trees maps)
    (hFuel : used.length ≤ fuel)
    (hLegal : maps.LegalCall call) :
    ∃ used' store' trees',
      store.call junk fuel call = some store' ∧
        RepMaps used' store' trees' (maps.call call) ∧
        used'.length ≤ used.length + 1 := by
  cases call with
  | op op =>
      rcases hRep.exec_sim hFuel hLegal with
        ⟨store', trees', hExec, hRep'⟩
      have hNodes : op.nodes.length ≤ 1 := by
        cases op <;> simp [SplayOp.nodes]
      refine ⟨_, store', trees', ?_, hRep', ?_⟩
      · simp [SplayStore.call, hExec]
      · rw [List.length_append]
        omega
  | bounds i name =>
      rcases hRep.bounds_sim hFuel i name with
        ⟨store', trees', lower, upper, hBounds, hRep', _, _⟩
      refine ⟨used, store', trees', ?_, hRep', by omega⟩
      simp [SplayStore.call, hBounds]
  | traverse i deletes =>
      rcases @traverse_sim _ _ _ _ junk _ hRep hFuel i
          deletes with
        ⟨store', trees', hCall, hRep'⟩
      exact ⟨used, store', trees', hCall, hRep', by omega⟩

/- A legal sequence of calls runs, and the maps hold. -/
theorem runCalls_sim
    {junk : Nat → Node Nat}
    {fuel : Nat}
    (calls : List SplayCall)
    {used : List Nat}
    {store : SplayStore}
    {trees : Nat → SplayTree Nat}
    {maps : SplayMaps}
    (hRep : RepMaps used store trees maps)
    (hFuel : used.length + calls.length ≤ fuel)
    (hLegal : maps.LegalCalls calls) :
    ∃ used' store' trees',
      store.runCalls junk fuel calls = some store' ∧
        RepMaps used' store' trees' (maps.runCalls calls) ∧
        used'.length ≤ fuel := by
  induction calls generalizing used store trees maps with
  | nil => exact ⟨used, store, trees, rfl, hRep, hFuel⟩
  | cons call calls ih =>
      simp only [List.length_cons] at hFuel
      have hFuel₀ : used.length ≤ fuel := by omega
      rcases @call_sim _ _ _ _ junk _ _ hRep hFuel₀
          hLegal.1 with
        ⟨used₁, store₁, trees₁, hCall, hRep₁, hUsed₁⟩
      rcases ih hRep₁ (by omega) hLegal.2 with
        ⟨used₂, store₂, trees₂, hRun, hRep₂, hUsed₂⟩
      refine ⟨used₂, store₂, trees₂, ?_, hRep₂, hUsed₂⟩
      simp [SplayStore.runCalls, hCall, hRun]

end RepMaps

/-
  The bounds are tight in every reachable state. After any
  legal sequence of calls, the call returns for any name its
  neighbours in the map that the tree stands for.
-/
theorem splayBounds_tight
    (junk : Nat → Node Nat)
    (heap : NodeHeap Nat)
    (raw : Nat → SplayRegs)
    (calls : List SplayCall)
    (fuel : Nat)
    (hLegal : SplayMaps.empty.LegalCalls calls)
    (hFuel : calls.length ≤ fuel) :
    ∃ store,
      (SplayStore.init heap raw).runCalls junk fuel calls =
          some store ∧
        ∀ i name, ∃ store' lower upper,
          store.bounds fuel i name =
              some (store', lower, upper) ∧
            IsLowerName (SplayMaps.empty.runCalls calls i)
              name lower ∧
            IsUpperName (SplayMaps.empty.runCalls calls i)
              name upper := by
  rcases @RepMaps.runCalls_sim junk fuel calls _ _ _ _
      (RepMaps.init heap raw) (by simpa using hFuel)
      hLegal with
    ⟨used, store, trees, hRun, hRep, hUsed⟩
  refine ⟨store, hRun, fun i name => ?_⟩
  rcases hRep.bounds_sim hUsed i name with
    ⟨store', _, lower, upper, hBounds, _, hLower, hUpper⟩
  exact ⟨store', lower, upper, hBounds, hLower, hUpper⟩

/- The cached state moves between two calls for bounds. -/
def sampleSplayCalls : List SplayCall :=
  [.op (.insert 0 5 1), .op (.insert 0 3 2), .bounds 0 4,
    .op (.insert 0 8 3), .op (.delete 0 5)]

theorem splayBounds_tight_sample :
    ∃ store,
      (SplayStore.init (fun _ => ⟨0, 0, 0⟩)
          (fun _ => ⟨0, 0, 0, .own, 0, .own⟩)).runCalls
        (fun _ => ⟨0, 7, 7⟩) 5 sampleSplayCalls =
          some store ∧
        ∀ i name, ∃ store' lower upper,
          store.bounds 5 i name =
              some (store', lower, upper) ∧
            IsLowerName
              (SplayMaps.empty.runCalls sampleSplayCalls i)
              name lower ∧
            IsUpperName
              (SplayMaps.empty.runCalls sampleSplayCalls i)
              name upper := by
  apply splayBounds_tight (fun _ => ⟨0, 7, 7⟩)
    (fun _ => ⟨0, 0, 0⟩)
    (fun _ => ⟨0, 0, 0, .own, 0, .own⟩) sampleSplayCalls 5
  · simp [sampleSplayCalls, SplayMaps.LegalCalls,
      SplayMaps.LegalCall, SplayMaps.call,
      SplayMaps.Legal, SplayMaps.exec, SplayMaps.empty,
      machPortLargest, update_apply]
    constructor <;> intro j n <;> grind [SplayMaps.empty]
  · decide

example :
    (do
      let store ← (SplayStore.init (fun _ => ⟨0, 0, 0⟩)
        (fun _ => ⟨0, 0, 0, .own, 0, .own⟩)).runCalls
          (fun _ => ⟨0, 7, 7⟩) 5
          (sampleSplayCalls ++ [.traverse 0 [3]])
      let (_, lower, upper) ← store.bounds 5 0 4
      some (lower, upper)) = some (machPortLargest, 8) := by
  decide

end Ipc

end OsfMach
