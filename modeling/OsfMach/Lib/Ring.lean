import Mathlib.Data.List.Nodup
import Mathlib.Logic.Function.Basic

/-
  Queues kept as rings of doubly linked nodes.

  All nodes share the two link fields, and a queue is known
  by its first node. A node that is on no queue links to
  itself. The updates are done one after the other, as a
  program does them, and a ring is described by the list of
  its nodes from the first one on.

  Main declarations:
    * `Links`, `Links.enqueue`
    * `Links.Segment`, `Links.IsRing`, `Links.Alone`
    * `Links.IsRing.enqueue`, `Links.IsRing.removeFirst`
    * `Links.IsRing.congr`
-/

------
-- Links
------

namespace Lib

open Function
open List

/- The link fields of all nodes. -/
structure Links (α : Type*) where
  next : α → α
  prev : α → α

namespace Links

variable {α : Type*} [DecidableEq α] {first w : α}

def setNext (links : Links α) (x y : α) : Links α :=
  { links with next := update links.next x y }

def setPrev (links : Links α) (x y : α) : Links α :=
  { links with prev := update links.prev x y }

/- Link a node to itself. -/
def init (links : Links α) (x : α) : Links α :=
  (links.setNext x x).setPrev x x

/- Put a node at the end of a queue. -/
def enqueue
    (links : Links α)
    (x : α) : Option α → Option α × Links α
| none => (some x, links)
| some first =>
    let last := links.prev first
    (some first,
      (((links.setNext x first).setPrev x last).setPrev
        first x).setNext last x)

/- Take the first node off a queue. -/
def removeFirst
    (links : Links α)
    (first : α) : Option α × Links α :=
  let next := links.next first
  if next = first then (none, links)
  else
    let prev := links.prev first
    (some next,
      ((links.setPrev next prev).setNext prev next).init
        first)

/- Take any node off a queue. -/
def remove
    (links : Links α)
    (base : Option α)
    (x : α) : Option α × Links α :=
  let next := links.next x
  let prev := links.prev x
  if next = x then (none, links)
  else
    (if base = some x then some next else base,
      ((links.setPrev next prev).setNext prev next).init x)

------
-- Reading Links Back
------

omit [DecidableEq α] in
/- Links from one node through a list to another. -/
def Segment
    (links : Links α) :
    α → List α → α → Prop
| x, [], y => links.next x = y ∧ links.prev y = x
| x, z :: nodes, y =>
    (links.next x = z ∧ links.prev z = x) ∧
      links.Segment z nodes y

omit [DecidableEq α] in
/- A queue and the nodes on it, in order. -/
def IsRing
    (links : Links α)
    (base : Option α) : List α → Prop
| [] => base = none
| first :: nodes =>
    base = some first ∧ (first :: nodes).Nodup ∧
      links.Segment first nodes first

omit [DecidableEq α] in
/- A node that links to itself. -/
def Alone (links : Links α) (x : α) : Prop :=
  links.next x = x ∧ links.prev x = x

variable {links links' : Links α} {x y z : α} {base : Option α}
variable {nodes rest : List α}

omit [DecidableEq α] in
/- A segment is cut at any of its nodes. -/
theorem segment_append :
    links.Segment x (nodes ++ z :: rest) y ↔
      links.Segment x nodes z ∧ links.Segment z rest y := by
  induction nodes generalizing x with
  | nil => exact Iff.rfl
  | cons w nodes ih =>
      constructor
      · rintro ⟨hLink, hRest⟩
        rcases ih.mp hRest with ⟨hLeft, hRight⟩
        exact ⟨⟨hLink, hLeft⟩, hRight⟩
      · rintro ⟨⟨hLink, hLeft⟩, hRight⟩
        exact ⟨hLink, ih.mpr ⟨hLeft, hRight⟩⟩

omit [DecidableEq α] in
/- A segment depends on the links of its nodes only. -/
theorem Segment.congr
    (hNext : ∀ w ∈ x :: nodes, links'.next w = links.next w)
    (hPrev : ∀ w ∈ nodes ++ [y],
      links'.prev w = links.prev w)
    (hSegment : links.Segment x nodes y) :
    links'.Segment x nodes y := by
  induction nodes generalizing x with
  | nil =>
      have hx := hNext x (mem_cons_self ..)
      have hy := hPrev y (mem_singleton.mpr rfl)
      exact ⟨hx.trans hSegment.1, hy.trans hSegment.2⟩
  | cons z nodes ih =>
      rcases hSegment with ⟨⟨hOut, hBack⟩, hRest⟩
      have hx := hNext x (mem_cons_self ..)
      have hz := hPrev z (mem_cons_self ..)
      refine ⟨⟨hx.trans hOut, hz.trans hBack⟩, ?_⟩
      apply ih _ _ hRest
      · intro w hw
        exact hNext w (mem_cons_of_mem _ hw)
      · intro w hw
        exact hPrev w (mem_cons_of_mem _ hw)

namespace IsRing

omit [DecidableEq α] in
theorem nodup
    (hRing : links.IsRing base nodes) :
    nodes.Nodup := by
  cases nodes with
  | nil => exact nodup_nil
  | cons first nodes => exact hRing.2.1

omit [DecidableEq α] in
theorem base_eq
    (hRing : links.IsRing base nodes) :
    base = nodes.head? := by
  cases nodes with
  | nil => exact hRing
  | cons first nodes => exact hRing.1

omit [DecidableEq α] in
/- A ring depends on the links of its nodes only. -/
theorem congr
    (hNext : ∀ w ∈ nodes, links'.next w = links.next w)
    (hPrev : ∀ w ∈ nodes, links'.prev w = links.prev w)
    (hRing : links.IsRing base nodes) :
    links'.IsRing base nodes := by
  cases nodes with
  | nil => exact hRing
  | cons first nodes =>
      refine ⟨hRing.1, hRing.2.1, ?_⟩
      apply Segment.congr hNext _ hRing.2.2
      intro w hw
      apply hPrev w
      rw [mem_append, mem_singleton] at hw
      rw [mem_cons]
      exact hw.symm

omit [DecidableEq α] in
/- A ring is the same from any of its nodes on. -/
theorem rotate
    (hRing : links.IsRing (some x)
      (x :: (nodes ++ y :: rest))) :
    links.IsRing (some y) (y :: (rest ++ x :: nodes)) := by
  rcases hRing with ⟨_, hNodup, hSegment⟩
  rcases segment_append.mp hSegment with ⟨hFront, hBack⟩
  refine ⟨rfl, ?_, segment_append.mpr ⟨hBack, hFront⟩⟩
  rw [← cons_append] at hNodup ⊢
  exact nodup_append_comm.mp hNodup

end IsRing

------
-- Adding a Node
------

/- Nodes that neither end the queue nor come in. -/
theorem enqueue_next_of_ne
    (hNew : w ≠ x)
    (hLast : w ≠ links.prev first) :
    (links.enqueue x (some first)).2.next w =
      links.next w := by
  unfold enqueue setNext setPrev
  dsimp only
  rw [update_of_ne hLast, update_of_ne hNew]

theorem enqueue_prev_of_ne
    (hNew : w ≠ x)
    (hFirst : w ≠ first) :
    (links.enqueue x (some first)).2.prev w =
      links.prev w := by
  unfold enqueue setNext setPrev
  dsimp only
  rw [update_of_ne hFirst, update_of_ne hNew]

/- The links around the node that comes in. -/
theorem enqueue_links
    {first last : α}
    (hPrev : links.prev first = last)
    (hFirst : x ≠ first)
    (hLast : x ≠ last) :
    (links.enqueue x (some first)).2.Segment last [x]
      first := by
  unfold enqueue setNext setPrev Segment Segment
  dsimp only
  rw [hPrev, update_self, update_self, update_of_ne hFirst,
    update_self, update_of_ne hLast, update_self]
  exact ⟨⟨rfl, rfl⟩, rfl, rfl⟩

omit [DecidableEq α] in
/- A list is empty or ends with a node. -/
theorem eq_nil_or_last
    (nodes : List α) :
    nodes = [] ∨ ∃ front last, nodes = front ++ [last] := by
  rcases eq_nil_or_concat nodes with h | ⟨front, last, h⟩
  · exact Or.inl h
  · rw [concat_eq_append] at h
    exact Or.inr ⟨front, last, h⟩

/- The node comes last. -/
theorem IsRing.enqueue
    (hRing : links.IsRing base nodes)
    (hNew : x ∉ nodes)
    (hAlone : links.Alone x) :
    (links.enqueue x base).2.IsRing
      (links.enqueue x base).1 (nodes ++ [x]) := by
  cases nodes with
  | nil =>
      have hBase : base = none := hRing
      subst hBase
      exact ⟨rfl, nodup_singleton x, hAlone⟩
  | cons first nodes =>
      rcases hRing with ⟨hBase, hNodup, hSegment⟩
      subst hBase
      have hFirst : x ≠ first := by
        intro h
        exact hNew (h ▸ mem_cons_self ..)
      have hNodup' : (first :: nodes ++ [x]).Nodup := by
        apply List.Nodup.append hNodup (nodup_singleton x)
        intro w hw hx
        rw [mem_singleton] at hx
        exact hNew (hx ▸ hw)
      refine ⟨rfl, hNodup', ?_⟩
      rcases eq_nil_or_last nodes with h | ⟨front, last, h⟩
      · subst h
        exact enqueue_links hSegment.2 hFirst hFirst
      · subst h
        -- only the links after `last` and before `first` change
        rcases segment_append.mp hSegment with ⟨hFront, hBack⟩
        have hPrev : links.prev first = last := hBack.2
        have hLast : x ≠ last := by
          intro h
          apply hNew
          rw [h]
          simp
        have hAssoc : (front ++ [last]).append [x] =
            front ++ last :: [x] := append_assoc ..
        rw [hAssoc]
        apply segment_append.mpr
        refine ⟨?_, enqueue_links hPrev hFirst hLast⟩
        rw [nodup_cons, nodup_append] at hNodup
        rcases hNodup with ⟨hOut, _, _, hApart⟩
        apply Segment.congr _ _ hFront
        · intro w hw
          apply enqueue_next_of_ne
          · intro h
            apply hNew
            rw [← h]
            rw [mem_cons] at hw ⊢
            rcases hw with hw | hw
            · exact Or.inl hw
            · exact Or.inr (mem_append_left _ hw)
          · rw [hPrev]
            rintro rfl
            rw [mem_cons] at hw
            rcases hw with hw | hw
            · apply hOut
              rw [← hw]
              simp
            · exact hApart w hw w (by simp) rfl
        · intro w hw
          apply enqueue_prev_of_ne
          · intro h
            apply hNew
            rw [← h]
            exact mem_cons_of_mem _ hw
          · intro h
            apply hOut
            rw [← h]
            exact hw

omit [DecidableEq α] in
/- The node before the first one is the last one. -/
theorem IsRing.prev_mem
    (hRing : links.IsRing (some first) (first :: nodes)) :
    links.prev first ∈ first :: nodes := by
  rcases eq_nil_or_last nodes with h | ⟨front, last, h⟩
  · subst h
    rw [hRing.2.2.2]
    exact mem_cons_self ..
  · subst h
    rw [(segment_append.mp hRing.2.2).2.2]
    simp

/- Nodes of other queues keep their links. -/
theorem enqueue_frame
    (hRing : links.IsRing base nodes)
    (hOut : w ∉ nodes)
    (hNew : w ≠ x) :
    (links.enqueue x base).2.next w = links.next w ∧
      (links.enqueue x base).2.prev w = links.prev w := by
  cases nodes with
  | nil =>
      have hBase : base = none := hRing
      subst hBase
      exact ⟨rfl, rfl⟩
  | cons first nodes =>
      have hBase : base = some first := hRing.1
      subst hBase
      constructor
      · apply enqueue_next_of_ne hNew
        intro h
        exact hOut (h ▸ hRing.prev_mem)
      · apply enqueue_prev_of_ne hNew
        intro h
        exact hOut (h ▸ mem_cons_self ..)

------
-- Taking the First Node Off
------

/- The first node is taken off as any other. -/
theorem remove_base
    (links : Links α)
    (first : α) :
    links.remove (some first) first =
      links.removeFirst first := by
  unfold remove removeFirst
  dsimp only
  rw [if_pos rfl]

/- Nodes away from the cut. -/
theorem removeFirst_next_of_ne
    (hFirst : w ≠ first)
    (hPrev : w ≠ links.prev first) :
    (links.removeFirst first).2.next w = links.next w := by
  unfold removeFirst
  dsimp only
  split_ifs with h
  · rfl
  · unfold init setNext setPrev
    dsimp only
    rw [update_of_ne hFirst, update_of_ne hPrev]

theorem removeFirst_prev_of_ne
    (hFirst : w ≠ first)
    (hNext : w ≠ links.next first) :
    (links.removeFirst first).2.prev w = links.prev w := by
  unfold removeFirst
  dsimp only
  split_ifs with h
  · rfl
  · unfold init setNext setPrev
    dsimp only
    rw [update_of_ne hFirst, update_of_ne hNext]

/- The neighbours of the node are linked to each other. -/
theorem removeFirst_links
    {first second last : α}
    (hNext : links.next first = second)
    (hPrev : links.prev first = last)
    (hSecond : second ≠ first)
    (hLast : last ≠ first) :
    (links.removeFirst first).1 = some second ∧
      (links.removeFirst first).2.Segment last [] second ∧
      (links.removeFirst first).2.Alone first := by
  unfold removeFirst
  rw [hNext, hPrev, if_neg hSecond]
  refine ⟨rfl, ⟨?_, ?_⟩, ?_, ?_⟩
  · unfold init setNext setPrev
    dsimp only
    rw [update_of_ne hLast, update_self]
  · unfold init setNext setPrev
    dsimp only
    rw [update_of_ne hSecond, update_self]
  · exact update_self ..
  · exact update_self ..

/- The other nodes stay, in their order. -/
theorem IsRing.removeFirst
    (hRing : links.IsRing base (first :: nodes)) :
    (links.removeFirst first).2.IsRing
        (links.removeFirst first).1 nodes ∧
      (links.removeFirst first).2.Alone first := by
  rcases hRing with ⟨_, hNodup, hSegment⟩
  rw [nodup_cons] at hNodup
  cases nodes with
  | nil =>
      unfold Links.removeFirst
      rw [if_pos hSegment.1]
      exact ⟨rfl, hSegment⟩
  | cons second nodes =>
      rcases hSegment with ⟨⟨hNext, _⟩, hRest⟩
      have hSecond : second ≠ first := by
        intro h
        exact hNodup.1 (h ▸ mem_cons_self ..)
      rcases eq_nil_or_last nodes with h | ⟨front, last, h⟩
      · subst h
        rcases removeFirst_links hNext hRest.2 hSecond hSecond
          with ⟨hBase, hLink, hAlone⟩
        exact ⟨⟨hBase, hNodup.2, hLink⟩, hAlone⟩
      · subst h
        rcases segment_append.mp hRest with ⟨hFront, hBack⟩
        have hLast : last ≠ first := by
          rintro rfl
          apply hNodup.1
          simp
        have hPrev : links.prev first = last := hBack.2
        rcases removeFirst_links hNext hPrev hSecond hLast
          with ⟨hBase, hLink, hAlone⟩
        refine ⟨⟨hBase, hNodup.2, ?_⟩, hAlone⟩
        apply segment_append.mpr
        refine ⟨?_, hLink⟩
        rcases hNodup with ⟨hOut, hNodup⟩
        rw [nodup_cons, nodup_append] at hNodup
        rcases hNodup with ⟨hOut', _, _, hApart⟩
        -- `last` and `second` are the ends of the front part
        apply Segment.congr _ _ hFront
        · intro w hw
          apply removeFirst_next_of_ne
          · rintro rfl
            apply hOut
            rw [mem_cons] at hw ⊢
            rcases hw with hw | hw
            · exact Or.inl hw
            · exact Or.inr (mem_append_left _ hw)
          · rw [hPrev]
            rintro rfl
            rw [mem_cons] at hw
            rcases hw with hw | hw
            · apply hOut'
              rw [← hw]
              simp
            · exact hApart w hw w (by simp) rfl
        · intro w hw
          apply removeFirst_prev_of_ne
          · rintro rfl
            exact hOut (mem_cons_of_mem _ hw)
          · rw [hNext]
            rintro rfl
            exact hOut' hw

/- Nodes of other queues keep their links. -/
theorem removeFirst_frame
    (hRing : links.IsRing (some first) (first :: nodes))
    (hOut : w ∉ first :: nodes) :
    (links.removeFirst first).2.next w = links.next w ∧
      (links.removeFirst first).2.prev w =
        links.prev w := by
  have hFirst : w ≠ first := by
    intro h
    exact hOut (h ▸ mem_cons_self ..)
  constructor
  · apply removeFirst_next_of_ne hFirst
    intro h
    exact hOut (h ▸ hRing.prev_mem)
  · apply removeFirst_prev_of_ne hFirst
    intro h
    apply hOut
    rw [h]
    cases nodes with
    | nil =>
        rw [hRing.2.2.1]
        exact mem_cons_self ..
    | cons second nodes =>
        rw [hRing.2.2.1.1]
        simp

end Links

end Lib
