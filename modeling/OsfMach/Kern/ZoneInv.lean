import OsfMach.Kern.Zone
import Mathlib.Data.List.Perm.Basic
import Mathlib.Data.List.Perm.Lattice
import Mathlib.Data.List.Nodup

/-
  What holds of a zone in every state.

  The elements of a zone are those on its free list and those
  that were handed out. The memory on its way into the zone,
  and the space of `zget_space`, are apart from them.

  Main declarations:
    * `FreeChain`, `ElemsOk`, `ZoneInv`
    * `Fresh`
    * `ZoneInv.remove`, `ZoneInv.add`
    * `zcram_inv`
-/

------
-- The Invariant
------

namespace OsfMach

namespace Kern

open List
open Lib
open Lib.Pages

variable {τ : Type}

/- The link of an element, and of the head of the list. -/
def ZoneState.links (s : ZoneState τ) (a : Nat) : Nat :=
  if a = 0 then s.freeElements else s.word a

def FreeChain (s : ZoneState τ) (free : List Nat) : Prop :=
  IndexChain.Chain s.links 0 free

/- Memory that was allocated in the map and not crammed. -/
def ZonePhase.Paged (p : ZonePhase) (a n : Nat) : Prop :=
  p = .holding a n ∨ p = .grown a n

/- A thread that expands the zone. -/
def ZonePhase.busy (p : ZonePhase) : Bool :=
  match p with
  | .outside => false
  | .waiting => false
  | .counting _ => false
  | _ => true

/- The space that `zget_space` has left. -/
def ZoneState.left (s : ZoneState τ) : Nat :=
  s.zallocEndOfSpace - s.zallocNextSpace

section Definitions

variable (c : ZoneConfig)

/- The pages of a range are allocated in the map. -/
def Placed (s : ZoneState τ) (a n : Nat) : Prop :=
  ∀ p ∈ c.pages a n, s.mapped p = true

/- A range that is in the map of zones, or not at all. -/
def Whole (a n : Nat) : Prop :=
  (∀ x, a ≤ x → x < a + n → c.fromZoneMap x = true) ∧
      (∀ p ∈ c.pages a n,
        c.fromZoneMap (p * c.pageSize) = true) ∨
    (∀ x, a ≤ x → x < a + n → c.fromZoneMap x = false) ∧
      ∀ p ∈ c.pages a n,
        c.fromZoneMap (p * c.pageSize) = false

/- A range apart from the space of `zget_space`. -/
def OffSpace (s : ZoneState τ) (a n : Nat) : Prop :=
  0 < s.left → Apart a n s.zallocNextSpace s.left

def OffSpacePages (s : ZoneState τ) (a n : Nat) : Prop :=
  0 < s.left →
    OtherPages c.pageSize a n s.zallocNextSpace s.left

/- The elements from the map that a page has a part of. -/
def touching (es : List Nat) (p : Nat) : Nat :=
  es.countP fun e =>
    c.fromZoneMap e && decide (p ∈ c.pages e c.elemSize)

structure ElemsOk
    (s : ZoneState τ)
    (es : List Nat) : Prop where
  apart :
    es.Pairwise fun a b => Apart a c.elemSize b c.elemSize
  nonzero : ∀ e ∈ es, e ≠ 0
  placed : ∀ e ∈ es, Placed c s e c.elemSize
  whole : c.collectable = true → ∀ e ∈ es, Whole c e c.elemSize
  counted :
    c.collectable = true → ∀ p,
      -1 ≤ s.allocCount p ∧
        (0 < touching c es p →
          (touching c es p : Int) ≤ s.allocCount p)
  reserve : ∀ e ∈ es, OffSpace s e c.elemSize
  reservePages :
    c.collectable = true → ∀ e ∈ es,
      OffSpacePages c s e c.elemSize
  paged :
    ∀ t a n, (s.phase t).Paged a n → ∀ e ∈ es,
      OtherPages c.pageSize e c.elemSize a n
  taken :
    ∀ t a, s.phase t = .taken a → ∀ e ∈ es,
      Apart e c.elemSize a c.elemSize

/- The space of `zget_space`, and memory on its way. -/
structure FlightsOk (s : ZoneState τ) : Prop where
  order : s.zallocNextSpace ≤ s.zallocEndOfSpace
  pos : 0 < s.zallocNextSpace
  placed : 0 < s.left → Placed c s s.zallocNextSpace s.left
  paged :
    ∀ t a n, (s.phase t).Paged a n →
      0 < a ∧ 0 < n ∧ Placed c s a n ∧
        OffSpacePages c s a n ∧ Whole c a n
  grown :
    ∀ t a n, s.phase t = .grown a n →
      c.collectable = false ∧ c.elemSize ≤ n
  taken :
    ∀ t a, s.phase t = .taken a →
      0 < a ∧ Placed c s a c.elemSize ∧
        OffSpace s a c.elemSize ∧ c.collectable = false
  busy : ∀ t, (s.phase t).busy = true → s.doingAlloc = true
  unique :
    ∀ t u, (s.phase t).busy = true →
      (s.phase u).busy = true → t = u

structure ZoneInv
    (s : ZoneState τ)
    (free : List Nat) : Prop where
  chain : FreeChain s free
  elems : ElemsOk c s (free ++ s.out)
  flights : FlightsOk c s
  count : s.count = s.out.length
  curSize :
    s.curSize = c.elemSize * (free.length + s.out.length)

/- Memory that has nothing to do with the zone. -/
structure Fresh
    (s : ZoneState τ)
    (es : List Nat)
    (a n : Nat) : Prop where
  pos : 0 < a
  placed : Placed c s a n
  whole : c.collectable = true → Whole c a n
  elems : ∀ e ∈ es, Apart e c.elemSize a n
  reserve : OffSpace s a n
  reservePages : c.collectable = true → OffSpacePages c s a n
  paged :
    ∀ t b m, (s.phase t).Paged b m →
      OtherPages c.pageSize a n b m
  taken :
    ∀ t b, s.phase t = .taken b → Apart a n b c.elemSize

end Definitions

section Elems

variable {c : ZoneConfig} {s s' : ZoneState τ}
variable {es es' free : List Nat}

/- The order of the elements does not matter. -/
theorem ElemsOk.perm
    (h : ElemsOk c s es)
    (hPerm : es.Perm es') :
    ElemsOk c s es' := by
  have hMem : ∀ e, e ∈ es' → e ∈ es :=
    fun e he => hPerm.mem_iff.mpr he
  refine ⟨?_, fun e he => h.nonzero e (hMem e he),
    fun e he => h.placed e (hMem e he),
    fun hc e he => h.whole hc e (hMem e he), ?_,
    fun e he => h.reserve e (hMem e he),
    fun hc e he => h.reservePages hc e (hMem e he),
    fun t a n hp e he => h.paged t a n hp e (hMem e he),
    fun t a hp e he => h.taken t a hp e (hMem e he)⟩
  · exact h.apart.perm hPerm fun hab => hab.symm
  · intro hc p
    have hSame : touching c es' p = touching c es p :=
      (hPerm.countP_eq _).symm
    rw [hSame]
    exact h.counted hc p

/- What the elements depend on. -/
theorem ElemsOk.congr
    (h : ElemsOk c s es)
    (hMapped : s'.mapped = s.mapped)
    (hCount : s'.allocCount = s.allocCount)
    (hNext : s'.zallocNextSpace = s.zallocNextSpace)
    (hEnd : s'.zallocEndOfSpace = s.zallocEndOfSpace)
    (hPaged :
      ∀ t a n, (s'.phase t).Paged a n → (s.phase t).Paged a n)
    (hTaken :
      ∀ t a, s'.phase t = .taken a → s.phase t = .taken a) :
    ElemsOk c s' es := by
  have hLeft : s'.left = s.left := by
    unfold ZoneState.left
    rw [hNext, hEnd]
  refine ⟨h.apart, h.nonzero, ?_, h.whole, ?_, ?_, ?_,
    fun t a n hp => h.paged t a n (hPaged t a n hp),
    fun t a hp => h.taken t a (hTaken t a hp)⟩
  · unfold Placed
    rw [hMapped]
    exact h.placed
  · rw [hCount]
    exact h.counted
  · unfold OffSpace
    rw [hNext, hLeft]
    exact h.reserve
  · unfold OffSpacePages
    rw [hNext, hLeft]
    exact h.reservePages

theorem ElemsOk.nodup
    (h : ElemsOk c s es) :
    es.Nodup := by
  refine h.apart.imp ?_
  intro a b hApart hEq
  have hPos := c.elem_pos
  rcases hApart with hLe | hLe
  · omega
  · omega

/- A part of the elements. -/
theorem ElemsOk.sublist
    (h : ElemsOk c s es)
    (hSub : es'.Sublist es) :
    ElemsOk c s es' := by
  refine ⟨h.apart.sublist hSub,
    fun e he => h.nonzero e (hSub.subset he),
    fun e he => h.placed e (hSub.subset he),
    fun hc e he => h.whole hc e (hSub.subset he), ?_,
    fun e he => h.reserve e (hSub.subset he),
    fun hc e he => h.reservePages hc e (hSub.subset he),
    fun t a n hp e he => h.paged t a n hp e (hSub.subset he),
    fun t a hp e he => h.taken t a hp e (hSub.subset he)⟩
  intro hc p
  have hLe : touching c es' p ≤ touching c es p :=
    hSub.countP_le
  rcases h.counted hc p with ⟨hLow, hCount⟩
  refine ⟨hLow, ?_⟩
  intro hPos
  omega

theorem FlightsOk.congr
    (h : FlightsOk c s)
    (hMapped : s'.mapped = s.mapped)
    (hNext : s'.zallocNextSpace = s.zallocNextSpace)
    (hEnd : s'.zallocEndOfSpace = s.zallocEndOfSpace)
    (hPhase : s'.phase = s.phase)
    (hDoing : s'.doingAlloc = s.doingAlloc) :
    FlightsOk c s' := by
  have hLeft : s'.left = s.left := by
    unfold ZoneState.left
    rw [hNext, hEnd]
  refine ⟨?_, ?_, ?_, ?_, ?_, ?_, ?_, ?_⟩
  · rw [hNext, hEnd]
    exact h.order
  · rw [hNext]
    exact h.pos
  · unfold Placed
    rw [hMapped, hNext, hLeft]
    exact h.placed
  · unfold Placed OffSpacePages
    rw [hMapped, hNext, hLeft, hPhase]
    exact h.paged
  · rw [hPhase]
    exact h.grown
  · unfold Placed OffSpace
    rw [hMapped, hNext, hLeft, hPhase]
    exact h.taken
  · rw [hPhase, hDoing]
    exact h.busy
  · rw [hPhase]
    exact h.unique

end Elems

------
-- Taking and Giving Elements
------

section Lists

variable {c : ZoneConfig} {s s' : ZoneState τ} {free : List Nat}
variable {e : Nat}

theorem links_zero :
    s.links 0 = s.freeElements :=
  if_pos rfl

theorem links_of_ne
    (h : e ≠ 0) :
    s.links e = s.word e :=
  if_neg h

/- The list is empty, or begins with its head. -/
theorem ZoneInv.head
    (h : ZoneInv c s free) :
    s.freeElements = 0 ∧ free = [] ∨
      s.freeElements ≠ 0 ∧
        ∃ rest, free = s.freeElements :: rest := by
  have hChain := h.chain
  cases free with
  | nil =>
      have hEnd : s.links 0 = 0 := hChain
      exact Or.inl ⟨hEnd, rfl⟩
  | cons a rest =>
      rcases hChain with ⟨hNext, hPos, _⟩
      rw [links_zero] at hNext
      refine Or.inr ⟨?_, rest, ?_⟩
      · rw [hNext]
        exact hPos
      · rw [hNext]

theorem ZoneInv.free_nonzero
    (h : ZoneInv c s free)
    {a : Nat}
    (ha : a ∈ free) :
    a ≠ 0 :=
  h.elems.nonzero a (mem_append_left _ ha)

/- An element is handed out from the list. -/
theorem ZoneInv.remove
    (h : ZoneInv c s free)
    (hRun : removeFromZone s = some s') :
    ∃ rest, free = s.freeElements :: rest ∧
      ZoneInv c s' rest := by
  unfold removeFromZone at hRun
  by_cases hZero : s.freeElements = 0
  · rw [if_pos hZero] at hRun
    cases hRun
  · rw [if_neg hZero] at hRun
    cases hRun
    rcases h.head with ⟨hAbsurd, _⟩ | ⟨_, rest, hFree⟩
    · exact absurd hAbsurd hZero
    subst hFree
    refine ⟨rest, rfl, ?_, ?_, ?_, ?_, ?_⟩
    · apply IndexChain.Chain.pop h.chain
      · rw [links_of_ne hZero]
        rfl
      · intro j hj
        have hNe := h.free_nonzero (mem_cons_of_mem _ hj)
        rw [links_of_ne hNe, links_of_ne hNe]
    · have hPerm :
          (s.freeElements :: rest ++ s.out).Perm
            (rest ++ s.freeElements :: s.out) :=
        perm_middle.symm
      exact (h.elems.perm hPerm).congr rfl rfl rfl rfl
        (fun _ _ _ hp => hp) (fun _ _ hp => hp)
    · exact h.flights.congr rfl rfl rfl rfl rfl
    · show s.count + 1 = _
      rw [h.count, length_cons]
      push_cast
      rfl
    · show s.curSize = _
      rw [h.curSize, length_cons, length_cons]
      congr 1
      omega

/- A word that is in no free element. -/
theorem FreeChain.write
    (h : FreeChain s free)
    (hSame : ∀ a ∈ free, s'.word a = s.word a)
    (hNonzero : ∀ a ∈ free, a ≠ 0)
    (hHead : s'.freeElements = s.freeElements) :
    FreeChain s' free := by
  apply IndexChain.Chain.congr h
  intro j hj
  rcases mem_cons.mp hj with rfl | hIn
  · rw [links_zero, links_zero, hHead]
  · have hNe := hNonzero j hIn
    rw [links_of_ne hNe, links_of_ne hNe]
    exact hSame j hIn

/- An element put in front of the list. -/
theorem FreeChain.add
    (h : FreeChain s free)
    (hNonzero : ∀ a ∈ free, a ≠ 0)
    (he : e ≠ 0)
    (hNew : e ∉ free) :
    FreeChain (addToZone s e) (e :: free) := by
  apply IndexChain.Chain.push h he
  · exact links_zero
  · rw [links_of_ne he, links_zero]
    exact Function.update_self ..
  · intro j hj
    have hNe := hNonzero j hj
    rw [links_of_ne hNe, links_of_ne hNe]
    apply Function.update_of_ne
    intro hEq
    rw [hEq] at hj
    exact hNew hj

/- An element comes back from its holder. -/
theorem ZoneInv.add
    (h : ZoneInv c s free)
    (he : e ∈ s.out) :
    ZoneInv c
      (addToZone { s with out := s.out.erase e } e)
      (e :: free) := by
  have hNodup := h.elems.nodup
  have hPerm : (free ++ s.out).Perm
      (e :: free ++ s.out.erase e) := by
    refine ((perm_cons_erase he).append_left free).trans ?_
    exact perm_middle
  have hNew : e ∉ free := by
    intro hIn
    have hDisjoint := (nodup_append.mp hNodup).2.2
    exact hDisjoint e hIn e he rfl
  have hNe : e ≠ 0 :=
    h.elems.nonzero e (mem_append_right _ he)
  have hLength := length_erase_of_mem he
  have hPos := length_pos_of_mem he
  refine ⟨?_, ?_, ?_, ?_, ?_⟩
  · exact FreeChain.add (s := { s with out := s.out.erase e })
      h.chain (fun a ha => h.free_nonzero ha) hNe hNew
  · exact (h.elems.perm hPerm).congr rfl rfl rfl rfl
      (fun _ _ _ hp => hp) (fun _ _ hp => hp)
  · exact h.flights.congr rfl rfl rfl rfl rfl
  · show s.count - 1 = _
    rw [h.count]
    show _ = ((s.out.erase e).length : Int)
    omega
  · show s.curSize = _
    rw [h.curSize]
    congr 1
    show _ = (e :: free).length + (s.out.erase e).length
    rw [length_cons]
    omega

end Lists

------
-- Cramming
------

section Cram

variable {c : ZoneConfig} {s : ZoneState τ} {es free : List Nat}
variable {a n : Nat}

/- A part of fresh memory. -/
theorem Fresh.sub
    (h : Fresh c s es a n)
    {b m : Nat}
    (hLow : a ≤ b)
    (hHigh : b + m ≤ a + n) :
    Fresh c s es b m := by
  refine ⟨Nat.lt_of_lt_of_le h.pos hLow, ?_, ?_, ?_, ?_, ?_,
    ?_, ?_⟩
  · intro p hp
    exact h.placed p (pages_subset hLow hHigh hp)
  · intro hc
    rcases h.whole hc with ⟨hIn, hPages⟩ | ⟨hOut, hPages⟩
    · left
      exact ⟨fun x hx hx' => hIn x (by omega) (by omega),
        fun p hp => hPages p (pages_subset hLow hHigh hp)⟩
    · right
      exact ⟨fun x hx hx' => hOut x (by omega) (by omega),
        fun p hp => hPages p (pages_subset hLow hHigh hp)⟩
  · intro e he
    exact ((h.elems e he).symm.sub hLow hHigh).symm
  · intro hLeft
    exact (h.reserve hLeft).sub hLow hHigh
  · intro hc hLeft
    exact (h.reservePages hc hLeft).sub hLow hHigh
  · intro t b' m' hp
    exact (h.paged t b' m' hp).sub hLow hHigh
  · intro t b' hp
    exact (h.taken t b' hp).sub hLow hHigh

/- What an element adds to the count of a page. -/
theorem zcramElement_allocCount
    (s : ZoneState τ)
    (a p : Nat) :
    (zcramElement c s a).allocCount p =
      if c.fromZoneMap a = true ∧
          p ∈ c.pages a c.elemSize then
        if s.allocCount p = zonePageUnused then 1
        else s.allocCount p + 1
      else s.allocCount p := by
  unfold zcramElement zonePageAlloc addToZone
  dsimp only
  by_cases hMap : c.fromZoneMap a = true
  · by_cases hPage : p ∈ c.pages a c.elemSize
    · rw [if_pos hMap, if_pos ⟨hMap, hPage⟩]
      exact if_pos hPage
    · rw [if_pos hMap, if_neg (fun h => hPage h.2)]
      exact if_neg hPage
  · rw [if_neg hMap, if_neg (fun h => hMap h.1)]

theorem zcramElement_rest
    (s : ZoneState τ)
    (a : Nat) :
    (zcramElement c s a).mapped = s.mapped ∧
      (zcramElement c s a).zallocNextSpace =
        s.zallocNextSpace ∧
      (zcramElement c s a).zallocEndOfSpace =
        s.zallocEndOfSpace ∧
      (zcramElement c s a).phase = s.phase ∧
      (zcramElement c s a).doingAlloc = s.doingAlloc ∧
      (zcramElement c s a).out = s.out ∧
      (zcramElement c s a).count = s.count ∧
      (zcramElement c s a).curSize =
        s.curSize + c.elemSize ∧
      (zcramElement c s a).links = (addToZone s a).links := by
  unfold zcramElement zonePageAlloc addToZone
  have hCount : s.count - 1 + 1 = s.count := by omega
  split_ifs
  · exact ⟨rfl, rfl, rfl, rfl, rfl, rfl, hCount, rfl, rfl⟩
  · exact ⟨rfl, rfl, rfl, rfl, rfl, rfl, hCount, rfl, rfl⟩

/- One more element, and the pages that have a part of it. -/
theorem ElemsOk.cram
    (h : ElemsOk c s es)
    (hFresh : Fresh c s es a c.elemSize) :
    ElemsOk c (zcramElement c s a) (a :: es) := by
  rcases @zcramElement_rest τ c s a with
    ⟨hMapped, hNext, hEnd, hPhase, _⟩
  have hLeft : (zcramElement c s a).left = s.left := by
    unfold ZoneState.left
    rw [hNext, hEnd]
  have hMem : ∀ P : Nat → Prop, P a → (∀ e ∈ es, P e) →
      ∀ e ∈ a :: es, P e := by
    intro P ha hes e he
    rcases mem_cons.mp he with rfl | hIn
    · exact ha
    · exact hes e hIn
  constructor
  · rw [pairwise_cons]
    exact ⟨fun e he => (hFresh.elems e he).symm, h.apart⟩
  · exact hMem _ (by have := hFresh.pos; omega) h.nonzero
  · apply hMem
    · intro p hp
      rw [hMapped]
      exact hFresh.placed p hp
    · intro e he p hp
      rw [hMapped]
      exact h.placed e he p hp
  · intro hc
    exact hMem _ (hFresh.whole hc) (h.whole hc)
  · intro hc p
    rcases h.counted hc p with ⟨hLow, hCount⟩
    rw [zcramElement_allocCount]
    unfold touching at hCount ⊢
    rw [countP_cons]
    simp only [Bool.and_eq_true, decide_eq_true_eq]
    unfold zonePageUnused
    split_ifs with hHere hUnused
    · refine ⟨by omega, fun _ => ?_⟩
      push_cast
      omega
    · refine ⟨by omega, fun _ => ?_⟩
      push_cast
      omega
    · exact ⟨hLow, hCount⟩
  · unfold OffSpace
    rw [hNext, hLeft]
    exact hMem _ hFresh.reserve h.reserve
  · intro hc
    unfold OffSpacePages
    rw [hNext, hLeft]
    exact hMem _ (hFresh.reservePages hc) (h.reservePages hc)
  · intro t b m hp
    rw [hPhase] at hp
    exact hMem _ (hFresh.paged t b m hp) (h.paged t b m hp)
  · intro t b hp
    rw [hPhase] at hp
    exact hMem _ (hFresh.taken t b hp) (h.taken t b hp)

theorem Fresh.not_mem
    (h : Fresh c s es a c.elemSize) :
    a ∉ es := by
  intro hIn
  have hPos := c.elem_pos
  rcases h.elems a hIn with hLe | hLe
  · omega
  · omega

theorem zcramElement_inv
    (h : ZoneInv c s free)
    (hFresh : Fresh c s (free ++ s.out) a c.elemSize) :
    ZoneInv c (zcramElement c s a) (a :: free) := by
  rcases @zcramElement_rest τ c s a with
    ⟨hMapped, hNext, hEnd, hPhase, hDoing, hOut, hCount,
      hSize, hLinks⟩
  have hPos := hFresh.pos
  refine ⟨?_, ?_, ?_, ?_, ?_⟩
  · unfold FreeChain
    rw [hLinks]
    exact h.chain.add (fun b hb => h.free_nonzero hb)
      (by omega)
      (fun hIn => hFresh.not_mem (mem_append_left _ hIn))
  · rw [hOut, cons_append]
    exact h.elems.cram hFresh
  · exact h.flights.congr hMapped hNext hEnd hPhase hDoing
  · rw [hCount, hOut]
    exact h.count
  · rw [hSize, hOut, h.curSize, length_cons,
      Nat.add_right_comm, Nat.mul_add_one]

/- The rest of the memory is still fresh. -/
theorem Fresh.rest
    (hFresh : Fresh c s es a n)
    (hLe : c.elemSize ≤ n) :
    Fresh c (zcramElement c s a) (a :: es)
      (a + c.elemSize) (n - c.elemSize) := by
  have hRest : Fresh c s es (a + c.elemSize)
      (n - c.elemSize) := hFresh.sub (by omega) (by omega)
  rcases @zcramElement_rest τ c s a with
    ⟨hMapped, hNext, hEnd, hPhase, _⟩
  have hLeft : (zcramElement c s a).left = s.left := by
    unfold ZoneState.left
    rw [hNext, hEnd]
  constructor
  · exact hRest.pos
  · unfold Placed
    rw [hMapped]
    exact hRest.placed
  · exact hRest.whole
  · intro e he
    rcases mem_cons.mp he with rfl | hIn
    · exact Or.inl (Nat.le_refl _)
    · exact hRest.elems e hIn
  · unfold OffSpace
    rw [hNext, hLeft]
    exact hRest.reserve
  · unfold OffSpacePages
    rw [hNext, hLeft]
    exact hRest.reservePages
  · rw [hPhase]
    exact hRest.paged
  · rw [hPhase]
    exact hRest.taken

theorem zcramLoop_inv
    (fuel : Nat)
    (h : ZoneInv c s free)
    (hFresh : Fresh c s (free ++ s.out) a n) :
    ∃ free', ZoneInv c (zcramLoop c fuel s a n) free' := by
  induction fuel generalizing s free a n with
  | zero => exact ⟨free, h⟩
  | succ fuel ih =>
      unfold zcramLoop
      split_ifs with hLe
      · have hOut : (zcramElement c s a).out = s.out :=
          (zcramElement_rest s a).2.2.2.2.2.1
        apply @ih _ (a :: free)
        · exact zcramElement_inv h
            (hFresh.sub (Nat.le_refl a) (by omega))
        · rw [hOut, cons_append]
          exact hFresh.rest hLe
      · exact ⟨free, h⟩

/- Memory that is put into the zone. -/
theorem zcram_inv
    (h : ZoneInv c s free)
    (hFresh : Fresh c s (free ++ s.out) a n) :
    ∃ free', ZoneInv c (zcram c s a n) free' :=
  zcramLoop_inv n h hFresh

end Cram

end Kern

end OsfMach
