import Mathlib.Algebra.Group.Nat.Defs
import Mathlib.Logic.Function.Basic
import OsfMach.Lib.Pages
import OsfMach.Lib.Runs

/-
  The allocator of contiguous space for zones, `zget_space`,
  with callers of all sizes.

  The lock is let go for an allocation, and what was
  allocated is used only if there is still too little space:
  to go on with the area where it is next to it, else in its
  place. `zone_bootstrap` leaves no space.

  Main declarations:
    * `zgetSpace`, `zgetStep`
    * `SpaceOk`, `HeldOk`
    * `SpaceOk.take`, `SpaceOk.install`
    * `zgetSpace_disjoint`
-/

------
-- Callers
------

namespace OsfMach

namespace Kern

namespace Zget

open Function
open Lib
open Lib.Runs

structure Region where
  start : Nat
  size : Nat
deriving DecidableEq, Repr

def Region.Has (r : Region) (x : Nat) : Prop :=
  r.start ≤ x ∧ x < r.start + r.size

def Region.Apart (r q : Region) : Prop :=
  Pages.Apart r.start r.size q.start q.size

instance (r q : Region) : Decidable (r.Apart q) :=
  inferInstanceAs (Decidable (_ ∨ _))

/- An address that `zone_map` and the first area are below. -/
structure ZgetConfig where
  pageSize : Nat
  start : Nat
  limit : Nat
  page_pos : 0 < pageSize
  start_le : start ≤ limit

/- Where a caller is, with the region that it allocated. -/
inductive ZgetPhase where
| outside
| short (size : Nat)
| grown (size : Nat) (r : Region)
| freeing (r : Region)
deriving Repr

def ZgetPhase.held : ZgetPhase → Option Region
| .grown _ r => some r
| .freeing r => some r
| _ => none

/-
  The space, the regions that were allocated and not freed,
  those that became part of the allocation area, and what was
  given out.
-/
structure ZgetState (τ : Type) where
  zallocNextSpace : Nat
  zallocEndOfSpace : Nat
  phase : τ → ZgetPhase
  live : List Region
  area : List Region
  out : List Region

def ZgetState.start (τ : Type) (c : ZgetConfig) : ZgetState τ :=
  { zallocNextSpace := c.start
    zallocEndOfSpace := c.start
    phase := fun _ => .outside
    live := []
    area := []
    out := [] }

def ZgetConfig.roundPage (c : ZgetConfig) (size : Nat) : Nat :=
  (size + (c.pageSize - 1)) % 2 ^ 32 / c.pageSize * c.pageSize

section Callers

variable {τ : Type} [DecidableEq τ]

/- A region of the first space that is left. -/
def zgetTake
    (s : ZgetState τ)
    (t : τ)
    (size : Nat)
    (phase : ZgetPhase) : ZgetState τ :=
  { s with
    zallocNextSpace := (s.zallocNextSpace + size) % 2 ^ 32
    out := ⟨s.zallocNextSpace, size⟩ :: s.out
    phase := update s.phase t phase }

omit [DecidableEq τ] in
/- Go on with a new region. -/
def zgetInstall (s : ZgetState τ) (r : Region) : ZgetState τ :=
  { s with
    zallocNextSpace :=
      if r.start ≠ s.zallocEndOfSpace then r.start
      else s.zallocNextSpace
    zallocEndOfSpace := (r.start + r.size) % 2 ^ 32
    area := r :: s.area }

/- The loop without a new region. -/
def zgetFirst
    (s : ZgetState τ)
    (t : τ)
    (size : Nat) : ZgetState τ :=
  if s.zallocEndOfSpace <
      (s.zallocNextSpace + size) % 2 ^ 32 then
    { s with phase := update s.phase t (.short size) }
  else zgetTake s t size .outside

/- The loop with one. -/
def zgetSpace
    (s : ZgetState τ)
    (t : τ)
    (size : Nat)
    (r : Region) : ZgetState τ :=
  if s.zallocEndOfSpace <
      (s.zallocNextSpace + size) % 2 ^ 32 then
    zgetFirst (zgetInstall s r) t size
  else zgetTake s t size (.freeing r)

inductive ZgetAction (τ : Type) where
| call (t : τ) (size : Nat)
| allocate (t : τ) (start : Option Nat)
| lock (t : τ)
| free (t : τ)

/- Memory of the map that is not in use. -/
def FreshRegion
    (c : ZgetConfig)
    (s : ZgetState τ)
    (r : Region) : Prop :=
  c.pageSize ∣ r.start ∧ r.start + r.size ≤ c.limit ∧
    ∀ q ∈ s.live, r.Apart q

instance (c : ZgetConfig) (s : ZgetState τ) (r : Region) :
    Decidable (FreshRegion c s r) :=
  inferInstanceAs (Decidable (_ ∧ _ ∧ _))

def zgetStep
    (c : ZgetConfig)
    (s : ZgetState τ) : ZgetAction τ → Option (ZgetState τ)
| .call t size =>
    match s.phase t with
    | .outside => some (zgetFirst s t size)
    | _ => none
| .allocate t none =>
    match s.phase t with
    | .short _ =>
        some { s with phase := update s.phase t .outside }
    | _ => none
| .allocate t (some start) =>
    match s.phase t with
    | .short size =>
        let r : Region := ⟨start, c.roundPage size⟩
        if FreshRegion c s r then
          some { s with
            live := r :: s.live
            phase := update s.phase t (.grown size r) }
        else none
    | _ => none
| .lock t =>
    match s.phase t with
    | .grown size r => some (zgetSpace s t size r)
    | _ => none
| .free t =>
    match s.phase t with
    | .freeing r =>
        some { s with
          live := s.live.erase r
          phase := update s.phase t .outside }
    | _ => none

/- Sizes for which no sum wraps. -/
def ZgetConfig.Fits (c : ZgetConfig) (size : Nat) : Prop :=
  0 < size ∧ c.limit + size + c.pageSize ≤ 2 ^ 32

def ZgetFits
    (c : ZgetConfig)
    (_ : ZgetState τ) : ZgetAction τ → Prop
| .call _ size => c.Fits size
| _ => True

end Callers

------
-- Space
------

/- The space is of the area, and what was given out is not. -/
structure SpaceOk
    {τ : Type}
    (c : ZgetConfig)
    (s : ZgetState τ) : Prop where
  le : s.zallocNextSpace ≤ s.zallocEndOfSpace
  le_limit : s.zallocEndOfSpace ≤ c.limit
  space :
    ∀ x, s.zallocNextSpace ≤ x → x < s.zallocEndOfSpace →
      ∃ r ∈ s.area, r.Has x
  live : ∀ r ∈ s.area, r ∈ s.live
  pos : ∀ o ∈ s.out, 0 < o.size
  covered : ∀ o ∈ s.out, ∀ x, o.Has x → ∃ r ∈ s.area, r.Has x
  given :
    ∀ o ∈ s.out, o.start + o.size ≤ s.zallocNextSpace ∨
      s.zallocEndOfSpace ≤ o.start
  apart : s.out.Pairwise Region.Apart

/- What callers allocated is no part of the area. -/
structure HeldOk
    {τ : Type}
    (c : ZgetConfig)
    (s : ZgetState τ) : Prop where
  pos : ∀ t r, (s.phase t).held = some r → 0 < r.size
  live : ∀ t r, (s.phase t).held = some r → r ∈ s.live
  area :
    ∀ t r, (s.phase t).held = some r → ∀ q ∈ s.area, r.Apart q
  apart :
    ∀ t t' r q, (s.phase t).held = some r →
      (s.phase t').held = some q → t ≠ t' → r.Apart q
  short : ∀ t size, s.phase t = .short size → c.Fits size
  grown :
    ∀ t size r, s.phase t = .grown size r →
      c.Fits size ∧ size ≤ r.size ∧
        r.start + r.size ≤ c.limit

variable {τ : Type}
variable {c : ZgetConfig} {s : ZgetState τ} {t : τ}
variable {size : Nat} {r : Region}

theorem ZgetConfig.Fits.roundPage
    (h : c.Fits size) :
    size ≤ c.roundPage size := by
  have hPos := c.page_pos
  unfold ZgetConfig.roundPage
  rw [Nat.mod_eq_of_lt (by have := h.2; omega)]
  have hDiv := Nat.div_add_mod (size + (c.pageSize - 1))
    c.pageSize
  have hMod := Nat.mod_lt (size + (c.pageSize - 1)) hPos
  rw [Nat.mul_comm] at hDiv
  omega

section

variable (h : SpaceOk c s)
include h

theorem SpaceOk.keep
    {live : List Region}
    {phase : τ → ZgetPhase}
    (hLive : ∀ r ∈ s.area, r ∈ live) :
    SpaceOk c { s with live := live, phase := phase } :=
  ⟨h.le, h.le_limit, h.space, hLive, h.pos, h.covered, h.given,
    h.apart⟩

/- What is of the area is apart from a region that is not. -/
theorem SpaceOk.out_apart
    {o : Region}
    (hArea : ∀ q ∈ s.area, r.Apart q)
    (ho : o ∈ s.out)
    (hr : 0 < r.size) :
    r.Apart o := by
  by_contra hMeet
  unfold Region.Apart Pages.Apart at hMeet
  have hPos := h.pos o ho
  rcases h.covered o ho (max r.start o.start)
      ⟨by omega, by omega⟩ with ⟨q, hq, hHas⟩
  have hApart := hArea q hq
  unfold Region.Apart Pages.Apart at hApart
  unfold Region.Has at hHas
  omega

theorem SpaceOk.take
    [DecidableEq τ]
    {phase : ZgetPhase}
    (hFits : c.Fits size)
    (hRoom :
      s.zallocNextSpace + size ≤ s.zallocEndOfSpace) :
    SpaceOk c (zgetTake s t size phase) := by
  have hLimit := h.le_limit
  have hNext : (s.zallocNextSpace + size) % 2 ^ 32 =
      s.zallocNextSpace + size :=
    Nat.mod_eq_of_lt
      (by have := hFits.2; have := c.page_pos; omega)
  unfold zgetTake
  rw [hNext]
  refine ⟨hRoom, hLimit, ?_, h.live, ?_, ?_, ?_, ?_⟩
  · intro x hFrom hTo
    exact h.space x (by dsimp only at hFrom; omega) hTo
  · exact List.forall_mem_cons.mpr ⟨hFits.1, h.pos⟩
  · refine List.forall_mem_cons.mpr ⟨?_, h.covered⟩
    rintro x ⟨hFrom, hTo⟩
    dsimp only at hFrom hTo
    exact h.space x hFrom (by omega)
  · refine List.forall_mem_cons.mpr ⟨Or.inl (Nat.le_refl _), ?_⟩
    intro o ho
    have hGiven := h.given o ho
    dsimp only
    omega
  · refine List.pairwise_cons.mpr ⟨?_, h.apart⟩
    intro o ho
    have hGiven := h.given o ho
    unfold Region.Apart Pages.Apart
    dsimp only
    omega

theorem SpaceOk.install
    (hLive : r ∈ s.live)
    (hArea : ∀ q ∈ s.area, r.Apart q)
    (hPos : 0 < r.size)
    (hLimit : r.start + r.size ≤ c.limit)
    (hMax : c.limit < 2 ^ 32) :
    SpaceOk c (zgetInstall s r) := by
  have hEnd : (r.start + r.size) % 2 ^ 32 = r.start + r.size :=
    Nat.mod_eq_of_lt (by omega)
  have hLe := h.le
  have hHas : ∀ x, r.start ≤ x → x < r.start + r.size →
      ∃ q ∈ r :: s.area, q.Has x :=
    fun x hFrom hTo => ⟨r, List.mem_cons_self, hFrom, hTo⟩
  have hOld : ∀ x, (∃ q ∈ s.area, q.Has x) →
      ∃ q ∈ r :: s.area, q.Has x :=
    fun x ⟨q, hq, hx⟩ => ⟨q, List.mem_cons_of_mem _ hq, hx⟩
  unfold zgetInstall
  rw [hEnd]
  refine ⟨?_, hLimit, ?_, ?_, h.pos, ?_, ?_, h.apart⟩
  · dsimp only
    split_ifs <;> omega
  · intro x hFrom hTo
    split_ifs at hFrom with hNew
    · exact hHas x hFrom hTo
    · by_cases hx : x < s.zallocEndOfSpace
      · exact hOld x (h.space x hFrom hx)
      · exact hHas x (by omega) hTo
  · exact List.forall_mem_cons.mpr ⟨hLive, h.live⟩
  · intro o ho x hx
    exact hOld x (h.covered o ho x hx)
  · intro o ho
    have hApart := h.out_apart hArea ho hPos
    have hGiven := h.given o ho
    have hSize := h.pos o ho
    unfold Region.Apart Pages.Apart at hApart
    dsimp only
    split_ifs <;> omega

end

------
-- Steps
------

variable [DecidableEq τ]

theorem Region.Apart.symm
    {q : Region}
    (h : r.Apart q) :
    q.Apart r :=
  Or.symm h

/- What a step of a caller leaves to the others. -/
theorem HeldOk.step
    {s' : ZgetState τ}
    {p : ZgetPhase}
    (h : HeldOk c s)
    (hPhase : s'.phase = update s.phase t p)
    (hLive :
      ∀ q ∈ s.live, (s.phase t).held ≠ some q → q ∈ s'.live)
    (hArea :
      ∀ q ∈ s'.area, q ∈ s.area ∨ (s.phase t).held = some q)
    (hSelf :
      ∀ r, p.held = some r →
        0 < r.size ∧ r ∈ s'.live ∧ (∀ q ∈ s'.area, r.Apart q) ∧
          ∀ t' q, t' ≠ t → (s.phase t').held = some q →
            r.Apart q)
    (hShort : ∀ size, p = .short size → c.Fits size)
    (hGrown :
      ∀ size r, p = .grown size r →
        c.Fits size ∧ size ≤ r.size ∧
          r.start + r.size ≤ c.limit) :
    HeldOk c s' := by
  have hCases : ∀ t', t' = t ∧ s'.phase t' = p ∨
      t' ≠ t ∧ s'.phase t' = s.phase t' := by
    intro t'
    rw [hPhase]
    by_cases ht : t' = t
    · rw [ht, update_self]
      exact Or.inl ⟨rfl, rfl⟩
    · rw [update_of_ne ht]
      exact Or.inr ⟨ht, rfl⟩
  refine ⟨?_, ?_, ?_, ?_, ?_, ?_⟩
  · intro t' r hr
    rcases hCases t' with ⟨_, hIs⟩ | ⟨_, hIs⟩ <;> rw [hIs] at hr
    · exact (hSelf r hr).1
    · exact h.pos t' r hr
  · intro t' r hr
    rcases hCases t' with ⟨_, hIs⟩ | ⟨ht, hIs⟩ <;> rw [hIs] at hr
    · exact (hSelf r hr).2.1
    · apply hLive r (h.live t' r hr)
      intro hBoth
      have hPos := h.pos t' r hr
      have hApart := h.apart t' t r r hr hBoth ht
      unfold Region.Apart Pages.Apart at hApart
      omega
  · intro t' r hr q hq
    rcases hCases t' with ⟨_, hIs⟩ | ⟨ht, hIs⟩ <;> rw [hIs] at hr
    · exact (hSelf r hr).2.2.1 q hq
    · rcases hArea q hq with hOld | hNew
      · exact h.area t' r hr q hOld
      · exact h.apart t' t r q hr hNew ht
  · intro t' t'' r q hr hq hNe
    rcases hCases t' with ⟨ht, hIs⟩ | ⟨ht, hIs⟩ <;>
      rw [hIs] at hr <;>
      rcases hCases t'' with ⟨ht', hIs'⟩ | ⟨ht', hIs'⟩ <;>
      rw [hIs'] at hq
    · exact absurd (ht.trans ht'.symm) hNe
    · exact (hSelf r hr).2.2.2 t'' q ht' hq
    · exact ((hSelf q hq).2.2.2 t' r ht hr).symm
    · exact h.apart t' t'' r q hr hq hNe
  · intro t' size hSize
    rcases hCases t' with ⟨_, hIs⟩ | ⟨_, hIs⟩ <;>
      rw [hIs] at hSize
    · exact hShort size hSize
    · exact h.short t' size hSize
  · intro t' size r hSize
    rcases hCases t' with ⟨_, hIs⟩ | ⟨_, hIs⟩ <;>
      rw [hIs] at hSize
    · exact hGrown size r hSize
    · exact h.grown t' size r hSize

/- A caller that allocated nothing, or gives it up. -/
theorem HeldOk.leave
    {s' : ZgetState τ}
    {p : ZgetPhase}
    (h : HeldOk c s)
    (hPhase : s'.phase = update s.phase t p)
    (hLive :
      ∀ q ∈ s.live, (s.phase t).held ≠ some q → q ∈ s'.live)
    (hArea :
      ∀ q ∈ s'.area, q ∈ s.area ∨ (s.phase t).held = some q)
    (hNone : p.held = none)
    (hShort : ∀ size, p = .short size → c.Fits size) :
    HeldOk c s' := by
  refine h.step hPhase hLive hArea ?_ hShort ?_
  · intro r hr
    rw [hNone] at hr
    cases hr
  · rintro size r rfl
    cases hNone

/- A call without a new region. -/
theorem zgetFirst_ok
    (hSpace : SpaceOk c s)
    (hHeld : HeldOk c s)
    (hFits : c.Fits size) :
    SpaceOk c (zgetFirst s t size) ∧
      HeldOk c (zgetFirst s t size) := by
  have hLe := hSpace.le
  have hLimit := hSpace.le_limit
  have hPage := c.page_pos
  have hWrap := hFits.2
  unfold zgetFirst
  split_ifs with hLess
  · refine ⟨hSpace.keep hSpace.live, ?_⟩
    refine hHeld.leave rfl (fun _ hq _ => hq)
      (fun _ hq => Or.inl hq) rfl ?_
    intro size' hEq
    cases hEq
    exact hFits
  · refine ⟨hSpace.take hFits (by omega), ?_⟩
    exact hHeld.leave rfl (fun _ hq _ => hq)
      (fun _ hq => Or.inl hq) rfl nofun

theorem zgetSpace_ok
    (hSpace : SpaceOk c s)
    (hHeld : HeldOk c s)
    (hPhase : s.phase t = .grown size r) :
    SpaceOk c (zgetSpace s t size r) ∧
      HeldOk c (zgetSpace s t size r) := by
  rcases hHeld.grown t size r hPhase with
    ⟨hFits, hSize, hEnd⟩
  have hIs : (s.phase t).held = some r := by
    rw [hPhase]
    rfl
  have hLe := hSpace.le
  have hLimit := hSpace.le_limit
  have hPage := c.page_pos
  have hWrap := hFits.2
  have hPos := hHeld.pos t r hIs
  unfold zgetSpace
  split_ifs with hLess
  · have hNew := hSpace.install (hHeld.live t r hIs)
      (hHeld.area t r hIs) hPos hEnd (by omega)
    have hRoom : (zgetInstall s r).zallocNextSpace + size ≤
        (zgetInstall s r).zallocEndOfSpace := by
      unfold zgetInstall
      dsimp only
      split_ifs <;> omega
    have hTop := hNew.le_limit
    unfold zgetFirst
    rw [Nat.mod_eq_of_lt (by omega),
      if_neg (Nat.not_lt.mpr hRoom)]
    refine ⟨hNew.take hFits hRoom, ?_⟩
    refine hHeld.leave rfl (fun _ hq _ => hq) ?_ rfl nofun
    intro q hq
    rcases List.mem_cons.mp hq with rfl | hOld
    · exact Or.inr hIs
    · exact Or.inl hOld
  · refine ⟨hSpace.take hFits (by omega), ?_⟩
    refine hHeld.step rfl (fun _ hq _ => hq)
      (fun _ hq => Or.inl hq) ?_ nofun
      nofun
    intro r' hr'
    cases hr'
    exact ⟨hPos, hHeld.live t r hIs, hHeld.area t r hIs,
      fun t' q hNe hq => hHeld.apart t t' r q hIs hq hNe.symm⟩

theorem zgetStep_ok
    {s' : ZgetState τ}
    (act : ZgetAction τ)
    (h : SpaceOk c s ∧ HeldOk c s)
    (hFits : ZgetFits c s act)
    (hStep : zgetStep c s act = some s') :
    SpaceOk c s' ∧ HeldOk c s' := by
  rcases h with ⟨hSpace, hHeld⟩
  cases act with
  | call t size =>
      unfold zgetStep at hStep
      dsimp only at hStep
      split at hStep <;> cases hStep
      exact zgetFirst_ok hSpace hHeld hFits
  | allocate t start =>
      cases start with
      | none =>
          unfold zgetStep at hStep
          dsimp only at hStep
          split at hStep <;> cases hStep
          refine ⟨hSpace.keep hSpace.live, ?_⟩
          exact hHeld.leave rfl (fun _ hq _ => hq)
            (fun _ hq => Or.inl hq) rfl
            nofun
      | some start =>
          unfold zgetStep at hStep
          dsimp only at hStep
          split at hStep
          · rename_i size hPhase
            split_ifs at hStep with hFresh
            cases hStep
            rcases hFresh with ⟨_, hEnd, hNew⟩
            have hSize := hHeld.short t size hPhase
            have hLe := hSize.roundPage
            refine ⟨hSpace.keep fun r hr =>
              List.mem_cons_of_mem _ (hSpace.live r hr), ?_⟩
            refine hHeld.step rfl
              (fun _ hq _ => List.mem_cons_of_mem _ hq)
              (fun _ hq => Or.inl hq) ?_
              nofun ?_
            · intro r hr
              cases hr
              exact ⟨Nat.lt_of_lt_of_le hSize.1 hLe,
                List.mem_cons_self,
                fun q hq => hNew q (hSpace.live q hq),
                fun t' q _ hq => hNew q (hHeld.live t' q hq)⟩
            · intro size' r hEq
              cases hEq
              exact ⟨hSize, hLe, hEnd⟩
          · cases hStep
  | lock t =>
      unfold zgetStep at hStep
      dsimp only at hStep
      split at hStep
      · rename_i size r hPhase
        cases hStep
        exact zgetSpace_ok hSpace hHeld hPhase
      · cases hStep
  | free t =>
      unfold zgetStep at hStep
      dsimp only at hStep
      split at hStep
      · rename_i r hPhase
        cases hStep
        have hIs : (s.phase t).held = some r := by
          rw [hPhase]
          rfl
        have hKeep : ∀ q ∈ s.live, q ≠ r → q ∈ s.live.erase r :=
          fun q hq hNe => (List.mem_erase_of_ne hNe).mpr hq
        refine ⟨hSpace.keep ?_, ?_⟩
        · intro q hq
          apply hKeep q (hSpace.live q hq)
          rintro rfl
          have hPos := hHeld.pos t q hIs
          have hApart := hHeld.area t q hIs q hq
          unfold Region.Apart Pages.Apart at hApart
          omega
        · refine hHeld.leave rfl ?_ (fun _ hq => Or.inl hq) rfl
            nofun
          intro q hq hNe
          apply hKeep q hq
          rintro rfl
          exact hNe hIs
      · cases hStep

omit [DecidableEq τ] in
theorem start_ok :
    SpaceOk c (.start τ c) ∧ HeldOk c (.start τ c) := by
  refine ⟨⟨Nat.le_refl _, c.start_le, ?_, nofun, nofun, nofun,
    nofun, .nil⟩, nofun, nofun, nofun, nofun, nofun, nofun⟩
  intro x hFrom hTo
  exact absurd hFrom (Nat.not_le.mpr hTo)

/-
  In every run, whose sizes are such that no sum wraps, what
  is given out is disjoint and of regions that were allocated
  and not freed, and none that is freed was of the area.
-/
theorem zgetSpace_disjoint
    (c : ZgetConfig)
    (acts : List (ZgetAction τ))
    (s : ZgetState τ)
    (hFits : Meets (zgetStep c) (ZgetFits c) (.start τ c) acts)
    (hRun : exec (zgetStep c) (.start τ c) acts = some s) :
    s.out.Pairwise Region.Apart ∧
      (∀ o ∈ s.out, ∀ x, o.Has x →
        ∃ r ∈ s.area, r ∈ s.live ∧ r.Has x) ∧
      s.zallocNextSpace ≤ s.zallocEndOfSpace ∧
      ∀ t r, s.phase t = .freeing r →
        ∀ q ∈ s.area, r.Apart q := by
  rcases exec_invariant (P := fun s => SpaceOk c s ∧ HeldOk c s)
    (fun _ act _ h hOk hStep => zgetStep_ok act h hOk hStep)
    start_ok hFits hRun with ⟨hSpace, hHeld⟩
  refine ⟨hSpace.apart, ?_, hSpace.le, ?_⟩
  · intro o ho x hx
    rcases hSpace.covered o ho x hx with ⟨r, hr, hHas⟩
    exact ⟨r, hr, hSpace.live r hr, hHas⟩
  · intro t r hPhase
    apply hHeld.area t r
    rw [hPhase]
    rfl

theorem lowMap_pos : 0 < 4096 := by decide

def lowMap : ZgetConfig :=
  ⟨4096, 0, 2 ^ 31, lowMap_pos, by decide⟩

/-
  Two callers allocate at the same time, and the second goes
  on where the region of the first ends.
-/
theorem zgetSpace_disjoint_low :
    ∃ s, exec (zgetStep lowMap) (.start Bool lowMap)
        [.call false 3000, .call true 3000,
          .allocate false (some 4096),
          .allocate true (some 8192), .lock false,
          .lock true] = some s ∧
      s.out = [⟨7096, 3000⟩, ⟨4096, 3000⟩] ∧
      s.area = [⟨8192, 4096⟩, ⟨4096, 4096⟩] ∧
      s.out.Pairwise Region.Apart ∧
      (∀ o ∈ s.out, ∀ x, o.Has x →
        ∃ r ∈ s.area, r ∈ s.live ∧ r.Has x) ∧
      s.zallocNextSpace ≤ s.zallocEndOfSpace := by
  have hOut : (exec (zgetStep lowMap) (.start Bool lowMap)
      [.call false 3000, .call true 3000,
        .allocate false (some 4096), .allocate true (some 8192),
        .lock false, .lock true]).map
          (fun s => (s.out, s.area)) =
        some ([⟨7096, 3000⟩, ⟨4096, 3000⟩],
          [⟨8192, 4096⟩, ⟨4096, 4096⟩]) := by
    decide +kernel
  rcases Option.map_eq_some_iff.mp hOut with ⟨s, hRun, hIs⟩
  rcases Prod.ext_iff.mp hIs with ⟨hGiven, hArea⟩
  have hAll := zgetSpace_disjoint lowMap
    [.call false 3000, .call true 3000,
      .allocate false (some 4096), .allocate true (some 8192),
      .lock false, .lock true] s
    ⟨⟨by decide, by decide⟩, fun _ _ =>
      ⟨⟨by decide, by decide⟩, fun _ _ => ⟨trivial, fun _ _ =>
        ⟨trivial, fun _ _ => ⟨trivial, fun _ _ =>
          ⟨trivial, fun _ _ => trivial⟩⟩⟩⟩⟩⟩ hRun
  exact ⟨s, hRun, hGiven, hArea, hAll.1, hAll.2.1, hAll.2.2.1⟩

/- A size whose sum wraps gives the same range out again. -/
theorem zgetSpace_not_disjoint :
    ∃ s, exec (zgetStep lowMap) (.start Unit lowMap)
        [.call () 3000, .allocate () (some 4096), .lock (),
          .call () 4294964296, .call () 3000] = some s ∧
      ¬ s.out.Pairwise Region.Apart := by
  have hOut : (exec (zgetStep lowMap) (.start Unit lowMap)
      [.call () 3000, .allocate () (some 4096), .lock (),
        .call () 4294964296, .call () 3000]).map
          ZgetState.out =
        some [⟨4096, 3000⟩, ⟨7096, 4294964296⟩,
          ⟨4096, 3000⟩] := by
    decide +kernel
  rcases Option.map_eq_some_iff.mp hOut with ⟨s, hRun, hIs⟩
  refine ⟨s, hRun, ?_⟩
  rw [hIs]
  decide

/- A range from one region into the next. -/
theorem zgetSpace_not_inside :
    ∃ s, exec (zgetStep lowMap) (.start Unit lowMap)
        [.call () 3000, .allocate () (some 4096), .lock (),
          .call () 3000, .allocate () (some 8192), .lock ()] =
            some s ∧
      ∃ o ∈ s.out, ∀ r ∈ s.live,
        ¬ (r.start ≤ o.start ∧
          o.start + o.size ≤ r.start + r.size) := by
  refine ⟨_, rfl, ⟨7096, 3000⟩, ?_⟩
  decide +kernel

end Zget

end Kern

end OsfMach
