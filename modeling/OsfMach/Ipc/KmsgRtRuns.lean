import OsfMach.Ipc.KmsgRt

/-
  Buffers and where they are given back.

  A buffer whose bit tells where it came from keeps that when
  its header is rewritten and is given back to whom it
  belongs. The bit tells it from the beginning unless the
  sender set it for a port that is no real-time port.

  Main declarations:
    * `RtKmsg.Marked`, `RtSound`, `RtPool.Meets`
    * `RtSound.step_iff`
    * `kmsgRt_iff`
-/

------
-- What a Buffer Is
------

namespace OsfMach

namespace Ipc

open Function
open Lib

namespace RtKmsg

variable {kmsg : RtKmsg}

/- `KMSG_IS_RT` holds of the buffers from `rtalloc`. -/
def Marked (kmsg : RtKmsg) : Prop :=
  kmsg.isRt = true ↔ kmsg.source = .rtalloc

instance (kmsg : RtKmsg) : Decidable kmsg.Marked :=
  inferInstanceAs (Decidable (_ ↔ _))

/-
  The buffers of the network, and no others, have their own
  size, and nothing sets the bit in them.
-/
structure Fits (kmsg : RtKmsg) : Prop where
  size : kmsg.ikmSize = ikmSizeNetwork ↔
    kmsg.source = .network
  clear : kmsg.source = .network → kmsg.isRt = false

/- Whom `ikm_free` gives a buffer to. -/
def taker (kmsg : RtKmsg) : KmsgSource :=
  if kmsg.ikmSize = ikmSizeNetwork then .network
  else kmsg.allocator

theorem taker_eq_iff
    (hFits : kmsg.Fits) :
    kmsg.taker = kmsg.source ↔ kmsg.Marked := by
  unfold taker allocator Marked
  by_cases hSize : kmsg.ikmSize = ikmSizeNetwork
  · have hSource := hFits.size.mp hSize
    rw [if_pos hSize, hSource, hFits.clear hSource]
    simp
  · have hSource : kmsg.source ≠ .network := fun hEq =>
      hSize (hFits.size.mpr hEq)
    rw [if_neg hSize]
    cases hSame : kmsg.source with
    | network => exact absurd hSame hSource
    | kalloc | rtalloc => cases kmsg.isRt <;> simp

/- A size that is a multiple of four is a size of memory. -/
theorem size_ne_network
    {size : Nat}
    (hWords : size % 4 = 0) :
    ikmPlusOverhead size ≠ ikmSizeNetwork := by
  unfold ikmPlusOverhead addSize ikmOverhead ikmSizeNetwork
  omega

theorem rtAlloc_source
    (rt : Bool)
    (size : Nat)
    (bits : BitVec 32) :
    (rtAlloc rt size bits).source ≠ .network := by
  cases rt <;> simp [rtAlloc]

theorem rtAlloc_fits
    {rt : Bool}
    {size : Nat}
    {bits : BitVec 32}
    (hWords : size % 4 = 0) :
    (rtAlloc rt size bits).Fits := by
  have hSource := rtAlloc_source rt size bits
  refine ⟨?_, fun hEq => absurd hEq hSource⟩
  constructor
  · intro hEq
    exact absurd hEq (size_ne_network hWords)
  · intro hEq
    exact absurd hEq hSource

/- The bits of a buffer of memory may change. -/
theorem Fits.of_memory
    (hFits : kmsg.Fits)
    (hSource : kmsg.source ≠ .network)
    (bits : BitVec 32) :
    ({ kmsg with msghBits := bits } : RtKmsg).Fits :=
  ⟨hFits.size, fun hEq => absurd hEq hSource⟩

theorem isRt_markRt (kmsg : RtKmsg) (rt : Bool) :
    (kmsg.markRt rt).isRt = (kmsg.isRt || rt) := by
  cases rt with
  | true =>
      change hasRtalloc (kmsg.msghBits ||| _) = _
      rw [hasRtalloc_or]
      rfl
  | false => exact (Bool.or_false _).symm

/- When the bit tells where a new buffer is from. -/
theorem marked_markRt
    {rt : Bool}
    (hSource : kmsg.source =
      if rt then .rtalloc else .kalloc) :
    (kmsg.markRt rt).Marked ↔
      (rt = false → kmsg.isRt = false) := by
  unfold Marked
  have hSame : (kmsg.markRt rt).source = kmsg.source := rfl
  rw [isRt_markRt, hSame, hSource]
  cases rt <;> cases kmsg.isRt <;> simp

end RtKmsg

------
-- What the Pool Is
------

/- The sizes in the pool. -/
structure RtSizes (p : RtPool) : Prop where
  live : ∀ kmsg, kmsg ∈ p.live → kmsg.Fits
  cached : ∀ cpu kmsg, kmsg ∈ p.caches cpu →
    kmsg.ikmSize = ikmSavedKmsgSize ∧ kmsg.Fits

/-
  The bit of each message in use tells where it came from,
  and it told that of each buffer that was given back, to
  whom it came from. What is kept is from `kalloc`, as a
  buffer that is taken from there is said to be.
-/
structure RtSound (p : RtPool) : Prop where
  live : ∀ kmsg, kmsg ∈ p.live → kmsg.Marked
  cached : ∀ cpu kmsg, kmsg ∈ p.caches cpu →
    kmsg.source = .kalloc
  freed : ∀ kmsg taker, (kmsg, taker) ∈ p.freed →
    kmsg.Marked ∧ taker = kmsg.source

namespace RtPool

variable {p : RtPool} {kmsg : RtKmsg} {cpu : Nat} {q : RtPool}
variable {size : Nat}

/- A buffer goes in the cache. -/
def stash
    (cpu : Nat)
    (kmsg : RtKmsg)
    (p : RtPool) : RtPool :=
  { p with
    caches := update p.caches cpu (kmsg :: p.caches cpu) }

theorem mem_stash
    {c : Nat}
    {k : RtKmsg} :
    k ∈ (p.stash cpu kmsg).caches c ↔
      c = cpu ∧ k = kmsg ∨ k ∈ p.caches c := by
  unfold stash
  by_cases hEq : c = cpu
  · subst hEq
    simp
  · simp [hEq]

theorem ikmFree_eq :
    p.ikmFree cpu kmsg = p.give kmsg kmsg.taker := by
  unfold ikmFree ipcKmsgFree RtKmsg.taker
  by_cases hPos : 0 < kmsg.ikmSize ∧ kmsg.ikmSize < 2 ^ 31
  · have hNet : kmsg.ikmSize ≠ ikmSizeNetwork := by
      unfold ikmSizeNetwork
      omega
    rw [if_pos hPos, if_neg hNet]
  rw [if_neg hPos]
  by_cases hNet : kmsg.ikmSize = ikmSizeNetwork
  · rw [if_pos hNet, if_pos hNet]
  · -- the cached size is positive
    have hSaved : kmsg.ikmSize ≠ ikmSavedKmsgSize := by
      unfold ikmSavedKmsgSize
      omega
    rw [if_neg hNet, if_neg hNet, if_pos (Or.inl hSaved)]

theorem kobjectPut_eq :
    p.kobjectPut cpu kmsg =
      if kmsg.ikmSize = ikmSavedKmsgSize ∧
          (p.caches cpu).length < ikmStash then
        p.stash cpu kmsg
      else p.give kmsg kmsg.taker := by
  unfold kobjectPut cachePut
  rw [ikmFree_eq]
  by_cases hSize : kmsg.ikmSize = ikmSavedKmsgSize
  · rw [if_neg (not_not_intro hSize)]
    by_cases hRoom : (p.caches cpu).length < ikmStash
    · rw [if_pos hRoom, if_pos ⟨hSize, hRoom⟩]
      rfl
    · rw [if_neg hRoom, if_neg fun h => hRoom h.2]
      rfl
  · rw [if_pos hSize, if_neg fun h => hSize h.1]

theorem ipcKmsgPut_cases :
    (kmsg.ikmSize = ikmSavedKmsgSize ∧ kmsg.isRt = false ∧
        p.ipcKmsgPut cpu kmsg = p.stash cpu kmsg) ∨
      p.ipcKmsgPut cpu kmsg = p.give kmsg kmsg.taker := by
  unfold ipcKmsgPut cachePut
  rw [ikmFree_eq]
  by_cases hFree : kmsg.ikmSize ≠ ikmSavedKmsgSize ∨
      kmsg.isRt = true
  · exact Or.inr (if_pos hFree)
  rw [if_neg hFree]
  rcases not_or.mp hFree with ⟨hSize, hRt⟩
  by_cases hRoom : (p.caches cpu).length < ikmStash
  · rw [if_pos hRoom]
    exact Or.inl ⟨not_not.mp hSize,
      Bool.eq_false_iff.mpr hRt, rfl⟩
  · rw [if_neg hRoom]
    exact Or.inr rfl

/- A pool in which less is cached. -/
structure Less (q p : RtPool) : Prop where
  live : q.live = p.live
  freed : q.freed = p.freed
  caches : ∀ cpu kmsg, kmsg ∈ q.caches cpu →
    kmsg ∈ p.caches cpu

theorem cacheGet_less
    (h : p.cacheGet cpu = some (kmsg, q)) :
    kmsg ∈ p.caches cpu ∧ q.Less p := by
  unfold cacheGet at h
  cases hCache : p.caches cpu with
  | nil =>
      rw [hCache] at h
      cases h
  | cons found rest =>
      rw [hCache] at h
      cases h
      refine ⟨List.mem_cons_self, rfl, rfl, ?_⟩
      intro c k hIn
      dsimp only at hIn
      by_cases hEq : c = cpu
      · subst hEq
        rw [update_self] at hIn
        rw [hCache]
        exact List.mem_cons_of_mem _ hIn
      · rw [update_of_ne hEq] at hIn
        exact hIn

/- A buffer is new, or it is a cached one. -/
theorem getBuffer_cases
    {rt granted : Bool}
    (hGet : p.getBuffer cpu rt granted size = some (kmsg, q))
    (hWords : size % 4 = 0) :
    (q = p ∧ ∃ n, n % 4 = 0 ∧ kmsg = rtAlloc rt n 0) ∨
      rt = false ∧ kmsg ∈ p.caches cpu ∧ q.Less p := by
  have hNew : ∀ n : Nat,
      n % 4 = 0 →
      (if granted then some (rtAlloc rt n 0, p) else none) =
        some (kmsg, q) →
      q = p ∧ ∃ n, n % 4 = 0 ∧ kmsg = rtAlloc rt n 0 := by
    intro n hMultiple hEq
    split_ifs at hEq
    cases hEq
    exact ⟨rfl, n, hMultiple, rfl⟩
  unfold getBuffer at hGet
  by_cases hSmall : size ≤ ikmSavedMsgSize
  · rw [if_pos hSmall] at hGet
    cases rt with
    | true => exact Or.inl (hNew ikmSavedMsgSize rfl hGet)
    | false =>
        cases hCached : p.cacheGet cpu with
        | none =>
            rw [hCached] at hGet
            exact Or.inl (hNew ikmSavedMsgSize rfl hGet)
        | some found =>
            rw [hCached] at hGet
            cases hGet
            exact Or.inr ⟨rfl, cacheGet_less hCached⟩
  · rw [if_neg hSmall] at hGet
    exact Or.inl (hNew size hWords hGet)

/- The buffer that `ipc_kmsg_get` writes in. -/
theorem getsBuffer_cases
    {ans : RtGetAnswers}
    {rt : Bool}
    (hGet : p.getsBuffer cpu ans size = some (rt, kmsg, q)) :
    ans.destRt = some rt ∧
      ((q = p ∧ ∃ n, n % 4 = 0 ∧ kmsg = rtAlloc rt n 0) ∨
        rt = false ∧ kmsg ∈ p.caches cpu ∧ q.Less p) := by
  unfold getsBuffer at hGet
  split_ifs at hGet with hSize
  cases hDest : ans.destRt with
  | none =>
      rw [hDest] at hGet
      cases hGet
  | some destRt =>
      rw [hDest] at hGet
      rcases Option.map_eq_some_iff.mp hGet with
        ⟨⟨found, rest⟩, hFound, hEq⟩
      cases hEq
      have hWords : addSize size maxTrailerSize % 4 = 0 := by
        unfold addSize maxTrailerSize
        omega
      exact ⟨rfl, getBuffer_cases hFound hWords⟩

theorem roundedSize_words
    (hWords : size % 4 = 0) :
    roundedSize size % 4 = 0 := by
  unfold roundedSize
  split_ifs
  · rfl
  · unfold addSize maxTrailerSize
    omega

end RtPool

------
-- Sizes
------

namespace RtSizes

variable {p : RtPool} {kmsg : RtKmsg} {cpu i : Nat}

theorem init : RtSizes RtPool.init := by
  constructor
  · intro kmsg hIn
    cases hIn
  · intro cpu kmsg hIn
    cases hIn

section

variable (h : RtSizes p)
include h

theorem give
    (taker : KmsgSource) :
    RtSizes (p.give kmsg taker) :=
  ⟨h.live, h.cached⟩

theorem use
    (hFits : kmsg.Fits) :
    RtSizes (p.use kmsg) := by
  refine ⟨?_, h.cached⟩
  intro k hIn
  rcases List.mem_cons.mp hIn with hEq | hIn
  · exact hEq ▸ hFits
  · exact h.live k hIn

theorem without
    (i : Nat) :
    RtSizes (p.without i) :=
  ⟨fun k hIn => h.live k (List.mem_of_mem_eraseIdx hIn),
    h.cached⟩

theorem stash
    (hFits : kmsg.Fits)
    (hSize : kmsg.ikmSize = ikmSavedKmsgSize) :
    RtSizes (p.stash cpu kmsg) := by
  refine ⟨h.live, ?_⟩
  intro c k hIn
  rcases RtPool.mem_stash.mp hIn with ⟨_, hEq⟩ | hIn
  · exact hEq ▸ ⟨hSize, hFits⟩
  · exact h.cached c k hIn

theorem found
    (hFound : p.live[i]? = some kmsg) :
    kmsg.Fits :=
  h.live kmsg (List.mem_of_getElem? hFound)

theorem less
    {q : RtPool}
    (hLess : q.Less p) :
    RtSizes q :=
  ⟨fun k hIn => h.live k (hLess.live ▸ hIn),
    fun c k hIn => h.cached c k (hLess.caches c k hIn)⟩

/- The buffer a message of a user is copied to. -/
theorem getsBuffer
    {ans : RtGetAnswers}
    {rt : Bool}
    {size : Nat}
    {q : RtPool}
    (hGet : p.getsBuffer cpu ans size = some (rt, kmsg, q)) :
    RtSizes q ∧ kmsg.Fits ∧ kmsg.source ≠ .network := by
  rcases RtPool.getsBuffer_cases hGet with ⟨_, hNew | hOld⟩
  · rcases hNew with ⟨hPool, n, hWords, hKmsg⟩
    subst hPool
    subst hKmsg
    exact ⟨h, RtKmsg.rtAlloc_fits hWords,
      RtKmsg.rtAlloc_source rt n 0⟩
  · rcases hOld with ⟨_, hIn, hLess⟩
    rcases h.cached cpu kmsg hIn with ⟨hSize, hFits⟩
    refine ⟨h.less hLess, hFits, ?_⟩
    intro hSource
    have hNet := hFits.size.mpr hSource
    rw [hSize] at hNet
    exact absurd hNet (by decide)

theorem kobjectRequest
    (hFits : kmsg.Fits)
    (outcome : KobjectOutcome) :
    RtSizes (p.kobjectRequest cpu kmsg outcome) := by
  have hPut : RtSizes (p.kobjectPut cpu kmsg) := by
    rw [RtPool.kobjectPut_eq]
    split_ifs with hCached
    · exact h.stash hFits hCached.1
    · exact h.give _
  cases outcome with
  | success => exact hPut
  | noReply => exact hPut
  | failure =>
      change RtSizes (p.ikmFree cpu kmsg)
      rw [RtPool.ikmFree_eq]
      exact h.give _

end

theorem kobjectReply_fits
    {ans : KobjectAnswers}
    (hWords : ans.replySize % 4 = 0) :
    (kobjectReply kmsg ans).Fits := by
  have hFits := @RtKmsg.rtAlloc_fits ans.replyRt _
    (machMsghBits (machMsghBitsLocal kmsg.msghBits) 0)
    (RtPool.roundedSize_words hWords)
  have hSource := RtKmsg.rtAlloc_source ans.replyRt
    (RtPool.roundedSize ans.replySize)
    (machMsghBits (machMsghBitsLocal kmsg.msghBits) 0)
  exact hFits.of_memory hSource _

theorem step
    (p : RtPool)
    (a : RtAction)
    (q : RtPool)
    (h : RtSizes p)
    (hStep : rtStep p a = some q) :
    RtSizes q := by
  cases a with
  | get cpu ans size =>
      cases hStep
      unfold RtPool.ipcKmsgGet
      cases hGet : p.getsBuffer cpu ans size with
      | none => exact h
      | some found =>
          rcases found with ⟨rt, kmsg, q⟩
          rcases h.getsBuffer hGet with
            ⟨hRest, hFits, hSource⟩
          have hNew :
              (({ kmsg with msghBits := ans.bits } :
                RtKmsg).markRt rt).Fits :=
            hFits.of_memory hSource _
          dsimp only
          split_ifs
          · exact hRest.use hNew
          · rw [RtPool.ikmFree_eq]
            exact hRest.give _
  | getFromKernel rt granted size bits =>
      change p.ipcKmsgGetFromKernel rt granted size bits =
        some q at hStep
      unfold RtPool.ipcKmsgGetFromKernel at hStep
      split_ifs at hStep with hSize hGranted
      · cases hStep
        have hWords : size % 4 = 0 := by
          by_contra hNot
          exact hSize (Or.inr hNot)
        exact h.use ((RtKmsg.rtAlloc_fits
          (RtPool.roundedSize_words hWords)).of_memory
          (RtKmsg.rtAlloc_source _ _ _) _)
      · cases hStep
        exact h
  | notify n rt granted =>
      cases hStep
      unfold RtPool.ipcNotify
      split_ifs
      · have hWords : n.size % 4 = 0 := by cases n <;> rfl
        exact h.use ((RtKmsg.rtAlloc_fits hWords).of_memory
          (RtKmsg.rtAlloc_source _ _ _) _)
      · exact h
  | network =>
      cases hStep
      refine h.use ⟨?_, fun _ => rfl⟩
      exact ⟨fun _ => rfl, fun _ => rfl⟩
  | rewrite i r =>
      rcases Option.bind_eq_some_iff.mp hStep with
        ⟨kmsg, hFound, hStep⟩
      rcases Option.map_eq_some_iff.mp hStep with
        ⟨bits, hBits, hEq⟩
      subst hEq
      refine ⟨?_, h.cached⟩
      intro k hIn
      rcases List.mem_or_eq_of_mem_set hIn with hIn | hEq
      · exact h.live k hIn
      · have hFits := h.found hFound
        subst hEq
        refine ⟨hFits.size, ?_⟩
        intro hSource
        have hClear : hasRtalloc kmsg.msghBits = false :=
          hFits.clear hSource
        exact (HeaderRewrite.word_rtalloc hBits).trans hClear
  | kobject cpu i ans =>
      rcases Option.bind_eq_some_iff.mp hStep with
        ⟨request, hFound, hStep⟩
      split_ifs at hStep with hWords
      cases hStep
      have hRest : RtSizes
          ((p.without i).kobjectRequest cpu request
            ans.outcome) :=
        (h.without i).kobjectRequest (h.found hFound) _
      unfold RtPool.ipcKobjectServer
      split_ifs
      · rw [RtPool.ikmFree_eq]
        exact hRest.give _
      · exact hRest.use (kobjectReply_fits hWords)
      · rw [RtPool.ikmFree_eq]
        exact (h.without i).give _
  | put cpu i =>
      rcases Option.map_eq_some_iff.mp hStep with
        ⟨kmsg, hFound, hEq⟩
      subst hEq
      rcases @RtPool.ipcKmsgPut_cases (p.without i)
        kmsg cpu with
        ⟨hSize, _, hPut⟩ | hPut
      · rw [hPut]
        exact (h.without i).stash (h.found hFound) hSize
      · rw [hPut]
        exact (h.without i).give _
  | free cpu i =>
      rcases Option.map_eq_some_iff.mp hStep with
        ⟨kmsg, hFound, hEq⟩
      subst hEq
      rw [RtPool.ikmFree_eq]
      exact (h.without i).give _

end RtSizes

------
-- Where Buffers Are From
------

namespace RtSound

variable {p : RtPool} {kmsg : RtKmsg} {cpu i : Nat}

theorem init : RtSound RtPool.init := by
  refine ⟨?_, ?_, ?_⟩
  · intro kmsg hIn
    cases hIn
  · intro cpu kmsg hIn
    cases hIn
  · intro kmsg taker hIn
    cases hIn

theorem without
    (h : RtSound p)
    (i : Nat) :
    RtSound (p.without i) :=
  ⟨fun k hIn => h.live k (List.mem_of_mem_eraseIdx hIn),
    h.cached, h.freed⟩

theorem found
    (h : RtSound p)
    (hFound : p.live[i]? = some kmsg) :
    kmsg.Marked :=
  h.live kmsg (List.mem_of_getElem? hFound)

theorem less
    {q : RtPool}
    (h : RtSound p)
    (hLess : q.Less p) :
    RtSound q :=
  ⟨fun k hIn => h.live k (hLess.live ▸ hIn),
    fun c k hIn => h.cached c k (hLess.caches c k hIn),
    fun k taker hIn => h.freed k taker (hLess.freed ▸ hIn)⟩

theorem use_iff :
    RtSound (p.use kmsg) ↔ RtSound p ∧ kmsg.Marked := by
  constructor
  · intro h
    refine ⟨⟨?_, h.cached, h.freed⟩, ?_⟩
    · intro k hIn
      exact h.live k (List.mem_cons_of_mem _ hIn)
    · exact h.live kmsg List.mem_cons_self
  · rintro ⟨h, hMarked⟩
    refine ⟨?_, h.cached, h.freed⟩
    intro k hIn
    rcases List.mem_cons.mp hIn with hEq | hIn
    · exact hEq ▸ hMarked
    · exact h.live k hIn

/- A buffer that `ikm_free` gives back. -/
theorem give_iff
    (hFits : kmsg.Fits) :
    RtSound (p.give kmsg kmsg.taker) ↔
      RtSound p ∧ kmsg.Marked := by
  constructor
  · intro h
    refine ⟨⟨h.live, h.cached, ?_⟩, ?_⟩
    · intro k taker hIn
      exact h.freed k taker (List.mem_cons_of_mem _ hIn)
    · exact (h.freed kmsg _ List.mem_cons_self).1
  · rintro ⟨h, hMarked⟩
    refine ⟨h.live, h.cached, ?_⟩
    intro k taker hIn
    rcases List.mem_cons.mp hIn with hEq | hIn
    · cases hEq
      exact ⟨hMarked, (RtKmsg.taker_eq_iff hFits).mpr hMarked⟩
    · exact h.freed k taker hIn

theorem stash_iff :
    RtSound (p.stash cpu kmsg) ↔
      RtSound p ∧ kmsg.source = .kalloc := by
  constructor
  · intro h
    refine ⟨⟨h.live, ?_, h.freed⟩, ?_⟩
    · intro c k hIn
      exact h.cached c k (RtPool.mem_stash.mpr (Or.inr hIn))
    · exact h.cached cpu kmsg
        (RtPool.mem_stash.mpr (Or.inl ⟨rfl, rfl⟩))
  · rintro ⟨h, hSource⟩
    refine ⟨h.live, ?_, h.freed⟩
    intro c k hIn
    rcases RtPool.mem_stash.mp hIn with ⟨_, hEq⟩ | hIn
    · exact hEq ▸ hSource
    · exact h.cached c k hIn

/- A message that was received. -/
theorem ipcKmsgPut
    (h : RtSound p)
    (hFits : kmsg.Fits)
    (hMarked : kmsg.Marked) :
    RtSound (p.ipcKmsgPut cpu kmsg) := by
  rcases @RtPool.ipcKmsgPut_cases p kmsg cpu with ⟨hSize, hRt, hPut⟩ | hPut
  · rw [hPut]
    refine stash_iff.mpr ⟨h, ?_⟩
    -- neither of the network nor from `rtalloc`
    have hNet : kmsg.source ≠ .network := by
      intro hSource
      have hEq := hFits.size.mpr hSource
      rw [hSize] at hEq
      exact absurd hEq (by decide)
    have hNot : kmsg.source ≠ .rtalloc := by
      intro hSource
      have hBit := hMarked.mpr hSource
      rw [hRt] at hBit
      cases hBit
    cases hSource : kmsg.source with
    | kalloc => rfl
    | rtalloc => exact absurd hSource hNot
    | network => exact absurd hSource hNet
  · rw [hPut]
    exact (give_iff hFits).mpr ⟨h, hMarked⟩

/-
  The request of a routine is kept where it belongs exactly
  when it is not both from `rtalloc` and put in the cache.
-/
theorem kobjectRequest_iff
    {outcome : KobjectOutcome}
    (h : RtSound p)
    (hFits : kmsg.Fits)
    (hMarked : kmsg.Marked) :
    RtSound (p.kobjectRequest cpu kmsg outcome) ↔
      (outcome ≠ .failure →
        kmsg.ikmSize = ikmSavedKmsgSize →
        (p.caches cpu).length < ikmStash →
        kmsg.source ≠ .rtalloc) := by
  have hPut : RtSound (p.kobjectPut cpu kmsg) ↔
      (kmsg.ikmSize = ikmSavedKmsgSize →
        (p.caches cpu).length < ikmStash →
        kmsg.source ≠ .rtalloc) := by
    rw [RtPool.kobjectPut_eq]
    split_ifs with hCached
    · rw [stash_iff]
      constructor
      · rintro ⟨_, hSource⟩ _ _ hEq
        rw [hSource] at hEq
        cases hEq
      · intro hNot
        refine ⟨h, ?_⟩
        cases hSource : kmsg.source with
        | kalloc => rfl
        | rtalloc =>
            exact absurd hSource (hNot hCached.1 hCached.2)
        | network =>
            have hEq := hFits.size.mpr hSource
            rw [hCached.1] at hEq
            exact absurd hEq (by decide)
    · rw [give_iff hFits]
      constructor
      · intro _ hSize hRoom
        exact absurd ⟨hSize, hRoom⟩ hCached
      · intro _
        exact ⟨h, hMarked⟩
  cases outcome with
  | success | noReply =>
      exact hPut.trans ⟨fun h _ => h, fun h => h (by decide)⟩
  | failure =>
      change RtSound (p.ikmFree cpu kmsg) ↔ _
      rw [RtPool.ikmFree_eq, give_iff hFits]
      constructor
      · intro _ hNot
        exact absurd rfl hNot
      · intro _
        exact ⟨h, hMarked⟩

/- A new buffer after `KMSG_MARK_RT`. -/
theorem use_markRt_iff
    {rt : Bool}
    (h : RtSound p)
    (hSource : kmsg.source =
      if rt then .rtalloc else .kalloc) :
    RtSound (p.use (kmsg.markRt rt)) ↔
      (rt = false → kmsg.isRt = false) := by
  rw [use_iff, RtKmsg.marked_markRt hSource]
  exact and_iff_right h

/- The bit of a reply is that of its own buffer. -/
theorem kobjectReply_marked
    (request : RtKmsg)
    (ans : KobjectAnswers) :
    (kobjectReply request ans).Marked := by
  have hTypes : hasRtalloc
      (machMsghBits (machMsghBitsLocal request.msghBits) 0) =
        false :=
    hasRtalloc_types (machMsghBitsLocal_lt _) (by decide)
  have hNew : ((rtAlloc ans.replyRt
      (RtPool.roundedSize ans.replySize)
      (machMsghBits (machMsghBitsLocal request.msghBits)
        0)).markRt ans.replyRt).Marked :=
    (RtKmsg.marked_markRt rfl).mpr fun _ => hTypes
  unfold RtKmsg.Marked RtKmsg.isRt kobjectReply
  rw [hasRtalloc_setIf (by decide),
    hasRtalloc_setIf (by decide)]
  exact hNew

end RtSound

------
-- Steps
------

/-
  What keeps the bits true. The header that comes to a buffer
  from `kalloc` does not have the bit, and no request from
  `rtalloc` is put in the cache after the kernel served it.
-/
def RtPool.Meets (p : RtPool) : RtAction → Prop
| .get cpu ans size =>
    ans.destRt = some false →
      (p.getsBuffer cpu ans size).isSome = true →
      hasRtalloc ans.bits = false
| .getFromKernel rt granted _ bits =>
    granted = true → rt = false → hasRtalloc bits = false
| .kobject cpu i ans =>
    ∀ request,
      p.live[i]? = some request →
      ans.granted = true →
      ans.outcome ≠ .failure →
      request.ikmSize = ikmSavedKmsgSize →
      (p.caches cpu).length < ikmStash →
      request.source ≠ .rtalloc
| _ => True

namespace RtSound

variable {p q : RtPool}

/- A message of a user. -/
theorem get_iff
    {cpu size : Nat}
    {ans : RtGetAnswers}
    (hSizes : RtSizes p)
    (h : RtSound p) :
    RtSound (p.ipcKmsgGet cpu ans size) ↔
      p.Meets (.get cpu ans size) := by
  unfold RtPool.ipcKmsgGet RtPool.Meets
  cases hGet : p.getsBuffer cpu ans size with
  | none =>
      constructor
      · intro _ _ hSome
        rw [hGet] at hSome
        cases hSome
      · intro _
        exact h
  | some found =>
      rcases found with ⟨rt, kmsg, q⟩
      rcases hSizes.getsBuffer hGet with
        ⟨hRest, hFits, hNet⟩
      rcases RtPool.getsBuffer_cases hGet with ⟨hDest, hFrom⟩
      have hKeeps : RtSound q ∧ kmsg.source =
          if rt then .rtalloc else .kalloc := by
        rcases hFrom with ⟨hPool, n, _, hKmsg⟩ |
          ⟨hRt, hIn, hLess⟩
        · subst hPool
          subst hKmsg
          exact ⟨h, rfl⟩
        · subst hRt
          exact ⟨h.less hLess, h.cached cpu kmsg hIn⟩
      have hNew :
          (({ kmsg with msghBits := ans.bits } :
            RtKmsg).markRt rt).Fits :=
        hFits.of_memory hNet _
      have hUse : RtSound (q.use (({ kmsg with
            msghBits := ans.bits } : RtKmsg).markRt rt)) ↔
          (rt = false → hasRtalloc ans.bits = false) :=
        use_markRt_iff hKeeps.1 hKeeps.2
      have hOnly :
          (ans.destRt = some false →
            (p.getsBuffer cpu ans size).isSome = true →
            hasRtalloc ans.bits = false) ↔
          (rt = false → hasRtalloc ans.bits = false) := by
        rw [hDest, hGet]
        simp
      dsimp only
      rw [hOnly, ← hUse]
      split_ifs
      · rfl
      · -- what could not be copied is given back at once
        rw [RtPool.ikmFree_eq, give_iff hNew, use_iff]

/- One step keeps the bits true exactly under the condition. -/
theorem step_iff
    (p : RtPool)
    (a : RtAction)
    (q : RtPool)
    (hSizes : RtSizes p)
    (h : RtSound p)
    (hStep : rtStep p a = some q) :
    RtSound q ↔ p.Meets a := by
  have hFree : RtSound q → (RtSound q ↔ True) := fun hSound =>
    iff_of_true hSound trivial
  cases a with
  | get cpu ans size =>
      cases hStep
      exact get_iff hSizes h
  | getFromKernel rt granted size bits =>
      change p.ipcKmsgGetFromKernel rt granted size bits =
        some q at hStep
      unfold RtPool.ipcKmsgGetFromKernel at hStep
      split_ifs at hStep with hSize hGranted
      · cases hStep
        rw [use_markRt_iff h rfl]
        exact ⟨fun hBits _ => hBits, fun hBits =>
          hBits hGranted⟩
      · cases hStep
        exact iff_of_true h fun hYes => absurd hYes hGranted
  | notify n rt granted =>
      cases hStep
      apply hFree
      unfold RtPool.ipcNotify
      split_ifs
      · rw [use_markRt_iff h rfl]
        intro _
        have hBits : hasRtalloc n.bits = false := by
          cases n <;> decide
        exact hBits
      · exact h
  | network =>
      cases hStep
      apply hFree
      apply use_iff.mpr
      exact ⟨h, by decide⟩
  | rewrite i r =>
      rcases Option.bind_eq_some_iff.mp hStep with
        ⟨kmsg, hFound, hStep⟩
      rcases Option.map_eq_some_iff.mp hStep with
        ⟨bits, hBits, hEq⟩
      apply hFree
      subst hEq
      refine ⟨?_, h.cached, h.freed⟩
      intro k hIn
      rcases List.mem_or_eq_of_mem_set hIn with hIn | hEq
      · exact h.live k hIn
      · subst hEq
        have hMarked := h.found hFound
        unfold RtKmsg.Marked RtKmsg.isRt at hMarked ⊢
        rw [HeaderRewrite.word_rtalloc hBits]
        exact hMarked
  | kobject cpu i ans =>
      rcases Option.bind_eq_some_iff.mp hStep with
        ⟨request, hFound, hStep⟩
      split_ifs at hStep with hWords
      cases hStep
      have hMarked := h.found hFound
      have hFits := hSizes.found hFound
      have hRest := h.without i
      have hRequest := @kobjectRequest_iff _ request cpu
        ans.outcome hRest hFits hMarked
      have hReply := kobjectReply_marked request ans
      have hMeets : p.Meets (.kobject cpu i ans) ↔
          (ans.granted = true →
            RtSound ((p.without i).kobjectRequest cpu request
              ans.outcome)) := by
        rw [hRequest]
        constructor
        · intro hAll
          exact hAll request hFound
        · intro hOne other hOther
          rw [hFound] at hOther
          cases hOther
          exact hOne
      rw [hMeets]
      unfold RtPool.ipcKobjectServer
      split_ifs with hGranted hGone
      · rw [RtPool.ikmFree_eq,
          give_iff (RtSizes.kobjectReply_fits hWords)]
        exact ⟨fun hBoth _ => hBoth.1,
          fun hKept => ⟨hKept hGranted, hReply⟩⟩
      · rw [use_iff]
        exact ⟨fun hBoth _ => hBoth.1,
          fun hKept => ⟨hKept hGranted, hReply⟩⟩
      · rw [RtPool.ikmFree_eq, give_iff hFits]
        exact iff_of_true ⟨hRest, hMarked⟩
          fun hYes => absurd hYes hGranted
  | put cpu i =>
      rcases Option.map_eq_some_iff.mp hStep with
        ⟨kmsg, hFound, hEq⟩
      apply hFree
      subst hEq
      exact (h.without i).ipcKmsgPut (hSizes.found hFound)
        (h.found hFound)
  | free cpu i =>
      rcases Option.map_eq_some_iff.mp hStep with
        ⟨kmsg, hFound, hEq⟩
      apply hFree
      subst hEq
      rw [RtPool.ikmFree_eq, give_iff (hSizes.found hFound)]
      exact ⟨h.without i, h.found hFound⟩

end RtSound

------
-- Runs
------

/-
  In each state of a run the bits are true exactly when each
  of its steps keeps them true. A message whose bit is not
  true goes to the wrong allocator when it is freed.
-/
theorem kmsgRt_iff
    {as : List RtAction}
    {p : RtPool}
    (hExec : Runs.exec rtStep RtPool.init as = some p) :
    ((∀ bs q, bs <+: as →
        Runs.exec rtStep RtPool.init bs = some q →
        RtSound q) ↔
      Runs.Meets rtStep RtPool.Meets RtPool.init as) ∧
      ∀ cpu i kmsg, p.live[i]? = some kmsg →
        ∃ q taker, rtStep p (.free cpu i) = some q ∧
          q.freed = (kmsg, taker) :: p.freed ∧
          (taker = kmsg.source ↔ kmsg.Marked) := by
  refine ⟨?_, ?_⟩
  · exact Runs.states_iff_meets RtSizes.step RtSound.step_iff
      RtSizes.init RtSound.init hExec
  · intro cpu i kmsg hFound
    have hSizes : RtSizes p :=
      Runs.exec_preserves RtSizes.step RtSizes.init hExec
    have hStep : rtStep p (.free cpu i) =
        some ((p.without i).give kmsg kmsg.taker) := by
      change p.live[i]?.map _ = _
      rw [hFound, Option.map_some, RtPool.ikmFree_eq]
    exact ⟨_, kmsg.taker, hStep, rfl,
      RtKmsg.taker_eq_iff (hSizes.found hFound)⟩

/-
  A message for a real-time port that the kernel serves, and
  its reply, which is received.
-/
def servedRun : List RtAction :=
  [.get 0 ⟨true, true, some true, true, true, 0x00001513⟩ 400,
    .rewrite 0 .copyinHeader,
    .kobject 0 0
      ⟨false, true, 36, false, false, .success, true⟩,
    .rewrite 0 .copyout, .put 0 0]

theorem kmsgRt_iff_served :
    ∃ p, Runs.exec rtStep RtPool.init servedRun = some p ∧
      ((∀ bs q, bs <+: servedRun →
          Runs.exec rtStep RtPool.init bs = some q →
          RtSound q) ↔
        Runs.Meets rtStep RtPool.Meets RtPool.init
          servedRun) ∧
        ∀ cpu i kmsg, p.live[i]? = some kmsg →
          ∃ q taker, rtStep p (.free cpu i) = some q ∧
            q.freed = (kmsg, taker) :: p.freed ∧
            (taker = kmsg.source ↔ kmsg.Marked) :=
  ⟨_, rfl, kmsgRt_iff rfl⟩

/-
  A user sets the bit in a message for an ordinary port. The
  buffer is from `kalloc`, and `rtfree` gets it.
-/
theorem kmsgRt_user_bit :
    ∃ p, Runs.exec rtStep RtPool.init
          [.get 0 ⟨true, true, some false, true, true,
              0x20000013⟩ 24,
            .free 0 0] = some p ∧
      p.freed = [(⟨.kalloc, 256, 0x20000013⟩, .rtalloc)] ∧
      ¬ RtSound p := by
  refine ⟨⟨fun _ => [], [],
    [(⟨.kalloc, 256, 0x20000013⟩, .rtalloc)]⟩, rfl, rfl, ?_⟩
  intro hSound
  have hFreed := hSound.freed _ _ (List.mem_singleton.mpr rfl)
  cases hFreed.2

end Ipc

end OsfMach
