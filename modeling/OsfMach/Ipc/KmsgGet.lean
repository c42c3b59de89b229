import OsfMach.Ipc.Right
import OsfMach.Lib.Runs

/-
  Message buffers, from `ipc/ipc_kmsg.c` and
  `ipc/ipc_kmsg.h`.

  Sizes are computed in 32 bits. A buffer knows its size, and
  the allocator knows what it gave. What memory allocation,
  the user's memory and the sender's space answer is given.

  Main declarations:
    * `KmsgBuffer`, `KmsgCache`, `KmsgPool`
    * `ipcKmsgGet`, `poolStep`
    * `PoolInv.step`
    * `kmsg_get_room`
-/

------
-- Buffers
------

namespace OsfMach

namespace Ipc

open Function
open Lib

/- The sum of two sizes, in 32 bits. -/
def addSize (x y : Nat) : Nat :=
  (x + y) % 2 ^ 32

def ikmOverhead : Nat := 16
def ikmSavedKmsgSize : Nat := 256
def ikmSavedMsgSize : Nat := ikmSavedKmsgSize - ikmOverhead

def sizeofMsgHeader : Nat := 24
def offsetofRemotePort : Nat := 8
def sizeofPortName : Nat := 4

def machMsgTrailerMinimumSize : Nat := 8
def maxTrailerSize : Nat := 20

/- `ikm_plus_overhead`. -/
def ikmPlusOverhead (size : Nat) : Nat :=
  addSize size ikmOverhead

/-
  `struct ipc_kmsg`: what the allocator gave, the field
  `ikm_size`, the bit `MACH_MSGH_BITS_RTALLOC` of the header,
  the sizes in the header and in the trailer.
-/
structure KmsgBuffer where
  room : Nat
  ikmSize : Nat
  isRt : Bool
  msghSize : Nat
  msghTrailerSize : Nat
deriving DecidableEq, Repr

/- `ikm_alloc` or `ikm_rtalloc`, and `ikm_init`. -/
def ikmAlloc (size : Nat) : KmsgBuffer :=
  ⟨ikmPlusOverhead size, ikmPlusOverhead size, false, 0, 0⟩

------
-- The Cache
------

def ikmStash : Nat := 16

/- The cached buffers of a processor. -/
structure KmsgCache where
  slots : List (Option KmsgBuffer)
  avail : Nat
deriving DecidableEq, Repr

/- Take the first buffer out of its slot. -/
def takeSlot :
    List (Option KmsgBuffer) →
      Option (KmsgBuffer × List (Option KmsgBuffer))
| [] => none
| some kmsg :: slots => some (kmsg, none :: slots)
| none :: slots =>
    (takeSlot slots).map fun r => (r.1, none :: r.2)

/- Put a buffer in the first slot without one. -/
def fillSlot
    (kmsg : KmsgBuffer) :
    List (Option KmsgBuffer) →
      Option (List (Option KmsgBuffer))
| [] => none
| none :: slots => some (some kmsg :: slots)
| some other :: slots =>
    (fillSlot kmsg slots).map fun r => some other :: r

/- `ikm_cache_get`. -/
def ikmCacheGet
    (c : KmsgCache) : Option (KmsgBuffer × KmsgCache) :=
  if c.avail = 0 then none
  else
    (takeSlot c.slots).map fun r =>
      (r.1, ⟨r.2, c.avail - 1⟩)

/- `ikm_cache_put`. -/
def ikmCachePut
    (c : KmsgCache)
    (kmsg : KmsgBuffer) : Option KmsgCache :=
  if c.avail < ikmStash then
    (fillSlot kmsg c.slots).map fun slots =>
      ⟨slots, c.avail + 1⟩
  else none

/- `ikm_cache_init`. -/
def ikmCacheInit : KmsgCache :=
  ⟨List.replicate ikmStash none, 0⟩

------
-- Getting a Message
------

/- What `ipc_kmsg_get` returns when it fails. -/
inductive KmsgGetError where
| sendMsgTooSmall
| sendInvalidData
| sendInvalidDest
| sendNoBuffer
| assertion
deriving DecidableEq, Repr

/-
  What is not the message's: whether the user's memory can be
  read, the space is active, whether its name denotes a port
  and that is a real-time port, and whether there is memory.
-/
structure KmsgGetAnswers where
  nameReadable : Bool
  isActive : Bool
  destRt : Option Bool
  granted : Bool
  dataReadable : Bool
deriving DecidableEq, Repr

def vmMaxAddress : Nat := 0xc0000000

/-
  `copyinmsg`: it fails when the range wraps around, at a
  page that cannot be read and at the end of the user's data
  segment.
-/
def copyinmsg (readable : Bool) (addr length : Nat) : Bool :=
  addr ≤ addSize addr length && readable &&
    addr + length ≤ vmMaxAddress

/- Where the buffer of a size comes from. -/
def getBuffer
    (rt granted : Bool)
    (size : Nat)
    (c : KmsgCache) :
    Except KmsgGetError KmsgBuffer × KmsgCache :=
  let allocate (size : Nat) :
      Except KmsgGetError KmsgBuffer × KmsgCache :=
    if granted then (.ok (ikmAlloc size), c)
    else (.error .sendNoBuffer, c)
  if size ≤ ikmSavedMsgSize then
    if rt then allocate ikmSavedMsgSize
    else
      match ikmCacheGet c with
      | some (kmsg, c) =>
          -- `ikm_check_initialized`
          if kmsg.ikmSize = ikmSavedKmsgSize then (.ok kmsg, c)
          else (.error .assertion, c)
      | none => allocate ikmSavedMsgSize
  else allocate size

/-
  `ipc_kmsg_get`, of a message at an address of the user. The
  header that is copied in may have any bits.
-/
def ipcKmsgGet
    (ans : KmsgGetAnswers)
    (bitsRt : Bool)
    (msg size : Nat)
    (c : KmsgCache) :
    Except KmsgGetError KmsgBuffer × KmsgCache :=
  if size < sizeofMsgHeader ∨ size % 4 ≠ 0 then
    (.error .sendMsgTooSmall, c)
  else if !copyinmsg ans.nameReadable
      (addSize msg offsetofRemotePort) sizeofPortName then
    (.error .sendInvalidData, c)
  else if !ans.isActive then (.error .sendInvalidDest, c)
  else
    match ans.destRt with
    | none => (.error .sendInvalidDest, c)
    | some rt =>
        match getBuffer rt ans.granted
          (addSize size maxTrailerSize) c with
        | (.error e, c) => (.error e, c)
        | (.ok kmsg, c) =>
            if !copyinmsg ans.dataReadable msg size then
              (.error .sendInvalidData, c)
            else
              (.ok { kmsg with
                isRt := bitsRt || rt
                msghSize := size
                msghTrailerSize :=
                  machMsgTrailerMinimumSize }, c)

------
-- The Pool
------

/- The caches of the processors and the buffers in use. -/
structure KmsgPool where
  caches : Nat → KmsgCache
  live : List KmsgBuffer

def KmsgPool.init : KmsgPool :=
  ⟨fun _ => ikmCacheInit, []⟩

def ikmSizeNetwork : Nat := 2 ^ 32 - 1

inductive PoolAction where
-- `ipc_kmsg_get`
| get (cpu : Nat) (ans : KmsgGetAnswers) (bitsRt : Bool)
    (msg size : Nat)
-- a message from the kernel, of any size
| alloc (size : Nat) (isRt : Bool)
-- a message of the network, which has its own buffers
| network (room : Nat)
-- the header of a message changes
| change (i : Nat) (isRt : Bool)
    (msghSize msghTrailerSize : Nat)
-- `ipc_kmsg_put` and `ipc_kmsg_free`
| put (cpu i : Nat)

/- Free a buffer, or put it in the cache. -/
def releaseKmsg
    (c : KmsgCache)
    (kmsg : KmsgBuffer) : KmsgCache :=
  if kmsg.ikmSize ≠ ikmSavedKmsgSize ∨ kmsg.isRt then c
  else (ikmCachePut c kmsg).getD c

def poolStep
    (p : KmsgPool) : PoolAction → Option KmsgPool
| .get cpu ans bitsRt msg size =>
    match ipcKmsgGet ans bitsRt msg size (p.caches cpu) with
    | (.ok kmsg, c) =>
        some ⟨update p.caches cpu c, kmsg :: p.live⟩
    | (.error _, c) =>
        some ⟨update p.caches cpu c, p.live⟩
| .alloc size isRt =>
    some ⟨p.caches,
      { ikmAlloc size with isRt := isRt } :: p.live⟩
| .network room =>
    some ⟨p.caches,
      ⟨room, ikmSizeNetwork, false, 0, 0⟩ :: p.live⟩
| .change i isRt msghSize msghTrailerSize =>
    p.live[i]?.map fun kmsg =>
      ⟨p.caches, p.live.set i
        ⟨kmsg.room, kmsg.ikmSize, isRt, msghSize,
          msghTrailerSize⟩⟩
| .put cpu i =>
    p.live[i]?.map fun kmsg =>
      ⟨update p.caches cpu
          (releaseKmsg (p.caches cpu) kmsg),
        p.live.eraseIdx i⟩

/- The pool after a run from when the system started. -/
def PoolReachable (p : KmsgPool) : Prop :=
  ∃ as, Runs.exec poolStep KmsgPool.init as = some p

------
-- What Is in the Pool
------

/- A buffer of the cached size has the room it says. -/
def SavedOk (kmsg : KmsgBuffer) : Prop :=
  kmsg.ikmSize = ikmSavedKmsgSize →
    kmsg.room = ikmSavedKmsgSize

/- A cached buffer has the cached size, and its room. -/
def CacheOk (c : KmsgCache) : Prop :=
  ∀ kmsg, some kmsg ∈ c.slots →
    kmsg.ikmSize = ikmSavedKmsgSize ∧
      kmsg.room = ikmSavedKmsgSize

structure PoolInv (p : KmsgPool) : Prop where
  caches : ∀ cpu, CacheOk (p.caches cpu)
  live : ∀ kmsg, kmsg ∈ p.live → SavedOk kmsg

theorem ikmAlloc_saved
    (size : Nat)
    (isRt : Bool) :
    SavedOk { ikmAlloc size with isRt := isRt } := by
  intro hSize
  exact hSize

variable {slots rest : List (Option KmsgBuffer)}
variable {kmsg : KmsgBuffer}

theorem takeSlot_mem
    (h : takeSlot slots = some (kmsg, rest)) :
    some kmsg ∈ slots ∧
      ∀ k, some k ∈ rest → some k ∈ slots := by
  induction slots generalizing rest with
  | nil => cases h
  | cons slot slots ih =>
      cases slot with
      | some first =>
          cases h
          refine ⟨List.mem_cons_self, fun k hIn => ?_⟩
          rcases List.mem_cons.mp hIn with hEq | hIn
          · cases hEq
          · exact List.mem_cons_of_mem _ hIn
      | none =>
          rcases Option.map_eq_some_iff.mp h with
            ⟨⟨found, others⟩, hFound, hEq⟩
          injection hEq with hKmsg hRest
          subst hKmsg
          subst hRest
          rcases ih hFound with ⟨hIn, hOthers⟩
          refine ⟨List.mem_cons_of_mem _ hIn,
            fun k hMem => ?_⟩
          rcases List.mem_cons.mp hMem with hNone | hMem
          · cases hNone
          · exact List.mem_cons_of_mem _ (hOthers k hMem)

theorem fillSlot_mem
    (h : fillSlot kmsg slots = some rest)
    (k : KmsgBuffer)
    (hIn : some k ∈ rest) :
    k = kmsg ∨ some k ∈ slots := by
  induction slots generalizing rest with
  | nil => cases h
  | cons slot slots ih =>
      cases slot with
      | none =>
          cases h
          rcases List.mem_cons.mp hIn with hEq | hIn
          · cases hEq
            exact Or.inl rfl
          · exact Or.inr (List.mem_cons_of_mem _ hIn)
      | some other =>
          rcases Option.map_eq_some_iff.mp h with
            ⟨others, hFilled, hEq⟩
          subst hEq
          rcases List.mem_cons.mp hIn with hEq | hIn
          · exact Or.inr (hEq ▸ List.mem_cons_self)
          · exact (ih hFilled hIn).imp_right
              (List.mem_cons_of_mem _)

namespace CacheOk

variable {c : KmsgCache}

theorem init : CacheOk ikmCacheInit := by
  intro kmsg hIn
  have hEq := List.eq_of_mem_replicate hIn
  cases hEq

theorem get
    (h : CacheOk c)
    (hGet : ikmCacheGet c = some (kmsg, c')) :
    (kmsg.ikmSize = ikmSavedKmsgSize ∧
      kmsg.room = ikmSavedKmsgSize) ∧ CacheOk c' := by
  unfold ikmCacheGet at hGet
  split_ifs at hGet
  rcases Option.map_eq_some_iff.mp hGet with
    ⟨⟨found, rest⟩, hFound, hEq⟩
  injection hEq with hKmsg hCache
  subst hKmsg
  subst hCache
  rcases takeSlot_mem hFound with ⟨hIn, hRest⟩
  exact ⟨h found hIn, fun k hMem => h k (hRest k hMem)⟩

theorem release
    (h : CacheOk c)
    (hSaved : SavedOk kmsg) :
    CacheOk (releaseKmsg c kmsg) := by
  unfold releaseKmsg
  split_ifs with hFree
  · exact h
  have hSize : kmsg.ikmSize = ikmSavedKmsgSize := by
    by_contra hNot
    exact hFree (Or.inl hNot)
  cases hPut : ikmCachePut c kmsg with
  | none => exact h
  | some c' =>
      unfold ikmCachePut at hPut
      split_ifs at hPut
      rcases Option.map_eq_some_iff.mp hPut with
        ⟨slots, hFilled, hEq⟩
      subst hEq
      intro k hIn
      rcases fillSlot_mem hFilled k hIn with hEq | hIn
      · subst hEq
        exact ⟨hSize, hSaved hSize⟩
      · exact h k hIn

end CacheOk

------
-- Room
------

/- A buffer that was got for a size, in 32 bits. -/
structure GotBuffer
    (size : Nat)
    (kmsg : KmsgBuffer) : Prop where
  saved : SavedOk kmsg
  room : kmsg.ikmSize ≤ kmsg.room
  -- the size may wrap around when the overhead is added
  size : size + ikmOverhead < 2 ^ 32 →
    size + ikmOverhead ≤ kmsg.ikmSize

theorem ikmAlloc_got
    {size wanted : Nat}
    (h : wanted ≤ size)
    (hLess : wanted + ikmOverhead < 2 ^ 32 →
      size + ikmOverhead < 2 ^ 32) :
    GotBuffer wanted (ikmAlloc size) := by
  refine ⟨fun hSize => hSize, Nat.le_refl _, fun hRoom => ?_⟩
  have hEq : (ikmAlloc size).ikmSize =
      (size + ikmOverhead) % 2 ^ 32 := rfl
  omega

variable {size : Nat}

/- A small message takes the cached size. -/
theorem ikmAlloc_small
    (hSmall : size ≤ ikmSavedMsgSize) :
    GotBuffer size (ikmAlloc ikmSavedMsgSize) :=
  ikmAlloc_got hSmall fun _ => by decide

variable {c c' : KmsgCache}
variable {r : Except KmsgGetError KmsgBuffer}

theorem getBuffer_got
    {rt granted : Bool}
    (h : CacheOk c)
    (hGet : getBuffer rt granted size c = (r, c')) :
    CacheOk c' ∧ r ≠ .error .assertion ∧
      ∀ kmsg, r = .ok kmsg → GotBuffer size kmsg := by
  have hAllocate : ∀ wanted : Nat,
      GotBuffer size (ikmAlloc wanted) →
      (if granted then
          ((.ok (ikmAlloc wanted) :
            Except KmsgGetError KmsgBuffer), c)
        else (.error .sendNoBuffer, c)) = (r, c') →
      CacheOk c' ∧ r ≠ .error .assertion ∧
        ∀ kmsg, r = .ok kmsg → GotBuffer size kmsg := by
    intro wanted hGot hRun
    cases granted with
    | true =>
        cases hRun
        refine ⟨h, fun hEq => (by cases hEq), fun kmsg hEq => ?_⟩
        cases hEq
        exact hGot
    | false =>
        cases hRun
        refine ⟨h, fun hEq => (by cases hEq), fun kmsg hEq => ?_⟩
        cases hEq
  unfold getBuffer at hGet
  by_cases hSmall : size ≤ ikmSavedMsgSize
  · rw [if_pos hSmall] at hGet
    cases rt with
    | true => exact hAllocate _ (ikmAlloc_small hSmall) hGet
    | false =>
        cases hCached : ikmCacheGet c with
        | none =>
            rw [hCached] at hGet
            exact hAllocate _ (ikmAlloc_small hSmall) hGet
        | some found =>
            rcases found with ⟨kmsg, rest⟩
            rcases h.get hCached with ⟨⟨hSize, hRoom⟩, hRest⟩
            rw [hCached] at hGet
            dsimp only at hGet
            rw [if_pos hSize] at hGet
            cases hGet
            refine ⟨hRest, fun hEq => (by cases hEq),
              fun k hEq => ?_⟩
            cases hEq
            refine ⟨fun _ => hRoom, ?_, fun _ => ?_⟩
            · rw [hSize, hRoom]
            · rw [hSize]
              unfold ikmSavedMsgSize ikmSavedKmsgSize
                ikmOverhead at hSmall
              unfold ikmSavedKmsgSize ikmOverhead
              omega
  · rw [if_neg hSmall] at hGet
    exact hAllocate _ (ikmAlloc_got (Nat.le_refl _) id) hGet

theorem ipcKmsgGet_got
    {ans : KmsgGetAnswers}
    {bitsRt : Bool}
    {msg size : Nat}
    (h : CacheOk c)
    (hGet : ipcKmsgGet ans bitsRt msg size c = (r, c')) :
    CacheOk c' ∧ r ≠ .error .assertion ∧
      ∀ kmsg, r = .ok kmsg →
        SavedOk kmsg ∧ kmsg.ikmSize ≤ kmsg.room ∧
          ikmOverhead + size + maxTrailerSize ≤
            kmsg.ikmSize ∧
          kmsg.msghSize = size := by
  have hFailed : ∀ e : KmsgGetError, e ≠ .assertion →
      ((.error e : Except KmsgGetError KmsgBuffer), c) =
        (r, c') →
      CacheOk c' ∧ r ≠ .error .assertion ∧
        ∀ kmsg, r = .ok kmsg →
          SavedOk kmsg ∧ kmsg.ikmSize ≤ kmsg.room ∧
            ikmOverhead + size + maxTrailerSize ≤
              kmsg.ikmSize ∧
            kmsg.msghSize = size := by
    intro e hNot hRun
    cases hRun
    refine ⟨h, fun hEq => ?_, fun kmsg hEq => ?_⟩
    · injection hEq with hSame
      exact hNot hSame
    · cases hEq
  unfold ipcKmsgGet at hGet
  by_cases hSize : size < sizeofMsgHeader ∨ size % 4 ≠ 0
  · rw [if_pos hSize] at hGet
    exact hFailed _ (by decide) hGet
  rw [if_neg hSize] at hGet
  by_cases hName : (!copyinmsg ans.nameReadable
      (addSize msg offsetofRemotePort) sizeofPortName) = true
  · rw [if_pos hName] at hGet
    exact hFailed _ (by decide) hGet
  rw [if_neg hName] at hGet
  by_cases hDead : (!ans.isActive) = true
  · rw [if_pos hDead] at hGet
    exact hFailed _ (by decide) hGet
  rw [if_neg hDead] at hGet
  cases hDest : ans.destRt with
  | none =>
      rw [hDest] at hGet
      exact hFailed _ (by decide) hGet
  | some rt =>
      rw [hDest] at hGet
      dsimp only at hGet
      rcases hBuffer : getBuffer rt ans.granted
          (addSize size maxTrailerSize) c with ⟨got, rest⟩
      rcases getBuffer_got h hBuffer with
        ⟨hRest, hNot, hGot⟩
      rw [hBuffer] at hGet
      cases got with
      | error e =>
          cases hGet
          refine ⟨hRest, hNot, fun kmsg hEq => ?_⟩
          cases hEq
      | ok kmsg =>
          dsimp only at hGet
          have hBuf := hGot kmsg rfl
          by_cases hCopied :
              copyinmsg ans.dataReadable msg size = true
          · rw [if_neg (by simp [hCopied])] at hGet
            cases hGet
            refine ⟨hRest, fun hEq => (by cases hEq),
              fun k hEq => ?_⟩
            cases hEq
            -- the user's segment ends far below the wrap
            have hSegment : msg + size ≤ vmMaxAddress := by
              unfold copyinmsg at hCopied
              simp only [Bool.and_eq_true,
                decide_eq_true_eq] at hCopied
              exact hCopied.2
            have hSum : addSize size maxTrailerSize =
                size + maxTrailerSize := by
              unfold addSize maxTrailerSize
              unfold vmMaxAddress at hSegment
              omega
            have hSize := hBuf.size (by
              rw [hSum]
              unfold maxTrailerSize ikmOverhead
              unfold vmMaxAddress at hSegment
              omega)
            refine ⟨hBuf.saved, hBuf.room, ?_, rfl⟩
            dsimp only
            omega
          · rw [if_pos (by simpa using hCopied)] at hGet
            cases hGet
            refine ⟨hRest, fun hEq => (by cases hEq),
              fun k hEq => ?_⟩
            cases hEq

------
-- Runs
------

namespace PoolInv

theorem init : PoolInv KmsgPool.init := by
  refine ⟨fun _ => CacheOk.init, fun kmsg hIn => ?_⟩
  simp [KmsgPool.init] at hIn

theorem updateCache
    {p : KmsgPool}
    (h : PoolInv p)
    (cpu : Nat)
    (hCache : CacheOk c)
    (cpu' : Nat) :
    CacheOk (update p.caches cpu c cpu') := by
  by_cases hEq : cpu' = cpu
  · subst hEq
    rw [update_self]
    exact hCache
  · rw [update_of_ne hEq]
    exact h.caches cpu'

theorem step
    (p : KmsgPool)
    (a : PoolAction)
    (p' : KmsgPool)
    (h : PoolInv p)
    (hStep : poolStep p a = some p') :
    PoolInv p' := by
  cases a with
  | get cpu ans bitsRt msg size =>
      unfold poolStep at hStep
      dsimp only at hStep
      rcases hGet : ipcKmsgGet ans bitsRt msg size
          (p.caches cpu) with ⟨r, c⟩
      rcases ipcKmsgGet_got (h.caches cpu) hGet with
        ⟨hCache, _, hGot⟩
      rw [hGet] at hStep
      cases r with
      | ok kmsg =>
          cases hStep
          refine ⟨h.updateCache cpu hCache, fun k hIn => ?_⟩
          rcases List.mem_cons.mp hIn with hEq | hIn
          · exact hEq ▸ (hGot kmsg rfl).1
          · exact h.live k hIn
      | error e =>
          cases hStep
          exact ⟨h.updateCache cpu hCache, h.live⟩
  | alloc size isRt =>
      cases hStep
      refine ⟨h.caches, fun k hIn => ?_⟩
      rcases List.mem_cons.mp hIn with hEq | hIn
      · exact hEq ▸ ikmAlloc_saved size isRt
      · exact h.live k hIn
  | network room =>
      cases hStep
      refine ⟨h.caches, fun k hIn => ?_⟩
      rcases List.mem_cons.mp hIn with hEq | hIn
      · subst hEq
        intro hSize
        have hEq : ikmSizeNetwork = ikmSavedKmsgSize := hSize
        exact absurd hEq (by decide)
      · exact h.live k hIn
  | change i isRt msghSize msghTrailerSize =>
      rcases Option.map_eq_some_iff.mp hStep with
        ⟨kmsg, hFound, hEq⟩
      subst hEq
      refine ⟨h.caches, fun k hIn => ?_⟩
      rcases List.mem_or_eq_of_mem_set hIn with hIn | hEq
      · exact h.live k hIn
      · subst hEq
        exact h.live kmsg (List.mem_of_getElem? hFound)
  | put cpu i =>
      rcases Option.map_eq_some_iff.mp hStep with
        ⟨kmsg, hFound, hEq⟩
      subst hEq
      have hSaved := h.live kmsg (List.mem_of_getElem? hFound)
      refine ⟨h.updateCache cpu
        ((h.caches cpu).release hSaved), fun k hIn => ?_⟩
      exact h.live k (List.mem_of_mem_eraseIdx hIn)

end PoolInv

theorem PoolReachable.inv
    {p : KmsgPool}
    (h : PoolReachable p) :
    PoolInv p := by
  rcases h with ⟨as, hExec⟩
  exact Runs.exec_preserves PoolInv.step PoolInv.init hExec

/-
  A message that was got has room for its bytes and for the
  largest trailer, after its overhead.
-/
theorem kmsg_get_room
    (p : KmsgPool)
    (cpu : Nat)
    (ans : KmsgGetAnswers)
    (bitsRt : Bool)
    (msg size : Nat)
    (kmsg : KmsgBuffer)
    (c : KmsgCache)
    (hReach : PoolReachable p)
    (hGet : ipcKmsgGet ans bitsRt msg size (p.caches cpu) =
      (.ok kmsg, c)) :
    kmsg.ikmSize ≤ kmsg.room ∧
      ikmOverhead + size + maxTrailerSize ≤ kmsg.ikmSize ∧
      kmsg.msghSize = size := by
  rcases ipcKmsgGet_got (hReach.inv.caches cpu) hGet with
    ⟨_, _, hGot⟩
  exact (hGot kmsg rfl).2

/- A message of the largest cached size, from the cache. -/
theorem kmsg_get_room_cached :
    (⟨256, 256, false, 220, 8⟩ : KmsgBuffer).ikmSize ≤
        (⟨256, 256, false, 220, 8⟩ : KmsgBuffer).room ∧
      ikmOverhead + 220 + maxTrailerSize ≤
        (⟨256, 256, false, 220, 8⟩ : KmsgBuffer).ikmSize ∧
      (⟨256, 256, false, 220, 8⟩ : KmsgBuffer).msghSize =
        220 :=
  kmsg_get_room
    ⟨update (fun _ => ikmCacheInit) 0
        ⟨some ⟨256, 256, false, 0, 0⟩ ::
          List.replicate 15 none, 1⟩, []⟩
    0 ⟨true, true, some false, true, true⟩ false 4096 220
    ⟨256, 256, false, 220, 8⟩
    ⟨List.replicate 16 none, 0⟩
    ⟨[.alloc 240 false, .put 0 0], rfl⟩ rfl

end Ipc

end OsfMach
