import Mathlib.Data.BitVec
import OsfMach.Ipc.KmsgGet

/-
  Real-time message buffers, from `ipc/ipc_kmsg.c`,
  `ipc/ipc_kmsg.h`, `ipc/ipc_notify.c`, `kern/ipc_kobject.c`
  and `mach/message.h`, with `MACH_RT`.

  Which allocator a buffer came from is a bit of its header,
  and so is what the sender wrote there. A buffer knows where
  it really came from, and the pool keeps where each buffer
  was given back.

  Main declarations:
    * `RtKmsg`, `RtPool`, `HeaderRewrite`
    * `RtPool.ikmFree`, `rtStep`
    * `HeaderRewrite.word_rtalloc`
-/

------
-- Header Bits
------

namespace OsfMach

namespace Ipc

def machMsghBitsRemoteMask : BitVec 32 := 0x000000ff
def machMsghBitsLocalMask : BitVec 32 := 0x0000ff00
def machMsghBitsPortsMask : BitVec 32 :=
  machMsghBitsRemoteMask ||| machMsghBitsLocalMask

def machMsghBitsComplex : BitVec 32 := 0x80000000
def machMsghBitsCircular : BitVec 32 := 0x40000000
def machMsghBitsRtalloc : BitVec 32 := 0x20000000

def machMsghBits (remote loc : Nat) : BitVec 32 :=
  BitVec.ofNat 32 remote ||| (BitVec.ofNat 32 loc <<< 8)

def machMsghBitsRemote (bits : BitVec 32) : Nat :=
  (bits &&& machMsghBitsRemoteMask).toNat

def machMsghBitsLocal (bits : BitVec 32) : Nat :=
  ((bits &&& machMsghBitsLocalMask) >>> 8).toNat

def machMsghBitsOther (bits : BitVec 32) : BitVec 32 :=
  bits &&& ~~~machMsghBitsPortsMask

/- Whether `MACH_MSGH_BITS_RTALLOC` is set. -/
def hasRtalloc (bits : BitVec 32) : Bool :=
  bits &&& machMsghBitsRtalloc != 0

/- Set a flag, or leave it as it is. -/
def setIf
    (set : Bool)
    (flag bits : BitVec 32) : BitVec 32 :=
  if set then bits ||| flag else bits

------
-- What Rewrites the Bits
------

/- The places where the bits of a message are rewritten. -/
inductive HeaderRewrite where
-- `ipc_kmsg_copyin_header`
| copyinHeader
-- `ipc_kmsg_copyin_body`
| copyinBody (circular complex : Bool)
-- `ipc_kmsg_copyin_from_kernel`
| copyinFromKernel (circular : Bool)
-- `mach_msg_rpc_from_kernel`
| rpcFromKernel
-- `ipc_kmsg_copyout_header`, `ipc_kmsg_copyout_dest` and
-- `ipc_kmsg_copyout_to_kernel`
| copyout
-- `ipc_kmsg_copyout_pseudo`
| copyoutPseudo
deriving DecidableEq, Repr

/- The types of the rights as they are in the message. -/
def copyinTypes
    (bits types : BitVec 32) : Option (BitVec 32) :=
  match ipcObjectCopyinType (machMsghBitsRemote types),
      ipcObjectCopyinType (machMsghBitsLocal types) with
  | .ok remote, .ok loc =>
      some (machMsghBitsOther bits ||| machMsghBits remote loc)
  | _, _ => none

/-
  The bits afterwards. A type that is no type of a right is
  an error, and the message is not rewritten.
-/
def HeaderRewrite.word
    (bits : BitVec 32) : HeaderRewrite → Option (BitVec 32)
| copyinHeader =>
    let mbits := bits &&& ~~~machMsghBitsCircular
    copyinTypes mbits mbits
| copyinBody circular complex =>
    let bits := setIf circular machMsghBitsCircular bits
    some (if complex then bits
      else bits &&& ~~~machMsghBitsComplex)
| copyinFromKernel circular =>
    let isComplex := bits &&& machMsghBitsComplex != 0
    let circular := circular && isComplex
    if bits = machMsghBitsComplex |||
        machMsghBits machMsgTypeCopySend 0 then
      some (setIf circular machMsghBitsCircular
        (machMsghBitsComplex |||
          machMsghBits machMsgTypePortSend 0))
    else
      (copyinTypes bits bits).map
        (setIf circular machMsghBitsCircular)
| rpcFromKernel =>
    some (bits ||| machMsghBits 0 machMsgTypeMakeSendOnce)
| copyout =>
    -- the reply port comes first in what is received
    some (machMsghBitsOther bits |||
      machMsghBits (machMsghBitsLocal bits)
        (machMsghBitsRemote bits))
| copyoutPseudo => some (bits &&& ~~~machMsghBitsCircular)

------
-- What Keeps the Bit
------

theorem hasRtalloc_eq (bits : BitVec 32) :
    hasRtalloc bits = bits.getLsbD 29 := by
  have hTwo : machMsghBitsRtalloc = BitVec.twoPow 32 29 := by
    decide
  unfold hasRtalloc
  rw [hTwo, BitVec.and_twoPow]
  cases bits.getLsbD 29 <;> decide

theorem hasRtalloc_or (bits flag : BitVec 32) :
    hasRtalloc (bits ||| flag) =
      (hasRtalloc bits || hasRtalloc flag) := by
  simp [hasRtalloc_eq]

/- Clearing other flags. -/
theorem hasRtalloc_clear
    {bits flag : BitVec 32}
    (hFlag : hasRtalloc flag = false) :
    hasRtalloc (bits &&& ~~~flag) = hasRtalloc bits := by
  rw [hasRtalloc_eq] at hFlag
  rw [hasRtalloc_eq, hasRtalloc_eq, BitVec.getLsbD_and,
    BitVec.getLsbD_not, hFlag]
  simp

/- Setting other flags. -/
theorem hasRtalloc_setIf
    {set : Bool}
    {bits flag : BitVec 32}
    (hFlag : hasRtalloc flag = false) :
    hasRtalloc (setIf set flag bits) = hasRtalloc bits := by
  unfold setIf
  split_ifs
  · rw [hasRtalloc_or, hFlag, Bool.or_false]
  · rfl

theorem hasRtalloc_other (bits : BitVec 32) :
    hasRtalloc (machMsghBitsOther bits) = hasRtalloc bits :=
  hasRtalloc_clear (by decide)

/- The types of rights are far below the bit. -/
theorem hasRtalloc_types
    {remote loc : Nat}
    (hRemote : remote < 256)
    (hLocal : loc < 256) :
    hasRtalloc (machMsghBits remote loc) = false := by
  have hBit (n i : Nat)
      (h : n < 256)
      (hLess : 8 ≤ i) : n.testBit i = false := by
    apply Nat.testBit_lt_two_pow
    have hPow : 2 ^ 8 ≤ 2 ^ i :=
      Nat.pow_le_pow_right (by decide) hLess
    omega
  rw [hasRtalloc_eq]
  unfold machMsghBits
  rw [BitVec.getLsbD_or, BitVec.getLsbD_shiftLeft,
    BitVec.getLsbD_ofNat, BitVec.getLsbD_ofNat,
    hBit remote 29 hRemote (by decide),
    hBit loc (29 - 8) hLocal (by decide)]
  rfl

theorem machMsghBitsRemote_lt (bits : BitVec 32) :
    machMsghBitsRemote bits < 256 := by
  have hLess : (bits &&& machMsghBitsRemoteMask).toNat ≤
      255 := by
    exact Nat.and_le_right
  unfold machMsghBitsRemote
  omega

theorem machMsghBitsLocal_lt (bits : BitVec 32) :
    machMsghBitsLocal bits < 256 := by
  have hLess : (bits &&& machMsghBitsLocalMask).toNat ≤
      0xff00 := by
    exact Nat.and_le_right
  unfold machMsghBitsLocal
  rw [BitVec.toNat_ushiftRight, Nat.shiftRight_eq_div_pow]
  omega

theorem ipcObjectCopyinType_lt
    {msgtName type : Nat}
    (h : ipcObjectCopyinType msgtName = .ok type) :
    type < 256 := by
  unfold ipcObjectCopyinType at h
  split at h
  all_goals first
    | cases h; decide
    | cases h

theorem copyinTypes_rtalloc
    {bits types after : BitVec 32}
    (h : copyinTypes bits types = some after) :
    hasRtalloc after = hasRtalloc bits := by
  unfold copyinTypes at h
  split at h
  case h_1 remote loc hRemote hLocal =>
    cases h
    rw [hasRtalloc_or, hasRtalloc_other,
      hasRtalloc_types (ipcObjectCopyinType_lt hRemote)
        (ipcObjectCopyinType_lt hLocal),
      Bool.or_false]
  case h_2 => cases h

/- No rewriting changes whose the buffer is. -/
theorem HeaderRewrite.word_rtalloc
    {r : HeaderRewrite}
    {bits after : BitVec 32}
    (h : r.word bits = some after) :
    hasRtalloc after = hasRtalloc bits := by
  have hCircular : hasRtalloc machMsghBitsCircular = false := by
    decide
  cases r with
  | copyinHeader =>
      rw [copyinTypes_rtalloc h, hasRtalloc_clear hCircular]
  | copyinBody circular complex =>
      cases h
      cases complex with
      | true => exact hasRtalloc_setIf hCircular
      | false =>
          rw [if_neg (by decide), hasRtalloc_clear (by decide),
            hasRtalloc_setIf hCircular]
  | copyinFromKernel circular =>
      simp only [word] at h
      split at h
      case isTrue hSame =>
        -- the words on both sides are known
        cases h
        rw [hasRtalloc_setIf hCircular, hSame]
        decide
      case isFalse =>
        rcases Option.map_eq_some_iff.mp h with
          ⟨typed, hTyped, hAfter⟩
        rw [← hAfter, hasRtalloc_setIf hCircular,
          copyinTypes_rtalloc hTyped]
  | rpcFromKernel =>
      cases h
      rw [hasRtalloc_or,
        hasRtalloc_types (by decide) (by decide),
        Bool.or_false]
  | copyout =>
      cases h
      rw [hasRtalloc_or, hasRtalloc_other,
        hasRtalloc_types (machMsghBitsLocal_lt bits)
          (machMsghBitsRemote_lt bits),
        Bool.or_false]
  | copyoutPseudo =>
      cases h
      exact hasRtalloc_clear hCircular

------
-- Buffers
------

/- Where the memory of a buffer is from. -/
inductive KmsgSource where
| kalloc
| rtalloc
| network
deriving DecidableEq, Repr

structure RtKmsg where
  -- where it was obtained, which nothing in the code says
  source : KmsgSource
  ikmSize : Nat
  msghBits : BitVec 32
deriving DecidableEq, Repr

namespace RtKmsg

/- `KMSG_IS_RT`. -/
def isRt (kmsg : RtKmsg) : Bool :=
  hasRtalloc kmsg.msghBits

/- `KMSG_MARK_RT`, for a real-time port. -/
def markRt (rt : Bool) (kmsg : RtKmsg) : RtKmsg :=
  { kmsg with
    msghBits := setIf rt machMsghBitsRtalloc kmsg.msghBits }

/- Which of `rtfree` and `kfree` is called. -/
def allocator (kmsg : RtKmsg) : KmsgSource :=
  if kmsg.isRt then .rtalloc else .kalloc

end RtKmsg

/-
  `ikm_rtalloc` or `ikm_alloc`, and `ikm_init`, with the bits
  that are written in the header.
-/
def rtAlloc
    (rt : Bool)
    (size : Nat)
    (bits : BitVec 32) : RtKmsg :=
  ⟨if rt then .rtalloc else .kalloc, ikmPlusOverhead size,
    bits⟩

------
-- The Pool
------

/-
  The caches of the processors, in which it does not matter
  here which slot a buffer is in, the messages that are in
  use or in a queue, and the buffers that were given back,
  with whom they were given to.
-/
structure RtPool where
  caches : Nat → List RtKmsg
  live : List RtKmsg
  freed : List (RtKmsg × KmsgSource)

namespace RtPool

def init : RtPool :=
  ⟨fun _ => [], [], []⟩

/- A buffer is given back. -/
def give
    (kmsg : RtKmsg)
    (taker : KmsgSource)
    (p : RtPool) : RtPool :=
  { p with freed := (kmsg, taker) :: p.freed }

/- A message is in use from here on. -/
def use (kmsg : RtKmsg) (p : RtPool) : RtPool :=
  { p with live := kmsg :: p.live }

/- `ikm_cache_get`. -/
def cacheGet
    (cpu : Nat)
    (p : RtPool) : Option (RtKmsg × RtPool) :=
  match p.caches cpu with
  | [] => none
  | kmsg :: rest =>
      some (kmsg,
        { p with caches := Function.update p.caches cpu rest })

section

variable (cpu : Nat) (kmsg : RtKmsg)

/- `ikm_cache_put`. -/
def cachePut
    (p : RtPool) : Option RtPool :=
  if (p.caches cpu).length < ikmStash then
    some { p with
      caches := Function.update p.caches cpu
        (kmsg :: p.caches cpu) }
  else none

/- `ipc_kmsg_free`. -/
def ipcKmsgFree
    (p : RtPool) : RtPool :=
  if kmsg.ikmSize = ikmSizeNetwork then
    -- `net_kmsg_put`
    p.give kmsg .network
  else if kmsg.ikmSize ≠ ikmSavedKmsgSize ∨ kmsg.isRt then
    p.give kmsg kmsg.allocator
  else
    (p.cachePut cpu kmsg).getD (p.give kmsg kmsg.allocator)

/- `ikm_free`. The size is signed there. -/
def ikmFree
    (p : RtPool) : RtPool :=
  if 0 < kmsg.ikmSize ∧ kmsg.ikmSize < 2 ^ 31 then
    p.give kmsg kmsg.allocator
  else p.ipcKmsgFree cpu kmsg

/- `ipc_kmsg_put`, after the copy to the user. -/
def ipcKmsgPut
    (p : RtPool) : RtPool :=
  if kmsg.ikmSize ≠ ikmSavedKmsgSize ∨ kmsg.isRt then
    p.ikmFree cpu kmsg
  else (p.cachePut cpu kmsg).getD (p.ikmFree cpu kmsg)

end

end RtPool

------
-- Messages From Users
------

/-
  What `ipc_kmsg_get` finds: whether the memory of the user
  can be read, the space is active, whether the name has a
  port and that is a real-time port, whether there is memory,
  and the bits in the buffer after `copyinmsg`, which are the
  user's when it succeeds.
-/
structure RtGetAnswers where
  nameReadable : Bool
  isActive : Bool
  destRt : Option Bool
  granted : Bool
  dataReadable : Bool
  bits : BitVec 32
deriving DecidableEq, Repr

namespace RtPool

/- Where `ipc_kmsg_get` takes its buffer from. -/
def getBuffer
    (cpu : Nat)
    (rt granted : Bool)
    (size : Nat)
    (p : RtPool) : Option (RtKmsg × RtPool) :=
  let allocate (size : Nat) :=
    if granted then some (rtAlloc rt size 0, p) else none
  if size ≤ ikmSavedMsgSize then
    if rt then allocate ikmSavedMsgSize
    else
      match p.cacheGet cpu with
      | some found => some found
      | none => allocate ikmSavedMsgSize
  else allocate size

/- The buffer of a message of a user, if it gets one. -/
def getsBuffer
    (cpu : Nat)
    (ans : RtGetAnswers)
    (size : Nat)
    (p : RtPool) : Option (Bool × RtKmsg × RtPool) :=
  if size < sizeofMsgHeader ∨ size % 4 ≠ 0 then none
  else if !ans.nameReadable then none
  else if !ans.isActive then none
  else
    match ans.destRt with
    | none => none
    | some rt =>
        (p.getBuffer cpu rt ans.granted
          (addSize size maxTrailerSize)).map fun found =>
            (rt, found.1, found.2)

/- `ipc_kmsg_get`. -/
def ipcKmsgGet
    (cpu : Nat)
    (ans : RtGetAnswers)
    (size : Nat)
    (p : RtPool) : RtPool :=
  match p.getsBuffer cpu ans size with
  | none => p
  | some (rt, kmsg, p) =>
      let kmsg :=
        ({ kmsg with msghBits := ans.bits }).markRt rt
      if ans.dataReadable then p.use kmsg
      else p.ikmFree cpu kmsg

------
-- Messages From the Kernel
------

/- At least the size that is cached. -/
def roundedSize (size : Nat) : Nat :=
  if addSize size maxTrailerSize < ikmSavedMsgSize then
    ikmSavedMsgSize
  else addSize size maxTrailerSize

/- `ipc_kmsg_get_from_kernel`. -/
def ipcKmsgGetFromKernel
    (rt granted : Bool)
    (size : Nat)
    (bits : BitVec 32)
    (p : RtPool) : Option RtPool :=
  -- what is asserted
  if size < sizeofMsgHeader ∨ size % 4 ≠ 0 then none
  else if granted then
    some (p.use ((rtAlloc rt (roundedSize size) bits).markRt
      rt))
  else some p

end RtPool

/- The notifications, each with a template. -/
inductive Notification where
| portDeleted
| portDestroyed
| noSenders
| sendOnce
| deadName
deriving DecidableEq, Repr

namespace Notification

/- The size of the structure, with its trailer. -/
def size : Notification → Nat
| portDeleted => 56
| portDestroyed => 60
| noSenders => 56
| sendOnce => 44
| deadName => 56

/- `ipc_notify_init_port_deleted` and so on. -/
def bits : Notification → BitVec 32
| portDestroyed =>
    machMsghBitsComplex |||
      machMsghBits machMsgTypePortSendOnce 0
| _ => machMsghBits machMsgTypePortSendOnce 0

end Notification

/- `ipc_notify_port_deleted` and so on. -/
def RtPool.ipcNotify
    (n : Notification)
    (rt granted : Bool)
    (p : RtPool) : RtPool :=
  if granted then
    p.use ((rtAlloc rt n.size n.bits).markRt rt)
  else p

/- `net_package_inline`, in a buffer of the network. -/
def RtPool.netPackageInline (p : RtPool) : RtPool :=
  p.use ⟨.network, ikmSizeNetwork,
    machMsghBits machMsgTypePortSend 0⟩

------
-- The Server of the Kernel
------

/- How the routine that is called ends. -/
inductive KobjectOutcome where
| success
| noReply
| failure
deriving DecidableEq, Repr

/-
  What `ipc_kobject_server` finds: whether the reply port is
  a real-time port, whether there is memory, the size of the
  reply, which flags the routine sets in the reply, how it
  ends, and whether the reply port is valid then.
-/
structure KobjectAnswers where
  replyRt : Bool
  granted : Bool
  replySize : Nat
  complex : Bool
  circular : Bool
  outcome : KobjectOutcome
  replyValid : Bool
deriving DecidableEq, Repr

/- The reply after the routine. -/
def kobjectReply
    (request : RtKmsg)
    (ans : KobjectAnswers) : RtKmsg :=
  let reply := (rtAlloc ans.replyRt
    (RtPool.roundedSize ans.replySize)
    (machMsghBits (machMsghBitsLocal request.msghBits)
      0)).markRt ans.replyRt
  { reply with
    msghBits := setIf ans.circular machMsghBitsCircular
      (setIf ans.complex machMsghBitsComplex
        reply.msghBits) }

namespace RtPool

/-
  The request after a success: `ipc_kmsg_put` without the
  copy, and without `KMSG_IS_RT`.
-/
def kobjectPut
    (cpu : Nat)
    (request : RtKmsg)
    (p : RtPool) : RtPool :=
  if request.ikmSize ≠ ikmSavedKmsgSize then
    p.ikmFree cpu request
  else (p.cachePut cpu request).getD (p.ikmFree cpu request)

/- What becomes of the request when the routine returned. -/
def kobjectRequest
    (cpu : Nat)
    (request : RtKmsg)
    (outcome : KobjectOutcome)
    (p : RtPool) : RtPool :=
  match outcome with
  | .success | .noReply => p.kobjectPut cpu request
  | .failure => p.ikmFree cpu request

/- `ipc_kobject_server`. -/
def ipcKobjectServer
    (cpu : Nat)
    (request : RtKmsg)
    (ans : KobjectAnswers)
    (p : RtPool) : RtPool :=
  if ans.granted then
    let p := p.kobjectRequest cpu request ans.outcome
    if ans.outcome = .noReply ∨ !ans.replyValid then
      p.ikmFree cpu (kobjectReply request ans)
    else p.use (kobjectReply request ans)
  else p.ikmFree cpu request

end RtPool

------
-- Steps
------

inductive RtAction where
| get (cpu : Nat) (ans : RtGetAnswers) (size : Nat)
| getFromKernel (rt granted : Bool) (size : Nat)
    (bits : BitVec 32)
| notify (n : Notification) (rt granted : Bool)
| network
-- the bits of a message are rewritten
| rewrite (i : Nat) (r : HeaderRewrite)
-- a message goes to the kernel
| kobject (cpu i : Nat) (ans : KobjectAnswers)
-- a message was received, or sent back
| put (cpu i : Nat)
-- a message is discarded, or received by the kernel
| free (cpu i : Nat)

/- A message is no longer in use. -/
def RtPool.without (i : Nat) (p : RtPool) : RtPool :=
  { p with live := p.live.eraseIdx i }

def rtStep (p : RtPool) : RtAction → Option RtPool
| .get cpu ans size => some (p.ipcKmsgGet cpu ans size)
| .getFromKernel rt granted size bits =>
    p.ipcKmsgGetFromKernel rt granted size bits
| .notify n rt granted => some (p.ipcNotify n rt granted)
| .network => some p.netPackageInline
| .rewrite i r =>
    p.live[i]?.bind fun kmsg =>
      (r.word kmsg.msghBits).map fun bits =>
        { p with
          live := p.live.set i { kmsg with msghBits := bits } }
| .kobject cpu i ans =>
    p.live[i]?.bind fun request =>
      -- the structures of the replies have whole words
      if ans.replySize % 4 = 0 then
        some ((p.without i).ipcKobjectServer cpu request ans)
      else none
| .put cpu i =>
    p.live[i]?.map fun kmsg =>
      (p.without i).ipcKmsgPut cpu kmsg
| .free cpu i =>
    p.live[i]?.map fun kmsg =>
      (p.without i).ikmFree cpu kmsg

end Ipc

end OsfMach
