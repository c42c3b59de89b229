import OsfMach.Ipc.Receive

/-
  What receiving a message reads of the scatter list, and
  what it writes to the user.

  Main declarations:
    * `ScatterAccepts`, `ReceiveFits`, `BufferRoom`
    * `ScatterSafe`, `ScatterAgrees`
    * `finishReceiveCheck_ok_iff`
    * `receive_fits_iff`
    * `receive_scatter_safe_iff`
    * `receive_scatter_agrees_iff`
-/

------
-- The Check
------

namespace OsfMach

namespace Ipc

open Lib
open Lib.Checked

variable {kmsg : QueuedKmsg} {slist : Option ScatterBlock}

/- The check of the scatter list, if there is one, passes. -/
def ScatterAccepts
    (kmsg : QueuedKmsg) : Option ScatterBlock → Prop
| none => True
| some l => ScatterFits l.count kmsg.body l.list

section Finish

variable {table : TrailerTable} {option maxSize : Nat}
variable {kmsg : QueuedKmsg}

theorem finishReceiveCheck_refuses
    (slist : Option ScatterBlock)
    (l : ScatterLog)
    (hSize : ¬ kmsg.msghSize ≤
      subSize maxSize (requestedTrailerSize table option)) :
    finishReceiveCheck table option maxSize kmsg slist l =
      (.error .tooLarge, l) := by
  unfold finishReceiveCheck
  rw [bind_stop (require_stop hSize)]

theorem finishReceiveCheck_some
    (b : ScatterBlock)
    (l : ScatterLog)
    (hSize : kmsg.msghSize ≤
      subSize maxSize (requestedTrailerSize table option)) :
    ∃ r reads paired,
      finishReceiveCheck table option maxSize kmsg (some b) l =
        (r, ⟨l.read ++ reads, l.paired ++ paired⟩) ∧
      ReadsOf b.list reads ∧
      (r = .ok () ↔ ScatterFits b.count kmsg.body b.list) ∧
      (r = .ok () →
        paired = scatterPairs kmsg.body b.list) := by
  rcases checkScatter_spec b.count kmsg.body b.list l with
    ⟨r, reads, paired, hRun, hReads, hOk, hPairs⟩
  have hTry : attempt
      (ipcKmsgCheckScatter b.count kmsg.body b.list) l =
        (.ok r, ⟨l.read ++ reads, l.paired ++ paired⟩) :=
    attempt_run (β := FinishError) hRun
  unfold finishReceiveCheck
  rw [bind_run (require_run hSize)]
  dsimp only
  rw [bind_run hTry]
  cases r with
  | ok u =>
      refine ⟨.ok (), reads, paired, rfl, hReads, ?_, ?_⟩
      · exact ⟨fun _ => hOk.mp rfl, fun _ => rfl⟩
      · exact fun _ => hPairs rfl
  | error e =>
      refine ⟨.error (.scatter e), reads, paired, rfl, hReads,
        ?_, fun hEq => by cases hEq⟩
      refine iff_of_false (fun hEq => by cases hEq)
        fun hFits => ?_
      cases hOk.mpr hFits

/- A message is accepted if both checks pass. -/
theorem finishReceiveCheck_ok_iff
    (slist : Option ScatterBlock)
    (l : ScatterLog) :
    (finishReceiveCheck table option maxSize kmsg slist l).1 =
        .ok () ↔
      kmsg.msghSize ≤ subSize maxSize
          (requestedTrailerSize table option) ∧
        ScatterAccepts kmsg slist := by
  by_cases hSize : kmsg.msghSize ≤
      subSize maxSize (requestedTrailerSize table option)
  · rw [and_iff_right hSize]
    cases slist with
    | none =>
        unfold finishReceiveCheck
        rw [bind_run (require_run hSize)]
        exact iff_of_true rfl trivial
    | some b =>
        rcases finishReceiveCheck_some b l hSize with
          ⟨r, reads, paired, hRun, _, hOk, _⟩
        rw [hRun]
        exact hOk
  · rw [finishReceiveCheck_refuses slist l hSize]
    exact iff_of_false (fun hEq => by cases hEq)
      fun hBoth => hSize hBoth.1

end Finish

------
-- Bytes for the User
------

theorem requestedTrailerSize_lt
    (table : TrailerTable)
    (option : Nat) :
    requestedTrailerSize table option < 2 ^ 32 := by
  unfold requestedTrailerSize
  split
  · decide
  · decide
  · decide
  · exact table.lt _

/- Without bits of the mask nothing is asked for. -/
theorem getRcvElements_of_mask
    {option : Nat}
    (h : option &&& machRcvTrailerMask = 0) :
    getRcvElements option = 0 := by
  have hShift : (option &&& machRcvTrailerMask) >>> 24 =
      option >>> 24 &&& 255 :=
    Nat.shiftRight_and_distrib
  have hByte : option >>> 24 &&& 255 = option / 2 ^ 24 % 2 ^ 8 :=
    by
    rw [Nat.shiftRight_eq_div_pow]
    exact Nat.and_two_pow_sub_one_eq_mod _ 8
  unfold getRcvElements
  omega

theorem trailerOf_minimum
    (env : ReceiveAnswers)
    (option : Nat) :
    trailerOf env option machMsgTrailerMinimumSize =
      requestedTrailerSize env.trailers option := by
  unfold trailerOf
  by_cases hMask : option &&& machRcvTrailerMask ≠ 0
  · rw [if_pos hMask]
  · rw [if_neg hMask]
    unfold requestedTrailerSize
    rw [getRcvElements_of_mask (not_not.mp hMask)]
    rfl

/- The bits that are passed on ask for no trailer. -/
theorem requestedTrailerSize_timeout
    (table : TrailerTable)
    (option : Nat) :
    requestedTrailerSize table (option &&& machRcvTimeout) =
      machMsgTrailerMinimumSize := by
  have hLe : option &&& machRcvTimeout ≤ machRcvTimeout :=
    Nat.and_le_right
  have hNone : getRcvElements (option &&& machRcvTimeout) = 0 :=
    by
    unfold getRcvElements
    unfold machRcvTimeout at hLe ⊢
    omega
  unfold requestedTrailerSize
  rw [hNone]
  rfl

theorem addSize_le
    (x y : Nat) :
    addSize x y ≤ x + y :=
  Nat.mod_le _ _

/- The bytes that are copied out, of a message or an error. -/
theorem ipcKmsgPut_put
    (env : ReceiveAnswers)
    {size bound : Nat}
    (h : size ≤ bound) :
    Appends Receiving.put (fun n => n ≤ bound)
      (ipcKmsgPut env size) := by
  refine Appends.bind (fun r => ⟨[size], rfl, fun n hIn => ?_⟩)
    fun _ => appends_pure
  rw [List.mem_singleton.mp hIn]
  exact h

theorem keeps_onReceiver
    {α γ : Type}
    {get : Receiving → γ}
    {x : CopyoutProg α}
    (h : ∀ r c, get { r with receiver := c } = get r) :
    Keeps get (onReceiver x) :=
  keeps_onPart h

/- Something that only the calling function has to do with. -/
structure Outside
    {γ : Type}
    (get : Receiving → γ) : Prop where
  receiver : ∀ r c, get { r with receiver := c } = get r

namespace Outside

variable {γ : Type} {get : Receiving → γ} {cfg : KmsgConfig}
variable {env : ReceiveAnswers} {kmsg : QueuedKmsg}
variable {slist : Option ScatterBlock}

theorem destroyBody
    (h : Outside get) :
    Keeps get (destroyBody cfg env kmsg) := by
  exact keeps_ite (keeps_onReceiver h.receiver) keeps_pure

theorem copyoutReceived
    (h : Outside get)
    (option notify : Nat) :
    Keeps get
      (copyoutReceived cfg env option notify kmsg slist) := by
  apply keeps_ite keeps_pure
  apply keeps_ite keeps_pure
  apply keeps_ite ?_ keeps_pure
  exact (keeps_onReceiver h.receiver).bind fun _ => keeps_pure

end Outside

theorem outside_put : Outside Receiving.put :=
  ⟨fun _ _ => rfl⟩

section Put

variable {cfg : KmsgConfig} {env : ReceiveAnswers}
variable {kmsg : QueuedKmsg} {slist : Option ScatterBlock}

theorem msgReceiveError_put
    (option : Nat) :
    Appends Receiving.put
      (fun n => n ≤ kmsg.msghSize +
        requestedTrailerSize env.trailers option)
      (msgReceiveError cfg env option kmsg) := by
  refine outside_put.destroyBody.appends.bind fun _ =>
    ipcKmsgPut_put env ?_
  rw [trailerOf_minimum]
  have hHeader := kmsg.header_le
  exact (addSize_le _ _).trans (by omega)

theorem finishAccepted_put
    (option notify : Nat) :
    Appends Receiving.put
      (fun n => n ≤ kmsg.msghSize +
        requestedTrailerSize env.trailers option)
      (finishAccepted cfg env option notify kmsg slist) := by
  have hPut : Appends Receiving.put
      (fun n => n ≤ kmsg.msghSize +
        requestedTrailerSize env.trailers option)
      (ipcKmsgPut env (addSize kmsg.msghSize
        (trailerOf env option kmsg.msghTrailerSize))) := by
    rw [kmsg.trailer, trailerOf_minimum]
    exact ipcKmsgPut_put env (addSize_le _ _)
  refine (outside_put.copyoutReceived option
    notify).appends.bind fun mr => ?_
  cases mr with
  | success | bodyError bits => exact hPut.bind fun _ => appends_pure
  | _ =>
      exact (msgReceiveError_put option).bind fun _ =>
        appends_pure

end Put

------
-- The Receive Buffer
------

/- The list that a call with these options takes. -/
def ReceiveAnswers.listFor
    (env : ReceiveAnswers)
    (option slistSize : Nat) : Option ScatterBlock :=
  if option &&& machRcvOverwrite ≠ 0 then
    some (env.slist slistSize)
  else none

/- `ipc_mqueue_finish_receive` accepts the message. -/
def Accepts
    (env : ReceiveAnswers)
    (option maxSize : Nat)
    (kmsg : QueuedKmsg)
    (slist : Option ScatterBlock) : Prop :=
  (finishReceiveCheck env.trailers option maxSize kmsg slist
    ScatterLog.init).1 = .ok ()

section Receive

variable {cfg : KmsgConfig} {env : ReceiveAnswers}
variable {kmsg : QueuedKmsg} {slist : Option ScatterBlock}
variable {option rcvSize : Nat}

theorem freeScatterList_put
    (slist : Option ScatterBlock) :
    Keeps Receiving.put (freeScatterList slist) := by
  cases slist with
  | none => exact keeps_pure
  | some l => exact keeps_change fun _ => rfl

theorem allocateBlock_put
    (b : Block) :
    Keeps Receiving.put (allocateBlock b) :=
  keeps_change fun _ => rfl

section

variable (hKmsg : env.kmsg = some kmsg)
include hKmsg

/- Once a message is accepted the bytes are its own. -/
theorem receiveWith_put
    (hOk : Accepts env (option &&& machRcvTimeout) rcvSize kmsg
      slist)
    (notify : Nat) :
    Appends Receiving.put
      (fun n => n ≤ kmsg.msghSize +
        requestedTrailerSize env.trailers option)
      (receiveWith cfg env option rcvSize notify slist) := by
  have hChecked : Returns (fun c => c = .ok ())
      (onChecked (attempt (finishReceiveCheck env.trailers
        (option &&& machRcvTimeout) rcvSize kmsg slist))) := by
    intro r c t hRun
    injection hRun with hResult
    injection hResult with hEq
    rw [← hEq]
    exact (finishReceiveCheck_ok_iff slist r.checked).mpr
      ((finishReceiveCheck_ok_iff slist _).mp hOk)
  have hFree : Appends Receiving.put
      (fun n => n ≤ kmsg.msghSize +
        requestedTrailerSize env.trailers option)
      (freeScatterList slist) :=
    (freeScatterList_put slist).appends
  have hKept : Keeps Receiving.put
      (onChecked (attempt (finishReceiveCheck env.trailers
        (option &&& machRcvTimeout) rcvSize kmsg slist))) :=
    keeps_onPart fun _ _ => rfl
  unfold receiveWith receiveQueued
  rw [hKmsg]
  refine Appends.bind ?_ fun mr =>
    hFree.bind fun _ => appends_pure
  refine hKept.appends.bind_returns hChecked fun c hc => ?_
  rw [hc]
  exact finishAccepted_put option notify

theorem receiveOverwrite_put
    (slistSize : Nat)
    (hOk : Accepts env (option &&& machRcvTimeout) rcvSize kmsg
      (some (env.slist slistSize)))
    (notify : Nat) :
    Appends Receiving.put
      (fun n => n ≤ kmsg.msghSize +
        requestedTrailerSize env.trailers option)
      (receiveOverwrite cfg env option rcvSize notify
        slistSize) := by
  apply appends_ite appends_pure
  apply appends_ite appends_pure
  apply (allocateBlock_put _).appends.bind
  intro _
  apply appends_ite appends_pure
  apply appends_ite
  · exact (freeScatterList_put _).appends.bind fun _ =>
      appends_pure
  · exact receiveWith_put hKmsg hOk notify

theorem machMsgReceive_put
    (slistSize : Nat)
    (hOk : Accepts env (option &&& machRcvTimeout) rcvSize kmsg
      (env.listFor option slistSize))
    (notify : Nat) :
    Appends Receiving.put
      (fun n => n ≤ kmsg.msghSize +
        requestedTrailerSize env.trailers option)
      (machMsgReceive cfg env option rcvSize notify
        slistSize) := by
  apply appends_ite appends_pure
  unfold ReceiveAnswers.listFor at hOk
  by_cases hOption : option &&& machRcvOverwrite ≠ 0
  · rw [if_pos hOption] at hOk ⊢
    exact receiveOverwrite_put hKmsg slistSize hOk notify
  · rw [if_neg hOption] at hOk ⊢
    exact receiveWith_put hKmsg hOk notify

end

end Receive

/-
  A message that is accepted leaves room for the trailer that
  was asked for, and so the bytes copied out stay within the
  buffer; for the options as they are and as they are passed
  on. Nothing is said of a message that is refused, whose
  header `msg_receive_error` copies out.
-/
structure ReceiveFits
    (cfg : KmsgConfig)
    (env : ReceiveAnswers)
    (option rcvSize notify slistSize : Nat)
    (kmsg : QueuedKmsg)
    (message : Sender) : Prop where
  finish :
    Accepts env option rcvSize kmsg
        (env.listFor option slistSize) →
      kmsg.msghSize +
        requestedTrailerSize env.trailers option ≤ rcvSize
  receive :
    Accepts env (option &&& machRcvTimeout) rcvSize kmsg
        (env.listFor option slistSize) →
      kmsg.msghSize +
          requestedTrailerSize env.trailers option ≤ rcvSize ∧
        ∀ n, n ∈ (machMsgReceive cfg env option rcvSize notify
          slistSize (Receiving.start message)).2.put →
            n ≤ rcvSize

/-
  The buffer has room for either trailer, or the message is
  too large even for what the difference wraps to; and the
  message does not fit just with the smaller trailer.
-/
structure BufferRoom
    (size trailer maxSize : Nat) : Prop where
  request : trailer ≤ maxSize ∨ 2 ^ 32 + maxSize < size + trailer
  minimum :
    machMsgTrailerMinimumSize ≤ maxSize ∨
      2 ^ 32 + maxSize < size + machMsgTrailerMinimumSize
  apart :
    size + machMsgTrailerMinimumSize ≤ maxSize →
      size + trailer ≤ maxSize

/- What the comparison of the sizes means. -/
theorem le_subSize_iff
    {size trailer maxSize : Nat}
    (hTrailer : trailer < 2 ^ 32)
    (hMax : maxSize < 2 ^ 32) :
    size ≤ subSize maxSize trailer ↔
      trailer ≤ maxSize ∧ size + trailer ≤ maxSize ∨
        maxSize < trailer ∧
          size + trailer ≤ 2 ^ 32 + maxSize := by
  unfold subSize
  omega

theorem receive_fits_iff
    (cfg : KmsgConfig)
    (env : ReceiveAnswers)
    (option rcvSize notify slistSize : Nat)
    (kmsg : QueuedKmsg)
    (message : Sender)
    (hKmsg : env.kmsg = some kmsg)
    (hMax : rcvSize < 2 ^ 32) :
    ReceiveFits cfg env option rcvSize notify slistSize kmsg
        message ↔
      (ScatterAccepts kmsg (env.listFor option slistSize) →
        BufferRoom kmsg.msghSize
          (requestedTrailerSize env.trailers option)
          rcvSize) := by
  have hHeader := kmsg.header_le
  have hTrailer :=
    requestedTrailerSize_lt env.trailers option
  have hFinish : Accepts env option rcvSize kmsg
      (env.listFor option slistSize) ↔ _ :=
    finishReceiveCheck_ok_iff _ _
  have hReceive : Accepts env (option &&& machRcvTimeout)
      rcvSize kmsg (env.listFor option slistSize) ↔ _ :=
    finishReceiveCheck_ok_iff _ _
  rw [le_subSize_iff hTrailer hMax] at hFinish
  rw [requestedTrailerSize_timeout, le_subSize_iff (by decide)
    hMax] at hReceive
  have hMinimum : machMsgTrailerMinimumSize = 8 := rfl
  have hHeaderSize : sizeofMachMsgHeader = 24 := rfl
  constructor
  · intro h hScatter
    have h1 := fun hIn => h.finish (hFinish.mpr ⟨hIn, hScatter⟩)
    have h2 := fun hIn =>
      (h.receive (hReceive.mpr ⟨hIn, hScatter⟩)).1
    refine ⟨?_, ?_, ?_⟩
    · by_contra hWrap
      omega
    · by_contra hWrap
      omega
    · intro hLess
      exact h2 (Or.inl (by omega))
  · intro h
    have hRoom : ∀ hIn : Accepts env
          (option &&& machRcvTimeout) rcvSize kmsg
            (env.listFor option slistSize),
        kmsg.msghSize +
          requestedTrailerSize env.trailers option ≤ rcvSize := by
      intro hIn
      rcases hReceive.mp hIn with ⟨hSizes, hScatter⟩
      have hAll := h hScatter
      have hMin := hAll.minimum
      exact hAll.apart (by omega)
    refine ⟨fun hIn => ?_, fun hIn => ⟨hRoom hIn, ?_⟩⟩
    · rcases hFinish.mp hIn with ⟨hSizes, hScatter⟩
      have hRequest := (h hScatter).request
      omega
    · intro n hPut
      have hBound := (machMsgReceive_put hKmsg slistSize hIn
        notify).all rfl hPut
      exact hBound.trans (hRoom hIn)

/- A message of 100 bytes. -/
def plainKmsg : QueuedKmsg :=
  ⟨100, 8, false, [], by decide, by decide, rfl⟩

/- A message, and a scatter list in memory at 65536. -/
def plainAnswers
    (kmsg : QueuedKmsg)
    (count : Nat)
    (memory : Nat → Descriptor) : ReceiveAnswers where
  trailers := ⟨fun _ => 0, fun _ => by decide⟩
  nameOk := true
  isRt := false
  kalloc := 65536
  readable := true
  count := count
  memory := memory
  kmsg := some kmsg
  headerOk := true
  writable := true
  copyout := ⟨⟨fun _ => true, fun _ _ => 0⟩,
    fun _ _ => .noSpace, fun _ => .success 4096⟩

def plainConfig : KmsgConfig := ⟨false, 1024, 2 ^ 20⟩

/- A space and a message without rights. -/
def plainSender : Sender where
  isActive := true
  isAddr := 1
  entries := fun _ => none
  ports := fun _ => ⟨true, 2, 0, 0, false, 0, 0, 0, 0⟩
  held := []
  buffers := fun _ => []
  sends := fun _ => 0
  onces := fun _ => 0
  notified := []
  asked := 0
  nextAddr := 4096
  timestamp := 0
  touched := []

def emptyDescriptor : Descriptor := ⟨0, 0, 0, 0, 0, 0⟩

def plainRequest : ReceiveAnswers :=
  plainAnswers plainKmsg 0 fun _ => emptyDescriptor

theorem receive_fits_plain :
    plainRequest.kmsg = some plainKmsg ∧
      120 < 2 ^ 32 ∧
      ReceiveFits plainConfig plainRequest 0x02000000 120 0 0
        plainKmsg plainSender := by
  refine ⟨rfl, by decide, ?_⟩
  apply (receive_fits_iff plainConfig plainRequest 0x02000000
    120 0 0 plainKmsg plainSender rfl (by decide)).mpr
  intro _
  exact ⟨by decide, by decide, by decide⟩

/-
  The trailer with the sender is asked for, and there is room
  for the smallest one.
-/
theorem receive_overflows_plain :
    ¬ ReceiveFits plainConfig plainRequest 0x02000000 108 0 0
      plainKmsg plainSender := by
  intro h
  have hAccepts : Accepts plainRequest
      (0x02000000 &&& machRcvTimeout) 108 plainKmsg
      (plainRequest.listFor 0x02000000 0) := rfl
  have hRoom := (h.receive hAccepts).1
  have hOver : ¬ plainKmsg.msghSize +
      requestedTrailerSize plainRequest.trailers 0x02000000 ≤
        108 := by
    decide
  exact hOver hRoom

------
-- The Scatter List
------

/- A descriptor at an address lies within a list's memory. -/
def ScatterBlock.Within
    (l : ScatterBlock)
    (addr : Nat) : Prop :=
  l.block.addr + sizeofMachMsgBody ≤ addr ∧
    addr + sizeofMachMsgDescriptor ≤
      l.block.addr + l.block.size

/- The size of the list, as a natural number. -/
def ScatterBlock.Whole (l : ScatterBlock) : Prop :=
  sizeofMachMsgBody + sizeofMachMsgDescriptor * l.count ≤
    l.block.size

theorem ScatterBlock.within_of_mem
    {l : ScatterBlock}
    (hBlock : l.block.addr + l.block.size ≤ 2 ^ 32)
    (hWhole : l.Whole)
    {addr : Nat}
    {d : Descriptor}
    (hIn : (addr, d) ∈ l.list) :
    l.Within addr := by
  unfold Whole sizeofMachMsgBody sizeofMachMsgDescriptor
    at hWhole
  rcases List.mem_map.mp hIn with ⟨i, hi, hEq⟩
  have hLess := List.mem_range.mp hi
  injection hEq with hAddr
  unfold sizeofMachMsgBody sizeofMachMsgDescriptor at hLess hAddr
  unfold Within sizeofMachMsgBody sizeofMachMsgDescriptor
  omega

/-
  Addresses that were read are within the memory, which has
  the size that the count asks for, and what was allocated has
  been freed when the call returns.
-/
structure ScatterSafe
    (l : ScatterBlock)
    (run : Except Stop ReceiveReturn × Receiving) : Prop where
  whole : l.Whole
  checked : ∀ addr, addr ∈ run.2.checked.read → l.Within addr
  copied :
    ∀ addr, addr ∈ run.2.receiver.scatter.read →
      l.Within addr
  freed :
    ∀ mr, run.1 = .ok mr → run.2.freed = run.2.allocated

section Walks

variable {cfg : KmsgConfig} {env : ReceiveAnswers}
variable {kmsg : QueuedKmsg} {slist : Option ScatterBlock}
variable {β : Type} {log : Receiving → List β} {P : β → Prop}
variable {l : ScatterBlock}

/- What the parts of a call add to a log. -/
structure LogParts
    (cfg : KmsgConfig)
    (env : ReceiveAnswers)
    (slist : Option ScatterBlock)
    (log : Receiving → List β)
    (P : β → Prop) : Prop where
  check : ∀ option rcvSize kmsg,
    Appends log P (onChecked (attempt
      (finishReceiveCheck env.trailers option rcvSize kmsg
        slist)))
  destroy : ∀ kmsg, Keeps log (destroyBody cfg env kmsg)
  copyout : ∀ kmsg : QueuedKmsg,
    Appends log P (onReceiver
      (ipcKmsgCopyoutBody cfg env.copyout kmsg.body
        (scatterListOf slist)))
  put : ∀ size, Keeps log (ipcKmsgPut env size)

namespace LogParts

section

variable (h : LogParts cfg env slist log P)
include h

theorem msgReceiveError
    (option : Nat) :
    Keeps log (msgReceiveError cfg env option kmsg) :=
  (h.destroy kmsg).bind fun _ => h.put _

theorem copyoutReceived
    (option notify : Nat) :
    Appends log P
      (copyoutReceived cfg env option notify kmsg slist) := by
  apply appends_ite appends_pure
  apply appends_ite appends_pure
  apply appends_ite ?_ appends_pure
  exact (h.copyout kmsg).bind fun _ => appends_pure

theorem receiveKmsg
    (option rcvSize notify : Nat)
    (kmsg : QueuedKmsg) :
    Appends log P
      (receiveKmsg cfg env option rcvSize notify kmsg
        slist) := by
  refine (h.check _ _ kmsg).bind fun checked => ?_
  cases checked with
  | ok u =>
      refine (h.copyoutReceived option notify).bind fun mr => ?_
      have hPut : ∀ size (mr : ReceiveReturn),
          Appends log P (do
            let ok ← ipcKmsgPut env size
            pure (putReturn ok mr)) :=
        fun size mr =>
          ((h.put size).bind fun _ => keeps_pure).appends
      cases mr with
      | success => exact hPut _ _
      | bodyError bits => exact hPut _ _
      | _ =>
          exact ((h.msgReceiveError option).bind fun _ =>
            keeps_pure).appends
  | error e =>
      apply Keeps.appends
      apply keeps_ite keeps_pure
      exact (h.msgReceiveError option).bind fun _ => keeps_pure

/- All that comes before the list is freed. -/
theorem received
    (option rcvSize notify : Nat) :
    Appends log P
      (receiveQueued cfg env option rcvSize notify slist) := by
  unfold receiveQueued
  cases env.kmsg with
  | none => exact appends_pure
  | some kmsg => exact h.receiveKmsg option rcvSize notify kmsg

end

end LogParts

theorem onScatterRead_keeps
    (kmsg : QueuedKmsg) :
    Keeps (fun r : Receiving => r.receiver.scatter.read)
      (destroyBody cfg env kmsg) := by
  apply keeps_ite ?_ keeps_pure
  have hInner : Keeps (fun r : Receiver => r.scatter.read)
      (onMessage
        (ipcKmsgCleanBody cfg env.copyout.memory kmsg.body)) :=
    keeps_onMessage fun _ _ => rfl
  exact hInner.onPart fun _ _ => rfl

/- The check reads descriptors of the list only. -/
theorem checked_logParts
    (hWithin : ∀ x, x ∈ l.list → l.Within x.1) :
    LogParts cfg env (some l) (fun r => r.checked.read)
      l.Within := by
  refine ⟨fun option rcvSize kmsg => ?_, fun kmsg => ?_,
    fun kmsg => ?_, fun size => ?_⟩
  · have hCheck : Appends ScatterLog.read l.Within
        (finishReceiveCheck env.trailers option rcvSize kmsg
          (some l)) := by
      intro log
      by_cases hSize : kmsg.msghSize ≤ subSize rcvSize
          (requestedTrailerSize env.trailers option)
      · rcases finishReceiveCheck_some l log hSize with
          ⟨r, reads, paired, hRun, hReads, _⟩
        rw [hRun]
        refine ⟨reads, rfl, fun addr hIn => ?_⟩
        rcases hReads addr hIn with ⟨d, hd⟩
        exact hWithin _ hd
      · rw [finishReceiveCheck_refuses _ _ hSize]
        exact ⟨[], (List.append_nil _).symm, fun addr hIn => by
          simp at hIn⟩
    exact hCheck.attempt.onPart fun _ _ => rfl
  · exact keeps_ite (keeps_onReceiver fun _ _ => rfl) keeps_pure
  · exact (keeps_onReceiver fun _ _ => rfl).appends
  · exact fun _ => rfl

/- So does copying out. -/
theorem copied_logParts
    (hWithin : ∀ x, x ∈ l.list → l.Within x.1) :
    LogParts cfg env (some l)
      (fun r => r.receiver.scatter.read) l.Within := by
  refine ⟨fun option rcvSize kmsg => ?_, onScatterRead_keeps,
    fun kmsg => ?_, fun size => ?_⟩
  · exact appends_of_keeps fun _ => rfl
  · have hWalk : Appends (fun r : Receiver => r.scatter.read)
        l.Within
        (ipcKmsgCopyoutBody cfg env.copyout kmsg.body
          l.list) := by
      intro r
      rcases copyoutLoop_reads cfg env.copyout
          [] kmsg.body l.list l.list 0 (fun _ hx => hx) r with
        ⟨reads, hLog, hReads⟩
      refine ⟨reads, hLog, fun addr hIn => ?_⟩
      rcases hReads addr hIn with ⟨d, hd⟩
      exact hWithin _ hd
    exact hWalk.onPart fun _ _ => rfl
  · exact fun _ => rfl

/- Neither they nor anything else allocates or frees. -/
theorem block_logParts
    {get : Receiving → List Block}
    (hReceiver : ∀ r c, get { r with receiver := c } = get r)
    (hChecked : ∀ r l, get { r with checked := l } = get r)
    (hPut : ∀ r l, get { r with put := l } = get r) :
    LogParts cfg env slist get (fun _ => False) := by
  refine ⟨fun option rcvSize kmsg => ?_, fun kmsg => ?_,
    fun kmsg => ?_, fun size => ?_⟩
  · exact (keeps_onPart hChecked).appends
  · exact keeps_ite (keeps_onReceiver hReceiver) keeps_pure
  · exact (keeps_onReceiver hReceiver).appends
  · exact (keeps_change fun r => hPut r _).bind fun _ =>
      keeps_pure

/- A call that returns has freed its list. -/
theorem receiveWith_freed
    (option rcvSize notify : Nat) :
    Adds Receiving.freed
      (slist.toList.map ScatterBlock.block)
      (receiveWith cfg env option rcvSize notify slist) := by
  have hParts : LogParts cfg env slist Receiving.freed
      (fun _ => False) :=
    block_logParts (fun _ _ => rfl) (fun _ _ => rfl)
      (fun _ _ => rfl)
  apply (hParts.received option rcvSize notify).keeps.adds.bind
    returns_true
  intro mr _ r mr' t hRun
  cases slist with
  | none =>
      injection hRun with _ hState
      rw [← hState]
      exact (List.append_nil _).symm
  | some l =>
      injection hRun with _ hState
      rw [← hState]
      rfl

theorem receiveWith_allocated
    (option rcvSize notify : Nat) :
    Keeps Receiving.allocated
      (receiveWith cfg env option rcvSize notify slist) := by
  have hParts : LogParts cfg env slist Receiving.allocated
      (fun _ => False) :=
    block_logParts (fun _ _ => rfl) (fun _ _ => rfl)
      (fun _ _ => rfl)
  apply (hParts.received option rcvSize notify).keeps.bind
  intro mr
  cases slist with
  | none => exact keeps_pure
  | some l => exact fun _ => rfl

theorem receiveWith_reads
    {log : Receiving → List Nat}
    {P : Nat → Prop}
    (h : LogParts cfg env slist log P)
    (hFree : ∀ r l, log { r with freed := l } = log r)
    (option rcvSize notify : Nat) :
    Appends log P
      (receiveWith cfg env option rcvSize notify slist) := by
  refine (h.received option rcvSize notify).bind fun mr => ?_
  cases slist with
  | none => exact appends_pure
  | some l => exact appends_of_keeps fun r => hFree r _

end Walks

/- The scatter list is taken, and its sizes agree. -/
structure TakesScatter
    (env : ReceiveAnswers)
    (option slistSize : Nat) : Prop where
  nameOk : env.nameOk = true
  option : option &&& machRcvOverwrite ≠ 0
  base : sizeofMachMsgHeader + sizeofMachMsgBody ≤ slistSize
  kalloc : env.kalloc ≠ 0
  readable : env.readable = true
  size :
    scatterListSize env.count ≤ (env.slist slistSize).block.size

section Scatter

variable {cfg : KmsgConfig} {env : ReceiveAnswers}
variable {option slistSize : Nat}

theorem TakesScatter.run
    (h : TakesScatter env option slistSize)
    (rcvSize notify : Nat)
    (r : Receiving) :
    machMsgReceive cfg env option rcvSize notify slistSize r =
      receiveWith cfg env option rcvSize notify
        (some (env.slist slistSize))
        { r with allocated :=
          r.allocated ++ [(env.slist slistSize).block] } := by
  have hSize := h.size
  unfold machMsgReceive receiveOverwrite
  rw [if_neg (by simp [h.nameOk]), if_pos h.option,
    if_neg (by have := h.base; omega), if_neg h.kalloc]
  have hNext : ∀ f : Unit → ReceiveProg ReceiveReturn,
      (allocateBlock (env.slist slistSize).block >>= f) r =
        f () { r with allocated :=
          r.allocated ++ [(env.slist slistSize).block] } :=
    fun _ => rfl
  have hCount : (env.slist slistSize).count = env.count := rfl
  rw [hNext, if_neg (by simp [h.readable]),
    if_neg (by rw [hCount]; omega)]

end Scatter

/-
  For a list that is taken, the call is safe exactly when the
  size of all descriptors fits in 32 bits.
-/
theorem receive_scatter_safe_iff
    (cfg : KmsgConfig)
    (env : ReceiveAnswers)
    (option rcvSize notify slistSize : Nat)
    (message : Sender)
    (hSize : slistSize < 2 ^ 32)
    (hBlock :
      (env.slist slistSize).block.addr +
        (env.slist slistSize).block.size ≤ 2 ^ 32)
    (hTakes : TakesScatter env option slistSize) :
    ScatterSafe (env.slist slistSize)
        (machMsgReceive cfg env option rcvSize notify slistSize
          (Receiving.start message)) ↔
      sizeofMachMsgBody + sizeofMachMsgDescriptor * env.count <
        2 ^ 32 := by
  have hLess : (env.slist slistSize).block.size < 2 ^ 32 := by
    have hEq : (env.slist slistSize).block.size =
        slistSize - sizeofMachMsgHeader := rfl
    omega
  have hCount : (env.slist slistSize).count = env.count := rfl
  constructor
  · intro h
    have hWhole := h.whole
    unfold ScatterBlock.Whole at hWhole
    rw [hCount] at hWhole
    omega
  · intro hFits
    have hWhole : (env.slist slistSize).Whole := by
      have hAsked := hTakes.size
      unfold scatterListSize addSize sizeofMachMsgBody
        sizeofMachMsgDescriptor at hAsked
      unfold sizeofMachMsgBody sizeofMachMsgDescriptor at hFits
      unfold ScatterBlock.Whole sizeofMachMsgBody
        sizeofMachMsgDescriptor
      omega
    have hWithin : ∀ x, x ∈ (env.slist slistSize).list →
        (env.slist slistSize).Within x.1 :=
      fun x hIn => ScatterBlock.within_of_mem hBlock hWhole hIn
    rw [hTakes.run]
    refine ⟨hWhole, ?_, ?_, ?_⟩
    · intro addr hIn
      exact (receiveWith_reads (checked_logParts hWithin)
        (fun _ _ => rfl) option rcvSize notify).all rfl hIn
    · intro addr hIn
      exact (receiveWith_reads (copied_logParts hWithin)
        (fun _ _ => rfl) option rcvSize notify).all rfl hIn
    · intro mr hRun
      rw [receiveWith_allocated option rcvSize notify]
      exact receiveWith_freed option rcvSize notify _ mr _
        (Prod.ext hRun rfl)

def emptyRegion : Descriptor :=
  ⟨0, 0, 0, 0, 0, machMsgOolDescriptor⟩

/- A complex message with a region of no bytes. -/
def regionKmsg : QueuedKmsg :=
  ⟨40, 8, true, [emptyRegion], by decide, by decide, rfl⟩

theorem receive_scatter_safe_one :
    (40 < 2 ^ 32 ∧ 65536 + (40 - 24) ≤ 2 ^ 32) ∧
      ScatterSafe
        ((plainAnswers regionKmsg 1
          fun _ => emptyRegion).slist 40)
        (machMsgReceive plainConfig
          (plainAnswers regionKmsg 1 fun _ => emptyRegion)
          machRcvOverwrite 100 0 40
          (Receiving.start plainSender)) :=
  ⟨by decide,
    (receive_scatter_safe_iff plainConfig
      (plainAnswers regionKmsg 1 fun _ => emptyRegion)
      machRcvOverwrite 100 0 40 plainSender (by decide)
      (by decide)
      ⟨rfl, by decide, by decide, by decide, rfl,
        by decide⟩).mpr (by decide)⟩

/- A count whose descriptors take 8 bytes more than 2^32. -/
def wrappedCount : Nat := 0x15555556

/-
  A list in 12 bytes is taken for one of that many, and its
  first descriptor ends 4 bytes after the memory.
-/
theorem receive_scatter_wraps :
    TakesScatter
        (plainAnswers regionKmsg wrappedCount
          fun _ => emptyRegion) machRcvOverwrite 36 ∧
      ¬ ScatterSafe
        ((plainAnswers regionKmsg wrappedCount
          fun _ => emptyRegion).slist 36)
        (machMsgReceive plainConfig
          (plainAnswers regionKmsg wrappedCount
            fun _ => emptyRegion)
          machRcvOverwrite 100 0 36
          (Receiving.start plainSender)) := by
  refine ⟨⟨rfl, by decide, by decide, by decide, rfl,
    by decide⟩, fun h => ?_⟩
  have hRead := (h.checked 65540 (by decide)).2
  have hOver : ¬ 65540 + sizeofMachMsgDescriptor ≤
      65536 + (36 - sizeofMachMsgHeader) := by
    decide
  exact hOver hRead

------
-- The Two Walks
------

/-
  A complex message that is accepted is copied out with the
  pairs that were checked, to regions that are large enough;
  and for another message the list makes no difference.
-/
structure ScatterAgrees
    (cfg : KmsgConfig)
    (env : ReceiveAnswers)
    (option maxSize notify : Nat)
    (kmsg : QueuedKmsg)
    (slist : Option ScatterBlock) : Prop where
  paired :
    kmsg.isComplex = true →
      Accepts env option maxSize kmsg slist →
      ∀ message out r,
        ipcKmsgCopyoutBody cfg env.copyout kmsg.body
            (scatterListOf slist) (Receiver.start message) =
          (.ok out, r) →
        r.scatter.paired =
          (finishReceiveCheck env.trailers option maxSize kmsg
            slist ScatterLog.init).2.paired
  written :
    kmsg.isComplex = true →
      Accepts env option maxSize kmsg slist →
      ∀ message w,
        w ∈ (ipcKmsgCopyoutBody cfg env.copyout kmsg.body
          (scatterListOf slist)
          (Receiver.start message)).2.written →
        w.length ≤ w.room
  plain :
    kmsg.isComplex = false →
      (finishReceiveCheck env.trailers option maxSize kmsg slist
          ScatterLog.init).1 =
        (finishReceiveCheck env.trailers option maxSize kmsg
          none ScatterLog.init).1 ∧
      ∀ r,
        copyoutReceived cfg env option notify kmsg slist r =
          copyoutReceived cfg env option notify kmsg none r

/- What was accepted fits, also where there is no list. -/
theorem pairFits_of_accepts
    (h : ScatterAccepts kmsg slist) :
    ∀ g s, (g, s) ∈ scatterPairs kmsg.body
      (scatterListOf slist) → PairFits g s.2 := by
  cases slist with
  | none =>
      intro g s hIn
      have hNone : scatterPairs kmsg.body [] = [] :=
        Lockstep.pairs_none rfl
      have hEmpty : (g, s) ∈ scatterPairs kmsg.body [] := hIn
      rw [hNone] at hEmpty
      simp at hEmpty
  | some l => exact ScatterFits.pairs h

/- The pairs that the check makes, when it accepts. -/
theorem finishReceiveCheck_paired
    {table : TrailerTable}
    {option maxSize : Nat}
    (h : (finishReceiveCheck table option maxSize kmsg slist
      ScatterLog.init).1 = .ok ()) :
    (finishReceiveCheck table option maxSize kmsg slist
        ScatterLog.init).2.paired =
      scatterPairs kmsg.body (scatterListOf slist) := by
  have hSize := ((finishReceiveCheck_ok_iff _ _).mp h).1
  cases slist with
  | none =>
      have hNone : scatterPairs kmsg.body [] = [] :=
        Lockstep.pairs_none rfl
      have hList : scatterListOf none = [] := rfl
      rw [hList, hNone]
      unfold finishReceiveCheck
      rw [bind_run (require_run hSize)]
      rfl
  | some b =>
      rcases finishReceiveCheck_some b ScatterLog.init hSize with
        ⟨r, reads, paired, hRun, _, _, hPairs⟩
      rw [hRun] at h ⊢
      exact hPairs h

theorem receive_scatter_agrees_iff
    (cfg : KmsgConfig)
    (env : ReceiveAnswers)
    (option maxSize notify : Nat)
    (kmsg : QueuedKmsg)
    (slist : Option ScatterBlock) :
    ScatterAgrees cfg env option maxSize notify kmsg slist ↔
      kmsg.isComplex = true ∨
        subSize maxSize
            (requestedTrailerSize env.trailers option) <
          kmsg.msghSize ∨
        ScatterAccepts kmsg slist := by
  constructor
  · intro h
    by_cases hComplex : kmsg.isComplex = true
    · exact Or.inl hComplex
    refine Or.inr ?_
    by_cases hSize : kmsg.msghSize ≤ subSize maxSize
        (requestedTrailerSize env.trailers option)
    · right
      have hSame := (h.plain (by simpa using hComplex)).1
      have hNone : (finishReceiveCheck env.trailers option
          maxSize kmsg none ScatterLog.init).1 = .ok () :=
        (finishReceiveCheck_ok_iff none _).mpr ⟨hSize, trivial⟩
      rw [hNone] at hSame
      exact ((finishReceiveCheck_ok_iff slist _).mp hSame).2
    · exact Or.inl (by omega)
  · intro h
    refine ⟨fun hComplex hAccepts message out r hRun => ?_,
      fun hComplex hAccepts message w hIn => ?_,
      fun hPlain => ⟨?_, fun r => ?_⟩⟩
    · rw [finishReceiveCheck_paired hAccepts]
      exact copyoutLoop_paired [] kmsg.body _ 0 _ _ _ hRun
    · have hScatter :=
        ((finishReceiveCheck_ok_iff slist _).mp hAccepts).2
      exact (copyoutLoop_written [] kmsg.body _ 0
        (pairFits_of_accepts hScatter)).all rfl hIn
    · rcases h with hIs | hLarge | hScatter
      · rw [hPlain] at hIs
        cases hIs
      · rw [finishReceiveCheck_refuses slist _ (by omega),
          finishReceiveCheck_refuses none _ (by omega)]
      · by_cases hSize : kmsg.msghSize ≤ subSize maxSize
            (requestedTrailerSize env.trailers option)
        · rw [(finishReceiveCheck_ok_iff slist _).mpr
              ⟨hSize, hScatter⟩,
            (finishReceiveCheck_ok_iff none _).mpr
              ⟨hSize, trivial⟩]
        · rw [finishReceiveCheck_refuses slist _ hSize,
            finishReceiveCheck_refuses none _ hSize]
    · unfold copyoutReceived ipcKmsgCopyout
      rw [hPlain]
      rfl

/- Words of a message that is not complex. -/
def wordsKmsg : QueuedKmsg :=
  ⟨40, 8, false, [emptyRegion], by decide, by decide, rfl⟩

/- A list without descriptors has it refused. -/
theorem receive_scatter_plain :
    ¬ ScatterAgrees plainConfig
      (plainAnswers wordsKmsg 0 fun _ => emptyRegion) 0 100 0
      wordsKmsg
      (some ((plainAnswers wordsKmsg 0
        fun _ => emptyRegion).slist 28)) := by
  intro h
  have hSame := (h.plain rfl).1
  cases hSame

end Ipc

end OsfMach
