import OsfMach.Ipc.Mqueue

/-
  No sender waits for space that is there.

  A sender that is woken holds a reservation until it tries
  again. While senders are on `ip_blocked`, the messages and
  the reservations together reach the limit. Two places in
  the source break this: the hot path counts a message off
  and wakes nobody, and a sender that gives up stays on the
  queue, where it takes a wake-up meant for another.

  Main declarations:
    * `PortQueue.Short`, `SendersInv`, `QueueInv`
    * `NoLostWakeup`, `Prompt`
    * `QueueInv.step`
    * `queueReachable_noLostWakeup`
-/

------
-- The Invariant
------

namespace OsfMach

namespace Ipc

open Function

variable {p : PortQueue}

namespace PortQueue

/- Messages and reservations reach the limit but for `k`. -/
def Short (p : PortQueue) (k : Nat) : Prop :=
  ∃ woken : Finset Nat, (∀ t ∈ woken, p.Woken t) ∧
    p.ipQlimit ≤ p.ipMsgcount + woken.card + k

/- The messages that receivers have yet to count off. -/
def handedCount (p : PortQueue) : Nat :=
  p.handed .generic + p.handed .hot

end PortQueue

/- The queue holds the senders that have not been woken. -/
structure SendersInv (p : PortQueue) : Prop where
  nodup : p.ipBlocked.Nodup
  blocked :
    ∀ t, t ∈ p.ipBlocked ↔
      (p.threads t).phase ≠ .outside ∧
        (p.threads t).ithState = .sendInProgress
  waiting :
    ∀ t, (p.threads t).phase = .waiting →
      (p.threads t).ithState = .sendInProgress

/- What holds of every queue. -/
structure QueueInv (p : PortQueue) : Prop where
  senders : SendersInv p
  count : p.imqMessages + p.handedCount ≤ p.ipMsgcount
  reserved :
    p.ipActive = true → p.ipBlocked ≠ [] → p.Short 0

/-
  Wherever there is space, no sender waits, or senders that
  were woken are as many as the space.
-/
def NoLostWakeup (p : PortQueue) : Prop :=
  p.ipActive = true → p.ipMsgcount < p.ipQlimit →
    (∀ t, ¬ p.Waiting t) ∨
      ∃ woken : Finset Nat, (∀ t ∈ woken, p.Woken t) ∧
        p.ipQlimit - p.ipMsgcount ≤ woken.card

/-
  The steps that do not lose a wake-up: the hot path counts
  a message off only where the generic path would wake
  nobody, and no sender gives up before it is woken.
-/
def Prompt (p : PortQueue) : QueueOp → Prop
| .resume t => (p.threads t).ithState = .msgSuccess
| .finish .hot =>
    p.ipBlocked = [] ∨ p.ipQlimit ≤ p.ipMsgcount - 1
| _ => True

namespace QueueInv

variable {p p' : PortQueue}

theorem init : QueueInv PortQueue.init :=
  { senders :=
      { nodup := List.nodup_nil
        blocked := by
          intro t
          constructor
          · intro h
            cases h
          · rintro ⟨h, _⟩
            exact absurd rfl h
        waiting := by
          intro t h
          cases h }
    count := Nat.le_refl _
    reserved := fun _ h => absurd rfl h }

/- The invariant gives what is promised. -/
theorem noLostWakeup
    (hInv : QueueInv p) :
    NoLostWakeup p := by
  intro hActive hRoom
  by_cases hNil : p.ipBlocked = []
  · left
    intro t hWaiting
    have hMem := (hInv.senders.blocked t).mpr
      ⟨by rw [hWaiting]; simp,
        hInv.senders.waiting t hWaiting⟩
    rw [hNil] at hMem
    cases hMem
  · right
    rcases hInv.reserved hActive hNil with
      ⟨woken, hWoken, hLe⟩
    exact ⟨woken, hWoken, by omega⟩

end QueueInv

------
-- Threads
------

namespace PortQueue

variable {p : PortQueue} {t u : Nat} {thread : SendThread}

@[simp] theorem setThread_self :
    (p.setThread t thread).threads t = thread :=
  update_self ..

theorem setThread_of_ne
    (hNe : u ≠ t) :
    (p.setThread t thread).threads u = p.threads u :=
  update_of_ne hNe ..

/- A woken thread stays so when another one changes. -/
theorem woken_setThread
    (hNe : u ≠ t)
    (hWoken : p.Woken u) :
    (p.setThread t thread).Woken u := by
  unfold Woken
  rw [setThread_of_ne hNe]
  exact hWoken

end PortQueue

/- A thread that waits is woken. -/
theorem wakeSender_woken
    {t : Nat}
    (hPhase : (p.threads t).phase ≠ .outside) :
    (wakeSender p t).Woken t := by
  unfold PortQueue.Woken wakeSender threadGo
  rw [PortQueue.setThread_self]
  split_ifs with hWaiting
  · exact ⟨⟨_, rfl⟩, rfl⟩
  · refine ⟨?_, rfl⟩
    cases hCase : (p.threads t).phase with
    | outside => exact absurd hCase hPhase
    | waiting => exact absurd hCase hWaiting
    | resuming result => exact ⟨result, rfl⟩

/- The thread that is woken, and the others. -/
theorem wakeSender_threads
    (p : PortQueue)
    (t u : Nat) :
    (u = t →
        ((wakeSender p t).threads u).phase ≠ .waiting ∧
          ((wakeSender p t).threads u).ithState =
            .msgSuccess) ∧
      (u ≠ t →
        (wakeSender p t).threads u = p.threads u) := by
  constructor
  · intro h
    subst h
    unfold wakeSender threadGo
    rw [PortQueue.setThread_self]
    split_ifs with hWaiting
    · exact ⟨by simp, rfl⟩
    · exact ⟨hWaiting, rfl⟩
  · intro h
    exact PortQueue.setThread_of_ne h

/- What waking senders leaves as it was. -/
structure SameCounts (p p' : PortQueue) : Prop where
  active : p'.ipActive = p.ipActive
  msgcount : p'.ipMsgcount = p.ipMsgcount
  qlimit : p'.ipQlimit = p.ipQlimit
  messages : p'.imqMessages = p.imqMessages
  handed : p'.handed = p.handed

theorem SameCounts.trans
    {p p' p'' : PortQueue}
    (h : SameCounts p p')
    (h' : SameCounts p' p'') :
    SameCounts p p'' :=
  { active := h'.active.trans h.active
    msgcount := h'.msgcount.trans h.msgcount
    qlimit := h'.qlimit.trans h.qlimit
    messages := h'.messages.trans h.messages
    handed := h'.handed.trans h.handed }

namespace SendersInv

variable {p : PortQueue} {t : Nat} {senders : List Nat}

/- The first sender is woken. -/
theorem wakeFirst
    (hInv : SendersInv p)
    (hBlocked : p.ipBlocked = t :: senders) :
    SendersInv
        (wakeSender { p with ipBlocked := senders } t) ∧
      ∀ k, p.Short (k + 1) →
        (wakeSender { p with ipBlocked := senders }
          t).Short k := by
  have hNodup := hInv.nodup
  rw [hBlocked, List.nodup_cons] at hNodup
  have hFirst := (hInv.blocked t).mp
    (by rw [hBlocked]; exact List.mem_cons_self ..)
  have hThreads := wakeSender_threads
    { p with ipBlocked := senders } t
  constructor
  · refine ⟨hNodup.2, ?_, ?_⟩
    · intro u
      by_cases hu : u = t
      · rw [((hThreads u).1 hu).2]
        constructor
        · intro hMem
          rw [hu] at hMem
          exact absurd hMem hNodup.1
        · rintro ⟨_, h⟩
          cases h
      · rw [(hThreads u).2 hu]
        refine Iff.trans ?_ (hInv.blocked u)
        rw [hBlocked, List.mem_cons]
        simp only [hu, false_or]
        rfl
    · intro u hWaiting
      by_cases hu : u = t
      · exact absurd hWaiting ((hThreads u).1 hu).1
      · rw [(hThreads u).2 hu] at hWaiting ⊢
        exact hInv.waiting u hWaiting
  · rintro k ⟨woken, hWoken, hLe⟩
    -- the sender was on the queue, so it was not woken
    have hNot : t ∉ woken := by
      intro hMem
      have hState := (hWoken t hMem).2
      rw [hFirst.2] at hState
      cases hState
    refine ⟨insert t woken, ?_, ?_⟩
    · intro u hMem
      rw [Finset.mem_insert] at hMem
      by_cases hu : u = t
      · rw [hu]
        exact wakeSender_woken hFirst.1
      · apply PortQueue.woken_setThread hu
        rcases hMem with h | h
        · exact absurd h hu
        · exact hWoken u h
    · rw [Finset.card_insert_of_notMem hNot]
      unfold wakeSender PortQueue.setThread
      dsimp only
      omega

/- Senders are woken until there are no more. -/
theorem wakeMany
    (wakeup : Nat)
    (hInv : SendersInv p) :
    SendersInv (wakeSenders wakeup p) ∧
      SameCounts p (wakeSenders wakeup p) ∧
      ((wakeSenders wakeup p).ipBlocked = [] ∨
        ∀ k, p.Short (k + wakeup) →
          (wakeSenders wakeup p).Short k) := by
  induction wakeup generalizing p with
  | zero =>
      exact ⟨hInv, ⟨rfl, rfl, rfl, rfl, rfl⟩,
        Or.inr (fun _ h => h)⟩
  | succ wakeup ih =>
      unfold wakeSenders
      cases hBlocked : p.ipBlocked with
      | nil =>
          exact ⟨hInv, ⟨rfl, rfl, rfl, rfl, rfl⟩,
            Or.inl hBlocked⟩
      | cons t senders =>
          rcases hInv.wakeFirst hBlocked with ⟨hOne, hShort⟩
          rcases ih hOne with ⟨hRest, hSame, hAll⟩
          refine ⟨hRest, ?_, ?_⟩
          · refine SameCounts.trans ?_ hSame
            exact ⟨rfl, rfl, rfl, rfl, rfl⟩
          · rcases hAll with h | h
            · exact Or.inl h
            · right
              intro k hk
              exact h k (hShort (k + wakeup) hk)

section

variable (hInv : SendersInv p)
include hInv

/- Only the queue and the threads count. -/
theorem congr
    {p' : PortQueue}
    (hBlocked : p'.ipBlocked = p.ipBlocked)
    (hThreads : p'.threads = p.threads) :
    SendersInv p' := by
  refine ⟨?_, ?_, ?_⟩
  · rw [hBlocked]
    exact hInv.nodup
  · rw [hBlocked, hThreads]
    exact hInv.blocked
  · rw [hThreads]
    exact hInv.waiting

/- A thread that is not on the queue leaves. -/
theorem leave
    (hOut : t ∉ p.ipBlocked) :
    SendersInv (p.setThread t SendThread.idle) := by
  refine ⟨hInv.nodup, ?_, ?_⟩
  · intro u
    by_cases hu : u = t
    · rw [hu, PortQueue.setThread_self]
      constructor
      · intro h
        exact absurd h hOut
      · rintro ⟨h, _⟩
        exact absurd rfl h
    · rw [PortQueue.setThread_of_ne hu]
      exact hInv.blocked u
  · intro u hWaiting
    by_cases hu : u = t
    · rw [hu, PortQueue.setThread_self] at hWaiting
      cases hWaiting
    · rw [PortQueue.setThread_of_ne hu] at hWaiting ⊢
      exact hInv.waiting u hWaiting

/- A thread goes to the end of the queue. -/
theorem enqueue
    (hOut : t ∉ p.ipBlocked)
    (timeout : Option Nat)
    (always : Bool) :
    SendersInv
      (({ p with ipBlocked := p.ipBlocked ++ [t] } :
        PortQueue).setThread t
          ⟨.waiting, .sendInProgress, timeout, always⟩) := by
  refine ⟨?_, ?_, ?_⟩
  · exact List.nodup_append.mpr ⟨hInv.nodup,
      List.nodup_singleton t, by
        intro u hu v hv hEq
        rw [List.mem_singleton] at hv
        rw [hEq, hv] at hu
        exact hOut hu⟩
  · intro u
    have hMem : u ∈ p.ipBlocked ++ [t] ↔
        u ∈ p.ipBlocked ∨ u = t := by
      rw [List.mem_append, List.mem_singleton]
    refine hMem.trans ?_
    by_cases hu : u = t
    · rw [hu, PortQueue.setThread_self]
      simp
    · rw [PortQueue.setThread_of_ne hu]
      simp only [hu, or_false]
      exact hInv.blocked u
  · intro u hWaiting
    by_cases hu : u = t
    · rw [hu, PortQueue.setThread_self]
    · rw [PortQueue.setThread_of_ne hu] at hWaiting ⊢
      exact hInv.waiting u hWaiting

/- The wait of a thread ends; it stays on the queue. -/
theorem endWait
    (hWait : (p.threads t).phase = .waiting)
    (result : WaitResult) :
    SendersInv (p.endWait t result) := by
  have hState := hInv.waiting t hWait
  have hMem := (hInv.blocked t).mpr
    ⟨by rw [hWait]; simp, hState⟩
  unfold PortQueue.endWait
  refine ⟨hInv.nodup, ?_, ?_⟩
  · intro u
    by_cases hu : u = t
    · rw [hu, PortQueue.setThread_self]
      constructor
      · exact fun _ => ⟨by simp, hState⟩
      · exact fun _ => hMem
    · rw [PortQueue.setThread_of_ne hu]
      exact hInv.blocked u
  · intro u hWaiting
    by_cases hu : u = t
    · rw [hu, PortQueue.setThread_self] at hWaiting
      cases hWaiting
    · rw [PortQueue.setThread_of_ne hu] at hWaiting ⊢
      exact hInv.waiting u hWaiting

end

end SendersInv

/- An empty queue stays empty. -/
theorem wakeSenders_nil
    (wakeup : Nat)
    (hNil : p.ipBlocked = []) :
    (wakeSenders wakeup p).ipBlocked = [] := by
  cases wakeup with
  | zero => exact hNil
  | succ wakeup =>
      unfold wakeSenders
      rw [hNil]
      exact hNil

/- More turns than there are senders wake no more. -/
theorem wakeSenders_enough
    {wakeup : Nat}
    (hLe : p.ipBlocked.length ≤ wakeup) :
    wakeSenders wakeup p =
      wakeSenders p.ipBlocked.length p := by
  induction wakeup generalizing p with
  | zero =>
      rw [Nat.le_zero.mp hLe]
  | succ wakeup ih =>
      cases hBlocked : p.ipBlocked with
      | nil =>
          unfold wakeSenders
          rw [hBlocked]
          rfl
      | cons sender senders =>
          rw [hBlocked] at hLe
          have hStep := @ih
            (wakeSender { p with ipBlocked := senders } sender)
            (Nat.le_of_succ_le_succ hLe)
          rw [List.length_cons]
          unfold wakeSenders
          rw [hBlocked]
          exact hStep

/- Waking senders does not look at the limit. -/
theorem wakeSenders_setLimit
    (wakeup qlimit : Nat)
    (p : PortQueue) :
    ({ wakeSenders wakeup p with ipQlimit := qlimit } :
        PortQueue) =
      wakeSenders wakeup { p with ipQlimit := qlimit } := by
  induction wakeup generalizing p with
  | zero => rfl
  | succ wakeup ih =>
      unfold wakeSenders
      cases hBlocked : p.ipBlocked with
      | nil =>
          dsimp only
          rw [← hBlocked]
      | cons sender senders => exact ih _

------
-- Steps
------

/- What a delivery changes. -/
theorem deliver_spec
    (p : PortQueue) :
    (ipcMqueueDeliver p).ipActive = p.ipActive ∧
      (ipcMqueueDeliver p).ipMsgcount = p.ipMsgcount + 1 ∧
      (ipcMqueueDeliver p).ipQlimit = p.ipQlimit ∧
      (ipcMqueueDeliver p).ipBlocked = p.ipBlocked ∧
      (ipcMqueueDeliver p).threads = p.threads ∧
      (ipcMqueueDeliver p).imqMessages +
          (ipcMqueueDeliver p).handedCount =
        p.imqMessages + p.handedCount + 1 := by
  unfold ipcMqueueDeliver
  cases p.imqThreads with
  | nil =>
      refine ⟨rfl, rfl, rfl, rfl, rfl, ?_⟩
      unfold PortQueue.handedCount
      dsimp only
      omega
  | cons path receivers =>
      refine ⟨rfl, rfl, rfl, rfl, rfl, ?_⟩
      unfold PortQueue.handedCount
      cases path with
      | generic => simp [Nat.add_assoc, Nat.add_comm 1]
      | hot => simp [Nat.add_assoc]

namespace QueueInv

variable {p : PortQueue} {t : Nat}

/- A message comes in. -/
theorem deliver
    (hInv : QueueInv p) :
    QueueInv (ipcMqueueDeliver p) := by
  rcases deliver_spec p with
    ⟨hActive, hCount, hLimit, hBlocked, hThreads, hSum⟩
  have hSenders := hInv.senders
  refine ⟨hSenders.congr hBlocked hThreads, ?_, ?_⟩
  · have hOld := hInv.count
    omega
  · rw [hActive, hBlocked]
    intro h h'
    rcases hInv.reserved h h' with ⟨woken, hWoken, hLe⟩
    refine ⟨woken, ?_, by omega⟩
    unfold PortQueue.Woken
    rw [hThreads]
    exact hWoken

/-
  A thread that is not on the queue leaves, and the space it
  gives up is no more than its reservation.
-/
theorem leave
    (hInv : QueueInv p)
    (hOut : t ∉ p.ipBlocked)
    (hFull :
      p.ipActive = true → p.ipBlocked ≠ [] →
        (p.setThread t SendThread.idle).Short 0) :
    QueueInv (p.setThread t SendThread.idle) :=
  ⟨hInv.senders.leave hOut, hInv.count, hFull⟩

/- A full queue needs no reservations. -/
theorem short_of_full
    (hFull : p.ipQlimit ≤ p.ipMsgcount) :
    p.Short 0 :=
  ⟨∅, fun _ h => absurd h (by simp), by simpa using hFull⟩

/- One turn of a sender that is not on the queue. -/
theorem sendTurn
    (hInv : QueueInv p)
    (hOut : t ∉ p.ipBlocked)
    (timeout : Option Nat)
    (always : Bool) :
    QueueInv (sendTurn p t timeout always).2 := by
  unfold Ipc.sendTurn
  split_ifs with hDead hRoom hTime
  · apply hInv.leave hOut
    intro hActive
    rw [hDead] at hActive
    cases hActive
  · -- the message takes the place of the reservation
    rcases deliver_spec p with
      ⟨hActive, hCount, hLimit, hBlocked, hThreads, _⟩
    apply hInv.deliver.leave
    · rw [hBlocked]
      exact hOut
    · rw [hActive, hBlocked]
      intro h h'
      rcases hInv.reserved h h' with ⟨woken, hWoken, hLe⟩
      refine ⟨woken.erase t, ?_, ?_⟩
      · intro u hu
        rw [Finset.mem_erase] at hu
        apply PortQueue.woken_setThread hu.1
        unfold PortQueue.Woken
        rw [hThreads]
        exact hWoken u hu.2
      · have hCard := Finset.pred_card_le_card_erase
          (s := woken) (a := t)
        unfold PortQueue.setThread
        dsimp only
        omega
  · apply hInv.leave hOut
    intro _ _
    apply short_of_full
    rw [not_or] at hRoom
    exact not_lt.mp hRoom.1
  · -- the sender goes to the end of the queue
    rw [not_or] at hRoom
    refine ⟨hInv.senders.enqueue hOut timeout always,
      hInv.count, ?_⟩
    intro _ _
    apply short_of_full
    exact not_lt.mp hRoom.1

/- The wait of a thread ends; it stays on the queue. -/
theorem endWait
    (hInv : QueueInv p)
    (hWait : (p.threads t).phase = .waiting)
    (result : WaitResult) :
    QueueInv (p.endWait t result) := by
  have hState := hInv.senders.waiting t hWait
  refine ⟨hInv.senders.endWait hWait result, hInv.count, ?_⟩
  intro hActive hNe
  rcases hInv.reserved hActive hNe with ⟨woken, hWoken, hLe⟩
  refine ⟨woken, ?_, hLe⟩
  intro u hu
  apply PortQueue.woken_setThread _ (hWoken u hu)
  intro hEq
  have hDone := (hWoken u hu).2
  rw [hEq, hState] at hDone
  cases hDone

/- A receiver takes a message or waits. -/
theorem receive
    (hInv : QueueInv p)
    (path : ReceivePath) :
    QueueInv (ipcMqueueReceive p path) := by
  have hSenders := hInv.senders
  have hCount := hInv.count
  unfold ipcMqueueReceive
  split_ifs with hSome
  · refine ⟨⟨hSenders.nodup, hSenders.blocked,
      hSenders.waiting⟩, ?_, hInv.reserved⟩
    unfold PortQueue.handedCount at hCount ⊢
    simp only [update_self, ne_eq, reduceCtorEq,
      not_false_eq_true, update_of_ne]
    omega
  · exact ⟨⟨hSenders.nodup, hSenders.blocked,
      hSenders.waiting⟩, hCount, hInv.reserved⟩

/- A message is counted off, and with it one of the count. -/
theorem handedCount_take
    {path : ReceivePath}
    (hPos : 0 < p.handed path) :
    (takeHanded p path).handedCount + 1 =
      p.handedCount := by
  unfold PortQueue.handedCount takeHanded
  cases path with
  | generic | hot =>
      simp only [update_self, ne_eq, reduceCtorEq,
        not_false_eq_true, update_of_ne]
      omega

/- The space of one message goes to the first sender. -/
theorem wakeForSpace
    (hSenders : SendersInv p)
    (hCount : p.imqMessages + p.handedCount ≤ p.ipMsgcount)
    (hShort : p.ipBlocked ≠ [] → p.Short 1) :
    QueueInv (wakeForSpace p) := by
  unfold Ipc.wakeForSpace
  cases hBlocked : p.ipBlocked with
  | nil =>
      exact ⟨hSenders, hCount, fun _ h => absurd hBlocked h⟩
  | cons sender senders =>
      split_ifs with hRoom
      · rcases hSenders.wakeFirst hBlocked with ⟨hNew, hOne⟩
        refine ⟨hNew, hCount, ?_⟩
        intro _ _
        exact hOne 0 (hShort (by rw [hBlocked]; simp))
      · exact ⟨hSenders, hCount, fun _ _ =>
          short_of_full (not_lt.mp hRoom)⟩

/- `ipc_mqueue_finish_receive` wakes a sender. -/
theorem finishReceive
    (hInv : QueueInv p)
    (hPos : 0 < p.handed .generic) :
    QueueInv (ipcMqueueFinishReceive p) := by
  have hSenders := hInv.senders
  have hCount := hInv.count
  have hTake := handedCount_take hPos
  have hMessages : (takeHanded p .generic).imqMessages =
      p.imqMessages := rfl
  have hMsgcount : (takeHanded p .generic).ipMsgcount =
      p.ipMsgcount := rfl
  unfold ipcMqueueFinishReceive
  dsimp only
  split_ifs with hActive
  · apply wakeForSpace
    · exact ⟨hSenders.nodup, hSenders.blocked,
        hSenders.waiting⟩
    · have hSum : (takeHanded p .generic).imqMessages +
          (takeHanded p .generic).handedCount ≤
            (takeHanded p .generic).ipMsgcount - 1 := by
        omega
      exact hSum
    · intro hNe
      rcases hInv.reserved hActive hNe with
        ⟨woken, hWoken, hLe⟩
      have hLimit : (takeHanded p .generic).ipQlimit =
          p.ipQlimit := rfl
      exact ⟨woken, hWoken, by dsimp only; omega⟩
  · refine ⟨⟨hSenders.nodup, hSenders.blocked,
      hSenders.waiting⟩, by omega, ?_⟩
    intro h
    exact absurd h hActive

/- The hot path wakes nobody. -/
theorem hotFinishReceive
    (hInv : QueueInv p)
    (hPos : 0 < p.handed .hot)
    (hPrompt :
      p.ipBlocked = [] ∨ p.ipQlimit ≤ p.ipMsgcount - 1) :
    QueueInv (hotFinishReceive p) := by
  have hSenders := hInv.senders
  have hCount := hInv.count
  have hTake := handedCount_take hPos
  refine ⟨⟨hSenders.nodup, hSenders.blocked,
    hSenders.waiting⟩, ?_, ?_⟩
  · have hSame : (Ipc.hotFinishReceive p).handedCount =
        (takeHanded p .hot).handedCount := rfl
    have hMessages : (Ipc.hotFinishReceive p).imqMessages =
        p.imqMessages := rfl
    have hMsgcount : (Ipc.hotFinishReceive p).ipMsgcount =
        p.ipMsgcount - 1 := rfl
    omega
  · intro _ hNe
    rcases hPrompt with h | h
    · exact absurd h hNe
    · exact short_of_full h

/- `ipc_port_set_qlimit` wakes senders for the new space. -/
theorem setQlimit
    (hInv : QueueInv p)
    (qlimit : Nat) :
    QueueInv (ipcPortSetQlimit p qlimit) := by
  have hSenders := hInv.senders
  have hCount := hInv.count
  unfold ipcPortSetQlimit
  split_ifs with hMore
  · rw [wakeSenders_setLimit]
    -- the new limit first, and the senders after it
    generalize hNew :
      ({ p with ipQlimit := qlimit } : PortQueue) = q
    have hQ : SendersInv q := by
      rw [← hNew]
      exact ⟨hSenders.nodup, hSenders.blocked, hSenders.waiting⟩
    have hShort : q.ipActive = true → q.ipBlocked ≠ [] →
        q.Short (0 + (qlimit - p.ipQlimit)) := by
      rw [← hNew]
      intro hActive hNe
      rcases hInv.reserved hActive hNe with
        ⟨woken, hWoken, hLe⟩
      exact ⟨woken, hWoken, by dsimp only; omega⟩
    have hSum : q.imqMessages + q.handedCount ≤
        q.ipMsgcount := by
      rw [← hNew]
      exact hCount
    rcases hQ.wakeMany (qlimit - p.ipQlimit) with
      ⟨hAfter, hSame, hAll⟩
    refine ⟨hAfter, ?_, ?_⟩
    · unfold PortQueue.handedCount at hSum ⊢
      rw [hSame.messages, hSame.handed, hSame.msgcount]
      exact hSum
    · intro hActive hNe
      rcases hAll with h | h
      · exact absurd h hNe
      · apply h 0
        apply hShort
        · rw [← hSame.active]
          exact hActive
        · intro hNil
          apply hNe
          exact wakeSenders_nil _ hNil
  · refine ⟨⟨hSenders.nodup, hSenders.blocked,
      hSenders.waiting⟩, hCount, ?_⟩
    intro hActive hNe
    rcases hInv.reserved hActive hNe with
      ⟨woken, hWoken, hLe⟩
    exact ⟨woken, hWoken, by dsimp only; omega⟩

/- The port dies. -/
theorem destroy
    (hInv : QueueInv p) :
    QueueInv (ipcPortRouse p) := by
  have hCount := hInv.count
  rcases hInv.senders.wakeMany p.ipBlocked.length with
    ⟨hSenders, hSame, _⟩
  refine ⟨⟨hSenders.nodup, hSenders.blocked,
    hSenders.waiting⟩, ?_, ?_⟩
  · unfold PortQueue.handedCount ipcPortRouse at *
    dsimp only
    rw [hSame.handed, hSame.msgcount]
    omega
  · intro hActive
    cases hActive

end QueueInv

------
-- Runs
------

/- Every step that loses no wake-up keeps the invariant. -/
theorem QueueInv.step
    {p : PortQueue}
    (hInv : QueueInv p)
    (op : QueueOp)
    (hLegal : p.Legal op)
    (hPrompt : Prompt p op) :
    QueueInv (p.step op) := by
  have hBlocked := hInv.senders.blocked
  cases op with
  | send t timeout always =>
      apply hInv.sendTurn
      intro hMem
      exact ((hBlocked t).mp hMem).1 hLegal
  | resume t =>
      have hState : (p.threads t).ithState = .msgSuccess :=
        hPrompt
      have hOut : t ∉ p.ipBlocked := by
        intro hMem
        have h := ((hBlocked t).mp hMem).2
        rw [hState] at h
        cases h
      unfold PortQueue.step
      dsimp only
      cases hPhase : (p.threads t).phase with
      | outside => exact absurd hPhase hLegal.1
      | waiting => exact absurd hPhase hLegal.2
      | resuming result =>
          unfold ipcMqueueResume
          dsimp only
          rw [if_pos hState]
          exact hInv.sendTurn hOut _ _
  | expire t => exact hInv.endWait hLegal.1 .timedOut
  | interrupt t => exact hInv.endWait hLegal .interrupted
  | handOff always => exact hInv.deliver
  | receive path => exact hInv.receive path
  | abortReceive path =>
      have hSenders := hInv.senders
      exact ⟨⟨hSenders.nodup, hSenders.blocked,
        hSenders.waiting⟩, hInv.count, hInv.reserved⟩
  | finish path =>
      cases path with
      | generic => exact hInv.finishReceive hLegal
      | hot => exact hInv.hotFinishReceive hLegal hPrompt
  | setQlimit qlimit => exact hInv.setQlimit qlimit
  | destroy => exact hInv.destroy

/- The invariant holds along every prompt run. -/
theorem QueueReachable.queueInv
    (hRun : QueueReachable Prompt p) :
    QueueInv p := by
  induction hRun with
  | init => exact QueueInv.init
  | step _ op hLegal hPrompt ih =>
      exact ih.step op hLegal hPrompt

/-
  Along runs whose steps are prompt no wake-up is lost, and
  while a sender waits and there is space another one is
  about to use it.
-/
theorem queueReachable_noLostWakeup
    {p : PortQueue}
    (hRun : QueueReachable Prompt p) :
    NoLostWakeup p ∧
      ∀ t, p.ipActive = true → p.Waiting t →
        p.ipMsgcount < p.ipQlimit → ∃ u, p.Woken u := by
  have hNone := hRun.queueInv.noLostWakeup
  refine ⟨hNone, ?_⟩
  intro t hActive hWaiting hRoom
  rcases hNone hActive hRoom with h | ⟨woken, hWoken, hLe⟩
  · exact absurd hWaiting (h t)
  · have hPos : 0 < woken.card := by omega
    rcases Finset.card_pos.mp hPos with ⟨u, hu⟩
    exact ⟨u, hWoken u hu⟩

/- A list of steps, each of them legal and allowed. -/
def LegalQueueRun
    (Allowed : PortQueue → QueueOp → Prop) :
    PortQueue → List QueueOp → Prop
| _, [] => True
| p, op :: ops =>
    p.Legal op ∧ Allowed p op ∧
      LegalQueueRun Allowed (p.step op) ops

theorem QueueReachable.foldl
    {Allowed : PortQueue → QueueOp → Prop}
    (ops : List QueueOp)
    (hRun : QueueReachable Allowed p)
    (hLegal : LegalQueueRun Allowed p ops) :
    QueueReachable Allowed
      (ops.foldl PortQueue.step p) := by
  induction ops generalizing p with
  | nil => exact hRun
  | cons op ops ih =>
      exact ih (hRun.step op hLegal.1 hLegal.2.1) hLegal.2.2

/-
  One message fills the queue and two senders wait; then the
  message is received.
-/
def receiveRun : List QueueOp :=
  [.setQlimit 1, .send 1 none false, .send 2 none false,
    .send 3 none false, .receive .generic, .finish .generic]

/- A receive wakes the first of the two senders. -/
theorem queueReachable_noLostWakeup_received :
    NoLostWakeup
        (receiveRun.foldl PortQueue.step PortQueue.init) ∧
      (receiveRun.foldl PortQueue.step
        PortQueue.init).Waiting 3 ∧
      (receiveRun.foldl PortQueue.step
        PortQueue.init).Woken 2 := by
  have hLegal : LegalQueueRun Prompt PortQueue.init
      receiveRun :=
    ⟨rfl, trivial, rfl, trivial, rfl, trivial, rfl, trivial,
      rfl, trivial, Nat.zero_lt_one, trivial, trivial⟩
  refine ⟨(queueReachable_noLostWakeup
    (QueueReachable.foldl _ QueueReachable.init hLegal)).1,
    rfl, ⟨_, rfl⟩, rfl⟩

/-
  A receiver waits in the hot path. It is handed the message
  that fills the queue, a sender waits, and the receiver
  counts the message off.
-/
def hotOps : List QueueOp :=
  [.setQlimit 1, .receive .hot, .send 1 none false,
    .send 2 none false, .finish .hot]

/-
  A sender times out and stays on the queue, where it takes
  the wake-up meant for the sender behind it.
-/
def staleOps : List QueueOp :=
  [.setQlimit 1, .send 1 none false, .send 2 (some 10) false,
    .send 3 none false, .expire 2, .resume 2,
    .receive .generic, .finish .generic]

/- No thread is woken when none that sent is. -/
theorem not_woken_of_update
    {p : PortQueue}
    {a b c : SendThread}
    (hThreads : ∀ t, p.threads t =
      if t = 1 then a else if t = 2 then b
      else if t = 3 then c else SendThread.idle)
    (hA : a.phase = .outside ∨ a.phase = .waiting)
    (hB : b.phase = .outside ∨ b.phase = .waiting)
    (hC : c.phase = .outside ∨ c.phase = .waiting)
    (t : Nat) :
    ¬ p.Woken t := by
  have hIdle : SendThread.idle.phase = .outside ∨
      SendThread.idle.phase = .waiting := Or.inl rfl
  have hPhase : (p.threads t).phase = .outside ∨
      (p.threads t).phase = .waiting := by
    rw [hThreads]
    split_ifs <;> assumption
  rintro ⟨⟨result, hResult⟩, _⟩
  rw [hResult] at hPhase
  rcases hPhase with h | h <;> cases h

/- A queue with space, a sender that waits, and no other. -/
theorem not_noLostWakeup
    {t : Nat}
    (hActive : p.ipActive = true)
    (hRoom : p.ipMsgcount < p.ipQlimit)
    (hWaiting : p.Waiting t)
    (hNone : ∀ u, ¬ p.Woken u) :
    ¬ NoLostWakeup p := by
  intro hClaim
  rcases hClaim hActive hRoom with h | ⟨woken, hWoken, hLe⟩
  · exact h t hWaiting
  · have hPos : 0 < woken.card := by omega
    rcases Finset.card_pos.mp hPos with ⟨u, hu⟩
    exact hNone u (hWoken u hu)

/- Both runs end with a lost wake-up. -/
theorem lostWakeup_hot_and_stale :
    LegalQueueRun (fun _ _ => True) PortQueue.init hotOps ∧
      ¬ NoLostWakeup
        (hotOps.foldl PortQueue.step PortQueue.init) ∧
      LegalQueueRun (fun _ _ => True) PortQueue.init
        staleOps ∧
      ¬ NoLostWakeup
        (staleOps.foldl PortQueue.step PortQueue.init) := by
  refine ⟨?_, ?_, ?_, ?_⟩
  · exact ⟨rfl, trivial, rfl, trivial, rfl, trivial, rfl,
      trivial, Nat.zero_lt_one, trivial, trivial⟩
  · have hNone := @not_woken_of_update
      (hotOps.foldl PortQueue.step PortQueue.init)
      SendThread.idle ⟨.waiting, .sendInProgress, none, false⟩
      SendThread.idle
    refine not_noLostWakeup rfl (by decide)
      (t := 2) rfl (hNone ?_ (Or.inl rfl) (Or.inr rfl)
        (Or.inl rfl))
    intro t
    have hThreads : (hotOps.foldl PortQueue.step
        PortQueue.init).threads =
        update
          (update (fun _ => SendThread.idle) 1
            SendThread.idle) 2
          ⟨.waiting, .sendInProgress, none, false⟩ := rfl
    rw [hThreads]
    simp only [update_apply]
    split_ifs <;> first | rfl | omega
  · exact ⟨rfl, trivial, rfl, trivial, rfl, trivial, rfl,
      trivial, ⟨rfl, by decide⟩, trivial,
      ⟨by decide, by decide⟩, trivial, rfl, trivial,
      Nat.zero_lt_one, trivial, trivial⟩
  · have hNone := @not_woken_of_update
      (staleOps.foldl PortQueue.step PortQueue.init)
      SendThread.idle
      ⟨.outside, .msgSuccess, none, false⟩
      ⟨.waiting, .sendInProgress, none, false⟩
    refine not_noLostWakeup rfl (by decide)
      (t := 3) rfl (hNone ?_ (Or.inl rfl) (Or.inl rfl)
        (Or.inr rfl))
    intro t
    have hThreads : (staleOps.foldl PortQueue.step
        PortQueue.init).threads =
        update
          (update
            (update
              (update
                (update
                  (update (fun _ => SendThread.idle)
                    1 SendThread.idle) 2
                  ⟨.waiting, .sendInProgress, some 10,
                    false⟩) 3
                ⟨.waiting, .sendInProgress, none, false⟩) 2
              ⟨.resuming .timedOut, .sendInProgress, some 10,
                false⟩) 2 SendThread.idle) 2
          SendThread.idle := rfl
    rw [hThreads]
    simp only [update_apply]
    split_ifs <;> first | rfl | omega

end Ipc

end OsfMach
