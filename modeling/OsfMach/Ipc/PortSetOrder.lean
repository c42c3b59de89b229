import OsfMach.Lib.Fifo
import OsfMach.Ipc.PortSetSteps

/-
  The messages of a port in order.

  Seen from one port, whatever happens to it and to the sets
  it is put into is what a numbered first-in first-out queue
  does: its items are the messages of the port on the queue
  that the port reads from. Seen from one thread, it is
  given a message and then returns with it. While messages
  are moved from one queue to another they are at hand, and
  come after those that are queued.

  Main declarations:
    * `portEvent`, `receiverEvent`
    * `RcvSystem.fifo`, `RcvSystem.pending`, `Refines`
    * `Refines.step`
    * `rcvRun_ordered`
-/

------
-- Views
------

namespace OsfMach

namespace Ipc

open List
open Lib

/- What an event is for a port. -/
def portEvent
    (i : Nat) : QueueEvent → Option (FifoEvent Nat)
| .delivered j kmsg =>
    if j = i then some (.put kmsg) else none
| .taken _ j kmsg seqno =>
    if j = i then some (.take kmsg seqno) else none
| .returned _ _ _ _ => none
| .seqnoSet j seqno =>
    if j = i then some (.renumber seqno) else none
| .destroyed j => if j = i then some .close else none

/- What an event is for a receiver. -/
def receiverEvent
    (t : Nat) :
    QueueEvent → Option (SlotEvent (Nat × Nat × Nat))
| .taken u j kmsg seqno =>
    if u = t then some (.fill (j, kmsg, seqno)) else none
| .returned u j kmsg seqno =>
    if u = t then some (.drain (j, kmsg, seqno)) else none
| _ => none

/- The messages of a port in a list of messages. -/
def kmsgsOf (i : Nat) (kmsgs : List Kmsg) : List Nat :=
  (kmsgs.filter (fun k => k.msghRemotePort = i)).map
    Kmsg.ikmId

namespace RcvSystem

/- The messages of a port that are on its queue. -/
def queued (s : RcvSystem) (i : Nat) : List Nat :=
  kmsgsOf i (s.mqueues (s.queueOf i)).imqMessages

/- A port, with messages at hand, as a queue. -/
def fifo
    (s : RcvSystem)
    (hand : List Kmsg)
    (i : Nat) : Fifo Nat :=
  ⟨s.queued i ++ kmsgsOf i hand, (s.ports i).ipSeqno,
    (s.ports i).ipActive⟩

/- The message that a receiver has been given. -/
def pending
    (s : RcvSystem)
    (t : Nat) : Option (Nat × Nat × Nat) :=
  match (s.threads t).ithState with
  | .msgSuccess kmsg seqno =>
      some (kmsg.msghRemotePort, kmsg.ikmId, seqno)
  | _ => none

end RcvSystem

/-
  Some events lead from one state, with messages at hand, to
  another, for every port and every receiver.
-/
structure Refines
    (s : RcvSystem)
    (hand : List Kmsg)
    (s' : RcvSystem)
    (hand' : List Kmsg)
    (events : List QueueEvent) : Prop where
  ports :
    ∀ i, Fifo.run seqnoModulus (s.fifo hand i)
      (events.filterMap (portEvent i)) =
        some (s'.fifo hand' i)
  receivers :
    ∀ t, slotRun (s.pending t)
      (events.filterMap (receiverEvent t)) =
        some (s'.pending t)

------
-- Messages of a Port
------

section Kmsgs

variable {i j : Nat} {kmsg : Kmsg} {kmsgs kmsgs' : List Kmsg}

theorem kmsgsOf_append :
    kmsgsOf i (kmsgs ++ kmsgs') =
      kmsgsOf i kmsgs ++ kmsgsOf i kmsgs' := by
  unfold kmsgsOf
  rw [filter_append, map_append]

theorem kmsgsOf_cons_self
    (hPort : kmsg.msghRemotePort = i) :
    kmsgsOf i (kmsg :: kmsgs) =
      kmsg.ikmId :: kmsgsOf i kmsgs := by
  unfold kmsgsOf
  rw [filter_cons_of_pos (by simpa using hPort)]
  rfl

theorem kmsgsOf_cons_of_ne
    (hPort : kmsg.msghRemotePort ≠ i) :
    kmsgsOf i (kmsg :: kmsgs) = kmsgsOf i kmsgs := by
  unfold kmsgsOf
  rw [filter_cons_of_neg (by simpa using hPort)]

theorem kmsgsOf_eq_nil
    (hNone : ∀ kmsg ∈ kmsgs, kmsg.msghRemotePort ≠ i) :
    kmsgsOf i kmsgs = [] := by
  unfold kmsgsOf
  have hFilter : kmsgs.filter
      (fun k => k.msghRemotePort = i) = [] := by
    rw [filter_eq_nil_iff]
    intro k hk
    simpa using hNone k hk
  rw [hFilter]
  rfl

/- The messages of another port stay. -/
theorem kmsgsOf_filter_other
    (hNe : j ≠ i) :
    kmsgsOf j
        (kmsgs.filter (fun k => k.msghRemotePort ≠ i)) =
      kmsgsOf j kmsgs := by
  unfold kmsgsOf
  rw [filter_filter]
  congr 1
  apply filter_congr
  intro k _
  by_cases h : k.msghRemotePort = j
  · simp [h, hNe]
  · simp [h]

end Kmsgs

------
-- Refinement
------

namespace Refines

variable {s s' s'' : RcvSystem} {hand hand' hand'' : List Kmsg}
variable {events events' : List QueueEvent} {r : MqueueRef}
variable {kmsg : Kmsg} {i t : Nat}

theorem trans
    (h : Refines s hand s' hand' events)
    (h' : Refines s' hand' s'' hand'' events') :
    Refines s hand s'' hand'' (events ++ events') := by
  constructor
  · intro i
    rw [filterMap_append, Fifo.run_append, h.ports i]
    exact h'.ports i
  · intro t
    rw [filterMap_append]
    unfold slotRun
    rw [foldlM_append]
    have hFirst := h.receivers t
    unfold slotRun at hFirst
    rw [hFirst]
    exact h'.receivers t

/- Nothing happens, as ports and receivers see it. -/
theorem quiet
    (hPorts : ∀ i, s.fifo hand i = s'.fifo hand' i)
    (hReceivers : ∀ t, s.pending t = s'.pending t) :
    Refines s hand s' hand' [] := by
  constructor
  · intro i
    rw [hPorts i]
    rfl
  · intro t
    rw [hReceivers t]
    rfl

theorem refl : Refines s hand s hand [] :=
  quiet (fun _ => rfl) (fun _ => rfl)

/- Only threads change that have no message. -/
theorem setThread
    {thread : RcvThread}
    (hSame : s.pending t = (s.setThread t thread).pending t) :
    Refines s hand (s.setThread t thread) hand [] := by
  apply quiet
  · intro i
    rfl
  · intro u
    by_cases hu : u = t
    · rw [hu]
      exact hSame
    · unfold RcvSystem.pending
      rw [RcvSystem.setThread_of_ne hu]

/- The receivers of a queue are not seen. -/
theorem setThreads
    (ths : List Nat) :
    Refines s hand (s.setThreads r ths) hand [] := by
  apply quiet
  · intro i
    unfold RcvSystem.fifo RcvSystem.queued
    have hMessages := @RcvSystem.setThreads_messages s r
      (s.queueOf i) ths
    have hQueue : (s.setThreads r ths).queueOf i =
        s.queueOf i := rfl
    rw [hQueue, hMessages]
    rfl
  · intro t
    rfl

/- A thread that waits has been given nothing. -/
theorem pending_of_inProgress
    (hIn : (s.threads t).InProgress) :
    s.pending t = none := by
  rcases hIn with ⟨timed, hState⟩
  unfold RcvSystem.pending
  rw [hState]

theorem pending_of_outside
    (hCore : RcvCore s)
    (hIdle : (s.threads t).phase = .outside) :
    s.pending t = none := by
  unfold RcvSystem.pending
  rw [(hCore.sound t).outside.mp hIdle]

/- A thread in no receive has been given nothing. -/
theorem pending_idle :
    (s.setThread t RcvThread.idle).pending t = none := by
  unfold RcvSystem.pending
  rw [RcvSystem.setThread_self]
  rfl

/- A port takes the next number. -/
theorem fifo_countSeqno :
    (s.countSeqno i).fifo hand i =
      { s.fifo hand i with
        number :=
          ((s.ports i).ipSeqno + 1) % seqnoModulus } := by
  have hPort : (s.countSeqno i).ports i =
      { s.ports i with
        ipSeqno :=
          ((s.ports i).ipSeqno + 1) % seqnoModulus } :=
    RcvSystem.setPort_self
  have hQueue : (s.countSeqno i).queueOf i =
      s.queueOf i := by
    unfold RcvSystem.queueOf
    rw [hPort]
  unfold RcvSystem.fifo RcvSystem.queued
  rw [hQueue, hPort]
  rfl

theorem fifo_countSeqno_of_ne
    {j : Nat}
    (hNe : j ≠ i) :
    (s.countSeqno i).fifo hand j = s.fifo hand j := by
  have hPort : (s.countSeqno i).ports j = s.ports j :=
    RcvSystem.setPort_of_ne hNe
  have hQueue : (s.countSeqno i).queueOf j =
      s.queueOf j := by
    unfold RcvSystem.queueOf
    rw [hPort]
  unfold RcvSystem.fifo RcvSystem.queued
  rw [hQueue, hPort]
  rfl

/-
  The first message of a port, at the front of its queue or
  at hand, is handed to a thread.
-/
theorem taken
    {thread : RcvThread}
    (hFifo : ∀ j, s.fifo hand j =
      if j = kmsg.msghRemotePort then
        { s'.fifo hand' j with
          items := kmsg.ikmId :: (s'.fifo hand' j).items }
      else s'.fifo hand' j)
    (hPending : ∀ u, s.pending u = s'.pending u)
    (hNone : s.pending t = none)
    (hState : thread.ithState =
      .msgSuccess kmsg
        (s'.ports kmsg.msghRemotePort).ipSeqno) :
    Refines s hand
      ((s'.countSeqno kmsg.msghRemotePort).setThread t thread)
      hand'
      [.taken t kmsg.msghRemotePort kmsg.ikmId
        (s'.ports kmsg.msghRemotePort).ipSeqno] := by
  constructor
  · intro j
    have hAfter : ((s'.countSeqno
        kmsg.msghRemotePort).setThread t thread).fifo hand'
          j = (s'.countSeqno kmsg.msghRemotePort).fifo hand'
            j := rfl
    rw [hAfter, hFifo j]
    by_cases hj : j = kmsg.msghRemotePort
    · subst hj
      rw [if_pos rfl, fifo_countSeqno]
      have hEvent : portEvent kmsg.msghRemotePort
          (.taken t kmsg.msghRemotePort kmsg.ikmId
            (s'.ports kmsg.msghRemotePort).ipSeqno) =
          some (.take kmsg.ikmId
            (s'.ports kmsg.msghRemotePort).ipSeqno) :=
        if_pos rfl
      rw [filterMap_cons, hEvent, filterMap_nil,
        Fifo.run_singleton]
      exact if_pos ⟨rfl, rfl⟩
    · rw [if_neg hj, fifo_countSeqno_of_ne hj]
      have hEvent : portEvent j
          (.taken t kmsg.msghRemotePort kmsg.ikmId
            (s'.ports kmsg.msghRemotePort).ipSeqno) =
          none := if_neg (Ne.symm hj)
      rw [filterMap_cons, hEvent]
      rfl
  · intro u
    by_cases hu : u = t
    · subst hu
      have hEvent : receiverEvent u
          (.taken u kmsg.msghRemotePort kmsg.ikmId
            (s'.ports kmsg.msghRemotePort).ipSeqno) =
          some (.fill (kmsg.msghRemotePort, kmsg.ikmId,
            (s'.ports kmsg.msghRemotePort).ipSeqno)) :=
        if_pos rfl
      have hAfter : ((s'.countSeqno
          kmsg.msghRemotePort).setThread u thread).pending u =
          some (kmsg.msghRemotePort, kmsg.ikmId,
            (s'.ports kmsg.msghRemotePort).ipSeqno) := by
        unfold RcvSystem.pending
        rw [RcvSystem.setThread_self, hState]
      rw [filterMap_cons, hEvent, hNone, hAfter]
      rfl
    · have hEvent : receiverEvent u
          (.taken t kmsg.msghRemotePort kmsg.ikmId
            (s'.ports kmsg.msghRemotePort).ipSeqno) =
          none := if_neg (Ne.symm hu)
      have hAfter : ((s'.countSeqno
          kmsg.msghRemotePort).setThread t thread).pending u =
          s'.pending u := by
        unfold RcvSystem.pending
        rw [RcvSystem.setThread_of_ne hu]
        rfl
      rw [filterMap_cons, hEvent, hPending u, hAfter]
      rfl

/- A thread returns with the message it was given. -/
theorem returned
    {seqno : Nat}
    (hPending : s.pending t =
      some (kmsg.msghRemotePort, kmsg.ikmId, seqno)) :
    Refines s hand (s.setThread t RcvThread.idle) hand
      [.returned t kmsg.msghRemotePort kmsg.ikmId
        seqno] := by
  constructor
  · intro j
    rfl
  · intro u
    by_cases hu : u = t
    · subst hu
      have hEvent : receiverEvent u
          (.returned u kmsg.msghRemotePort kmsg.ikmId
            seqno) =
          some (.drain (kmsg.msghRemotePort, kmsg.ikmId,
            seqno)) := if_pos rfl
      rw [filterMap_cons, hEvent, hPending,
        pending_idle, filterMap_nil, slotRun_singleton]
      exact if_pos rfl
    · have hEvent : receiverEvent u
          (.returned t kmsg.msghRemotePort kmsg.ikmId
            seqno) = none := if_neg (Ne.symm hu)
      have hAfter : (s.setThread t RcvThread.idle).pending
          u = s.pending u := by
        unfold RcvSystem.pending
        rw [RcvSystem.setThread_of_ne hu]
      rw [filterMap_cons, hEvent, hAfter]
      rfl

/- A message at hand goes to a receiver or on the queue. -/
theorem give
    (hCore : RcvCore s)
    (hHome : s.queueOf kmsg.msghRemotePort = r) :
    Refines s (kmsg :: hand) (s.giveKmsg r kmsg).1 hand
      (s.giveKmsg r kmsg).2 := by
  unfold RcvSystem.giveKmsg
  cases hList : (s.mqueues r).imqThreads with
  | nil =>
      apply quiet
      · intro j
        unfold RcvSystem.fifo RcvSystem.queued
        have hQueue : (s.setMessages r
            ((s.mqueues r).imqMessages ++ [kmsg])).queueOf
              j = s.queueOf j := rfl
        rw [hQueue]
        by_cases hj : s.queueOf j = r
        · have hOrder : kmsgsOf j (s.mqueues r).imqMessages ++
              kmsgsOf j (kmsg :: hand) =
              kmsgsOf j ((s.mqueues r).imqMessages ++
                [kmsg]) ++ kmsgsOf j hand := by
            rw [← kmsgsOf_append, ← kmsgsOf_append,
              append_assoc]
            rfl
          rw [hj, RcvSystem.setMessages_messages, hOrder]
          rfl
        · have hPort : kmsg.msghRemotePort ≠ j := by
            rintro rfl
            exact hj hHome
          rw [RcvSystem.setMessages_of_ne hj,
            kmsgsOf_cons_of_ne hPort]
          rfl
      · intro u
        rfl
  | cons th ths =>
      have hMem : th ∈ (s.mqueues r).imqThreads := by
        rw [hList]
        exact mem_cons_self ..
      have hIn := ((hCore.waiting r th).mp hMem).2
      have hThread := @RcvCore.handOver_sound s r th
        (.msgSuccess kmsg
          (s.ports kmsg.msghRemotePort).ipSeqno) hCore hMem
        (by simp) (by simp)
      have hNoMessage : (s.mqueues r).imqMessages = [] := by
        rcases hCore.apart r with h | h
        · rw [h] at hMem
          cases hMem
        · exact h
      apply @taken s (s.setThreads r ths) (kmsg :: hand) hand
        kmsg th
      · intro j
        have hSame : (s.setThreads r ths).fifo hand j =
            s.fifo hand j := by
          unfold RcvSystem.fifo RcvSystem.queued
          have hQueue : (s.setThreads r ths).queueOf j =
              s.queueOf j := rfl
          rw [hQueue, RcvSystem.setThreads_messages]
          rfl
        rw [hSame]
        unfold RcvSystem.fifo RcvSystem.queued
        split_ifs with hj
        · subst hj
          rw [hHome, hNoMessage, kmsgsOf_cons_self rfl]
          rfl
        · rw [kmsgsOf_cons_of_ne (Ne.symm hj)]
      · intro u
        rfl
      · exact pending_of_inProgress hIn
      · exact hThread.2.2

/- All messages at hand go to one queue. -/
theorem giveAll
    (kmsgs : List Kmsg)
    (hCore : RcvCore s)
    (hHome : ∀ kmsg ∈ kmsgs,
      s.queueOf kmsg.msghRemotePort = r ∧
        (s.ports kmsg.msghRemotePort).ipActive = true) :
    Refines s kmsgs (RcvSystem.giveAll r kmsgs s).1 []
      (RcvSystem.giveAll r kmsgs s).2 := by
  induction kmsgs generalizing s with
  | nil => exact refl
  | cons kmsg kmsgs ih =>
      have hFirst := hHome kmsg (mem_cons_self ..)
      have hSame := RcvSystem.giveKmsg_sameSets s r kmsg
      refine (give hCore hFirst.1).trans ?_
      apply ih (hCore.give hFirst.1 hFirst.2)
      intro k hk
      rw [hSame.queueOf, hSame.active]
      exact hHome k (mem_cons_of_mem _ hk)

/- The messages of a port are taken in hand. -/
theorem detach
    {nset : Option Nat}
    (hCore : RcvCore s) :
    Refines s [] (s.detached i nset) (s.ownKmsgs i) [] := by
  apply quiet
  · intro j
    unfold RcvSystem.fifo RcvSystem.queued
    by_cases hj : j = i
    · subst hj
      rw [kmsgsOf_eq_nil (RcvSystem.detached_none hCore _),
        RcvSystem.detached_port]
      unfold RcvSystem.ownKmsgs
      simp [kmsgsOf]
    · have hQueue : (s.detached i nset).queueOf j =
          s.queueOf j := by
        unfold RcvSystem.queueOf
        rw [RcvSystem.detached_port_of_ne hj]
      have hHand : kmsgsOf j (s.ownKmsgs i) = [] := by
        apply kmsgsOf_eq_nil
        intro k hk
        have h := (mem_filter.mp hk).2
        rw [decide_eq_true_eq] at h
        rw [h]
        exact Ne.symm hj
      rw [hQueue, RcvSystem.detached_port_of_ne hj, hHand,
        RcvSystem.detached_messages]
      split_ifs with hr
      · rw [kmsgsOf_filter_other hj, hr]
        rfl
      · rfl
  · intro t
    rfl

/- A port goes into a set or out of one. -/
theorem rehome
    {nset : Option Nat}
    (hCore : RcvCore s)
    (hHeld : nset = none ∨ s.Held i)
    (hActive : (s.ports i).ipActive = true) :
    Refines s []
      (RcvSystem.giveAll (RcvSystem.homeRef i nset)
        (s.ownKmsgs i) (s.detached i nset)).1 []
      (RcvSystem.giveAll (RcvSystem.homeRef i nset)
        (s.ownKmsgs i) (s.detached i nset)).2 :=
  (detach hCore).trans
    (giveAll _ (hCore.detach hHeld)
      (RcvSystem.detached_home hActive))

/- Receivers that are told why they are woken. -/
theorem changed
    {mr : RcvState}
    (hCore : RcvCore s)
    (hIdle : mr ≠ .idle)
    (hNot : ∀ timed, mr ≠ .inProgress timed)
    (hNone : ∀ kmsg seqno, mr ≠ .msgSuccess kmsg seqno) :
    Refines s hand (s.ipcMqueueChanged r mr) hand [] := by
  generalize hList : (s.mqueues r).imqThreads = ths
  induction ths generalizing s with
  | nil =>
      rw [RcvSystem.changed_nil mr hList]
      exact refl
  | cons th ths ih =>
      have hMem : th ∈ (s.mqueues r).imqThreads := by
        rw [hList]
        exact mem_cons_self ..
      have hIn := ((hCore.waiting r th).mp hMem).2
      have hThread := hCore.handOver_sound hMem hIdle hNot
      have hUnlink := hCore.unlinkFirst hList hThread.2.1
        hThread.1
      rw [RcvSystem.changed_cons mr hList]
      have hRest := ih hUnlink RcvSystem.setThreads_threads
      have hSet := @setThread (s.setThreads r ths) hand th
        (rcvGo { s.threads th with ithState := mr }) (by
          have hBefore : (s.setThreads r ths).pending th =
              none := pending_of_inProgress hIn
          rw [hBefore]
          unfold RcvSystem.pending
          rw [RcvSystem.setThread_self, hThread.2.2]
          cases mr with
          | msgSuccess kmsg seqno =>
              exact absurd rfl (hNone kmsg seqno)
          | idle | inProgress timed | portDied => rfl
          | portChanged => rfl)
      exact ((setThreads ths).trans hSet).trans hRest

------
-- Steps
------

/- A message is delivered: it is at hand, and then given. -/
theorem deliver
    (hCore : RcvCore s)
    (hActive : (s.ports i).ipActive = true)
    (kmsg : Nat) :
    Refines s [] (s.ipcMqueueDeliver i kmsg).1 []
      (s.ipcMqueueDeliver i kmsg).2 := by
  have hHand : Refines s [] s [⟨kmsg, i⟩]
      [.delivered i kmsg] := by
    constructor
    · intro j
      by_cases hj : j = i
      · subst hj
        have hEvent : portEvent j (.delivered j kmsg) =
            some (.put kmsg) := if_pos rfl
        rw [filterMap_cons, hEvent, filterMap_nil,
          Fifo.run_singleton]
        refine (if_pos hActive).trans ?_
        have hOne : kmsgsOf j [⟨kmsg, j⟩] = [kmsg] :=
          kmsgsOf_cons_self rfl
        unfold RcvSystem.fifo
        rw [append_assoc, hOne]
        rfl
      · have hEvent : portEvent j (.delivered i kmsg) =
            none := if_neg (Ne.symm hj)
        have hSame : s.fifo [⟨kmsg, i⟩] j =
            s.fifo [] j := by
          unfold RcvSystem.fifo
          rw [kmsgsOf_cons_of_ne (Ne.symm hj)]
        rw [filterMap_cons, hEvent, hSame]
        rfl
    · intro t
      rfl
  have hGive := @give s [] (s.queueOf i) ⟨kmsg, i⟩ hCore rfl
  exact hHand.trans hGive

theorem setThread_twice
    {thread thread' : RcvThread} :
    (s.setThread t thread).setThread t thread' =
      s.setThread t thread' := by
  unfold RcvSystem.setThread
  rw [Function.update_idem]

/- A thread that was given nothing leaves its receive. -/
theorem leave
    (hNone : s.pending t = none) :
    Refines s hand (s.setThread t RcvThread.idle) hand [] :=
  setThread (hNone.trans pending_idle.symm)

/- A receiver takes the first message, or waits. -/
theorem receiveTurn
    (hCore : RcvCore s)
    (hNone : s.pending t = none)
    (timeout : Option Nat) :
    Refines s [] (s.receiveTurn t r timeout).1 []
      (s.receiveTurn t r timeout).2 := by
  unfold RcvSystem.receiveTurn
  cases hList : (s.mqueues r).imqMessages with
  | cons kmsg kmsgs =>
      have hHome := (hCore.home r kmsg (by
        rw [hList]
        exact mem_cons_self ..)).1
      dsimp only
      -- the message is in the thread's hands for a moment
      have hTaken := @taken s (s.setMessages r kmsgs) [] []
        kmsg t
        ⟨.outside, .msgSuccess kmsg
          (s.ports kmsg.msghRemotePort).ipSeqno, r⟩ (by
          intro j
          unfold RcvSystem.fifo RcvSystem.queued
          have hQueue : (s.setMessages r kmsgs).queueOf j =
              s.queueOf j := rfl
          rw [hQueue]
          split_ifs with hj
          · subst hj
            rw [hHome, hList, kmsgsOf_cons_self rfl,
              RcvSystem.setMessages_messages]
            rfl
          · by_cases hr : s.queueOf j = r
            · rw [hr, hList, kmsgsOf_cons_of_ne (Ne.symm hj),
                RcvSystem.setMessages_messages]
              rfl
            · rw [RcvSystem.setMessages_of_ne hr]
              rfl)
        (fun _ => rfl) hNone rfl
      have hReturned := @returned
        (((s.setMessages r kmsgs).countSeqno
          kmsg.msghRemotePort).setThread t
            ⟨.outside, .msgSuccess kmsg
              (s.ports kmsg.msghRemotePort).ipSeqno, r⟩) []
        kmsg t (s.ports kmsg.msghRemotePort).ipSeqno (by
          unfold RcvSystem.pending
          rw [RcvSystem.setThread_self])
      have hBoth := hTaken.trans hReturned
      rw [setThread_twice] at hBoth
      exact hBoth
  | nil =>
      split_ifs with hTime
      · exact leave hNone
      · apply (setThreads _).trans
        apply setThread
        have hBefore : (s.setThreads r
            ((s.mqueues r).imqThreads ++ [t])).pending t =
            none := hNone
        rw [hBefore]
        unfold RcvSystem.pending
        rw [RcvSystem.setThread_self]

/- A port leaves its set. -/
theorem remove
    {q : Nat}
    (hInv : RcvInv s)
    (hPset : (s.ports i).ipPset = some q) :
    Refines s [] (s.ipcPsetRemove q i).1 []
      (s.ipcPsetRemove q i).2 := by
  rw [RcvSystem.remove_eq hPset]
  exact rehome hInv.toRcvCore (Or.inl rfl)
    (hInv.held_of_pset hPset).1

/- A port goes into a set. -/
theorem add
    {q : Nat}
    (hInv : RcvInv s)
    (hHeld : s.Held i)
    (hPset : (s.ports i).ipPset = none) :
    Refines s [] (s.ipcPsetAdd q i).1 []
      (s.ipcPsetAdd q i).2 := by
  rw [RcvSystem.add_eq q hPset]
  have hRehomed := @Rehomed.giveAll s i (some q)
    hInv.toRcvCore (Or.inr hHeld) hHeld.1
  have hMoved := @rehome s i (some q) hInv.toRcvCore
    (Or.inr hHeld) hHeld.1
  have hChanged := @changed _ [] (.ofPort i) .portChanged
    hRehomed.core (by simp) (by simp) (by simp)
  have hAll := hMoved.trans hChanged
  rw [append_nil] at hAll
  exact hAll

/- A port is moved between sets. -/
theorem psetMove
    (hInv : RcvInv s)
    (hHeld : s.Held i)
    (nset : Option Nat) :
    Refines s [] (s.ipcPsetMove i nset).1 []
      (s.ipcPsetMove i nset).2 := by
  unfold RcvSystem.ipcPsetMove
  dsimp only
  split_ifs with hEq
  · exact refl
  · cases hOset : (s.ports i).ipPset with
    | none =>
        cases nset with
        | none => exact refl
        | some q => exact add hInv hHeld hOset
    | some q =>
        rcases hInv.remove hOset with ⟨hNew, hRehomed, _⟩
        cases nset with
        | none => exact remove hInv hOset
        | some q' =>
            apply (remove hInv hOset).trans
            apply add hNew _ hRehomed.pset
            unfold RcvSystem.Held
            rw [hRehomed.active, hRehomed.receiver]
            exact hHeld

/- A port is taken out of a dead set. -/
theorem dropDeadSet
    (hInv : RcvInv s) :
    Refines s [] (s.dropDeadSet i).1 []
      (s.dropDeadSet i).2 := by
  unfold RcvSystem.dropDeadSet
  cases hPset : (s.ports i).ipPset with
  | none => exact refl
  | some q =>
      dsimp only
      split_ifs with hActive
      · exact refl
      · exact remove hInv hPset

theorem receiveFromPort
    (hInv : RcvInv s)
    (hIdle : (s.threads t).phase = .outside)
    (timeout : Option Nat) :
    Refines s [] (s.receiveFromPort t i timeout).1 []
      (s.receiveFromPort t i timeout).2 := by
  rcases @RcvInv.dropDeadSet s i hInv with ⟨hNew, hThreads, _⟩
  unfold RcvSystem.receiveFromPort
  dsimp only
  split_ifs with hPset
  · apply (dropDeadSet hInv).trans
    apply receiveTurn hNew.toRcvCore
    apply pending_of_outside hNew.toRcvCore
    rw [hThreads]
    exact hIdle
  · exact dropDeadSet hInv

/- A receiver comes back from its wait. -/
theorem resume
    (hCore : RcvCore s)
    (result : WaitResult) :
    Refines s [] (s.ipcMqueueResume t result).1 []
      (s.ipcMqueueResume t result).2 := by
  unfold RcvSystem.ipcMqueueResume
  dsimp only
  cases hState : (s.threads t).ithState with
  | idle => exact refl
  | msgSuccess kmsg seqno =>
      apply returned
      unfold RcvSystem.pending
      rw [hState]
  | portDied | portChanged =>
      apply leave
      unfold RcvSystem.pending
      rw [hState]
  | inProgress timed =>
      generalize hr : (s.threads t).mqueue = r
      have hMem : t ∈ (s.mqueues r).imqThreads :=
        (hCore.waiting r t).mpr ⟨hr, timed, hState⟩
      have hNone : s.pending t = none :=
        pending_of_inProgress ⟨timed, hState⟩
      have hNoMessage : (s.mqueues r).imqMessages = [] := by
        rcases hCore.apart r with h | h
        · rw [h] at hMem
          cases hMem
        · exact h
      have hOff := @setThreads s [] r
        ((s.mqueues r).imqThreads.erase t)
      have hDone := hOff.trans (leave hNone)
      cases result with
      | interrupted => exact hDone
      | timedOut =>
          unfold RcvSystem.receiveTurn
          rw [RcvSystem.setThreads_messages, hNoMessage]
          exact hDone
      | awakened => exact hOff

/- The number of a port is set. -/
theorem setPort
    {port : RcvPort}
    (hPset : port.ipPset = (s.ports i).ipPset)
    (hActive : port.ipActive = (s.ports i).ipActive)
    (hLt : port.ipSeqno < seqnoModulus) :
    Refines s hand (s.setPort i port) hand
      [.seqnoSet i port.ipSeqno] := by
  constructor
  · intro j
    by_cases hj : j = i
    · subst hj
      have hEvent : portEvent j (.seqnoSet j port.ipSeqno) =
          some (.renumber port.ipSeqno) := if_pos rfl
      have hQueue : (s.setPort j port).queueOf j =
          s.queueOf j := by
        unfold RcvSystem.queueOf
        rw [RcvSystem.setPort_self, hPset]
      rw [filterMap_cons, hEvent, filterMap_nil,
        Fifo.run_singleton]
      refine (if_pos hLt).trans ?_
      unfold RcvSystem.fifo RcvSystem.queued
      rw [hQueue, RcvSystem.setPort_self, hActive]
      rfl
    · have hEvent : portEvent j (.seqnoSet i port.ipSeqno) =
          none := if_neg (Ne.symm hj)
      have hQueue : (s.setPort i port).queueOf j =
          s.queueOf j := by
        unfold RcvSystem.queueOf
        rw [RcvSystem.setPort_of_ne hj]
      rw [filterMap_cons, hEvent]
      unfold RcvSystem.fifo RcvSystem.queued
      rw [hQueue, RcvSystem.setPort_of_ne hj]
      rfl
  · intro t
    rfl

/- The receive right of a port leaves its space. -/
theorem clearReceiver
    (hInv : RcvInv s) :
    Refines s [] (s.ipcPortClearReceiver i).1 []
      (s.ipcPortClearReceiver i).2 := by
  have hZero : 0 < seqnoModulus := by decide
  unfold RcvSystem.ipcPortClearReceiver
  cases hPset : (s.ports i).ipPset with
  | some q =>
      apply (remove hInv hPset).trans
      exact setPort rfl rfl hZero
  | none =>
      have hChanged := @changed s [] (.ofPort i) .portDied
        hInv.toRcvCore (by simp) (by simp) (by simp)
      apply hChanged.trans
      exact setPort rfl rfl hZero

/- The receive right of a port comes into a space. -/
theorem setReceiver :
    Refines s []
      (s.setPort i { s.ports i with ipReceiver := true }) []
      [] := by
  apply quiet
  · intro j
    unfold RcvSystem.fifo RcvSystem.queued RcvSystem.queueOf
    by_cases hj : j = i
    · subst hj
      rw [RcvSystem.setPort_self]
      rfl
    · rw [RcvSystem.setPort_of_ne hj]
      rfl
  · intro t
    rfl

/- A port in limbo dies, and its messages with it. -/
theorem destroy
    (hInv : RcvInv s)
    (hLimbo : (s.ports i).ipReceiver = false) :
    Refines s [] (s.ipcPortDestroy i).1 []
      (s.ipcPortDestroy i).2 := by
  have hPset := hInv.limbo i hLimbo
  have hHome : s.queueOf i = .ofPort i := by
    unfold RcvSystem.queueOf
    rw [hPset]
  unfold RcvSystem.ipcPortDestroy
  constructor
  · intro j
    by_cases hj : j = i
    · subst hj
      have hEvent : portEvent j (.destroyed j) =
          some .close := if_pos rfl
      have hPort : ((s.setPort j
          { s.ports j with ipActive := false }).setMessages
            (.ofPort j) []).ports j =
          { s.ports j with ipActive := false } :=
        RcvSystem.setPort_self
      have hQueue : ((s.setPort j
          { s.ports j with ipActive := false }).setMessages
            (.ofPort j) []).queueOf j = .ofPort j := by
        unfold RcvSystem.queueOf
        rw [hPort]
        exact hHome
      rw [filterMap_cons, hEvent, filterMap_nil,
        Fifo.run_singleton]
      unfold RcvSystem.fifo RcvSystem.queued
      rw [hQueue, hPort, RcvSystem.setMessages_messages]
      rfl
    · have hEvent : portEvent j (.destroyed i) = none :=
        if_neg (Ne.symm hj)
      have hPort : ((s.setPort i
          { s.ports i with ipActive := false }).setMessages
            (.ofPort i) []).ports j = s.ports j :=
        RcvSystem.setPort_of_ne hj
      have hQueue : ((s.setPort i
          { s.ports i with ipActive := false }).setMessages
            (.ofPort i) []).queueOf j = s.queueOf j := by
        unfold RcvSystem.queueOf
        rw [hPort]
      rw [filterMap_cons, hEvent]
      unfold RcvSystem.fifo RcvSystem.queued
      rw [hQueue, hPort]
      -- the queue of a dead port is read by no other port
      have hOther : s.queueOf j ≠ .ofPort i := by
        intro h
        unfold RcvSystem.queueOf at h
        cases hSet : (s.ports j).ipPset with
        | none =>
            rw [hSet] at h
            exact hj (MqueueRef.ofPort.inj h)
        | some q =>
            rw [hSet] at h
            cases h
      rw [RcvSystem.setMessages_of_ne hOther]
      rfl
  · intro t
    rfl

/- Every legal step is one of queues and receivers. -/
theorem step
    (hInv : RcvInv s)
    (op : RcvOp)
    (hLegal : s.Legal op) :
    Refines s [] (s.step op).1 [] (s.step op).2 := by
  have hCore := hInv.toRcvCore
  cases op with
  | deliver i kmsg => exact deliver hCore hLegal kmsg
  | receivePort t i timeout =>
      exact receiveFromPort hInv hLegal.1 timeout
  | receivePset t q timeout =>
      exact receiveTurn hCore
        (pending_of_outside hCore hLegal.1) timeout
  | resume t =>
      unfold RcvSystem.step
      dsimp only
      cases hPhase : (s.threads t).phase with
      | outside => exact refl
      | waiting => exact refl
      | resuming result => exact resume hCore result
  | expire t | interrupt t =>
      apply setThread
      unfold RcvSystem.pending
      rw [RcvSystem.setThread_self]
  | psetMove i nset => exact psetMove hInv hLegal.1 nset
  | psetDestroy q =>
      have hDead : RcvCore
          { s with
            ipsActive :=
              Function.update s.ipsActive q false } :=
        ⟨hInv.apart, hInv.home, hInv.dead, hInv.limbo,
          hInv.waiting, hInv.nodup, hInv.sound⟩
      have hChanged := @changed _ [] (.ofPset q) .portDied
        hDead (by simp) (by simp) (by simp)
      exact ⟨hChanged.ports, hChanged.receivers⟩
  | getStatus i => exact dropDeadSet hInv
  | setSeqno i seqno =>
      apply (dropDeadSet hInv).trans
      exact @setPort _ [] i
        { (s.dropDeadSet i).1.ports i with ipSeqno := seqno }
        rfl rfl hLegal.2
  | clearReceiver i => exact clearReceiver hInv
  | setReceiver i => exact setReceiver
  | destroy i => exact destroy hInv hLegal.2

end Refines

------
-- Runs
------

theorem RcvRun.refines
    {s : RcvSystem}
    {events : List QueueEvent}
    (hRun : RcvRun s events) :
    Refines RcvSystem.init [] s [] events := by
  induction hRun with
  | init => exact Refines.refl
  | step hRun op hLegal ih =>
      exact ih.trans (Refines.step hRun.rcvInv op hLegal)

/- The messages delivered to a port. -/
def deliveredOf
    (i : Nat)
    (events : List QueueEvent) : List Nat :=
  events.filterMap fun
    | .delivered j kmsg => if j = i then some kmsg else none
    | _ => none

/- The messages of a port given to receivers. -/
def receivedOf
    (i : Nat)
    (events : List QueueEvent) : List Nat :=
  events.filterMap fun
    | .taken _ j kmsg _ => if j = i then some kmsg else none
    | _ => none

/- The sequence numbers handed out for a port. -/
def seqnosOf
    (i : Nat)
    (events : List QueueEvent) : List Nat :=
  events.filterMap fun
    | .taken _ j _ seqno =>
        if j = i then some seqno else none
    | _ => none

/- The port, message and number that a thread was given. -/
def givenTo
    (t : Nat)
    (events : List QueueEvent) : List (Nat × Nat × Nat) :=
  events.filterMap fun
    | .taken u j kmsg seqno =>
        if u = t then some (j, kmsg, seqno) else none
    | _ => none

/- The port, message and number a thread returned with. -/
def returnedBy
    (t : Nat)
    (events : List QueueEvent) : List (Nat × Nat × Nat) :=
  events.filterMap fun
    | .returned u j kmsg seqno =>
        if u = t then some (j, kmsg, seqno) else none
    | _ => none

section Projections

variable (i t : Nat) (events : List QueueEvent)

/- What the queue of a port delivers, returns and numbers. -/
theorem portEvents_eq :
    (events.filterMap (portEvent i)).filterMap
        FifoEvent.item? = deliveredOf i events ∧
      (events.filterMap (portEvent i)).filterMap
        FifoEvent.taken? = receivedOf i events ∧
      (events.filterMap (portEvent i)).filterMap
        FifoEvent.number? = seqnosOf i events := by
  simp only [filterMap_filterMap]
  refine ⟨?_, ?_, ?_⟩
  all_goals
    congr 1
    funext event
    cases event
    case returned => rfl
    all_goals
      unfold portEvent
      dsimp only
      split_ifs <;> rfl

/- What a thread is given and returns with. -/
theorem receiverEvents_eq :
    (events.filterMap (receiverEvent t)).filterMap
        SlotEvent.filled? = givenTo t events ∧
      (events.filterMap (receiverEvent t)).filterMap
        SlotEvent.drained? = returnedBy t events := by
  simp only [filterMap_filterMap]
  refine ⟨?_, ?_⟩
  all_goals
    congr 1
    funext event
    cases event
    case delivered => rfl
    case seqnoSet => rfl
    case destroyed => rfl
    all_goals
      unfold receiverEvent
      dsimp only
      split_ifs <;> rfl

end Projections

/-
  What is promised about the order of messages. Those
  received from a port are the first of those delivered to
  it, and while the port lives the rest is on its queue. The
  numbers handed out for a port, in any part of the run that
  does not set its number, are consecutive 32-bit words. A
  thread returns with the messages it was given, in order,
  but for one that it may still have.
-/
structure Ordered
    (s : RcvSystem)
    (events : List QueueEvent) : Prop where
  firstPart :
    ∀ i, receivedOf i events <+: deliveredOf i events
  noneLost :
    ∀ i, (s.ports i).ipActive = true →
      deliveredOf i events = receivedOf i events ++ s.queued i
  consecutive :
    ∀ i before during after,
      events = before ++ (during ++ after) →
      (∀ seqno, .seqnoSet i seqno ∉ during) →
      ∃ start, seqnosOf i during =
        (List.range (seqnosOf i during).length).map
          (fun k => (start + k) % seqnoModulus)
  returned :
    ∀ t, givenTo t events =
      returnedBy t events ++ (s.pending t).toList

/- No event of the port renumbers it. -/
theorem not_renumbers
    {i : Nat}
    {events : List QueueEvent}
    (hKeep : ∀ seqno, .seqnoSet i seqno ∉ events) :
    ∀ event ∈ events.filterMap (portEvent i),
      ¬ event.Renumbers := by
  intro event hEvent
  rcases mem_filterMap.mp hEvent with ⟨source, hMem, hEq⟩
  intro hRenumbers
  cases source with
  | delivered j kmsg | taken u j kmsg seqno | destroyed j =>
      unfold portEvent at hEq
      dsimp only at hEq
      split_ifs at hEq
      cases hEq
      exact hRenumbers
  | returned u j kmsg seqno => cases hEq
  | seqnoSet j seqno =>
      unfold portEvent at hEq
      dsimp only at hEq
      split_ifs at hEq with hj
      rw [hj] at hMem
      exact hKeep seqno hMem

/- Messages of a port are received in order. -/
theorem rcvRun_ordered
    {s : RcvSystem}
    {events : List QueueEvent}
    (hRun : RcvRun s events) :
    Ordered s events := by
  have hRefines := hRun.refines
  have hZero : 0 < seqnoModulus := by decide
  refine ⟨?_, ?_, ?_, ?_⟩
  · intro i
    rcases portEvents_eq i events with ⟨hItems, hTaken, _⟩
    have hFirst := Fifo.takes_prefix (hRefines.ports i)
    rw [hTaken, hItems] at hFirst
    exact hFirst
  · intro i hActive
    rcases portEvents_eq i events with ⟨hItems, hTaken, _⟩
    have hAll := Fifo.puts_eq (hRefines.ports i) hActive
    rw [hTaken, hItems] at hAll
    have hQueued : (s.fifo [] i).items = s.queued i :=
      append_nil _
    rw [hQueued] at hAll
    exact hAll
  · intro i before during after hEq hKeep
    have hPort := hRefines.ports i
    rw [hEq, filterMap_append, filterMap_append] at hPort
    rcases Fifo.run_append_some hPort with
      ⟨start, hBefore, hRest⟩
    rcases Fifo.run_append_some hRest with
      ⟨stop, hDuring, _⟩
    have hNumbers := Fifo.numbers_eq
      (Fifo.number_lt hZero hBefore) hDuring
      (not_renumbers hKeep)
    rw [(portEvents_eq i during).2.2] at hNumbers
    exact ⟨start.number, hNumbers⟩
  · intro t
    have hFills := slotRun_fills (hRefines.receivers t)
    rcases receiverEvents_eq t events with
      ⟨hGiven, hReturned⟩
    rw [hGiven, hReturned] at hFills
    exact hFills

/-
  A thread waits on a set. A port with two messages goes
  into the set and comes out of it again; then another
  thread receives from the port.
-/
def throughSetOps : List RcvOp :=
  joinOps ++
    [.setSeqno 1 40, .psetMove 1 none, .resume 7,
      .receivePort 8 1 none]

/- Both messages are received, in order. -/
theorem rcvRun_ordered_throughSet :
    Ordered (RcvSystem.init.runOps throughSetOps).1
        (RcvSystem.init.runOps throughSetOps).2 ∧
      (RcvSystem.init.runOps throughSetOps).2 =
        [.delivered 1 10, .delivered 1 11, .taken 7 1 10 0,
          .seqnoSet 1 40, .returned 7 1 10 0,
          .taken 8 1 11 40, .returned 8 1 11 40] := by
  have hLegal : RcvSystem.init.LegalRun throughSetOps := by
    refine ⟨⟨rfl, rfl⟩, rfl, rfl, ⟨⟨rfl, rfl⟩, ?_⟩,
      ⟨⟨rfl, rfl⟩, by decide⟩, ⟨⟨rfl, rfl⟩, ?_⟩,
      ⟨by decide, by decide⟩, ⟨rfl, ⟨rfl, rfl⟩⟩, trivial⟩
    · intro q _
      rfl
    · intro q h
      cases h
  exact ⟨rcvRun_ordered
    (RcvRun.runOps throughSetOps RcvRun.init hLegal), rfl⟩

end Ipc

end OsfMach
