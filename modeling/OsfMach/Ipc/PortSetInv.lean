import OsfMach.Ipc.PortSet

/-
  What holds of the queues of ports and port sets.

  A message is on the queue that its port reads from, so a
  port in a set has nothing on its own queue. No queue holds
  a message while a receiver waits on it, and receivers wait
  only on queues that can be received from.

  Main declarations:
    * `RcvCore`, `RcvInv`
    * `RcvSystem.giveAll`
    * `RcvCore.rethread`, `RcvCore.detach`
    * `RcvCore.giveAll`, `RcvCore.changed`
    * `RcvSystem.move_eq`
-/

------
-- Fields
------

namespace OsfMach

namespace Ipc

open Function
open List

namespace RcvSystem

variable {s : RcvSystem} {r r' : MqueueRef} {kmsgs : List Kmsg}
variable {ths : List Nat} {i j t u : Nat}
variable {q : Mqueue} {thread : RcvThread} {port : RcvPort}

@[simp] theorem setMqueue_self :
    (s.setMqueue r q).mqueues r = q :=
  update_self ..

theorem setMqueue_of_ne
    (hNe : r' ≠ r) :
    (s.setMqueue r q).mqueues r' = s.mqueues r' :=
  update_of_ne hNe ..

@[simp] theorem setMessages_messages :
    ((s.setMessages r kmsgs).mqueues r).imqMessages =
      kmsgs := by
  unfold setMessages
  rw [setMqueue_self]

@[simp] theorem setThreads_threads :
    ((s.setThreads r ths).mqueues r).imqThreads = ths := by
  unfold setThreads
  rw [setMqueue_self]

/- The receivers stay when the messages change. -/
@[simp] theorem setMessages_threads :
    ((s.setMessages r kmsgs).mqueues r').imqThreads =
      (s.mqueues r').imqThreads := by
  unfold setMessages
  by_cases h : r' = r
  · subst h
    rw [setMqueue_self]
  · rw [setMqueue_of_ne h]

/- The messages stay when the receivers change. -/
@[simp] theorem setThreads_messages :
    ((s.setThreads r ths).mqueues r').imqMessages =
      (s.mqueues r').imqMessages := by
  unfold setThreads
  by_cases h : r' = r
  · subst h
    rw [setMqueue_self]
  · rw [setMqueue_of_ne h]

theorem setMessages_of_ne
    (hNe : r' ≠ r) :
    (s.setMessages r kmsgs).mqueues r' = s.mqueues r' :=
  setMqueue_of_ne hNe

theorem setThreads_of_ne
    (hNe : r' ≠ r) :
    (s.setThreads r ths).mqueues r' = s.mqueues r' :=
  setMqueue_of_ne hNe

@[simp] theorem setThread_self :
    (s.setThread t thread).threads t = thread :=
  update_self ..

theorem setThread_of_ne
    (hNe : u ≠ t) :
    (s.setThread t thread).threads u = s.threads u :=
  update_of_ne hNe ..

@[simp] theorem setPort_self :
    (s.setPort i port).ports i = port :=
  update_self ..

theorem setPort_of_ne
    (hNe : j ≠ i) :
    (s.setPort i port).ports j = s.ports j :=
  update_of_ne hNe ..

/- Counting changes the sequence number only. -/
theorem countSeqno_same
    (s : RcvSystem)
    (i j : Nat) :
    ((s.countSeqno i).ports j).ipPset = (s.ports j).ipPset ∧
      ((s.countSeqno i).ports j).ipActive =
        (s.ports j).ipActive ∧
      ((s.countSeqno i).ports j).ipReceiver =
        (s.ports j).ipReceiver := by
  unfold countSeqno
  by_cases h : j = i
  · subst h
    rw [setPort_self]
    exact ⟨rfl, rfl, rfl⟩
  · rw [setPort_of_ne h]
    exact ⟨rfl, rfl, rfl⟩

/- Nothing changes when the messages are stored again. -/
theorem setMessages_same :
    s.setMessages r (s.mqueues r).imqMessages = s := by
  unfold setMessages setMqueue
  rw [update_eq_self]

theorem setMessages_twice
    {kmsgs' : List Kmsg} :
    (s.setMessages r kmsgs).setMessages r kmsgs' =
      s.setMessages r kmsgs' := by
  unfold setMessages
  rw [setMqueue_self]
  unfold setMqueue
  rw [update_idem]

theorem setThreads_twice
    {ths' : List Nat} :
    (s.setThreads r ths).setThreads r ths' =
      s.setThreads r ths' := by
  unfold setThreads
  rw [setMqueue_self]
  unfold setMqueue
  rw [update_idem]

end RcvSystem

------
-- The Invariant
------

/- A thread that waits for a message. -/
def RcvThread.InProgress (thread : RcvThread) : Prop :=
  ∃ timed, thread.ithState = .inProgress timed

/- What a thread is when it is in no receive, or in one. -/
structure RcvThread.Sound (thread : RcvThread) : Prop where
  outside :
    thread.phase = .outside ↔ thread.ithState = .idle
  waiting : thread.phase = .waiting → thread.InProgress
  awakened :
    thread.phase = .resuming .awakened → ¬ thread.InProgress

/- A queue that receivers may wait on. -/
def RcvSystem.Receivable
    (s : RcvSystem) : MqueueRef → Prop
| .ofPort i =>
    (s.ports i).ipReceiver = true ∧
      (s.ports i).ipPset = none
| .ofPset q => s.ipsActive q = true

/-
  What holds at all times, also while messages are moved
  from one queue to another.
-/
structure RcvCore (s : RcvSystem) : Prop where
  apart :
    ∀ r, (s.mqueues r).imqThreads = [] ∨
      (s.mqueues r).imqMessages = []
  home :
    ∀ r, ∀ kmsg ∈ (s.mqueues r).imqMessages,
      s.queueOf kmsg.msghRemotePort = r ∧
        (s.ports kmsg.msghRemotePort).ipActive = true
  dead :
    ∀ i, (s.ports i).ipActive = false →
      (s.ports i).ipReceiver = false
  limbo :
    ∀ i, (s.ports i).ipReceiver = false →
      (s.ports i).ipPset = none
  waiting :
    ∀ r t, t ∈ (s.mqueues r).imqThreads ↔
      (s.threads t).mqueue = r ∧ (s.threads t).InProgress
  nodup : ∀ r, (s.mqueues r).imqThreads.Nodup
  sound : ∀ t, (s.threads t).Sound

/- Receivers wait only where they may. -/
structure RcvInv (s : RcvSystem) : Prop
    extends RcvCore s where
  receivable :
    ∀ r, ¬ s.Receivable r → (s.mqueues r).imqThreads = []

theorem RcvInv.init : RcvInv RcvSystem.init where
  apart := fun _ => Or.inl rfl
  home := fun _ _ h => by cases h
  dead := fun _ h => by cases h
  limbo := fun _ h => by cases h
  waiting := by
    intro r t
    constructor
    · intro h
      cases h
    · rintro ⟨_, _, h⟩
      cases h
  nodup := fun _ => nodup_nil
  sound := fun _ => ⟨⟨fun _ => rfl, fun _ => rfl⟩,
    fun h => (by cases h), fun h => (by cases h)⟩
  receivable := fun _ _ => rfl

theorem RcvThread.sound_idle : RcvThread.idle.Sound :=
  ⟨⟨fun _ => rfl, fun _ => rfl⟩, fun h => (by cases h),
    fun h => (by cases h)⟩

theorem RcvThread.not_inProgress_idle :
    ¬ RcvThread.idle.InProgress := by
  rintro ⟨_, h⟩
  cases h

/- A thread that is woken with a result. -/
theorem rcvGo_sound
    {thread : RcvThread}
    {state : RcvState}
    (hSound : thread.Sound)
    (hIn : thread.InProgress)
    (hIdle : state ≠ .idle)
    (hNot : ∀ timed, state ≠ .inProgress timed) :
    (rcvGo { thread with ithState := state }).Sound ∧
      ¬ (rcvGo
        { thread with ithState := state }).InProgress ∧
      (rcvGo { thread with ithState := state }).ithState =
        state := by
  have hOutside : thread.phase ≠ .outside := by
    intro h
    rcases hIn with ⟨timed, hState⟩
    rw [hSound.outside.mp h] at hState
    cases hState
  have hOut : ∀ phase,
      ¬ RcvThread.InProgress ⟨phase, state, thread.mqueue⟩ := by
    rintro phase ⟨timed, h⟩
    exact hNot timed h
  unfold rcvGo
  split_ifs with hWait
  · refine ⟨⟨⟨?_, ?_⟩, ?_, fun _ => hOut _⟩, hOut _, rfl⟩
    · intro h
      cases h
    · intro h
      exact absurd h hIdle
    · intro h
      cases h
  · refine ⟨⟨⟨?_, ?_⟩, ?_, fun _ => hOut _⟩, hOut _, rfl⟩
    · intro h
      exact absurd h hOutside
    · intro h
      exact absurd h hIdle
    · intro h
      exact absurd h hWait

------
-- Small Changes
------

namespace RcvCore

variable {s : RcvSystem} {r : MqueueRef} {kmsgs : List Kmsg}
variable {ths : List Nat} {thread : RcvThread} {i t : Nat}

/- The messages of one queue change. -/
theorem setMessages
    (hInv : RcvCore s)
    (hApart : (s.mqueues r).imqThreads = [] ∨ kmsgs = [])
    (hHome : ∀ kmsg ∈ kmsgs,
      s.queueOf kmsg.msghRemotePort = r ∧
        (s.ports kmsg.msghRemotePort).ipActive = true) :
    RcvCore (s.setMessages r kmsgs) := by
  refine ⟨?_, ?_, hInv.dead, hInv.limbo, ?_, ?_, hInv.sound⟩
  · intro r'
    rw [RcvSystem.setMessages_threads]
    by_cases h : r' = r
    · subst h
      rw [RcvSystem.setMessages_messages]
      exact hApart
    · rw [RcvSystem.setMessages_of_ne h]
      exact hInv.apart r'
  · intro r' kmsg hMem
    by_cases h : r' = r
    · subst h
      rw [RcvSystem.setMessages_messages] at hMem
      exact hHome kmsg hMem
    · rw [RcvSystem.setMessages_of_ne h] at hMem
      exact hInv.home r' kmsg hMem
  · intro r' u
    rw [RcvSystem.setMessages_threads]
    exact hInv.waiting r' u
  · intro r'
    rw [RcvSystem.setMessages_threads]
    exact hInv.nodup r'

/- A port changes, but not its set. -/
theorem setPort
    {port : RcvPort}
    (hInv : RcvCore s)
    (hPset : port.ipPset = (s.ports i).ipPset)
    (hActive : port.ipActive = true ∨
      ∀ r, ∀ kmsg ∈ (s.mqueues r).imqMessages,
        kmsg.msghRemotePort ≠ i)
    (hDead : port.ipActive = false → port.ipReceiver = false)
    (hLimbo : port.ipReceiver = false → port.ipPset = none) :
    RcvCore (s.setPort i port) := by
  refine ⟨hInv.apart, ?_, ?_, ?_, hInv.waiting, hInv.nodup,
    hInv.sound⟩
  · intro r' kmsg hMem
    have hHome := hInv.home r' kmsg hMem
    unfold RcvSystem.queueOf at hHome ⊢
    by_cases h : kmsg.msghRemotePort = i
    · rw [h] at hHome ⊢
      rw [RcvSystem.setPort_self, hPset]
      refine ⟨hHome.1, ?_⟩
      rcases hActive with hActive | hNone
      · exact hActive
      · exact absurd h (hNone r' kmsg hMem)
    · rw [RcvSystem.setPort_of_ne h]
      exact hHome
  · intro j
    by_cases h : j = i
    · subst h
      rw [RcvSystem.setPort_self]
      exact hDead
    · rw [RcvSystem.setPort_of_ne h]
      exact hInv.dead j
  · intro j
    by_cases h : j = i
    · subst h
      rw [RcvSystem.setPort_self]
      exact hLimbo
    · rw [RcvSystem.setPort_of_ne h]
      exact hInv.limbo j

section

variable (hInv : RcvCore s)
include hInv

/- The sequence number of a port changes. -/
theorem setSeqno
    (seqno : Nat) :
    RcvCore
      (s.setPort i
        { s.ports i with ipSeqno := seqno }) := by
  apply @RcvCore.setPort s i
    { s.ports i with ipSeqno := seqno } hInv rfl _
    (hInv.dead i) (hInv.limbo i)
  by_cases hActive : (s.ports i).ipActive = true
  · exact Or.inl hActive
  · right
    rintro r' kmsg hMem rfl
    exact hActive (hInv.home r' kmsg hMem).2

/- A thread changes, and not where it waits. -/
theorem setThread
    (hSame : ∀ r, thread.mqueue = r ∧ thread.InProgress ↔
      (s.threads t).mqueue = r ∧ (s.threads t).InProgress)
    (hSound : thread.Sound) :
    RcvCore (s.setThread t thread) := by
  refine ⟨hInv.apart, hInv.home, hInv.dead, hInv.limbo, ?_,
    hInv.nodup, ?_⟩
  · intro r' u
    refine (hInv.waiting r' u).trans ?_
    by_cases h : u = t
    · subst h
      rw [RcvSystem.setThread_self]
      exact (hSame r').symm
    · rw [RcvSystem.setThread_of_ne h]
  · intro u
    by_cases h : u = t
    · subst h
      rw [RcvSystem.setThread_self]
      exact hSound
    · rw [RcvSystem.setThread_of_ne h]
      exact hInv.sound u

/- A thread that does not wait leaves its receive. -/
theorem leave
    (hOld : ¬ (s.threads t).InProgress) :
    RcvCore (s.setThread t RcvThread.idle) := by
  apply hInv.setThread _ RcvThread.sound_idle
  intro r'
  constructor
  · rintro ⟨_, h⟩
    exact absurd h RcvThread.not_inProgress_idle
  · rintro ⟨_, h⟩
    exact absurd h hOld

/-
  A thread changes together with the one queue that it
  waits on, before or after.
-/
theorem rethread
    (hOld : (s.threads t).InProgress →
      (s.threads t).mqueue = r)
    (hNew : thread.InProgress → thread.mqueue = r)
    (hThs : ∀ u, u ∈ ths ↔
      if u = t then thread.InProgress
      else u ∈ (s.mqueues r).imqThreads)
    (hNodup : ths.Nodup)
    (hApart : ths = [] ∨ (s.mqueues r).imqMessages = [])
    (hSound : thread.Sound) :
    RcvCore ((s.setThreads r ths).setThread t thread) := by
  have hList : (((s.setThreads r ths).setThread t
      thread).mqueues r).imqThreads = ths :=
    RcvSystem.setThreads_threads
  have hSame : ∀ r', r' ≠ r →
      ((s.setThreads r ths).setThread t thread).mqueues r' =
        s.mqueues r' :=
    fun r' h => RcvSystem.setThreads_of_ne h
  have hMessages : ∀ r', (((s.setThreads r ths).setThread t
      thread).mqueues r').imqMessages =
        (s.mqueues r').imqMessages :=
    fun r' => RcvSystem.setThreads_messages
  refine ⟨?_, ?_, hInv.dead, hInv.limbo, ?_, ?_, ?_⟩
  · intro r'
    rw [hMessages]
    by_cases hr : r' = r
    · subst hr
      rw [hList]
      exact hApart
    · rw [hSame r' hr]
      exact hInv.apart r'
  · intro r' kmsg hIn
    rw [hMessages] at hIn
    exact hInv.home r' kmsg hIn
  · intro r' u
    by_cases hr : r' = r
    · subst hr
      rw [hList, hThs u]
      by_cases hu : u = t
      · subst hu
        rw [if_pos rfl, RcvSystem.setThread_self]
        exact ⟨fun h => ⟨hNew h, h⟩, fun h => h.2⟩
      · rw [if_neg hu, RcvSystem.setThread_of_ne hu]
        exact hInv.waiting r' u
    · rw [hSame r' hr, hInv.waiting r' u]
      by_cases hu : u = t
      · -- it waits on neither side of the change
        subst hu
        rw [RcvSystem.setThread_self]
        constructor
        · rintro ⟨h, hIn⟩
          exact absurd (h.symm.trans (hOld hIn)) hr
        · rintro ⟨h, hIn⟩
          exact absurd (h.symm.trans (hNew hIn)) hr
      · rw [RcvSystem.setThread_of_ne hu]
        rfl
  · intro r'
    by_cases hr : r' = r
    · subst hr
      rw [hList]
      exact hNodup
    · rw [hSame r' hr]
      exact hInv.nodup r'
  · intro u
    by_cases hu : u = t
    · subst hu
      rw [RcvSystem.setThread_self]
      exact hSound
    · rw [RcvSystem.setThread_of_ne hu]
      exact hInv.sound u

/- A thread leaves the queue it waits on. -/
theorem unlink
    (hThs : ∀ u, u ∈ ths ↔
      u ≠ t ∧ u ∈ (s.mqueues r).imqThreads)
    (hNodup : ths.Nodup)
    (hMem : t ∈ (s.mqueues r).imqThreads)
    (hNew : ¬ thread.InProgress)
    (hSound : thread.Sound) :
    RcvCore ((s.setThreads r ths).setThread t thread) := by
  have hThread := (hInv.waiting r t).mp hMem
  apply hInv.rethread (fun _ => hThread.1)
    (fun h => absurd h hNew) _ hNodup _ hSound
  · intro u
    rw [hThs u]
    by_cases hu : u = t
    · rw [if_pos hu]
      exact ⟨fun h => absurd hu h.1, fun h => absurd h hNew⟩
    · rw [if_neg hu]
      exact ⟨fun h => h.2, fun h => ⟨hu, h⟩⟩
  · right
    rcases hInv.apart r with h | h
    · rw [h] at hMem
      cases hMem
    · exact h

/- The first receiver leaves the queue. -/
theorem unlinkFirst
    (hList : (s.mqueues r).imqThreads = t :: ths)
    (hNew : ¬ thread.InProgress)
    (hSound : thread.Sound) :
    RcvCore ((s.setThreads r ths).setThread t thread) := by
  have hNodup := hInv.nodup r
  rw [hList, nodup_cons] at hNodup
  apply hInv.unlink _ hNodup.2 _ hNew hSound
  · intro u
    rw [hList, mem_cons]
    constructor
    · intro hu
      refine ⟨?_, Or.inr hu⟩
      intro h
      exact hNodup.1 (h ▸ hu)
    · rintro ⟨hNe, hu | hu⟩
      · exact absurd hu hNe
      · exact hu
  · rw [hList]
    exact mem_cons_self ..

/- A thread that is in no receive goes to wait. -/
theorem link
    (hIdle : (s.threads t).phase = .outside)
    (hNone : (s.mqueues r).imqMessages = [])
    (timed : Bool) :
    RcvCore
      ((s.setThreads r
        ((s.mqueues r).imqThreads ++ [t])).setThread t
          ⟨.waiting, .inProgress timed, r⟩) := by
  have hOld : ¬ (s.threads t).InProgress := by
    rintro ⟨_, h⟩
    rw [(hInv.sound t).outside.mp hIdle] at h
    cases h
  have hOut : t ∉ (s.mqueues r).imqThreads := by
    intro h
    exact hOld ((hInv.waiting r t).mp h).2
  have hSound : RcvThread.Sound
      ⟨.waiting, .inProgress timed, r⟩ := by
    refine ⟨⟨?_, ?_⟩, fun _ => ⟨timed, rfl⟩, ?_⟩
    · intro h
      cases h
    · intro h
      cases h
    · intro h
      cases h
  have hHere : RcvThread.InProgress
      ⟨.waiting, .inProgress timed, r⟩ → r = r := fun _ => rfl
  apply hInv.rethread (fun h => absurd h hOld) hHere _ _
    (Or.inr hNone) hSound
  · intro u
    rw [mem_append, mem_singleton]
    by_cases hu : u = t
    · rw [if_pos hu]
      exact ⟨fun _ => ⟨timed, rfl⟩, fun _ => Or.inr hu⟩
    · rw [if_neg hu]
      simp only [hu, or_false]
  · apply List.Nodup.append (hInv.nodup r)
      (nodup_singleton t)
    intro u hu h
    rw [mem_singleton] at h
    exact hOut (h ▸ hu)

end

end RcvCore

------
-- Giving Messages
------

namespace RcvSystem

/- Give messages to a queue, one after the other. -/
def giveAll
    (r : MqueueRef) :
    List Kmsg → RcvSystem → RcvSystem × List QueueEvent
| [], s => (s, [])
| kmsg :: kmsgs, s =>
    let given := s.giveKmsg r kmsg
    let rest := giveAll r kmsgs given.1
    (rest.1, given.2 ++ rest.2)

variable {s : RcvSystem} {r dest source : MqueueRef}
variable {kmsgs kept : List Kmsg} {kmsg : Kmsg} {port : Nat}

/- What giving a message leaves as it was. -/
structure SameSets (s s' : RcvSystem) : Prop where
  pset : ∀ i, (s'.ports i).ipPset = (s.ports i).ipPset
  active : ∀ i, (s'.ports i).ipActive = (s.ports i).ipActive
  receiver :
    ∀ i, (s'.ports i).ipReceiver = (s.ports i).ipReceiver
  sets : s'.ipsActive = s.ipsActive
  nobody :
    ∀ r, (s.mqueues r).imqThreads = [] →
      (s'.mqueues r).imqThreads = []

namespace SameSets

variable {s' s'' : RcvSystem}

theorem refl : SameSets s s :=
  ⟨fun _ => rfl, fun _ => rfl, fun _ => rfl, rfl,
    fun _ h => h⟩

theorem trans
    (h : SameSets s s')
    (h' : SameSets s' s'') :
    SameSets s s'' :=
  { pset := fun i => (h'.pset i).trans (h.pset i)
    active := fun i => (h'.active i).trans (h.active i)
    receiver := fun i => (h'.receiver i).trans (h.receiver i)
    sets := h'.sets.trans h.sets
    nobody := fun r hr => h'.nobody r (h.nobody r hr) }

theorem queueOf
    (h : SameSets s s')
    (i : Nat) :
    s'.queueOf i = s.queueOf i := by
  unfold RcvSystem.queueOf
  rw [h.pset]

theorem receivable
    (h : SameSets s s')
    (r : MqueueRef) :
    s'.Receivable r ↔ s.Receivable r := by
  cases r with
  | ofPort i =>
      dsimp only [Receivable]
      rw [h.pset, h.receiver]
  | ofPset q =>
      dsimp only [Receivable]
      rw [h.sets]

end SameSets

section

variable (s : RcvSystem) (r : MqueueRef)

theorem giveKmsg_sameSets
    (kmsg : Kmsg) :
    SameSets s (s.giveKmsg r kmsg).1 := by
  unfold giveKmsg
  cases hList : (s.mqueues r).imqThreads with
  | nil =>
      refine ⟨fun _ => rfl, fun _ => rfl, fun _ => rfl, rfl,
        ?_⟩
      intro r' h
      rw [setMessages_threads]
      exact h
  | cons th ths =>
      refine ⟨?_, ?_, ?_, rfl, ?_⟩
      · intro i
        exact (countSeqno_same (s.setThreads r ths) _ i).1
      · intro i
        exact (countSeqno_same (s.setThreads r ths) _ i).2.1
      · intro i
        exact (countSeqno_same (s.setThreads r ths) _ i).2.2
      · intro r' h
        have hNe : r' ≠ r := by
          intro hEq
          rw [hEq, hList] at h
          cases h
        exact (congrArg Mqueue.imqThreads
          (@setThreads_of_ne s r r' ths hNe)).trans h

theorem giveAll_cons
    (kmsg : Kmsg)
    (kmsgs : List Kmsg) :
    giveAll r (kmsg :: kmsgs) s =
      ((giveAll r kmsgs (s.giveKmsg r kmsg).1).1,
        (s.giveKmsg r kmsg).2 ++
          (giveAll r kmsgs (s.giveKmsg r kmsg).1).2) :=
  rfl

theorem giveAll_sameSets
    (kmsgs : List Kmsg) :
    SameSets s (giveAll r kmsgs s).1 := by
  induction kmsgs generalizing s with
  | nil => exact SameSets.refl
  | cons kmsg kmsgs ih =>
      exact (giveKmsg_sameSets s r kmsg).trans (ih _)

end

/- The queue a message is given to is the one that changes. -/
theorem giveKmsg_other
    (hNe : source ≠ dest) :
    (s.giveKmsg dest kmsg).1.mqueues source =
      s.mqueues source := by
  unfold giveKmsg
  cases hList : (s.mqueues dest).imqThreads with
  | nil => exact setMessages_of_ne hNe
  | cons th ths => exact setThreads_of_ne hNe

/- Giving does not look at the messages of other queues. -/
theorem giveKmsg_setMessages
    (hNe : source ≠ dest) :
    (s.setMessages source kmsgs).giveKmsg dest kmsg =
      ((s.giveKmsg dest kmsg).1.setMessages source kmsgs,
        (s.giveKmsg dest kmsg).2) := by
  have hDest : (s.setMessages source kmsgs).mqueues dest =
      s.mqueues dest := setMessages_of_ne (Ne.symm hNe)
  unfold giveKmsg
  rw [hDest]
  cases hList : (s.mqueues dest).imqThreads with
  | nil =>
      unfold setMessages setMqueue
      dsimp only
      rw [update_of_ne (Ne.symm hNe), update_of_ne hNe,
        update_comm hNe]
  | cons th ths =>
      unfold handOver setMessages setThreads countSeqno
        setThread setPort setMqueue
      dsimp only
      rw [update_of_ne (Ne.symm hNe), update_of_ne hNe,
        update_comm hNe]

/-
  The loop of `ipc_mqueue_move` takes the messages of the
  port off the old queue and gives them to the new one.
-/
theorem moveLoop_eq
    (hNe : source ≠ dest)
    (hKept : ∀ kmsg ∈ kept, kmsg.msghRemotePort ≠ port)
    (hMessages :
      (s.mqueues source).imqMessages = kept ++ kmsgs) :
    moveLoop dest source port kmsgs s =
      giveAll dest
        (kmsgs.filter (fun k => k.msghRemotePort = port))
        (s.setMessages source
          (kept ++ kmsgs.filter
            (fun k => k.msghRemotePort ≠ port))) := by
  induction kmsgs generalizing s kept with
  | nil =>
      rw [append_nil] at hMessages
      have hSame : s.setMessages source kept = s := by
        rw [← hMessages]
        exact setMessages_same
      simp only [filter_nil, append_nil]
      rw [hSame]
      rfl
  | cons kmsg next ih =>
      unfold moveLoop
      by_cases hPort : kmsg.msghRemotePort = port
      · have hErase : (s.mqueues source).imqMessages.erase
            kmsg = kept ++ next := by
          rw [hMessages]
          have hOut : kmsg ∉ kept := by
            intro h
            exact hKept kmsg h hPort
          rw [erase_append_right _ hOut]
          simp
        have hLater : ((s.giveKmsg dest kmsg).1.setMessages
            source (kept ++ next)).mqueues source =
            ⟨kept ++ next,
              (s.mqueues source).imqThreads⟩ := by
          unfold setMessages
          rw [setMqueue_self, giveKmsg_other hNe]
        simp only [hErase]
        rw [giveKmsg_setMessages hNe]
        rw [ih hKept (congrArg Mqueue.imqMessages hLater),
          setMessages_twice]
        simp only [filter_cons, hPort, decide_true,
          not_true_eq_false, ne_eq, decide_false,
          if_true, Bool.false_eq_true, if_false]
        rw [giveAll_cons, giveKmsg_setMessages hNe]
      · have hNext : ∀ k ∈ kept ++ [kmsg],
            k.msghRemotePort ≠ port := by
          intro k hk
          rw [mem_append, mem_singleton] at hk
          rcases hk with hk | hk
          · exact hKept k hk
          · rw [hk]
            exact hPort
        rw [ih hNext (by rw [hMessages]; simp)]
        simp only [filter_cons, hPort, decide_false,
          not_false_eq_true, ne_eq, decide_true, if_true,
          Bool.false_eq_true, if_false, append_assoc,
          singleton_append]

/- `ipc_mqueue_move` as taking messages off and giving. -/
theorem move_eq
    (hNe : source ≠ dest) :
    s.ipcMqueueMove dest source port =
      giveAll dest
        ((s.mqueues source).imqMessages.filter
          (fun k => k.msghRemotePort = port))
        (s.setMessages source
          ((s.mqueues source).imqMessages.filter
            (fun k => k.msghRemotePort ≠ port))) := by
  have h := @moveLoop_eq s dest source
    (s.mqueues source).imqMessages [] port hNe
    (fun _ h => by cases h) rfl
  exact h

end RcvSystem

namespace RcvCore

variable {s : RcvSystem} {r : MqueueRef} {kmsg : Kmsg}
variable {kmsgs : List Kmsg} {i t : Nat} {mr : RcvState}

/- The first receiver, given a message. -/
theorem handOver_sound
    (hInv : RcvCore s)
    (hMem : t ∈ (s.mqueues r).imqThreads)
    (hIdle : mr ≠ .idle)
    (hNot : ∀ timed, mr ≠ .inProgress timed) :
    (rcvGo { s.threads t with ithState := mr }).Sound ∧
      ¬ (rcvGo
        { s.threads t with ithState := mr }).InProgress ∧
      (rcvGo { s.threads t with ithState := mr }).ithState =
        mr :=
  rcvGo_sound (hInv.sound t) ((hInv.waiting r t).mp hMem).2
    hIdle hNot

/- A message comes to the queue of its port. -/
theorem give
    (hInv : RcvCore s)
    (hHome : s.queueOf kmsg.msghRemotePort = r)
    (hActive :
      (s.ports kmsg.msghRemotePort).ipActive = true) :
    RcvCore (s.giveKmsg r kmsg).1 := by
  unfold RcvSystem.giveKmsg
  cases hList : (s.mqueues r).imqThreads with
  | nil =>
      apply hInv.setMessages (Or.inl hList)
      intro k hk
      rw [mem_append, mem_singleton] at hk
      rcases hk with hk | hk
      · exact hInv.home r k hk
      · rw [hk]
        exact ⟨hHome, hActive⟩
  | cons th ths =>
      have hMem : th ∈ (s.mqueues r).imqThreads := by
        rw [hList]
        exact mem_cons_self ..
      have hThread := @handOver_sound s r th
        (.msgSuccess kmsg
          (s.ports kmsg.msghRemotePort).ipSeqno) hInv hMem
        (by simp) (by simp)
      have hUnlink := hInv.unlinkFirst hList hThread.2.1
        hThread.1
      exact @RcvCore.setSeqno _ kmsg.msghRemotePort hUnlink
        (((s.ports kmsg.msghRemotePort).ipSeqno + 1) %
          seqnoModulus)

/- Several messages of ports that read from one queue. -/
theorem giveAll
    (kmsgs : List Kmsg)
    (hInv : RcvCore s)
    (hHome : ∀ kmsg ∈ kmsgs,
      s.queueOf kmsg.msghRemotePort = r ∧
        (s.ports kmsg.msghRemotePort).ipActive = true) :
    RcvCore (RcvSystem.giveAll r kmsgs s).1 := by
  induction kmsgs generalizing s with
  | nil => exact hInv
  | cons kmsg kmsgs ih =>
      have hFirst := hHome kmsg (mem_cons_self ..)
      have hSame := RcvSystem.giveKmsg_sameSets s r kmsg
      apply ih (hInv.give hFirst.1 hFirst.2)
      intro k hk
      rw [hSame.queueOf, hSame.active]
      exact hHome k (mem_cons_of_mem _ hk)

end RcvCore

------
-- Waking Receivers
------

namespace RcvSystem

variable {s : RcvSystem} {r : MqueueRef} {th : Nat}
variable {ths : List Nat}

/- `ipc_mqueue_changed` takes off and wakes the first. -/
theorem changed_cons
    (mr : RcvState)
    (hList : (s.mqueues r).imqThreads = th :: ths) :
    s.ipcMqueueChanged r mr =
      ((s.setThreads r ths).setThread th
        (rcvGo { s.threads th with
          ithState := mr })).ipcMqueueChanged r mr := by
  have hRest : (((s.setThreads r ths).setThread th
      (rcvGo { s.threads th with
        ithState := mr })).mqueues r).imqThreads = ths :=
    setThreads_threads
  unfold ipcMqueueChanged
  rw [hList, hRest]
  have hTwice : ((s.setThreads r ths).setThread th
      (rcvGo { s.threads th with
        ithState := mr })).setThreads r [] =
      (s.setThreads r []).setThread th
        (rcvGo { s.threads th with ithState := mr }) := by
    have h := @setThreads_twice s r ths []
    exact congrArg (fun s' : RcvSystem => s'.setThread th
      (rcvGo { s.threads th with ithState := mr })) h
  rw [hTwice]
  rfl

theorem changed_nil
    (mr : RcvState)
    (hList : (s.mqueues r).imqThreads = []) :
    s.ipcMqueueChanged r mr = s := by
  unfold ipcMqueueChanged
  rw [hList]
  unfold wakeReceivers setThreads setMqueue
  rw [← hList, update_eq_self]

end RcvSystem

namespace RcvCore

variable {s : RcvSystem} {r : MqueueRef} {mr : RcvState}

/- All receivers of a queue are woken, and it is empty. -/
theorem changed
    (hInv : RcvCore s)
    (hIdle : mr ≠ .idle)
    (hNot : ∀ timed, mr ≠ .inProgress timed) :
    RcvCore (s.ipcMqueueChanged r mr) ∧
      RcvSystem.SameSets s (s.ipcMqueueChanged r mr) ∧
      ((s.ipcMqueueChanged r mr).mqueues r).imqThreads =
        [] := by
  generalize hList : (s.mqueues r).imqThreads = ths
  induction ths generalizing s with
  | nil =>
      rw [RcvSystem.changed_nil mr hList]
      exact ⟨hInv, RcvSystem.SameSets.refl, hList⟩
  | cons th ths ih =>
      have hMem : th ∈ (s.mqueues r).imqThreads := by
        rw [hList]
        exact mem_cons_self ..
      have hThread := hInv.handOver_sound hMem hIdle hNot
      have hUnlink := hInv.unlinkFirst hList hThread.2.1
        hThread.1
      rw [RcvSystem.changed_cons mr hList]
      rcases ih hUnlink RcvSystem.setThreads_threads with
        ⟨hCore, hSame, hNil⟩
      refine ⟨hCore, RcvSystem.SameSets.trans ?_ hSame, hNil⟩
      refine ⟨fun _ => rfl, fun _ => rfl, fun _ => rfl, rfl,
        ?_⟩
      intro r' h
      have hNe : r' ≠ r := by
        rintro rfl
        rw [hList] at h
        cases h
      exact (congrArg Mqueue.imqThreads
        (@RcvSystem.setThreads_of_ne s r r' ths hNe)).trans h

end RcvCore

------
-- Ports Between Sets
------

namespace RcvSystem

/- The queue of a port that is in the given set, or none. -/
def homeRef (i : Nat) : Option Nat → MqueueRef
| none => .ofPort i
| some q => .ofPset q

/- The messages of a port. -/
def ownKmsgs (s : RcvSystem) (i : Nat) : List Kmsg :=
  (s.mqueues (s.queueOf i)).imqMessages.filter
    (fun k => k.msghRemotePort = i)

/-
  A port with its messages taken off its queue and its set
  changed.
-/
def detached
    (s : RcvSystem)
    (i : Nat)
    (nset : Option Nat) : RcvSystem :=
  (s.setPort i { s.ports i with ipPset := nset }).setMessages
    (s.queueOf i)
    ((s.mqueues (s.queueOf i)).imqMessages.filter
      (fun k => k.msghRemotePort ≠ i))

variable {s : RcvSystem} {i j : Nat} {nset : Option Nat}

theorem detached_port :
    (s.detached i nset).ports i =
      { s.ports i with ipPset := nset } :=
  setPort_self

theorem detached_port_of_ne
    (hNe : j ≠ i) :
    (s.detached i nset).ports j = s.ports j :=
  setPort_of_ne hNe

theorem detached_queueOf :
    (s.detached i nset).queueOf i = homeRef i nset := by
  unfold queueOf
  rw [detached_port]
  cases nset with
  | none => rfl
  | some q => rfl

/- The messages that are left. -/
theorem detached_messages
    (r : MqueueRef) :
    ((s.detached i nset).mqueues r).imqMessages =
      if r = s.queueOf i then
        (s.mqueues (s.queueOf i)).imqMessages.filter
          (fun k => k.msghRemotePort ≠ i)
      else (s.mqueues r).imqMessages := by
  by_cases hr : r = s.queueOf i
  · rw [hr, if_pos rfl]
    exact setMessages_messages
  · rw [if_neg hr]
    exact congrArg Mqueue.imqMessages (setMessages_of_ne hr)

theorem detached_threads
    (r : MqueueRef) :
    ((s.detached i nset).mqueues r).imqThreads =
      (s.mqueues r).imqThreads :=
  setMessages_threads

/- No message of the port is left on any queue. -/
theorem detached_none
    (hCore : RcvCore s)
    (r : MqueueRef) :
    ∀ kmsg ∈ ((s.detached i nset).mqueues r).imqMessages,
      kmsg.msghRemotePort ≠ i := by
  rintro kmsg hMem rfl
  rw [detached_messages] at hMem
  split_ifs at hMem with hr
  · have h := (mem_filter.mp hMem).2
    simp at h
  · exact hr (hCore.home r kmsg hMem).1.symm

/- The messages of the port have to go to its new queue. -/
theorem detached_home
    (hActive : (s.ports i).ipActive = true) :
    ∀ kmsg ∈ s.ownKmsgs i,
      (s.detached i nset).queueOf kmsg.msghRemotePort =
          homeRef i nset ∧
        ((s.detached i nset).ports
          kmsg.msghRemotePort).ipActive = true := by
  intro kmsg hMem
  have hPort := (mem_filter.mp hMem).2
  rw [decide_eq_true_eq] at hPort
  rw [hPort, detached_queueOf, detached_port]
  exact ⟨rfl, hActive⟩

end RcvSystem

/- A port without its messages may change its set. -/
theorem RcvCore.detach
    {s : RcvSystem}
    {i : Nat}
    {nset : Option Nat}
    (hInv : RcvCore s)
    (hHeld : nset = none ∨ s.Held i) :
    RcvCore (s.detached i nset) := by
  refine ⟨?_, ?_, ?_, ?_, ?_, ?_, hInv.sound⟩
  · intro r
    rw [RcvSystem.detached_threads, RcvSystem.detached_messages]
    refine Or.imp (fun h => h) ?_ (hInv.apart r)
    intro h
    split_ifs with hr
    · rw [← hr, h]
      rfl
    · exact h
  · intro r kmsg hMem
    have hNe := RcvSystem.detached_none hInv r kmsg hMem
    have hOld : kmsg ∈ (s.mqueues r).imqMessages := by
      rw [RcvSystem.detached_messages] at hMem
      split_ifs at hMem with hr
      · rw [hr]
        exact mem_of_mem_filter hMem
      · exact hMem
    have hHome := hInv.home r kmsg hOld
    unfold RcvSystem.queueOf at hHome ⊢
    rw [RcvSystem.detached_port_of_ne hNe]
    exact hHome
  · intro j
    by_cases hj : j = i
    · subst hj
      rw [RcvSystem.detached_port]
      exact hInv.dead j
    · rw [RcvSystem.detached_port_of_ne hj]
      exact hInv.dead j
  · intro j
    by_cases hj : j = i
    · subst hj
      rw [RcvSystem.detached_port]
      intro hReceiver
      rcases hHeld with h | h
      · exact h
      · rw [h.2] at hReceiver
        cases hReceiver
    · rw [RcvSystem.detached_port_of_ne hj]
      exact hInv.limbo j
  · intro r t
    rw [RcvSystem.detached_threads]
    exact hInv.waiting r t
  · intro r
    rw [RcvSystem.detached_threads]
    exact hInv.nodup r

end Ipc

end OsfMach
