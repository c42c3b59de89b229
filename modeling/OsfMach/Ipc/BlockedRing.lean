import OsfMach.Ipc.MqueueRuns
import OsfMach.Lib.Ring

/-
  The senders that wait on a port, as the ring of threads
  that `ip_blocked` is.

  There are many ports, and a thread has one pair of links
  for whatever queue it is on. Each port behaves as the
  queue of `Mqueue`, with the nodes of its ring as the list
  of blocked senders, as long as no sender gives up before
  it is woken: `ipc_mqueue_send` leaves such a sender on the
  ring.

  Main declarations:
    * `RingPort`, `SendSystem`, `SystemOp`
    * `OffQueue`, `SystemInv`
    * `SystemInv.step`
    * `systemReachable_blockedRing`
-/

------
-- Data
------

namespace OsfMach

namespace Ipc

open Function
open Lib

/-
  A port; `ipBlocked` is the first thread of the ring, the
  field `ithq_base`.
-/
structure RingPort where
  ipActive : Bool
  ipMsgcount : Nat
  ipQlimit : Nat
  ipBlocked : Option Nat
  imqMessages : Nat
  imqThreads : List ReceivePath
  handed : ReceivePath → Nat

/-
  Ports and threads. `links` are `ith_next` and `ith_prev`,
  and `remotePort` is the port that a thread sends to.
-/
structure SendSystem where
  ports : Nat → RingPort
  links : Links Nat
  threads : Nat → SendThread
  remotePort : Nat → Nat

/- The port that `ipc_port_init` makes. -/
def RingPort.init : RingPort :=
  { ipActive := true
    ipMsgcount := 0
    ipQlimit := machPortQlimitDefault
    ipBlocked := none
    imqMessages := 0
    imqThreads := []
    handed := fun _ => 0 }

namespace SendSystem

def init : SendSystem :=
  { ports := fun _ => RingPort.init
    links := ⟨id, id⟩
    threads := fun _ => SendThread.idle
    remotePort := fun _ => 0 }

def setPort
    (s : SendSystem)
    (i : Nat)
    (port : RingPort) : SendSystem :=
  { s with ports := update s.ports i port }

def setThread
    (s : SendSystem)
    (t : Nat)
    (thread : SendThread) : SendSystem :=
  { s with threads := update s.threads t thread }

/- Store a queue after one of its operations. -/
def setBlocked
    (s : SendSystem)
    (i : Nat)
    (ring : Option Nat × Links Nat) : SendSystem :=
  { s.setPort i { s.ports i with ipBlocked := ring.1 } with
    links := ring.2 }

------
-- Sending
------

/- `ipc_thread_enqueue`. -/
def ipcThreadEnqueue
    (s : SendSystem)
    (i t : Nat) : SendSystem :=
  s.setBlocked i (s.links.enqueue t (s.ports i).ipBlocked)

/- `ipc_thread_rmqueue`. -/
def ipcThreadRmqueue
    (s : SendSystem)
    (i t : Nat) : SendSystem :=
  s.setBlocked i (s.links.remove (s.ports i).ipBlocked t)

/- `ipc_thread_dequeue`. -/
def ipcThreadDequeue
    (s : SendSystem)
    (i : Nat) : Option Nat × SendSystem :=
  match (s.ports i).ipBlocked with
  | none => (none, s)
  | some first =>
      (some first,
        s.setBlocked i (s.links.removeFirst first))

/- What is done to a sender taken from `ip_blocked`. -/
def wakeSender (s : SendSystem) (t : Nat) : SendSystem :=
  s.setThread t
    (threadGo { s.threads t with ithState := .msgSuccess })

end SendSystem

namespace RingPort

/- `ipc_mqueue_deliver`. -/
def deliver (p : RingPort) : RingPort :=
  let p := { p with ipMsgcount := p.ipMsgcount + 1 }
  match p.imqThreads with
  | [] => { p with imqMessages := p.imqMessages + 1 }
  | path :: receivers =>
      { p with
        imqThreads := receivers
        handed := update p.handed path (p.handed path + 1) }

/- A receiver takes the first message or waits for one. -/
def receive
    (p : RingPort)
    (path : ReceivePath) : RingPort :=
  if 0 < p.imqMessages then
    { p with
      imqMessages := p.imqMessages - 1
      handed := update p.handed .generic
        (p.handed .generic + 1) }
  else { p with imqThreads := p.imqThreads ++ [path] }

/- A receiver gives up and leaves the queue. -/
def abortReceive
    (p : RingPort)
    (path : ReceivePath) : RingPort :=
  { p with imqThreads := p.imqThreads.erase path }

/- A receiver counts its message off. -/
def takeHanded
    (p : RingPort)
    (path : ReceivePath) : RingPort :=
  { p with
    handed := update p.handed path (p.handed path - 1) }

end RingPort

namespace SendSystem

/- The turn of the loop of `ipc_mqueue_send`. -/
def sendTurn
    (s : SendSystem)
    (i t : Nat)
    (timeout : Option Nat)
    (always : Bool) : Option SendReturn × SendSystem :=
  let p := s.ports i
  if p.ipActive = false then
    (some .msgSuccess, s.setThread t SendThread.idle)
  else if p.ipMsgcount < p.ipQlimit ∨ always = true then
    (some .msgSuccess,
      (s.setPort i p.deliver).setThread t SendThread.idle)
  else if timeout = some 0 then
    (some .sendTimedOut, s.setThread t SendThread.idle)
  else
    (none, (s.ipcThreadEnqueue i t).setThread t
      ⟨.waiting, .sendInProgress, timeout, always⟩)

/- `ipc_mqueue_send`, up to where it returns or waits. -/
def ipcMqueueSend
    (s : SendSystem)
    (i t : Nat)
    (timeout : Option Nat)
    (always : Bool) : Option SendReturn × SendSystem :=
  sendTurn
    { s with
      remotePort := update s.remotePort t i }
    i t timeout always

/-
  `ipc_mqueue_send` after `thread_block`. A sender that was
  not woken gives up and does not call `ipc_thread_rmqueue`.
-/
def ipcMqueueResume
    (s : SendSystem)
    (i t : Nat)
    (result : WaitResult) : Option SendReturn × SendSystem :=
  let thread := s.threads t
  if thread.ithState = .msgSuccess then
    s.sendTurn i t thread.timeout thread.always
  else
    match result with
    | .interrupted =>
        (some .sendInterrupted,
          s.setThread t SendThread.idle)
    | .timedOut => s.sendTurn i t (some 0) thread.always
    | .awakened => (none, s)

------
-- Waking Senders
------

/- Wake the first sender if there is space for it. -/
def wakeForSpace (s : SendSystem) (i : Nat) : SendSystem :=
  match (s.ports i).ipBlocked with
  | none => s
  | some sender =>
      if (s.ports i).ipMsgcount < (s.ports i).ipQlimit then
        (s.ipcThreadRmqueue i sender).wakeSender sender
      else s

/- `ipc_mqueue_finish_receive`. -/
def ipcMqueueFinishReceive
    (s : SendSystem)
    (i : Nat) : SendSystem :=
  let p := (s.ports i).takeHanded .generic
  if p.ipActive = true then
    (s.setPort i
      { p with ipMsgcount := p.ipMsgcount - 1 }).wakeForSpace
        i
  else s.setPort i p

/- The end of a receive in `mach_msg_overwrite_trap`. -/
def hotFinishReceive
    (s : SendSystem)
    (i : Nat) : SendSystem :=
  let p := (s.ports i).takeHanded .hot
  s.setPort i { p with ipMsgcount := p.ipMsgcount - 1 }

/- Dequeue senders and wake them. -/
def wakeSenders
    (i : Nat) : Nat → SendSystem → SendSystem
| 0, s => s
| wakeup + 1, s =>
    match s.ipcThreadDequeue i with
    | (none, s) => s
    | (some sender, s) =>
        wakeSenders i wakeup (s.wakeSender sender)

/- `ipc_port_set_qlimit`. -/
def ipcPortSetQlimit
    (s : SendSystem)
    (i qlimit : Nat) : SendSystem :=
  let s :=
    if (s.ports i).ipQlimit < qlimit then
      wakeSenders i (qlimit - (s.ports i).ipQlimit) s
    else s
  s.setPort i { s.ports i with ipQlimit := qlimit }

/-
  `ipc_port_destroy`; `turns` is how often its loop over the
  senders runs.
-/
def ipcPortRouse
    (s : SendSystem)
    (i turns : Nat) : SendSystem :=
  let s := wakeSenders i turns s
  s.setPort i
    { s.ports i with ipActive := false, imqMessages := 0 }

end SendSystem

------
-- Steps
------

/- An operation on a port. -/
structure SystemOp where
  port : Nat
  op : QueueOp
  turns : Nat

namespace SendSystem

/- The wait of a thread ends without a wake-up. -/
def endWait
    (s : SendSystem)
    (t : Nat)
    (result : WaitResult) : SendSystem :=
  s.setThread t { s.threads t with phase := .resuming result }

def step (s : SendSystem) (o : SystemOp) : SendSystem :=
  match o.op with
  | .send t timeout always =>
      (s.ipcMqueueSend o.port t timeout always).2
  | .resume t =>
      match (s.threads t).phase with
      | .resuming result =>
          (s.ipcMqueueResume o.port t result).2
      | _ => s
  | .expire t => s.endWait t .timedOut
  | .interrupt t => s.endWait t .interrupted
  | .handOff _ => s.setPort o.port (s.ports o.port).deliver
  | .receive path =>
      s.setPort o.port ((s.ports o.port).receive path)
  | .abortReceive path =>
      s.setPort o.port ((s.ports o.port).abortReceive path)
  | .finish .generic => s.ipcMqueueFinishReceive o.port
  | .finish .hot => s.hotFinishReceive o.port
  | .setQlimit qlimit => s.ipcPortSetQlimit o.port qlimit
  | .destroy => s.ipcPortRouse o.port o.turns

/- A thread is in `ipc_mqueue_send` for a port. -/
def SendsTo (s : SendSystem) (i t : Nat) : Prop :=
  s.remotePort t = i ∧ (s.threads t).phase ≠ .outside

/- When a step can happen. -/
def Legal (s : SendSystem) (o : SystemOp) : Prop :=
  match o.op with
  | .send t _ _ => (s.threads t).phase = .outside
  | .resume t =>
      s.SendsTo o.port t ∧ (s.threads t).phase ≠ .waiting
  | .expire t =>
      s.SendsTo o.port t ∧
        (s.threads t).phase = .waiting ∧
        (s.threads t).timeout ≠ none
  | .interrupt t =>
      s.SendsTo o.port t ∧ (s.threads t).phase = .waiting
  | .handOff always =>
      (s.ports o.port).ipActive = true ∧
        (s.ports o.port).imqThreads ≠ [] ∧
        ((s.ports o.port).ipMsgcount <
            (s.ports o.port).ipQlimit ∨ always = true)
  | .receive _ => (s.ports o.port).ipActive = true
  | .abortReceive path =>
      path ∈ (s.ports o.port).imqThreads
  | .finish path => 0 < (s.ports o.port).handed path
  | .setQlimit _ => (s.ports o.port).ipActive = true
  | .destroy =>
      (s.ports o.port).ipActive = true ∧
        (s.ports o.port).imqThreads = [] ∧
        ((wakeSenders o.port o.turns s).ports
          o.port).ipBlocked = none

/-
  A thread that waits in `ipc_mqueue_send` for a port and
  has not been woken.
-/
def Blocked (s : SendSystem) (i t : Nat) : Prop :=
  s.SendsTo i t ∧ (s.threads t).ithState = .sendInProgress

/-
  `ip_blocked` is a ring of the blocked threads, each on it
  once, and no thread waits without being on it.
-/
def BlockedIsRing (s : SendSystem) (i : Nat) : Prop :=
  ∃ l : List Nat,
    s.links.IsRing (s.ports i).ipBlocked l ∧ l.Nodup ∧
      (∀ t, t ∈ l ↔ s.Blocked i t) ∧
      ∀ t, s.SendsTo i t →
        (s.threads t).phase = .waiting → t ∈ l

/- No sender runs again before it is woken. -/
def OffQueue (s : SendSystem) (o : SystemOp) : Prop :=
  match o.op with
  | .resume t => (s.threads t).ithState = .msgSuccess
  | _ => True

end SendSystem

/- The systems reached by legal steps that are allowed. -/
inductive SystemReachable
    (Allowed : SendSystem → SystemOp → Prop) :
    SendSystem → Prop where
| init : SystemReachable Allowed SendSystem.init
| step
    {s : SendSystem}
    (hRun : SystemReachable Allowed s)
    (o : SystemOp)
    (hLegal : s.Legal o)
    (hAllowed : Allowed s o) :
    SystemReachable Allowed (s.step o)

------
-- Reading a Port as a Queue
------

/- The queue of a port whose ring has the given nodes. -/
def RingPort.queue
    (p : RingPort)
    (blocked : List Nat)
    (threads : Nat → SendThread) : PortQueue :=
  { ipActive := p.ipActive
    ipMsgcount := p.ipMsgcount
    ipQlimit := p.ipQlimit
    ipBlocked := blocked
    imqMessages := p.imqMessages
    imqThreads := p.imqThreads
    handed := p.handed
    threads := threads }

namespace SendSystem

/- The threads as a port sees them. -/
def threadsOf
    (s : SendSystem)
    (i t : Nat) : SendThread :=
  if s.remotePort t = i then s.threads t else SendThread.idle

def queue
    (s : SendSystem)
    (l : Nat → List Nat)
    (i : Nat) : PortQueue :=
  (s.ports i).queue (l i) (s.threadsOf i)

end SendSystem

/- The rings of all ports, and the lists they stand for. -/
structure SystemInv
    (s : SendSystem)
    (l : Nat → List Nat) : Prop where
  rings : ∀ i, s.links.IsRing (s.ports i).ipBlocked (l i)
  sends : ∀ i t, t ∈ l i → s.remotePort t = i
  alone : ∀ t, (∀ i, t ∉ l i) → s.links.Alone t
  idle :
    ∀ t, (s.threads t).phase = .outside →
      s.threads t = SendThread.idle

/-
  A change at one port: there it is seen as a change of the
  queue, and the other queues stay.
-/
structure Simulates
    (i : Nat)
    (s : SendSystem)
    (l : Nat → List Nat)
    (s' : SendSystem)
    (l' : Nat → List Nat)
    (queue : PortQueue) : Prop where
  inv : SystemInv s' l'
  here : s'.queue l' i = queue
  there : ∀ j, j ≠ i → s'.queue l' j = s.queue l j
  ports : s'.remotePort = s.remotePort

namespace SystemInv

variable {s s' s'' : SendSystem} {l l' l'' : Nat → List Nat}
variable {i t : Nat}
variable {senders : List Nat}

theorem init : SystemInv SendSystem.init (fun _ => []) :=
  { rings := fun _ => rfl
    sends := fun _ _ h => by cases h
    alone := fun _ _ => ⟨rfl, rfl⟩
    idle := fun _ _ => rfl }

theorem refl
    (hInv : SystemInv s l) :
    Simulates i s l s l (s.queue l i) :=
  ⟨hInv, rfl, fun _ _ => rfl, rfl⟩

/- Two changes at one port, one after the other. -/
theorem trans
    {q' q'' : PortQueue}
    (h : Simulates i s l s' l' q')
    (h' : Simulates i s' l' s'' l'' q'') :
    Simulates i s l s'' l'' q'' := by
  refine ⟨h'.inv, h'.here, ?_, h'.ports.trans h.ports⟩
  intro j hj
  rw [h'.there j hj, h.there j hj]

/- No thread is on two rings. -/
theorem not_mem_of_ne
    (hInv : SystemInv s l)
    {j : Nat}
    (hMem : t ∈ l i)
    (hNe : j ≠ i) :
    t ∉ l j := by
  intro h
  apply hNe
  rw [← hInv.sends j t h, hInv.sends i t hMem]

/- A port changes, and not its ring. -/
theorem setPort
    {p : RingPort}
    (hInv : SystemInv s l)
    (hBlocked : p.ipBlocked = (s.ports i).ipBlocked) :
    Simulates i s l (s.setPort i p) l
      (p.queue (l i) (s.threadsOf i)) := by
  refine ⟨⟨?_, hInv.sends, hInv.alone, hInv.idle⟩, ?_, ?_, rfl⟩
  · intro j
    by_cases hj : j = i
    · subst hj
      have hPort : (s.setPort j p).ports j = p :=
        update_self ..
      rw [hPort, hBlocked]
      exact hInv.rings j
    · have hPort : (s.setPort i p).ports j = s.ports j :=
        update_of_ne hj ..
      rw [hPort]
      exact hInv.rings j
  · unfold SendSystem.queue SendSystem.setPort
    dsimp only
    rw [update_self]
    rfl
  · intro j hj
    unfold SendSystem.queue SendSystem.setPort
    dsimp only
    rw [update_of_ne hj]
    rfl

/- A thread that sends to the port changes. -/
theorem setThread
    {thread : SendThread}
    (hInv : SystemInv s l)
    (hPort : s.remotePort t = i)
    (hIdle : thread.phase = .outside →
      thread = SendThread.idle) :
    Simulates i s l (s.setThread t thread) l
      ((s.queue l i).setThread t thread) := by
  have hOf : ∀ j u, (s.setThread t thread).threadsOf j u =
      if s.remotePort u = j then
        update s.threads t thread u
      else SendThread.idle := fun _ _ => rfl
  refine ⟨⟨hInv.rings, hInv.sends, hInv.alone, ?_⟩, ?_, ?_, rfl⟩
  · intro u hu
    by_cases hEq : u = t
    · subst hEq
      have hNew : (s.setThread u thread).threads u = thread :=
        update_self ..
      rw [hNew] at hu ⊢
      exact hIdle hu
    · have hOld : (s.setThread t thread).threads u =
          s.threads u := update_of_ne hEq ..
      rw [hOld] at hu ⊢
      exact hInv.idle u hu
  · have hThreads : (s.setThread t thread).threadsOf i =
        update (s.threadsOf i) t thread := by
      funext u
      rw [hOf]
      by_cases hEq : u = t
      · subst hEq
        rw [if_pos hPort, update_self, update_self]
      · rw [update_of_ne hEq, update_of_ne hEq]
        rfl
    unfold SendSystem.queue
    rw [hThreads]
    rfl
  · intro j hj
    have hThreads : (s.setThread t thread).threadsOf j =
        s.threadsOf j := by
      funext u
      rw [hOf]
      by_cases hEq : u = t
      · subst hEq
        have hOther : ¬ s.remotePort u = j := by
          rw [hPort]
          exact fun h => hj h.symm
        unfold SendSystem.threadsOf
        rw [if_neg hOther, if_neg hOther]
      · rw [update_of_ne hEq]
        rfl
    unfold SendSystem.queue
    rw [hThreads]
    rfl

------
-- The Rings
------

/-
  A queue operation on one ring that leaves the links of
  threads on other rings.
-/
theorem setBlocked
    {ring : Option Nat × Links Nat}
    {nodes : List Nat}
    (hInv : SystemInv s l)
    (hRing : ring.2.IsRing ring.1 nodes)
    (hSends : ∀ u ∈ nodes, s.remotePort u = i)
    (hFrame : ∀ u, u ∉ l i → u ∉ nodes →
      ring.2.next u = s.links.next u ∧
        ring.2.prev u = s.links.prev u)
    (hAlone : ∀ u ∈ l i, u ∉ nodes → ring.2.Alone u) :
    Simulates i s l (s.setBlocked i ring)
      (update l i nodes)
      { s.queue l i with ipBlocked := nodes } := by
  have hSelf : update l i nodes i = nodes := update_self ..
  have hOther : ∀ j, j ≠ i → update l i nodes j = l j :=
    fun j hj => update_of_ne hj ..
  have hPorts : ∀ j, j ≠ i →
      (s.setBlocked i ring).ports j = s.ports j :=
    fun j hj => update_of_ne hj ..
  have hPort : (s.setBlocked i ring).ports i =
      { s.ports i with ipBlocked := ring.1 } :=
    update_self ..
  refine ⟨⟨?_, ?_, ?_, hInv.idle⟩, ?_, ?_, rfl⟩
  · intro j
    by_cases hj : j = i
    · subst hj
      rw [hSelf, hPort]
      exact hRing
    · rw [hOther j hj, hPorts j hj]
      have hLinks : ∀ u ∈ l j,
          ring.2.next u = s.links.next u ∧
            ring.2.prev u = s.links.prev u := by
        intro u hu
        have hHere := hInv.sends j u hu
        apply hFrame
        · exact hInv.not_mem_of_ne hu (Ne.symm hj)
        · intro h
          apply hj
          rw [← hHere, hSends u h]
      exact (hInv.rings j).congr
        (fun u hu => (hLinks u hu).1)
        (fun u hu => (hLinks u hu).2)
  · intro j u hu
    by_cases hj : j = i
    · subst hj
      rw [hSelf] at hu
      exact hSends u hu
    · rw [hOther j hj] at hu
      exact hInv.sends j u hu
  · intro u hu
    have hOut : u ∉ nodes := by
      have h := hu i
      rw [hSelf] at h
      exact h
    by_cases hIn : u ∈ l i
    · exact hAlone u hIn hOut
    · have hOld : s.links.Alone u := by
        apply hInv.alone
        intro j
        by_cases hj : j = i
        · rw [hj]
          exact hIn
        · have h := hu j
          rw [hOther j hj] at h
          exact h
      rcases hFrame u hIn hOut with ⟨hNext, hPrev⟩
      exact ⟨hNext.trans hOld.1, hPrev.trans hOld.2⟩
  · unfold SendSystem.queue
    rw [hSelf, hPort]
    rfl
  · intro j hj
    unfold SendSystem.queue
    rw [hOther j hj, hPorts j hj]
    rfl

/- A thread that is on no ring goes to the end of one. -/
theorem enqueue
    (hInv : SystemInv s l)
    (hPort : s.remotePort t = i)
    (hOut : ∀ j, t ∉ l j) :
    Simulates i s l (s.ipcThreadEnqueue i t)
      (update l i (l i ++ [t]))
      { s.queue l i with ipBlocked := l i ++ [t] } := by
  have hRing := hInv.rings i
  apply hInv.setBlocked
  · exact hRing.enqueue (hOut i) (hInv.alone t hOut)
  · intro u hu
    rw [List.mem_append, List.mem_singleton] at hu
    rcases hu with hu | hu
    · exact hInv.sends i u hu
    · rw [hu]
      exact hPort
  · intro u hu hNew
    apply Links.enqueue_frame hRing hu
    intro h
    apply hNew
    rw [h]
    simp
  · intro u hu hNew
    exact absurd (List.mem_append_left _ hu) hNew

/- The first thread of a ring leaves it. -/
theorem removeFirst
    (hInv : SystemInv s l)
    (hBlocked : l i = t :: senders) :
    Simulates i s l
      (s.setBlocked i (s.links.removeFirst t))
      (update l i senders)
      { s.queue l i with ipBlocked := senders } := by
  have hRing := hInv.rings i
  rw [hBlocked] at hRing
  have hBase := hRing.1
  rw [hBase] at hRing
  rcases hRing.removeFirst with ⟨hRest, hAlone⟩
  apply hInv.setBlocked hRest
  · intro u hu
    apply hInv.sends i u
    rw [hBlocked]
    exact List.mem_cons_of_mem _ hu
  · intro u hu _
    rw [hBlocked] at hu
    exact Links.removeFirst_frame hRing hu
  · intro u hu hOut
    rw [hBlocked, List.mem_cons] at hu
    rcases hu with hu | hu
    · rw [hu]
      exact hAlone
    · exact absurd hu hOut

/- The first thread of a ring leaves it and is woken. -/
theorem wakeFirst
    (hInv : SystemInv s l)
    (hBlocked : l i = t :: senders) :
    Simulates i s l
      ((s.setBlocked i
        (s.links.removeFirst t)).wakeSender t)
      (update l i senders)
      (wakeSender
        { s.queue l i with ipBlocked := senders } t) := by
  have hFirst := hInv.removeFirst hBlocked
  have hPort : s.remotePort t = i := by
    apply hInv.sends i t
    rw [hBlocked]
    exact List.mem_cons_self ..
  have hHere : (s.threadsOf i) t = s.threads t := if_pos hPort
  refine trans hFirst ?_
  have hWake := @SystemInv.setThread _ _ i t
    (threadGo { s.threads t with ithState := .msgSuccess })
    hFirst.inv hPort ?_
  · rw [hFirst.here] at hWake
    have hThread : wakeSender
        { s.queue l i with ipBlocked := senders } t =
        PortQueue.setThread
          { s.queue l i with ipBlocked := senders } t
          (threadGo
            { s.threads t with
              ithState := .msgSuccess }) := by
      unfold wakeSender
      have hRead : (s.queue l i).threads t = s.threads t :=
        hHere
      rw [hRead]
    rw [hThread]
    exact hWake
  · intro hPhase
    have hOutside : (s.threads t).phase = .outside := by
      unfold threadGo at hPhase
      split_ifs at hPhase with hWait
      exact hPhase
    rw [hInv.idle t hOutside]
    rfl

------
-- Operations
------

/- A delivery does not look at the senders. -/
theorem deliver_queue
    (p : RingPort)
    (blocked : List Nat)
    (threads : Nat → SendThread) :
    p.deliver.queue blocked threads =
        ipcMqueueDeliver (p.queue blocked threads) ∧
      p.deliver.ipBlocked = p.ipBlocked := by
  unfold RingPort.deliver ipcMqueueDeliver RingPort.queue
  cases p.imqThreads with
  | nil => exact ⟨rfl, rfl⟩
  | cons path receivers => exact ⟨rfl, rfl⟩

section

variable (hInv : SystemInv s l)
include hInv

/- A delivery to the port. -/
theorem deliver
    (i : Nat) :
    Simulates i s l (s.setPort i (s.ports i).deliver) l
      (ipcMqueueDeliver (s.queue l i)) := by
  rcases deliver_queue (s.ports i) (l i) (s.threadsOf i) with
    ⟨hQueue, hBlocked⟩
  have hPort := hInv.setPort hBlocked
  rw [hQueue] at hPort
  exact hPort

/- A thread that is on no ring leaves `ipc_mqueue_send`. -/
theorem leave
    (hPort : s.remotePort t = i) :
    Simulates i s l (s.setThread t SendThread.idle) l
      ((s.queue l i).setThread t SendThread.idle) :=
  hInv.setThread hPort (fun _ => rfl)

/- The turn of a thread that is on no ring. -/
theorem sendTurn
    (hPort : s.remotePort t = i)
    (hOut : ∀ j, t ∉ l j)
    (timeout : Option Nat)
    (always : Bool) :
    ∃ l', Simulates i s l (s.sendTurn i t timeout always).2
      l' (sendTurn (s.queue l i) t timeout always).2 := by
  have hActive : (s.queue l i).ipActive =
      (s.ports i).ipActive := rfl
  have hCount : (s.queue l i).ipMsgcount =
      (s.ports i).ipMsgcount := rfl
  have hLimit : (s.queue l i).ipQlimit =
      (s.ports i).ipQlimit := rfl
  unfold SendSystem.sendTurn Ipc.sendTurn
  dsimp only
  rw [hActive, hCount, hLimit]
  split_ifs with hDead hRoom hTime
  · exact ⟨l, hInv.leave hPort⟩
  · have hDeliver := hInv.deliver i
    have hLeave := hDeliver.inv.leave hPort
    rw [hDeliver.here] at hLeave
    exact ⟨l, trans hDeliver hLeave⟩
  · exact ⟨l, hInv.leave hPort⟩
  · have hEnqueue := hInv.enqueue hPort hOut
    have hWait := @SystemInv.setThread _ _ i t
      ⟨.waiting, .sendInProgress, timeout, always⟩
      hEnqueue.inv hPort (fun h => by cases h)
    rw [hEnqueue.here] at hWait
    exact ⟨_, trans hEnqueue hWait⟩

/- One sender is woken for the space that is there. -/
theorem wakeForSpace
    (i : Nat) :
    ∃ l', Simulates i s l (s.wakeForSpace i) l'
      (wakeForSpace (s.queue l i)) := by
  have hRing := hInv.rings i
  have hCount : (s.queue l i).ipMsgcount =
      (s.ports i).ipMsgcount := rfl
  have hLimit : (s.queue l i).ipQlimit =
      (s.ports i).ipQlimit := rfl
  have hList : (s.queue l i).ipBlocked = l i := rfl
  unfold SendSystem.wakeForSpace Ipc.wakeForSpace
  rw [hList, hCount, hLimit]
  cases hBlocked : l i with
  | nil =>
      rw [hBlocked] at hRing
      rw [hRing.base_eq]
      exact ⟨l, hInv.refl⟩
  | cons sender senders =>
      rw [hBlocked] at hRing
      rw [hRing.1]
      dsimp only [List.head?]
      split_ifs with hRoom
      · have hWake := hInv.wakeFirst hBlocked
        unfold SendSystem.ipcThreadRmqueue
        rw [hRing.1, Links.remove_base]
        exact ⟨_, hWake⟩
      · exact ⟨l, hInv.refl⟩

end

/- Senders are woken in the order of the ring. -/
theorem wakeSenders
    (i wakeup : Nat)
    (hInv : SystemInv s l) :
    ∃ l', Simulates i s l
        (SendSystem.wakeSenders i wakeup s) l'
        (wakeSenders wakeup (s.queue l i)) ∧
      l' i = (l i).drop wakeup := by
  induction wakeup generalizing s l with
  | zero => exact ⟨l, hInv.refl, rfl⟩
  | succ wakeup ih =>
      have hRing := hInv.rings i
      have hList : (s.queue l i).ipBlocked = l i := rfl
      unfold SendSystem.wakeSenders Ipc.wakeSenders
        SendSystem.ipcThreadDequeue
      rw [hList]
      cases hBlocked : l i with
      | nil =>
          rw [hBlocked] at hRing
          rw [hRing.base_eq]
          exact ⟨l, hInv.refl, by rw [hBlocked]; rfl⟩
      | cons sender senders =>
          rw [hBlocked] at hRing
          rw [hRing.1]
          have hWake := hInv.wakeFirst hBlocked
          rcases ih hWake.inv with ⟨l', hRest, hDrop⟩
          rw [hWake.here] at hRest
          rw [update_self] at hDrop
          exact ⟨l', trans hWake hRest, hDrop⟩

section

variable (hInv : SystemInv s l)
include hInv

/- `ipc_mqueue_finish_receive`. -/
theorem finishReceive
    (i : Nat) :
    ∃ l', Simulates i s l (s.ipcMqueueFinishReceive i) l'
      (ipcMqueueFinishReceive (s.queue l i)) := by
  unfold SendSystem.ipcMqueueFinishReceive
    Ipc.ipcMqueueFinishReceive
  dsimp only
  have hActive : (takeHanded (s.queue l i) .generic).ipActive =
      ((s.ports i).takeHanded .generic).ipActive := rfl
  rw [hActive]
  split_ifs with h
  · have hTake := @SystemInv.setPort _ _ i
      { (s.ports i).takeHanded .generic with
        ipMsgcount := (s.ports i).ipMsgcount - 1 } hInv rfl
    rcases hTake.inv.wakeForSpace i with ⟨l', hWake⟩
    rw [hTake.here] at hWake
    exact ⟨l', trans hTake hWake⟩
  · exact ⟨l, hInv.setPort rfl⟩

/- `ipc_port_set_qlimit`. -/
theorem setQlimit
    (i qlimit : Nat) :
    ∃ l', Simulates i s l (s.ipcPortSetQlimit i qlimit) l'
      (ipcPortSetQlimit (s.queue l i) qlimit) := by
  unfold SendSystem.ipcPortSetQlimit Ipc.ipcPortSetQlimit
  have hLimit : (s.queue l i).ipQlimit =
      (s.ports i).ipQlimit := rfl
  rw [hLimit]
  split_ifs with hMore
  · rcases hInv.wakeSenders i
      (qlimit - (s.ports i).ipQlimit) with ⟨l', hWake, _⟩
    have hSet := @SystemInv.setPort _ _ i
      { (SendSystem.wakeSenders i
          (qlimit - (s.ports i).ipQlimit) s).ports i with
        ipQlimit := qlimit } hWake.inv rfl
    refine ⟨l', trans hWake ?_⟩
    rw [← hWake.here]
    exact hSet
  · exact ⟨l, hInv.setPort rfl⟩

/- `ipc_port_destroy`, when its loop has ended. -/
theorem destroy
    {turns : Nat}
    (hEnd : ((SendSystem.wakeSenders i turns s).ports
      i).ipBlocked = none) :
    ∃ l', Simulates i s l (s.ipcPortRouse i turns) l'
      (ipcPortRouse (s.queue l i)) := by
  rcases hInv.wakeSenders i turns with ⟨l', hWake, hDrop⟩
  have hNil : l' i = [] := by
    have hBase := (hWake.inv.rings i).base_eq
    rw [hEnd] at hBase
    exact List.head?_eq_none_iff.mp hBase.symm
  -- further turns would wake nobody
  have hAll : Ipc.wakeSenders turns (s.queue l i) =
      Ipc.wakeSenders (l i).length (s.queue l i) := by
    rw [hNil] at hDrop
    have hLe := List.drop_eq_nil_iff.mp hDrop.symm
    exact wakeSenders_enough hLe
  have hSet := @SystemInv.setPort _ _ i
    { (SendSystem.wakeSenders i turns s).ports i with
      ipActive := false
      imqMessages := 0 } hWake.inv rfl
  refine ⟨l', trans hWake ?_⟩
  have hQueue : ipcPortRouse (s.queue l i) =
      { Ipc.wakeSenders turns (s.queue l i) with
        ipActive := false
        imqMessages := 0 } := by
    rw [hAll]
    rfl
  rw [hQueue, ← hWake.here]
  exact hSet

/- A thread that is outside enters for a port. -/
theorem enter
    (hOutside : (s.threads t).phase = .outside)
    (hOut : ∀ j, t ∉ l j)
    (i : Nat) :
    SystemInv
        { s with
          remotePort := update s.remotePort t i } l ∧
      ∀ j, SendSystem.queue
        { s with
          remotePort := update s.remotePort t i } l
        j = s.queue l j := by
  refine ⟨⟨hInv.rings, ?_, hInv.alone, hInv.idle⟩, ?_⟩
  · intro j u hu
    have hNe : u ≠ t := by
      intro h
      exact hOut j (h ▸ hu)
    dsimp only
    rw [update_of_ne hNe]
    exact hInv.sends j u hu
  · intro j
    have hThreads : SendSystem.threadsOf
        { s with
          remotePort := update s.remotePort t i } j =
        s.threadsOf j := by
      funext u
      unfold SendSystem.threadsOf
      by_cases hu : u = t
      · subst hu
        rw [hInv.idle u hOutside]
        split_ifs <;> rfl
      · simp only [update_of_ne hu]
    unfold SendSystem.queue
    rw [hThreads]

end

end SystemInv

------
-- Senders on the Queue
------

/- No sender of the queue runs again before it is woken. -/
def PortQueue.OffQueue (p : PortQueue) : QueueOp → Prop
| .resume t => (p.threads t).ithState = .msgSuccess
| _ => True

namespace SendersInv

variable {p : PortQueue} {t : Nat}

theorem sendTurn
    (hInv : SendersInv p)
    (hOut : t ∉ p.ipBlocked)
    (timeout : Option Nat)
    (always : Bool) :
    SendersInv (sendTurn p t timeout always).2 := by
  unfold Ipc.sendTurn
  split_ifs with hDead hRoom hTime
  · exact hInv.leave hOut
  · rcases deliver_spec p with
      ⟨_, _, _, hBlocked, hThreads, _⟩
    apply (hInv.congr hBlocked hThreads).leave
    rw [hBlocked]
    exact hOut
  · exact hInv.leave hOut
  · exact hInv.enqueue hOut timeout always

/- A sender that has been woken is not on the queue. -/
theorem not_mem_of_woken
    (hInv : SendersInv p)
    (hState : (p.threads t).ithState = .msgSuccess) :
    t ∉ p.ipBlocked := by
  intro hMem
  have h := ((hInv.blocked t).mp hMem).2
  rw [hState] at h
  cases h

theorem wakeForSpace
    (hInv : SendersInv p) :
    SendersInv (wakeForSpace p) := by
  unfold Ipc.wakeForSpace
  cases hBlocked : p.ipBlocked with
  | nil => exact hInv
  | cons sender senders =>
      split_ifs with hRoom
      · exact (hInv.wakeFirst hBlocked).1
      · exact hInv

/- Every step off the queue keeps the senders in order. -/
theorem step
    (hInv : SendersInv p)
    (op : QueueOp)
    (hLegal : p.Legal op)
    (hOff : p.OffQueue op) :
    SendersInv (p.step op) := by
  cases op with
  | send t timeout always =>
      apply hInv.sendTurn
      intro hMem
      exact ((hInv.blocked t).mp hMem).1 hLegal
  | resume t =>
      have hState : (p.threads t).ithState = .msgSuccess :=
        hOff
      unfold PortQueue.step
      dsimp only
      cases hPhase : (p.threads t).phase with
      | outside => exact hInv
      | waiting => exact hInv
      | resuming result =>
          unfold ipcMqueueResume
          dsimp only
          rw [if_pos hState]
          exact hInv.sendTurn (hInv.not_mem_of_woken hState)
            _ _
  | expire t => exact hInv.endWait hLegal.1 .timedOut
  | interrupt t => exact hInv.endWait hLegal .interrupted
  | handOff always =>
      rcases deliver_spec p with
        ⟨_, _, _, hBlocked, hThreads, _⟩
      exact hInv.congr hBlocked hThreads
  | receive path =>
      unfold PortQueue.step ipcMqueueReceive
      split_ifs with hSome
      · exact hInv.congr rfl rfl
      · exact hInv.congr rfl rfl
  | abortReceive path => exact hInv.congr rfl rfl
  | finish path =>
      cases path with
      | generic =>
          unfold PortQueue.step finishReceive
            ipcMqueueFinishReceive
          dsimp only
          split_ifs with hActive
          · apply wakeForSpace
            exact hInv.congr rfl rfl
          · exact hInv.congr rfl rfl
      | hot => exact hInv.congr rfl rfl
  | setQlimit qlimit =>
      unfold PortQueue.step ipcPortSetQlimit
      dsimp only
      split_ifs with hMore
      · exact (hInv.wakeMany _).1.congr rfl rfl
      · exact hInv.congr rfl rfl
  | destroy => exact (hInv.wakeMany _).1.congr rfl rfl

end SendersInv

theorem QueueReachable.sendersInv
    {p : PortQueue}
    (hRun : QueueReachable PortQueue.OffQueue p) :
    SendersInv p := by
  induction hRun with
  | init => exact QueueInv.init.senders
  | step _ op hLegal hOff ih => exact ih.step op hLegal hOff

------
-- Runs
------

namespace SystemInv

variable {s : SendSystem} {l : Nat → List Nat} {t : Nat}

/- A thread that no port has blocked is on no ring. -/
theorem not_mem
    (hSenders : ∀ i, SendersInv (s.queue l i))
    (hFree : (s.threads t).phase = .outside ∨
      (s.threads t).ithState = .msgSuccess)
    (j : Nat) :
    t ∉ l j := by
  intro hMem
  have hBlocked := ((hSenders j).blocked t).mp hMem
  have hThread : (s.queue l j).threads t = s.threads t ∨
      (s.queue l j).threads t = SendThread.idle := by
    have hOf : (s.queue l j).threads t =
        if s.remotePort t = j then s.threads t
        else SendThread.idle := rfl
    rw [hOf]
    split_ifs
    · exact Or.inl rfl
    · exact Or.inr rfl
  rcases hThread with hEq | hEq
  · rw [hEq] at hBlocked
    rcases hFree with h | h
    · exact hBlocked.1 h
    · rw [h] at hBlocked
      cases hBlocked.2
  · rw [hEq] at hBlocked
    exact hBlocked.1 rfl

/-
  A step is a step of the queue at its port, and the other
  queues stay.
-/
theorem step
    (hInv : SystemInv s l)
    (hSenders : ∀ i, SendersInv (s.queue l i))
    (o : SystemOp)
    (hLegal : s.Legal o)
    (hOff : s.OffQueue o) :
    ∃ l', SystemInv (s.step o) l' ∧
      (s.step o).queue l' o.port =
        (s.queue l o.port).step o.op ∧
      ∀ j, j ≠ o.port →
        (s.step o).queue l' j = s.queue l j := by
  rcases o with ⟨i, op, turns⟩
  cases op with
  | send t timeout always =>
      have hOut := not_mem hSenders (Or.inl hLegal)
      rcases hInv.enter hLegal hOut i with ⟨hEnter, hSame⟩
      rcases hEnter.sendTurn (update_self ..) hOut
        timeout always with ⟨l', hTurn⟩
      refine ⟨l', hTurn.inv, ?_, ?_⟩
      · refine hTurn.here.trans ?_
        rw [hSame]
        rfl
      · intro j hj
        exact (hTurn.there j hj).trans (hSame j)
  | resume t =>
      have hState : (s.threads t).ithState = .msgSuccess :=
        hOff
      have hSends : s.SendsTo i t := hLegal.1
      have hThread : (s.queue l i).threads t = s.threads t :=
        if_pos hSends.1
      have hOut := not_mem hSenders (Or.inr hState)
      unfold SendSystem.step PortQueue.step
      dsimp only
      rw [hThread]
      cases hPhase : (s.threads t).phase with
      | outside => exact absurd hPhase hSends.2
      | waiting => exact absurd hPhase hLegal.2
      | resuming result =>
          unfold SendSystem.ipcMqueueResume ipcMqueueResume
          dsimp only
          rw [hThread, if_pos hState, if_pos hState]
          rcases hInv.sendTurn hSends.1 hOut
            (s.threads t).timeout (s.threads t).always with
            ⟨l', hTurn⟩
          exact ⟨l', hTurn.inv, hTurn.here, hTurn.there⟩
  | expire t =>
      have hThread : (s.queue l i).threads t = s.threads t :=
        if_pos hLegal.1.1
      have hEnd := @SystemInv.setThread _ _ i t
        { s.threads t with phase := .resuming .timedOut }
        hInv hLegal.1.1 (fun h => by cases h)
      refine ⟨l, hEnd.inv, hEnd.here.trans ?_, hEnd.there⟩
      unfold PortQueue.step PortQueue.endWait
      dsimp only
      rw [hThread]
  | interrupt t =>
      have hThread : (s.queue l i).threads t = s.threads t :=
        if_pos hLegal.1.1
      have hEnd := @SystemInv.setThread _ _ i t
        { s.threads t with phase := .resuming .interrupted }
        hInv hLegal.1.1 (fun h => by cases h)
      refine ⟨l, hEnd.inv, hEnd.here.trans ?_, hEnd.there⟩
      unfold PortQueue.step PortQueue.endWait
      dsimp only
      rw [hThread]
  | handOff always =>
      have hDeliver := hInv.deliver i
      exact ⟨l, hDeliver.inv, hDeliver.here, hDeliver.there⟩
  | receive path =>
      have hBlocked : ((s.ports i).receive path).ipBlocked =
          (s.ports i).ipBlocked := by
        unfold RingPort.receive
        split_ifs <;> rfl
      have hReceive := hInv.setPort hBlocked
      refine ⟨l, hReceive.inv, hReceive.here.trans ?_,
        hReceive.there⟩
      unfold RingPort.receive PortQueue.step ipcMqueueReceive
      have hMessages : (s.queue l i).imqMessages =
          (s.ports i).imqMessages := rfl
      rw [hMessages]
      split_ifs <;> rfl
  | abortReceive path =>
      have hAbort := @SystemInv.setPort _ _ i
        ((s.ports i).abortReceive path) hInv rfl
      exact ⟨l, hAbort.inv, hAbort.here, hAbort.there⟩
  | finish path =>
      cases path with
      | generic =>
          rcases hInv.finishReceive i with ⟨l', hFinish⟩
          exact ⟨l', hFinish.inv, hFinish.here, hFinish.there⟩
      | hot =>
          have hFinish := @SystemInv.setPort _ _ i
            { (s.ports i).takeHanded .hot with
              ipMsgcount := (s.ports i).ipMsgcount - 1 }
            hInv rfl
          exact ⟨l, hFinish.inv, hFinish.here, hFinish.there⟩
  | setQlimit qlimit =>
      rcases hInv.setQlimit i qlimit with ⟨l', hSet⟩
      exact ⟨l', hSet.inv, hSet.here, hSet.there⟩
  | destroy =>
      rcases hInv.destroy hLegal.2.2 with ⟨l', hDestroy⟩
      exact ⟨l', hDestroy.inv, hDestroy.here, hDestroy.there⟩

/- A legal step is one for the queue at its port. -/
theorem legal_queue
    (hInv : SystemInv s l)
    (o : SystemOp)
    (hLegal : s.Legal o)
    (hOff : s.OffQueue o) :
    (s.queue l o.port).Legal o.op ∧
      (s.queue l o.port).OffQueue o.op := by
  rcases o with ⟨i, op, turns⟩
  cases op with
  | send t timeout always =>
      refine ⟨?_, trivial⟩
      have hOutside : (s.threads t).phase = .outside := hLegal
      have hOf : (s.queue l i).threads t =
          if s.remotePort t = i then s.threads t
          else SendThread.idle := rfl
      unfold PortQueue.Legal
      dsimp only
      rw [hOf, hInv.idle t hOutside]
      split_ifs <;> rfl
  | resume t =>
      have hSends : s.SendsTo i t := hLegal.1
      have hThread : (s.queue l i).threads t = s.threads t :=
        if_pos hSends.1
      unfold PortQueue.Legal PortQueue.OffQueue
      dsimp only
      rw [hThread]
      exact ⟨⟨hSends.2, hLegal.2⟩, hOff⟩
  | expire t | interrupt t =>
      have hThread : (s.queue l i).threads t = s.threads t :=
        if_pos hLegal.1.1
      refine ⟨?_, trivial⟩
      unfold PortQueue.Legal
      dsimp only
      rw [hThread]
      exact hLegal.2
  | handOff always | receive path | abortReceive path
  | finish path | setQlimit qlimit => exact ⟨hLegal, trivial⟩
  | destroy => exact ⟨⟨hLegal.1, hLegal.2.1⟩, trivial⟩

end SystemInv

variable {s : SendSystem}

/- Along a run off the queue every port runs as a queue. -/
theorem SystemReachable.queueReachable
    (hRun : SystemReachable SendSystem.OffQueue s) :
    ∃ l, SystemInv s l ∧
      ∀ i, QueueReachable PortQueue.OffQueue
        (s.queue l i) := by
  induction hRun with
  | init =>
      refine ⟨fun _ => [], SystemInv.init, ?_⟩
      intro i
      have hQueue : SendSystem.init.queue (fun _ => []) i =
          PortQueue.init := by
        have hThreads : SendSystem.init.threadsOf i =
            fun _ => SendThread.idle := by
          funext t
          exact ite_self _
        unfold SendSystem.queue
        rw [hThreads]
        rfl
      rw [hQueue]
      exact QueueReachable.init
  | @step s _ o hLegal hOff ih =>
      rcases ih with ⟨l, hInv, hQueues⟩
      have hSenders : ∀ i, SendersInv (s.queue l i) :=
        fun i => (hQueues i).sendersInv
      rcases hInv.step hSenders o hLegal hOff with
        ⟨l', hAfter, hHere, hThere⟩
      refine ⟨l', hAfter, ?_⟩
      intro j
      by_cases hj : j = o.port
      · rw [hj, hHere]
        rcases hInv.legal_queue o hLegal hOff with
          ⟨hStep, hAllowed⟩
        exact (hQueues o.port).step o.op hStep hAllowed
      · rw [hThere j hj]
        exact hQueues j

/-
  Along runs where no sender runs again before it is woken,
  `ip_blocked` is one ring, of the threads that wait for the
  port in `ipc_mqueue_send`, each on it once.
-/
theorem systemReachable_blockedRing
    {s : SendSystem}
    (hRun : SystemReachable SendSystem.OffQueue s)
    (i : Nat) :
    s.BlockedIsRing i := by
  rcases hRun.queueReachable with ⟨l, hInv, hQueues⟩
  have hSenders := (hQueues i).sendersInv
  have hIff : ∀ t, t ∈ l i ↔ s.Blocked i t := by
    intro t
    refine (hSenders.blocked t).trans ?_
    have hOf : (s.queue l i).threads t =
        if s.remotePort t = i then s.threads t
        else SendThread.idle := rfl
    rw [hOf]
    unfold SendSystem.Blocked SendSystem.SendsTo
    split_ifs with hPort
    · simp only [hPort, true_and]
    · simp [hPort, SendThread.idle]
  refine ⟨l i, hInv.rings i, (hInv.rings i).nodup, hIff, ?_⟩
  intro t hSends hWait
  rw [hIff]
  refine ⟨hSends, ?_⟩
  have hThread : (s.queue l i).threads t = s.threads t :=
    if_pos hSends.1
  have hState := hSenders.waiting t
  rw [hThread] at hState
  exact hState hWait

/- A list of steps, each of them legal and allowed. -/
def LegalSystemRun
    (Allowed : SendSystem → SystemOp → Prop) :
    SendSystem → List SystemOp → Prop
| _, [] => True
| s, o :: ops =>
    s.Legal o ∧ Allowed s o ∧
      LegalSystemRun Allowed (s.step o) ops

theorem SystemReachable.foldl
    {Allowed : SendSystem → SystemOp → Prop}
    (ops : List SystemOp)
    (hRun : SystemReachable Allowed s)
    (hLegal : LegalSystemRun Allowed s ops) :
    SystemReachable Allowed
      (ops.foldl SendSystem.step s) := by
  induction ops generalizing s with
  | nil => exact hRun
  | cons o ops ih =>
      exact ih (hRun.step o hLegal.1 hLegal.2.1) hLegal.2.2

/- Operations on one port. -/
def atPort (i : Nat) (ops : List QueueOp) : List SystemOp :=
  ops.map (fun op => ⟨i, op, 0⟩)

/-
  Two senders wait, and the timeout of the first expires
  just before it is woken.
-/
def racedOps : List SystemOp :=
  atPort 4
    [.setQlimit 1, .send 1 none false,
      .send 2 (some 10) false, .send 3 none false, .expire 2,
      .receive .generic, .finish .generic, .resume 2]

/- The second sender is left on the ring. -/
theorem systemReachable_blockedRing_raced :
    (racedOps.foldl SendSystem.step
        SendSystem.init).BlockedIsRing 4 ∧
      (racedOps.foldl SendSystem.step
        SendSystem.init).Blocked 4 3 := by
  have hLegal : LegalSystemRun SendSystem.OffQueue
      SendSystem.init racedOps :=
    ⟨rfl, trivial, rfl, trivial, rfl, trivial, rfl, trivial,
      ⟨⟨rfl, by decide⟩, rfl, by decide⟩, trivial, rfl,
      trivial, Nat.zero_lt_one, trivial,
      ⟨⟨rfl, by decide⟩, by decide⟩, rfl, trivial⟩
  refine ⟨systemReachable_blockedRing
    (SystemReachable.foldl _ SystemReachable.init hLegal) 4,
    ⟨rfl, by decide⟩, rfl⟩

/- Two senders wait; the first times out and returns. -/
def gaveUpOps : List SystemOp :=
  atPort 4
    [.setQlimit 1, .send 1 none false,
      .send 2 (some 10) false, .send 3 none false, .expire 2,
      .resume 2]

/- The sender that returned sends again. -/
def sentAgainOps : List SystemOp :=
  gaveUpOps ++ atPort 4 [.send 2 none false]

/-
  The sender that gave up is still the first of the ring.
  When it sends again it is linked in a second time, and the
  ring loses the sender behind it.
-/
theorem blockedRing_gaveUp :
    LegalSystemRun (fun _ _ => True) SendSystem.init
        sentAgainOps ∧
      ¬ (gaveUpOps.foldl SendSystem.step
        SendSystem.init).BlockedIsRing 4 ∧
      ¬ (sentAgainOps.foldl SendSystem.step
        SendSystem.init).BlockedIsRing 4 := by
  refine ⟨?_, ?_, ?_⟩
  · exact ⟨rfl, trivial, rfl, trivial, rfl, trivial, rfl,
      trivial, ⟨⟨rfl, by decide⟩, rfl, by decide⟩, trivial,
      ⟨⟨rfl, by decide⟩, by decide⟩, trivial, rfl, trivial,
      trivial⟩
  · rintro ⟨l, hRing, _, hIff, _⟩
    have hBase : some 2 = l.head? := hRing.base_eq
    have hMem : 2 ∈ l := List.mem_of_head? hBase.symm
    have hBlocked := (hIff 2).mp hMem
    exact hBlocked.1.2 rfl
  · rintro ⟨l, hRing, hNodup, hIff, _⟩
    have hMem : 3 ∈ l := (hIff 3).mpr
      ⟨⟨rfl, by decide⟩, rfl⟩
    cases l with
    | nil => cases hMem
    | cons first nodes =>
        have hBase : some 2 = some first := hRing.1
        cases hBase
        -- thread 2 links to itself, so it is alone
        cases nodes with
        | nil =>
            rw [List.mem_singleton] at hMem
            cases hMem
        | cons second nodes =>
            have hNext : 2 = second := hRing.2.2.1.1
            rw [List.nodup_cons] at hNodup
            apply hNodup.1
            rw [← hNext]
            exact List.mem_cons_self ..

end Ipc

end OsfMach
