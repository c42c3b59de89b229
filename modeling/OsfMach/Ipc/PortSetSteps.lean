import OsfMach.Ipc.PortSetInv

/-
  The invariant of the queues along every run: no message is
  queued where a receiver waits, whatever the ports, sets
  and receivers do.

  Main declarations:
    * `Rehomed`, `RcvSystem.NoMissedMessage`
    * `RcvInv.remove`, `RcvInv.add`
    * `RcvInv.step`
    * `RcvSystem.Counted`
    * `rcvRun_noMissedMessage`
-/

------
-- Members of Sets
------

namespace OsfMach

namespace Ipc

variable {s : RcvSystem} {events : List QueueEvent}

namespace RcvSystem

variable {s : RcvSystem} {q i : Nat}

/- A port leaves its set. -/
theorem remove_eq
    (hPset : (s.ports i).ipPset = some q) :
    s.ipcPsetRemove q i =
      giveAll (.ofPort i) (s.ownKmsgs i)
        (s.detached i none) := by
  have hQueue : s.queueOf i = .ofPset q := by
    unfold queueOf
    rw [hPset]
  unfold ownKmsgs detached ipcPsetRemove
  rw [hQueue, move_eq (by simp)]
  rfl

/- A port outside a set goes into one. -/
theorem add_eq
    (q : Nat)
    (hPset : (s.ports i).ipPset = none) :
    s.ipcPsetAdd q i =
      ((giveAll (.ofPset q) (s.ownKmsgs i)
          (s.detached i (some q))).1.ipcMqueueChanged
            (.ofPort i) .portChanged,
        (giveAll (.ofPset q) (s.ownKmsgs i)
          (s.detached i (some q))).2) := by
  have hQueue : s.queueOf i = .ofPort i := by
    unfold queueOf
    rw [hPset]
  unfold ownKmsgs detached ipcPsetAdd
  dsimp only
  rw [hQueue, move_eq (by simp)]
  rfl

end RcvSystem

namespace RcvInv

variable {s s' : RcvSystem} {r : MqueueRef} {i q t : Nat}

/- Nobody came to wait, and the sets are the same. -/
theorem of_sameSets
    (hInv : RcvInv s)
    (hCore : RcvCore s')
    (hSame : RcvSystem.SameSets s s') :
    RcvInv s' := by
  refine ⟨hCore, ?_⟩
  intro r hNot
  rw [hSame.receivable] at hNot
  exact hSame.nobody r (hInv.receivable r hNot)

/- A message is delivered. -/
theorem deliver
    (hInv : RcvInv s)
    (hActive : (s.ports i).ipActive = true)
    (kmsg : Nat) :
    RcvInv (s.ipcMqueueDeliver i kmsg).1 :=
  hInv.of_sameSets
    (hInv.toRcvCore.give rfl hActive)
    (RcvSystem.giveKmsg_sameSets _ _ _)

/- A receiver in no other receive takes a turn. -/
theorem receiveTurn
    (hInv : RcvInv s)
    (hIdle : (s.threads t).phase = .outside)
    (hReceivable : s.Receivable r)
    (timeout : Option Nat) :
    RcvInv (s.receiveTurn t r timeout).1 := by
  have hCore := hInv.toRcvCore
  have hOld : ¬ (s.threads t).InProgress := by
    rintro ⟨_, h⟩
    rw [(hCore.sound t).outside.mp hIdle] at h
    cases h
  unfold RcvSystem.receiveTurn
  cases hList : (s.mqueues r).imqMessages with
  | cons kmsg kmsgs =>
      have hNobody : (s.mqueues r).imqThreads = [] := by
        rcases hCore.apart r with h | h
        · exact h
        · rw [hList] at h
          cases h
      have hTake : RcvCore (s.setMessages r kmsgs) := by
        apply hCore.setMessages (Or.inl hNobody)
        intro k hk
        apply hCore.home r k
        rw [hList]
        exact List.mem_cons_of_mem _ hk
      apply hInv.of_sameSets
      · exact RcvCore.leave (hTake.setSeqno _) hOld
      · refine ⟨?_, ?_, ?_, rfl, ?_⟩
        · intro j
          exact (RcvSystem.countSeqno_same
            (s.setMessages r kmsgs) _ j).1
        · intro j
          exact (RcvSystem.countSeqno_same
            (s.setMessages r kmsgs) _ j).2.1
        · intro j
          exact (RcvSystem.countSeqno_same
            (s.setMessages r kmsgs) _ j).2.2
        · intro r' h
          exact RcvSystem.setMessages_threads.trans h
  | nil =>
      split_ifs with hTime
      · exact hInv.of_sameSets (hCore.leave hOld)
          ⟨fun _ => rfl, fun _ => rfl, fun _ => rfl, rfl,
            fun _ h => h⟩
      · refine ⟨hCore.link hIdle hList _, ?_⟩
        intro r' hNot
        have hNe : r' ≠ r := by
          rintro rfl
          exact hNot hReceivable
        have hSame := @RcvSystem.setThreads_of_ne s r r'
          ((s.mqueues r).imqThreads ++ [t]) hNe
        exact (congrArg Mqueue.imqThreads hSame).trans
          (hInv.receivable r' hNot)

end RcvInv

/- A port that has changed its set, with its messages. -/
structure Rehomed
    (s s' : RcvSystem)
    (i : Nat)
    (nset : Option Nat) : Prop where
  core : RcvCore s'
  pset : (s'.ports i).ipPset = nset
  other :
    ∀ j, j ≠ i → (s'.ports j).ipPset = (s.ports j).ipPset
  active : ∀ j, (s'.ports j).ipActive = (s.ports j).ipActive
  receiver :
    ∀ j, (s'.ports j).ipReceiver = (s.ports j).ipReceiver
  sets : s'.ipsActive = s.ipsActive
  nobody :
    ∀ r, (s.mqueues r).imqThreads = [] →
      (s'.mqueues r).imqThreads = []

namespace Rehomed

variable {s s' s'' : RcvSystem} {i : Nat} {nset : Option Nat}

/- The messages of a port go where its new set reads. -/
theorem giveAll
    (hCore : RcvCore s)
    (hHeld : nset = none ∨ s.Held i)
    (hActive : (s.ports i).ipActive = true) :
    Rehomed s
      (RcvSystem.giveAll (RcvSystem.homeRef i nset)
        (s.ownKmsgs i) (s.detached i nset)).1 i nset := by
  have hSame := RcvSystem.giveAll_sameSets
    (s.detached i nset) (RcvSystem.homeRef i nset)
    (s.ownKmsgs i)
  refine ⟨?_, ?_, ?_, ?_, ?_, hSame.sets, ?_⟩
  · exact RcvCore.giveAll _ (hCore.detach hHeld)
      (RcvSystem.detached_home hActive)
  · rw [hSame.pset, RcvSystem.detached_port]
  · intro j hj
    rw [hSame.pset, RcvSystem.detached_port_of_ne hj]
  · intro j
    rw [hSame.active]
    by_cases hj : j = i
    · rw [hj, RcvSystem.detached_port]
    · rw [RcvSystem.detached_port_of_ne hj]
  · intro j
    rw [hSame.receiver]
    by_cases hj : j = i
    · rw [hj, RcvSystem.detached_port]
    · rw [RcvSystem.detached_port_of_ne hj]
  · intro r h
    apply hSame.nobody
    rw [RcvSystem.detached_threads]
    exact h

theorem trans
    (h : Rehomed s s' i nset)
    (hCore : RcvCore s'')
    (hSame : RcvSystem.SameSets s' s'') :
    Rehomed s s'' i nset :=
  { core := hCore
    pset := (hSame.pset i).trans h.pset
    other := fun j hj => (hSame.pset j).trans (h.other j hj)
    active := fun j => (hSame.active j).trans (h.active j)
    receiver :=
      fun j => (hSame.receiver j).trans (h.receiver j)
    sets := hSame.sets.trans h.sets
    nobody := fun r hr => hSame.nobody r (h.nobody r hr) }

/- Only the own queue of the port may have to be emptied. -/
theorem rcvInv
    (h : Rehomed s s' i nset)
    (hInv : RcvInv s)
    (hNobody : (s'.mqueues (.ofPort i)).imqThreads = []) :
    RcvInv s' := by
  refine ⟨h.core, ?_⟩
  intro r hNot
  by_cases hr : r = .ofPort i
  · subst hr
    exact hNobody
  · apply h.nobody
    apply hInv.receivable
    intro hReceivable
    apply hNot
    cases r with
    | ofPort j =>
        have hj : j ≠ i := by
          rintro rfl
          exact hr rfl
        dsimp only [RcvSystem.Receivable] at hReceivable ⊢
        rw [h.other j hj, h.receiver]
        exact hReceivable
    | ofPset q' =>
        dsimp only [RcvSystem.Receivable] at hReceivable ⊢
        rw [h.sets]
        exact hReceivable

end Rehomed

namespace RcvInv

variable {s s' : RcvSystem} {r : MqueueRef} {i q t : Nat}

/- A port in a set is held by a space. -/
theorem held_of_pset
    (hInv : RcvInv s)
    (hPset : (s.ports i).ipPset = some q) :
    s.Held i := by
  have hReceiver : (s.ports i).ipReceiver = true := by
    cases h : (s.ports i).ipReceiver with
    | true => rfl
    | false =>
        have hNone := hInv.limbo i h
        rw [hPset] at hNone
        cases hNone
  refine ⟨?_, hReceiver⟩
  cases h : (s.ports i).ipActive with
  | true => rfl
  | false =>
      have hNone := hInv.dead i h
      rw [hReceiver] at hNone
      cases hNone

/- A port leaves its set. -/
theorem remove
    (hInv : RcvInv s)
    (hPset : (s.ports i).ipPset = some q) :
    RcvInv (s.ipcPsetRemove q i).1 ∧
      Rehomed s (s.ipcPsetRemove q i).1 i none ∧
      ((s.ipcPsetRemove q i).1.mqueues
        (.ofPort i)).imqThreads = [] := by
  have hRehomed : Rehomed s (s.ipcPsetRemove q i).1 i
      none := by
    rw [RcvSystem.remove_eq hPset]
    exact Rehomed.giveAll hInv.toRcvCore (Or.inl rfl)
      (hInv.held_of_pset hPset).1
  have hNobody := hRehomed.nobody (.ofPort i)
    (hInv.receivable _ (by
      rintro ⟨_, h⟩
      rw [hPset] at h
      cases h))
  exact ⟨hRehomed.rcvInv hInv hNobody, hRehomed, hNobody⟩

/- A port outside a set goes into one. -/
theorem add
    (hInv : RcvInv s)
    (hHeld : s.Held i)
    (hPset : (s.ports i).ipPset = none) :
    RcvInv (s.ipcPsetAdd q i).1 := by
  have hRehomed := @Rehomed.giveAll s i (some q)
    hInv.toRcvCore (Or.inr hHeld) hHeld.1
  rw [RcvSystem.add_eq q hPset]
  rcases @RcvCore.changed _ (.ofPort i) .portChanged
    hRehomed.core (by simp) (by simp) with
    ⟨hAfter, hChanged, hNil⟩
  exact (hRehomed.trans hAfter hChanged).rcvInv hInv hNil

/- Where nobody waits, messages are only queued. -/
theorem giveAll_nobody
    (kmsgs : List Kmsg)
    (hNobody : (s.mqueues r).imqThreads = []) :
    RcvSystem.giveAll r kmsgs s =
      (s.setMessages r ((s.mqueues r).imqMessages ++ kmsgs),
        []) := by
  induction kmsgs generalizing s with
  | nil =>
      rw [List.append_nil, RcvSystem.setMessages_same]
      rfl
  | cons kmsg kmsgs ih =>
      have hGive : s.giveKmsg r kmsg =
          (s.setMessages r
            ((s.mqueues r).imqMessages ++ [kmsg]), []) := by
        unfold RcvSystem.giveKmsg
        rw [hNobody]
      have hRest := @ih
        (s.setMessages r
          ((s.mqueues r).imqMessages ++ [kmsg]))
        (RcvSystem.setMessages_threads.trans hNobody)
      rw [RcvSystem.giveAll_cons, hGive]
      rw [hRest, RcvSystem.setMessages_messages,
        RcvSystem.setMessages_twice, List.append_assoc]
      rfl

/- A port that leaves its set disturbs no thread. -/
theorem remove_threads
    (hInv : RcvInv s)
    (hPset : (s.ports i).ipPset = some q) :
    (s.ipcPsetRemove q i).1.threads = s.threads ∧
      (s.ipcPsetRemove q i).2 = [] := by
  rw [RcvSystem.remove_eq hPset, giveAll_nobody]
  · exact ⟨rfl, rfl⟩
  · rw [RcvSystem.detached_threads]
    apply hInv.receivable
    rintro ⟨_, h⟩
    rw [hPset] at h
    cases h

/- A port goes from one set to another. -/
theorem psetMove
    (hInv : RcvInv s)
    (hHeld : s.Held i)
    (nset : Option Nat) :
    RcvInv (s.ipcPsetMove i nset).1 := by
  unfold RcvSystem.ipcPsetMove
  dsimp only
  split_ifs with hEq
  · exact hInv
  · cases hOset : (s.ports i).ipPset with
    | none =>
        cases nset with
        | none => exact hInv
        | some q => exact hInv.add hHeld hOset
    | some q =>
        rcases hInv.remove hOset with ⟨hNew, hRehomed, _⟩
        cases nset with
        | none => exact hNew
        | some q' =>
            apply hNew.add _ hRehomed.pset
            unfold RcvSystem.Held
            rw [hRehomed.active, hRehomed.receiver]
            exact hHeld

/- A set dies, and its receivers are told. -/
theorem psetDestroy
    (hInv : RcvInv s) :
    RcvInv (s.ipcPsetDestroy q) := by
  have hCore : RcvCore
      { s with
        ipsActive :=
          Function.update s.ipsActive q false } :=
    ⟨hInv.apart, hInv.home, hInv.dead, hInv.limbo,
      hInv.waiting, hInv.nodup, hInv.sound⟩
  rcases @RcvCore.changed _ (.ofPset q) .portDied hCore
    (by simp) (by simp) with ⟨hAfter, hSame, hNil⟩
  refine ⟨hAfter, ?_⟩
  intro r hNot
  by_cases hr : r = .ofPset q
  · subst hr
    exact hNil
  · apply hSame.nobody
    apply hInv.receivable r
    intro hReceivable
    apply hNot
    unfold RcvSystem.ipcPsetDestroy
    rw [hSame.receivable]
    cases r with
    | ofPort j => exact hReceivable
    | ofPset q' =>
        have hq : q' ≠ q := by
          rintro rfl
          exact hr rfl
        dsimp only [RcvSystem.Receivable] at hReceivable ⊢
        rw [Function.update_of_ne hq]
        exact hReceivable

/- A port is taken out of a dead set. -/
theorem dropDeadSet
    (hInv : RcvInv s) :
    RcvInv (s.dropDeadSet i).1 ∧
      (s.dropDeadSet i).1.threads = s.threads ∧
      ((s.dropDeadSet i).1.ports i).ipReceiver =
        (s.ports i).ipReceiver := by
  unfold RcvSystem.dropDeadSet
  cases hPset : (s.ports i).ipPset with
  | none => exact ⟨hInv, rfl, rfl⟩
  | some q =>
      dsimp only
      split_ifs with hActive
      · exact ⟨hInv, rfl, rfl⟩
      · rcases hInv.remove hPset with ⟨hNew, hRehomed, _⟩
        exact ⟨hNew, (hInv.remove_threads hPset).1,
          hRehomed.receiver i⟩

section

variable (hInv : RcvInv s)
include hInv

theorem receiveFromPort
    (hIdle : (s.threads t).phase = .outside)
    (hHeld : s.Held i)
    (timeout : Option Nat) :
    RcvInv (s.receiveFromPort t i timeout).1 := by
  rcases @RcvInv.dropDeadSet s i hInv with
    ⟨hNew, hThreads, hReceiver⟩
  unfold RcvSystem.receiveFromPort
  dsimp only
  split_ifs with hPset
  · apply hNew.receiveTurn
    · rw [hThreads]
      exact hIdle
    · exact ⟨hReceiver.trans hHeld.2, hPset⟩
  · exact hNew

/- A receiver comes back from its wait. -/
theorem resume
    (result : WaitResult)
    (hPhase : (s.threads t).phase = .resuming result) :
    RcvInv (s.ipcMqueueResume t result).1 := by
  have hCore := hInv.toRcvCore
  have hSame : ∀ thread,
      RcvSystem.SameSets s (s.setThread t thread) :=
    fun _ => ⟨fun _ => rfl, fun _ => rfl, fun _ => rfl, rfl,
      fun _ h => h⟩
  unfold RcvSystem.ipcMqueueResume
  dsimp only
  cases hState : (s.threads t).ithState with
  | idle => exact hInv
  | msgSuccess kmsg seqno | portDied | portChanged =>
      refine hInv.of_sameSets (hCore.leave ?_) (hSame _)
      rintro ⟨_, h⟩
      rw [hState] at h
      cases h
  | inProgress timed =>
      -- the thread takes itself off the queue it waits on
      generalize hr : (s.threads t).mqueue = r
      have hMem : t ∈ (s.mqueues r).imqThreads :=
        (hCore.waiting r t).mpr ⟨hr, timed, hState⟩
      have hNodup := hCore.nodup r
      have hErase : ∀ u,
          u ∈ (s.mqueues r).imqThreads.erase t ↔
            u ≠ t ∧ u ∈ (s.mqueues r).imqThreads := by
        intro u
        exact hNodup.mem_erase_iff
      have hUnlink := hCore.unlink hErase (hNodup.erase t)
        hMem RcvThread.not_inProgress_idle
        RcvThread.sound_idle
      have hNone : (s.mqueues r).imqMessages = [] := by
        rcases hCore.apart r with h | h
        · rw [h] at hMem
          cases hMem
        · exact h
      have hFew : RcvSystem.SameSets s
          ((s.setThreads r
            ((s.mqueues r).imqThreads.erase t)).setThread t
              RcvThread.idle) := by
        refine ⟨fun _ => rfl, fun _ => rfl, fun _ => rfl,
          rfl, ?_⟩
        intro r' h
        have hNe : r' ≠ r := by
          rintro rfl
          rw [h] at hMem
          cases hMem
        exact (congrArg Mqueue.imqThreads
          (@RcvSystem.setThreads_of_ne s r r' _ hNe)).trans h
      have hDone := hInv.of_sameSets hUnlink hFew
      cases result with
      | interrupted => exact hDone
      | timedOut =>
          unfold RcvSystem.receiveTurn
          rw [RcvSystem.setThreads_messages, hNone]
          exact hDone
      | awakened =>
          exact absurd ⟨timed, hState⟩
            ((hCore.sound t).awakened hPhase)

/- The wait of a receiver ends without a wake-up. -/
theorem endWait
    (hWait : (s.threads t).phase = .waiting)
    (result : WaitResult)
    (hResult : result ≠ .awakened) :
    RcvInv (s.endWait t result) := by
  have hIn := (hInv.sound t).waiting hWait
  apply hInv.of_sameSets
  · apply hInv.toRcvCore.setThread
    · intro r
      exact Iff.rfl
    · refine ⟨⟨?_, ?_⟩, ?_, ?_⟩
      · intro h
        cases h
      · intro h
        rcases hIn with ⟨timed, hState⟩
        rw [hState] at h
        cases h
      · intro h
        cases h
      · intro h
        exact absurd (SendPhase.resuming.inj h) hResult
  · exact ⟨fun _ => rfl, fun _ => rfl, fun _ => rfl, rfl,
      fun _ h => h⟩

/- A port changes, and receivers may still wait on it. -/
theorem setPort
    {port : RcvPort}
    (hCore : RcvCore (s.setPort i port))
    (hPset : port.ipPset = (s.ports i).ipPset)
    (hNobody : port.ipReceiver = false →
      (s.mqueues (.ofPort i)).imqThreads = []) :
    RcvInv (s.setPort i port) := by
  refine ⟨hCore, ?_⟩
  intro r hNot
  cases r with
  | ofPset q => exact hInv.receivable (.ofPset q) hNot
  | ofPort j =>
      dsimp only [RcvSystem.Receivable] at hNot
      by_cases hj : j = i
      · subst hj
        rw [RcvSystem.setPort_self] at hNot
        cases hReceiver : port.ipReceiver with
        | false => exact hNobody hReceiver
        | true =>
            apply hInv.receivable (.ofPort j)
            rintro ⟨_, h⟩
            exact hNot ⟨hReceiver, hPset.trans h⟩
      · rw [RcvSystem.setPort_of_ne hj] at hNot
        exact hInv.receivable (.ofPort j) hNot

end

section

variable (hInv : RcvInv s)
include hInv

theorem storeSeqno
    (seqno : Nat) :
    RcvInv
      (s.setPort i { s.ports i with ipSeqno := seqno }) := by
  apply hInv.setPort (hInv.toRcvCore.setSeqno seqno) rfl
  intro hReceiver
  apply hInv.receivable
  rintro ⟨h, _⟩
  rw [h] at hReceiver
  cases hReceiver

theorem setSeqno
    (seqno : Nat) :
    RcvInv (s.ipcPortSetSeqno i seqno).1 :=
  (@RcvInv.dropDeadSet s i hInv).1.storeSeqno seqno

/- The receive right of a port leaves its space. -/
theorem clearReceiver
    (hHeld : s.Held i) :
    RcvInv (s.ipcPortClearReceiver i).1 := by
  have hCleared : ∀ s' : RcvSystem, RcvInv s' →
      (s'.ports i).ipPset = none →
      (s'.ports i).ipActive = true →
      (s'.mqueues (.ofPort i)).imqThreads = [] →
      RcvInv (s'.setPort i
        { s'.ports i with
          ipReceiver := false
          ipSeqno := 0 }) := by
    intro s' hNew hPset hActive hNobody
    have hPort := @RcvCore.setPort s' i
      { s'.ports i with
        ipReceiver := false
        ipSeqno := 0 } hNew.toRcvCore rfl (Or.inl hActive)
      (fun _ => rfl) (fun _ => hPset)
    exact hNew.setPort hPort rfl (fun _ => hNobody)
  unfold RcvSystem.ipcPortClearReceiver
  cases hPset : (s.ports i).ipPset with
  | some q =>
      rcases hInv.remove hPset with ⟨hNew, hRehomed, hNil⟩
      exact hCleared _ hNew hRehomed.pset
        ((hRehomed.active i).trans hHeld.1) hNil
  | none =>
      rcases @RcvCore.changed _ (.ofPort i) .portDied
        hInv.toRcvCore (by simp) (by simp) with
        ⟨hAfter, hSame, hNil⟩
      exact hCleared _ (hInv.of_sameSets hAfter hSame)
        ((hSame.pset i).trans hPset)
        ((hSame.active i).trans hHeld.1) hNil

/- The receive right of a port comes into a space. -/
theorem setReceiver
    (hActive : (s.ports i).ipActive = true) :
    RcvInv
      (s.setPort i
        { s.ports i with ipReceiver := true }) := by
  have hPort := @RcvCore.setPort s i
    { s.ports i with ipReceiver := true } hInv.toRcvCore rfl
    (Or.inl hActive)
    (fun h => by rw [hActive] at h; cases h)
    (fun h => by cases h)
  exact hInv.setPort hPort rfl (fun h => by cases h)

/- A port in limbo dies, and its messages with it. -/
theorem destroy
    (hLimbo : (s.ports i).ipReceiver = false) :
    RcvInv (s.ipcPortDestroy i).1 := by
  have hPset := hInv.limbo i hLimbo
  have hQueue : s.queueOf i = .ofPort i := by
    unfold RcvSystem.queueOf
    rw [hPset]
  have hEmpty : RcvInv (s.setMessages (.ofPort i) []) := by
    apply hInv.of_sameSets
    · apply hInv.toRcvCore.setMessages (Or.inr rfl)
      intro k hk
      cases hk
    · exact ⟨fun _ => rfl, fun _ => rfl, fun _ => rfl, rfl,
        fun _ h => RcvSystem.setMessages_threads.trans h⟩
  have hNone : ∀ r, ∀ kmsg ∈ ((s.setMessages (.ofPort i)
      []).mqueues r).imqMessages,
        kmsg.msghRemotePort ≠ i := by
    rintro r kmsg hMem rfl
    have hHome := (hEmpty.home r kmsg hMem).1
    have hSame : (s.setMessages (.ofPort kmsg.msghRemotePort)
        []).queueOf kmsg.msghRemotePort =
        .ofPort kmsg.msghRemotePort := hQueue
    rw [hSame] at hHome
    rw [← hHome, RcvSystem.setMessages_messages] at hMem
    cases hMem
  have hPort := @RcvCore.setPort
    (s.setMessages (.ofPort i) []) i
    { s.ports i with ipActive := false } hEmpty.toRcvCore rfl
    (Or.inr hNone) (fun _ => hLimbo) (fun _ => hPset)
  apply hEmpty.setPort hPort rfl
  intro _
  apply hEmpty.receivable
  rintro ⟨h, _⟩
  have hSame : (s.ports i).ipReceiver = true := h
  rw [hLimbo] at hSame
  cases hSame

/- Every legal step keeps the invariant. -/
theorem step
    (op : RcvOp)
    (hLegal : s.Legal op) :
    RcvInv (s.step op).1 := by
  cases op with
  | deliver i kmsg => exact hInv.deliver hLegal kmsg
  | receivePort t i timeout =>
      exact hInv.receiveFromPort hLegal.1 hLegal.2 timeout
  | receivePset t q timeout =>
      exact @RcvInv.receiveTurn s (.ofPset q) t hInv hLegal.1
        hLegal.2 timeout
  | resume t =>
      unfold RcvSystem.step
      dsimp only
      cases hPhase : (s.threads t).phase with
      | outside => exact hInv
      | waiting => exact hInv
      | resuming result => exact hInv.resume result hPhase
  | expire t =>
      exact hInv.endWait hLegal.1 .timedOut (by simp)
  | interrupt t =>
      exact hInv.endWait hLegal .interrupted (by simp)
  | psetMove i nset => exact hInv.psetMove hLegal.1 nset
  | psetDestroy q => exact hInv.psetDestroy
  | getStatus i => exact hInv.dropDeadSet.1
  | setSeqno i seqno => exact hInv.setSeqno seqno
  | clearReceiver i => exact hInv.clearReceiver hLegal
  | setReceiver i => exact hInv.setReceiver hLegal.1
  | destroy i => exact hInv.destroy hLegal.2

end

end RcvInv

------
-- One Port Outside of Sets
------

/-
  The queue of a port in no set, where the messages and the
  receivers are only counted, as its senders see it.
-/
structure RcvSystem.Counted
    (s : RcvSystem)
    (i : Nat)
    (p : PortQueue) : Prop where
  outside : (s.ports i).ipPset = none
  messages : p.imqMessages =
    (s.mqueues (.ofPort i)).imqMessages.length
  receivers : p.imqThreads =
    (s.mqueues (.ofPort i)).imqThreads.map fun _ => .generic

namespace RcvSystem.Counted

variable {s : RcvSystem} {i t : Nat} {p : PortQueue}

section

variable (h : s.Counted i p)
include h

/- A delivery is one of the counted queue. -/
theorem deliver
    (kmsg : Nat) :
    (s.ipcMqueueDeliver i kmsg).1.Counted i
      (Ipc.ipcMqueueDeliver p) := by
  have hThreads := h.receivers
  unfold RcvSystem.ipcMqueueDeliver queueOf
  rw [h.outside]
  dsimp only
  unfold giveKmsg Ipc.ipcMqueueDeliver
  cases hList : (s.mqueues (.ofPort i)).imqThreads with
  | nil =>
      rw [hList] at hThreads
      rw [hThreads]
      refine ⟨h.outside, ?_, ?_⟩
      · dsimp only
        rw [setMessages_messages, List.length_append,
          h.messages]
        rfl
      · dsimp only
        rw [setMessages_threads, hList]
        rfl
  | cons th ths =>
      rw [hList] at hThreads
      rw [hThreads]
      refine ⟨?_, ?_, ?_⟩
      · exact (countSeqno_same _ i i).1.trans h.outside
      · exact h.messages.trans
          (congrArg List.length setThreads_messages).symm
      · exact (congrArg (List.map _) setThreads_threads).symm

/- A receiver takes a counted message, or waits. -/
theorem receive
    {timeout : Option Nat}
    (hWaits : timeout ≠ some 0 ∨ 0 < p.imqMessages) :
    (s.receiveFromPort t i timeout).1.Counted i
      (Ipc.ipcMqueueReceive p .generic) := by
  have hMessages := h.messages
  unfold receiveFromPort dropDeadSet
  rw [h.outside]
  dsimp only
  rw [if_pos h.outside]
  unfold RcvSystem.receiveTurn Ipc.ipcMqueueReceive
  cases hList : (s.mqueues (.ofPort i)).imqMessages with
  | nil =>
      rw [hList, List.length_nil] at hMessages
      have hTime : timeout ≠ some 0 := by
        rcases hWaits with hTime | hSome
        · exact hTime
        · omega
      dsimp only
      rw [if_neg hTime, if_neg (by omega)]
      refine ⟨h.outside, ?_, ?_⟩
      · have hSame := @setThreads_messages s (.ofPort i)
          (.ofPort i)
          ((s.mqueues (.ofPort i)).imqThreads ++ [t])
        exact hMessages.trans
          (congrArg List.length (hSame.trans hList)).symm
      · refine Eq.trans ?_
          (congrArg (List.map _) setThreads_threads).symm
        dsimp only
        rw [h.receivers, List.map_append]
        rfl
  | cons kmsg kmsgs =>
      rw [hList, List.length_cons] at hMessages
      dsimp only
      rw [if_pos (by omega)]
      refine ⟨?_, ?_, ?_⟩
      · exact (countSeqno_same _ _ i).1.trans h.outside
      · refine Eq.trans ?_
          (congrArg List.length setMessages_messages).symm
        dsimp only
        omega
      · exact h.receivers.trans
          (congrArg (List.map _) setMessages_threads).symm

/- A receiver that is interrupted leaves the queue. -/
theorem interrupted
    {timed : Bool}
    (hState : (s.threads t).ithState = .inProgress timed)
    (hQueue : (s.threads t).mqueue = .ofPort i)
    (hMem : t ∈ (s.mqueues (.ofPort i)).imqThreads) :
    (s.ipcMqueueResume t .interrupted).1.Counted i
      (Ipc.abortReceive p .generic) := by
  unfold RcvSystem.ipcMqueueResume
  dsimp only
  rw [hState, hQueue]
  refine ⟨h.outside, ?_, ?_⟩
  · exact h.messages.trans
      (congrArg List.length setThreads_messages).symm
  · refine Eq.trans ?_
      (congrArg (List.map _) setThreads_threads).symm
    unfold Ipc.abortReceive
    dsimp only
    rw [h.receivers, List.map_const', List.map_const',
      List.length_erase_of_mem hMem]
    generalize (s.mqueues (.ofPort i)).imqThreads.length = n
    cases n with
    | zero => rfl
    | succ n =>
        rw [List.replicate_succ, List.erase_cons_head]
        rfl

end

end RcvSystem.Counted

------
-- Runs
------

theorem RcvRun.rcvInv
    (hRun : RcvRun s events) :
    RcvInv s := by
  induction hRun with
  | init => exact RcvInv.init
  | step _ op hLegal ih => exact ih.step op hLegal

/-
  No queue holds a message and has receivers; no thread
  waits on a queue that holds a message; and a port in a set
  holds no message itself. Every receiver on a queue takes
  whatever message comes.
-/
structure RcvSystem.NoMissedMessage
    (s : RcvSystem) : Prop where
  queues :
    ∀ r, (s.mqueues r).imqMessages = [] ∨
      (s.mqueues r).imqThreads = []
  threads :
    ∀ t, (s.threads t).phase = .waiting →
      (s.mqueues (s.threads t).mqueue).imqMessages = []
  members :
    ∀ i q, (s.ports i).ipPset = some q →
      (s.mqueues (.ofPort i)).imqMessages = []

/- Messages and receivers never miss each other. -/
theorem rcvRun_noMissedMessage
    {s : RcvSystem}
    {events : List QueueEvent}
    (hRun : RcvRun s events) :
    s.NoMissedMessage := by
  have hInv := hRun.rcvInv
  have hQueues : ∀ r, (s.mqueues r).imqMessages = [] ∨
      (s.mqueues r).imqThreads = [] :=
    fun r => (hInv.apart r).symm
  refine ⟨hQueues, ?_, ?_⟩
  · intro t hWait
    have hMem := (hInv.waiting (s.threads t).mqueue t).mpr
      ⟨rfl, (hInv.sound t).waiting hWait⟩
    rcases hQueues (s.threads t).mqueue with h | h
    · exact h
    · rw [h] at hMem
      cases hMem
  · intro i q hPset
    rw [List.eq_nil_iff_forall_not_mem]
    intro kmsg hMem
    have hHome := (hInv.home _ kmsg hMem).1
    unfold RcvSystem.queueOf at hHome
    cases hSet : (s.ports kmsg.msghRemotePort).ipPset with
    | none =>
        rw [hSet] at hHome
        have hPort : kmsg.msghRemotePort = i :=
          MqueueRef.ofPort.inj hHome
        rw [hPort, hPset] at hSet
        cases hSet
    | some q' =>
        rw [hSet] at hHome
        cases hHome

/- The state and the events of a list of steps. -/
def RcvSystem.runOps :
    List RcvOp → RcvSystem → RcvSystem × List QueueEvent
| [], s => (s, [])
| op :: ops, s =>
    let first := s.step op
    let rest := runOps ops first.1
    (rest.1, first.2 ++ rest.2)

def RcvSystem.LegalRun :
    List RcvOp → RcvSystem → Prop
| [], _ => True
| op :: ops, s => s.Legal op ∧ LegalRun ops (s.step op).1

theorem RcvRun.runOps
    (ops : List RcvOp)
    (hRun : RcvRun s events)
    (hLegal : s.LegalRun ops) :
    RcvRun (s.runOps ops).1 (events ++ (s.runOps ops).2) := by
  induction ops generalizing s events with
  | nil =>
      have hEmpty : events ++ (RcvSystem.runOps [] s).2 =
          events := List.append_nil events
      rw [hEmpty]
      exact hRun
  | cons op ops ih =>
      have hRest := ih (hRun.step op hLegal.1) hLegal.2
      rw [List.append_assoc] at hRest
      exact hRest

/-
  A thread waits on a set, two messages are sent to a port,
  and the port goes into the set.
-/
def joinOps : List RcvOp :=
  [.receivePset 7 3 none, .deliver 1 10, .deliver 1 11,
    .psetMove 1 (some 3)]

/- The thread gets one message, and the set the other. -/
theorem rcvRun_noMissedMessage_joined :
    (RcvSystem.init.runOps joinOps).1.NoMissedMessage ∧
      ((RcvSystem.init.runOps joinOps).1.threads
        7).ithState = .msgSuccess ⟨10, 1⟩ 0 ∧
      ((RcvSystem.init.runOps joinOps).1.mqueues
        (.ofPset 3)).imqMessages = [⟨11, 1⟩] := by
  have hLegal : RcvSystem.init.LegalRun joinOps := by
    refine ⟨⟨rfl, rfl⟩, rfl, rfl, ⟨⟨rfl, rfl⟩, ?_⟩, trivial⟩
    intro q _
    rfl
  exact ⟨rcvRun_noMissedMessage
    (RcvRun.runOps joinOps RcvRun.init hLegal), rfl, rfl⟩

end Ipc

end OsfMach
