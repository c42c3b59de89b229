import OsfMach.Ipc.PortLocksInv

/-
  The locks with which operations on port sets return. All
  return as their contracts say, but `ipc_port_set_seqno` on
  a port in a live set, which keeps the lock of the set.

  Main declarations:
    * `PsetOp.effect`, `LockedPorts.Legal`
    * `Ready`, `Balanced`, `SeqnoOfMember`
    * `LegalCalls`, `NoSeqnoOfMember`
    * `Performed`, one lemma for each operation
    * `portSet_locks_iff`
-/

------
-- Contracts
------

namespace OsfMach

namespace Ipc

open Function

/- What an operation does to ports, sets and queues. -/
def PsetOp.effect
    (rcv : RcvSystem) : PsetOp → RcvSystem
| .setQlimit _ _ => rcv
| .setSeqno i seqno => (rcv.step (.setSeqno i seqno)).1
| .clearReceiver i => (rcv.step (.clearReceiver i)).1
| .psetMove i nset => (rcv.step (.psetMove i nset)).1
| .psetDestroy q => (rcv.step (.psetDestroy q)).1
| .other op => (rcv.step op).1

namespace LockedPorts

variable {op : PsetOp} {nset : Option Nat}
variable {l l' : IpcLock} {seqno : Nat}

/-
  When a routine may be called. What others do in between
  does not move ports into or out of sets.
-/
def Legal (s : LockedPorts) : PsetOp → Prop
| .setQlimit i _ => s.rcv.Held i
| .setSeqno i seqno => s.rcv.Legal (.setSeqno i seqno)
| .clearReceiver i => s.rcv.Legal (.clearReceiver i)
| .psetMove i nset => s.rcv.Legal (.psetMove i nset)
| .psetDestroy q => s.rcv.Legal (.psetDestroy q)
| .other op =>
    s.rcv.Legal op ∧
      (∀ i, ((s.rcv.step op).1.ports i).ipPset =
        (s.rcv.ports i).ipPset) ∧
      (s.rcv.step op).1.ipsActive = s.rcv.ipsActive

/-
  The caller has the locks of the contract, and no port, set
  or queue is locked otherwise.
-/
def Ready
    (s : LockedPorts)
    (op : PsetOp) : Prop :=
  (∀ l ∈ op.entryLocks, s.held l = true) ∧
    ∀ l, l ∉ op.entryLocks → l ≠ .space → s.held l = false

/- The locks when a routine has returned, by its contract. -/
def contract
    (s : LockedPorts)
    (op : PsetOp)
    (l : IpcLock) : Bool :=
  if l ∈ op.entryLocks then decide (l ∈ op.exitLocks)
  else s.held l

/- A routine returns, with the locks of its contract. -/
def Balanced
    (s : LockedPorts)
    (op : PsetOp) : Prop :=
  ∃ s', s.perform op = .ok s' ∧ s'.held = s.contract op

/- The sequence number of a port in a live set is stored. -/
def SeqnoOfMember (s : LockedPorts) : PsetOp → Prop
| .setSeqno i _ =>
    ∃ q, (s.rcv.ports i).ipPset = some q ∧
      s.rcv.ipsActive q = true
| _ => False

/- What a call that keeps its contract leaves. -/
structure Performed
    (s : LockedPorts)
    (op : PsetOp)
    (s' : LockedPorts) : Prop where
  run : s.perform op = .ok s'
  held : s'.held = s.contract op
  inv : LockedInv (s'.settle op)
  effect : (s'.settle op).rcv = op.effect s.rcv

variable {s : LockedPorts} {q i : Nat}

/- Where the contract returns what it was called with. -/
theorem contract_same
    (hReady : s.Ready op)
    (hExit : op.exitLocks = op.entryLocks) :
    s.contract op = s.held := by
  funext l
  unfold contract
  split
  · rename_i hMem
    rw [hExit, hReady.1 l hMem]
    exact decide_eq_true hMem
  · rfl

/- The locks of queues and sets are free. -/
theorem Ready.mqueue
    (hReady : s.Ready op)
    (r : MqueueRef) :
    s.held (.mqueue r) = false := by
  apply hReady.2 _ _ (by simp)
  cases op <;> simp [PsetOp.entryLocks]

theorem performed_setQlimit
    {qlimit : Nat}
    (hInv : LockedInv s)
    (hLegal : s.Legal (.setQlimit i qlimit))
    (hReady : s.Ready (.setQlimit i qlimit)) :
    ∃ s', Performed s (.setQlimit i qlimit) s' := by
  refine ⟨_, bind_eq (require_of hLegal.1) rfl, ?_, ?_, rfl⟩
  · exact (contract_same hReady rfl).symm
  · exact hInv.congr hInv.rcv (fun _ => rfl) rfl rfl rfl

/- Another lock than one that was taken is as it was. -/
theorem setHeld_free
    (hNe : l' ≠ l)
    (hFree : s.held l' = false) :
    (s.setHeld l true).held l' = false :=
  update_free hNe hFree

/- A member leaves its set, once the set is locked. -/
theorem remove_under
    (hInv : LockedInv s)
    (hPset : (s.rcv.ports i).ipPset = some q)
    (hPort : s.held (.mqueue (.ofPort i)) = false)
    (hQueue : s.held (.mqueue (.ofPset q)) = false) :
    (s.setHeld (.pset q) true).ipcPsetRemove q i =
      .ok ((s.removed q i).setHeld (.pset q) true) := by
  have hRefs : 0 < s.ipsReferences q :=
    Nat.lt_of_le_of_lt (Nat.zero_le _) (hInv.member hPset)
  have hActive := (hInv.rcv.held_of_pset hPset).1
  have hOwn : IpcLock.mqueue (.ofPort i) ≠ .pset q := by simp
  have hOther : IpcLock.mqueue (.ofPset q) ≠ .pset q := by simp
  exact remove_run hActive hPset hRefs
    (setHeld_free hOwn hPort) (setHeld_free hOther hQueue)

/- The set is unlocked, and freed without references. -/
theorem checkUnlock_under
    (hSet : s.held (.pset q) = false) :
    (s.setHeld (.pset q) true).ipsCheckUnlock q =
      .ok (s.reaped q) := by
  refine (checkUnlock_of s.held rfl hSet).trans ?_
  unfold reaped
  split <;> split <;> first | rfl | contradiction

/- A member's set was not freed. -/
theorem lock_member
    (hInv : LockedInv s)
    (hPset : (s.rcv.ports i).ipPset = some q)
    (hSet : s.held (.pset q) = false) :
    s.ipsLock q = .ok (s.setHeld (.pset q) true) := by
  apply ipsLock_of _ hSet
  exact hInv.not_freed
    (Nat.lt_of_le_of_lt (Nat.zero_le _) (hInv.member hPset))

theorem leaveSet_run
    (hInv : LockedInv s)
    (hPset : (s.rcv.ports i).ipPset = some q)
    (hSet : s.held (.pset q) = false)
    (hPort : s.held (.mqueue (.ofPort i)) = false)
    (hQueue : s.held (.mqueue (.ofPset q)) = false) :
    s.leaveSet q i = .ok ((s.removed q i).reaped q) := by
  refine bind_eq (lock_member hInv hPset hSet) ?_
  refine bind_eq (remove_under hInv hPset hPort hQueue) ?_
  exact checkUnlock_under hSet

theorem reaped_held : (s.reaped q).held = s.held := by
  unfold reaped
  split <;> rfl

theorem reaped_rcv : (s.reaped q).rcv = s.rcv := by
  unfold reaped
  split <;> rfl

/- A port that is in no set, or in a dead one. -/
theorem performed_setSeqno
    (hInv : LockedInv s)
    (hReady : s.Ready (.setSeqno i seqno))
    (hNot : ¬ s.SeqnoOfMember (.setSeqno i seqno)) :
    ∃ s', Performed s (.setSeqno i seqno) s' := by
  have hOwn := hReady.mqueue (.ofPort i)
  have hHeld := contract_same hReady rfl
  cases hPset : (s.rcv.ports i).ipPset with
  | none =>
      have hEffect : (s.setSeqno i seqno).rcv =
          (s.rcv.ipcPortSetSeqno i seqno).1 := by
        unfold RcvSystem.ipcPortSetSeqno RcvSystem.dropDeadSet
        rw [hPset]
        rfl
      refine ⟨s.setSeqno i seqno, ?_, hHeld.symm,
        hInv.setSeqno seqno, hEffect⟩
      unfold perform ipcPortSetSeqno
      dsimp only
      rw [hPset]
      exact seqnoUnder_run seqno hOwn
  | some q =>
      have hDead : s.rcv.ipsActive q = false := by
        cases hActive : s.rcv.ipsActive q with
        | false => rfl
        | true => exact absurd ⟨q, hPset, hActive⟩ hNot
      have hSet : s.held (.pset q) = false :=
        hReady.2 _ (by simp [PsetOp.entryLocks]) (by simp)
      have hQueue := hReady.mqueue (.ofPset q)
      have hLeft : ((s.removed q i).reaped q).held =
          s.held := reaped_held
      have hEffect :
          (((s.removed q i).reaped q).setSeqno i seqno).rcv =
            (s.rcv.ipcPortSetSeqno i seqno).1 := by
        unfold RcvSystem.ipcPortSetSeqno RcvSystem.dropDeadSet
        rw [hPset]
        dsimp only
        rw [if_neg (by simp [hDead])]
        unfold LockedPorts.setSeqno
        rw [reaped_rcv]
        rfl
      refine ⟨((s.removed q i).reaped q).setSeqno i seqno, ?_,
        hLeft.trans hHeld.symm,
        ((hInv.removed hPset).reaped).setSeqno seqno, hEffect⟩
      unfold perform ipcPortSetSeqno
      dsimp only
      rw [hPset]
      refine bind_eq (lock_member hInv hPset hSet) ?_
      refine (if_pos hDead).trans ?_
      refine bind_eq (remove_under hInv hPset hOwn hQueue) ?_
      refine bind_eq (checkUnlock_under hSet) ?_
      apply seqnoUnder_run
      rw [hLeft]
      exact hOwn

/- Of a member of a live set, the lock of the set is kept. -/
theorem setSeqno_member
    {seqno : Nat}
    (hInv : LockedInv s)
    (hReady : s.Ready (.setSeqno i seqno))
    (hPset : (s.rcv.ports i).ipPset = some q)
    (hActive : s.rcv.ipsActive q = true) :
    s.perform (.setSeqno i seqno) =
      .ok ((s.setHeld (.pset q) true).setSeqno i seqno) := by
  have hSet : s.held (.pset q) = false :=
    hReady.2 _ (by simp [PsetOp.entryLocks]) (by simp)
  have hNe : IpcLock.mqueue (.ofPset q) ≠ .pset q := by simp
  unfold perform ipcPortSetSeqno
  dsimp only
  rw [hPset]
  refine bind_eq (lock_member hInv hPset hSet) ?_
  refine (if_neg (by simp [setHeld, hActive])).trans ?_
  exact seqnoUnder_run seqno
    (setHeld_free hNe (hReady.mqueue _))

/- Two stores to a port are one. -/
theorem clear_twice
    (rcv : RcvSystem)
    (i : Nat) :
    (rcv.setPort i
        { rcv.ports i with ipSeqno := 0 }).setPort i
      { (rcv.setPort i
          { rcv.ports i with ipSeqno := 0 }).ports i with
        ipReceiver := false } =
      rcv.setPort i
        { rcv.ports i with
          ipReceiver := false
          ipSeqno := 0 } := by
  rw [RcvSystem.setPort_self]
  unfold RcvSystem.setPort
  rw [update_idem]

/- What is left of a port whose receive right is cleared. -/
def cleared
    (s : LockedPorts)
    (i : Nat) : LockedPorts :=
  LockedPorts.setSeqno
    { s with ipMscount := update s.ipMscount i 0 } i 0

/- The rest of `ipc_port_clear_receiver`, after the set. -/
theorem clear_rest
    {cleared : LockedPorts}
    (hActive : (s.rcv.ports i).ipActive = true)
    (hClear : s.clearPset i = .ok cleared)
    (hStill : (cleared.rcv.ports i).ipActive = true)
    (hOwn : cleared.held (.mqueue (.ofPort i)) = false) :
    s.ipcPortClearReceiver i = .ok (cleared.cleared i) := by
  refine bind_eq (require_of hActive) ?_
  refine bind_eq hClear ?_
  refine bind_eq (require_of hStill) ?_
  exact seqnoUnder_run 0 hOwn

/- The port without its receiver, as callers leave it. -/
theorem cleared_inv
    (hInv : LockedInv s)
    (hRcv : RcvInv (s.rcv.setPort i
      { s.rcv.ports i with
        ipReceiver := false
        ipSeqno := 0 })) :
    LockedInv ((s.cleared i).settle (.clearReceiver i)) ∧
      ((s.cleared i).settle (.clearReceiver i)).rcv =
        s.rcv.setPort i
          { s.rcv.ports i with
            ipReceiver := false
            ipSeqno := 0 } := by
  have hSame : ((s.cleared i).settle (.clearReceiver i)).rcv =
      s.rcv.setPort i
        { s.rcv.ports i with
          ipReceiver := false
          ipSeqno := 0 } := clear_twice s.rcv i
  refine ⟨?_, hSame⟩
  refine hInv.congr (hSame ▸ hRcv) ?_ ?_ rfl rfl
  · intro j
    rw [hSame]
    by_cases hj : j = i
    · subst hj
      rw [RcvSystem.setPort_self]
    · rw [RcvSystem.setPort_of_ne hj]
  · rfl

theorem performed_clearReceiver
    (hInv : LockedInv s)
    (hLegal : s.Legal (.clearReceiver i))
    (hReady : s.Ready (.clearReceiver i)) :
    ∃ s', Performed s (.clearReceiver i) s' := by
  have hOwn := hReady.mqueue (.ofPort i)
  have hHeld := contract_same hReady rfl
  have hRcv := hInv.rcv.clearReceiver hLegal
  cases hPset : (s.rcv.ports i).ipPset with
  | some q =>
      have hSet : s.held (.pset q) = false :=
        hReady.2 _ (by simp [PsetOp.entryLocks]) (by simp)
      have hClear : s.clearPset i =
          .ok ((s.removed q i).reaped q) := by
        unfold clearPset
        rw [hPset]
        exact leaveSet_run hInv hPset hSet hOwn
          (hReady.mqueue _)
      have hMoved := (hInv.rcv.remove hPset).2.1
      have hLeft : ((s.removed q i).reaped q).rcv =
          (s.rcv.ipcPsetRemove q i).1 := reaped_rcv
      have hStill : (((s.removed q i).reaped q).rcv.ports
          i).ipActive = true := by
        rw [hLeft]
        exact (hMoved.active i).trans hLegal.1
      have hEffect : s.rcv.ipcPortClearReceiver i =
          (((s.rcv.ipcPsetRemove q i).1.setPort i
            { (s.rcv.ipcPsetRemove q i).1.ports i with
              ipReceiver := false
              ipSeqno := 0 }),
            (s.rcv.ipcPsetRemove q i).2 ++
              [.seqnoSet i 0]) := by
        unfold RcvSystem.ipcPortClearReceiver
        rw [hPset]
      rw [hEffect, ← hLeft] at hRcv
      rcases cleared_inv (hInv.removed hPset).reaped hRcv with
        ⟨hNew, hSame⟩
      refine ⟨_, clear_rest hLegal.1 hClear hStill ?_, ?_, hNew,
        ?_⟩
      · rw [reaped_held]
        exact hOwn
      · exact reaped_held.trans hHeld.symm
      · rw [hSame, hLeft]
        exact (congrArg Prod.fst hEffect).symm
  | none =>
      rcases @RcvCore.changed _ (.ofPort i) .portDied
        hInv.rcv.toRcvCore (by simp) (by simp) with
        ⟨hAfter, hKept, hNil⟩
      have hTold : LockedInv
          (s.mqueueChanged (.ofPort i) .portDied) :=
        hInv.congr (hInv.rcv.of_sameSets hAfter hKept)
          hKept.pset hKept.sets rfl rfl
      have hClear : s.clearPset i =
          .ok (s.mqueueChanged (.ofPort i) .portDied) := by
        unfold clearPset
        rw [hPset]
        refine bind_eq (lock_of hOwn) ?_
        exact unlock_of _ rfl hOwn
      have hEffect : s.rcv.ipcPortClearReceiver i =
          ((s.rcv.ipcMqueueChanged (.ofPort i)
              .portDied).setPort i
            { (s.rcv.ipcMqueueChanged (.ofPort i)
                .portDied).ports i with
              ipReceiver := false
              ipSeqno := 0 }, [.seqnoSet i 0]) := by
        unfold RcvSystem.ipcPortClearReceiver
        rw [hPset]
        rfl
      rw [hEffect] at hRcv
      rcases cleared_inv hTold hRcv with ⟨hNew, hSame⟩
      refine ⟨_, clear_rest hLegal.1 hClear
        ((hKept.active i).trans hLegal.1) hOwn, hHeld.symm,
        hNew, ?_⟩
      rw [hSame]
      exact (congrArg Prod.fst hEffect).symm

theorem performed_psetDestroy
    (hInv : LockedInv s)
    (hActive : s.rcv.ipsActive q = true)
    (hReady : s.Ready (.psetDestroy q)) :
    ∃ s', Performed s (.psetDestroy q) s' := by
  have hQueue := hReady.mqueue (.ofPset q)
  have hSet : s.held (.pset q) = true :=
    hReady.1 _ (by simp [PsetOp.entryLocks])
  have hBase : s.held =
      update
        (update s.held (.pset q) false) (.pset q)
        true := by
    rw [update_idem, ← hSet, update_eq_self]
  have hNew := (hInv.destroyed hActive).reaped (q := q)
  refine ⟨{ (s.destroyed q).reaped q with
      held := update s.held (.pset q) false }, ?_, ?_,
    hNew.congr hNew.rcv (fun _ => rfl) rfl rfl rfl,
    reaped_rcv⟩
  · refine bind_eq (require_of hActive) ?_
    refine bind_eq (lock_of hQueue) ?_
    refine bind_eq (unlock_of _ rfl hQueue) ?_
    refine bind_eq (ipsRelease_of (hInv.alive hActive)) ?_
    exact checkUnlock_of _ hBase (update_self ..)
  · funext l
    unfold contract
    by_cases hl : l = .pset q
    · rw [hl]
      simp [PsetOp.entryLocks, PsetOp.exitLocks]
    · simp [PsetOp.entryLocks, hl]

/- The space is locked, and no set and no queue. -/
structure SpaceOnly (s : LockedPorts) : Prop where
  space : s.held .space = true
  pset : ∀ q, s.held (.pset q) = false
  mqueue : ∀ r, s.held (.mqueue r) = false

/- A move that drops the lock of the space, and only that. -/
structure Moved
    (s : LockedPorts)
    (i : Nat)
    (nset : Option Nat)
    (s' : LockedPorts) : Prop where
  held : s'.held = update s.held .space false
  inv : LockedInv s'
  effect : s'.rcv = (s.rcv.ipcPsetMove i nset).1

section

variable (hInv : LockedInv s) (hOnly : s.SpaceOnly)
include hInv hOnly

/- The port is there already. -/
theorem move_same
    (hSame : (s.rcv.ports i).ipPset = nset) :
    ∃ result s',
      s.movePset i (s.rcv.ports i).ipPset nset =
        .ok (result, s') ∧ s.Moved i nset s' := by
  refine ⟨_, _, (if_pos hSame).trans
    (bind_eq (unlock_held hOnly.space) rfl), rfl,
    hInv.congr hInv.rcv (fun _ => rfl) rfl rfl rfl, ?_⟩
  unfold RcvSystem.ipcPsetMove
  rw [if_pos hSame]
  rfl

/- The port was in no set. -/
theorem move_in
    (hHeld : s.rcv.Held i)
    (hPset : (s.rcv.ports i).ipPset = none)
    (hActive : s.rcv.ipsActive q = true) :
    ∃ result s',
      s.movePset i none (some q) = .ok (result, s') ∧
      s.Moved i (some q) s' := by
  have hFreed := hInv.not_freed (hInv.alive hActive)
  have hNeSpace : IpcLock.space ≠ .pset q := by simp
  have hQueues : ∀ r, ((s.setHeld (.pset q) true).setHeld
      .space false).held (.mqueue r) = false := by
    intro r
    simp [setHeld, hOnly.mqueue r]
  have hRun : s.movePset i none (some q) =
      .ok (none,
        ((((s.setHeld (.pset q) true).setHeld .space
          false).added q i).setHeld (.pset q) false)) := by
    refine (if_neg (by simp)).trans ?_
    refine bind_eq (ipsLock_of hFreed (hOnly.pset q)) ?_
    refine bind_eq (require_of hActive) ?_
    refine bind_eq (unlock_held ?_) ?_
    · simp [setHeld, hOnly.space]
    refine bind_eq (add_run hInv.rcv hActive hHeld hPset
      (hQueues _) (hQueues _)) ?_
    refine bind_eq (unlock_held ?_) rfl
    simp [added, setHeld]
  refine ⟨_, _, hRun, ?_, ?_, ?_⟩
  · exact update_released hNeSpace.symm (hOnly.pset q)
  · have hNew := hInv.added hHeld hPset hActive
    exact hNew.congr hNew.rcv (fun _ => rfl) rfl rfl rfl
  · unfold RcvSystem.ipcPsetMove
    rw [hPset]
    rfl

/- The port leaves its set for none. -/
theorem move_out
    (hPset : (s.rcv.ports i).ipPset = some q) :
    ∃ result s',
      s.movePset i (some q) none = .ok (result, s') ∧
      s.Moved i none s' := by
  have hDropped : LockedInv (s.setHeld .space false) :=
    hInv.congr hInv.rcv (fun _ => rfl) rfl rfl rfl
  have hSet : (s.setHeld .space false).held (.pset q) =
      false := by
    simp [setHeld, hOnly.pset q]
  have hQueues : ∀ r,
      (s.setHeld .space false).held (.mqueue r) = false := by
    intro r
    simp [setHeld, hOnly.mqueue r]
  have hMoved := (hInv.rcv.remove hPset).2.1
  have hSets : ((s.setHeld .space false).removed q
      i).rcv.ipsActive q = s.rcv.ipsActive q :=
    congrFun hMoved.sets q
  have hNew := hDropped.removed hPset
  have hEffect : (s.rcv.ipcPsetRemove q i).1 =
      (s.rcv.ipcPsetMove i none).1 := by
    unfold RcvSystem.ipcPsetMove
    rw [hPset]
    rfl
  have hRun : s.movePset i (some q) none =
      if s.rcv.ipsActive q = true then
        .ok (some q, (s.setHeld .space false).removed q i)
      else
        .ok (none,
          ((s.setHeld .space false).removed q i).reaped q) := by
    refine (if_neg (by simp)).trans ?_
    refine bind_eq (unlock_held hOnly.space) ?_
    refine bind_eq (lock_member hDropped hPset hSet) ?_
    refine bind_eq (remove_under hDropped hPset (hQueues _)
      (hQueues _)) ?_
    by_cases hActive : s.rcv.ipsActive q = true
    · rw [if_pos hActive]
      refine (if_pos (hSets.trans hActive)).trans ?_
      exact bind_eq (unlock_of _ rfl hSet) rfl
    · rw [if_neg hActive]
      refine (if_neg (fun h => hActive (hSets.symm.trans
        h))).trans ?_
      exact bind_eq (checkUnlock_under hSet) rfl
  rw [hRun]
  split
  · exact ⟨_, _, rfl, rfl, hNew, hEffect⟩
  · exact ⟨_, _, rfl, reaped_held, hNew.reaped,
      reaped_rcv.trans hEffect⟩

end

/- Both sets are locked, in the order of their addresses. -/
theorem lockBoth_run
    {oset nset : Nat}
    (hNe : oset ≠ nset)
    (hOld : s.ipsFreed oset = false)
    (hNew : s.ipsFreed nset = false)
    (hOnly : s.SpaceOnly) :
    s.lockBoth oset nset =
      .ok ((s.setHeld (.pset oset) true).setHeld (.pset nset)
        true) := by
  have hNeLock : IpcLock.pset oset ≠ .pset nset := by
    simp [hNe]
  unfold lockBoth
  split
  · refine bind_eq (ipsLock_of hOld (hOnly.pset _)) ?_
    exact ipsLock_of hNew
      (setHeld_free hNeLock.symm (hOnly.pset _))
  · refine bind_eq (ipsLock_of hNew (hOnly.pset _)) ?_
    have hSecond := ipsLock_of
      (s := s.setHeld (.pset nset) true) hOld
      (setHeld_free hNeLock (hOnly.pset oset))
    rw [hSecond]
    unfold setHeld
    rw [update_comm hNeLock]

section

variable (hInv : LockedInv s)
include hInv

/- The port goes from one set to another. -/
theorem move_over
    {oset nset : Nat}
    (hOnly : s.SpaceOnly)
    (hPset : (s.rcv.ports i).ipPset = some oset)
    (hNe : oset ≠ nset)
    (hActive : s.rcv.ipsActive nset = true) :
    ∃ result s',
      s.movePset i (some oset) (some nset) =
        .ok (result, s') ∧
      s.Moved i (some nset) s' := by
  have hRefs : 0 < s.ipsReferences oset :=
    Nat.lt_of_le_of_lt (Nat.zero_le _) (hInv.member hPset)
  have hHeld := hInv.rcv.held_of_pset hPset
  have hNeLock : IpcLock.pset nset ≠ .pset oset := by
    simp [hNe.symm]
  have hNeSpace : IpcLock.pset nset ≠ .space := by simp
  have hNeOld : IpcLock.pset oset ≠ .space := by simp
  -- The state with both sets locked and the space dropped.
  generalize hLocked : ((s.setHeld (.pset oset) true).setHeld
    (.pset nset) true).setHeld .space false = x
  have hInvX : LockedInv x := by
    rw [← hLocked]
    exact hInv.congr hInv.rcv (fun _ => rfl) rfl rfl rfl
  have hRcv : x.rcv = s.rcv := by
    rw [← hLocked]
    rfl
  have hQueues : ∀ r, x.held (.mqueue r) = false := by
    intro r
    rw [← hLocked]
    simp [setHeld, hOnly.mqueue r]
  have hHeldX : x.held =
      update (update (update s.held
        (.pset oset) true) (.pset nset) true) .space false := by
    rw [← hLocked]
    rfl
  have hMoved := (hInvX.rcv.remove (hRcv ▸ hPset)).2.1
  have hHeldNew : (x.removed oset i).rcv.Held i := by
    refine ⟨(hMoved.active i).trans ?_,
      (hMoved.receiver i).trans ?_⟩
    · rw [hRcv]
      exact hHeld.1
    · rw [hRcv]
      exact hHeld.2
  have hActiveNew : (x.removed oset i).rcv.ipsActive nset =
      true := by
    have hSets : (x.removed oset i).rcv.ipsActive nset =
        x.rcv.ipsActive nset := congrFun hMoved.sets nset
    rw [hSets, hRcv]
    exact hActive
  have hInvOut := hInvX.removed (hRcv ▸ hPset)
  have hInvIn := hInvOut.added hHeldNew hMoved.pset hActiveNew
  have hIsNew : x.held (.pset nset) = true := by
    rw [hHeldX]
    simp
  have hIsOld : update x.held (.pset nset) false =
      update
        (update s.held .space false) (.pset oset)
        true := by
    rw [hHeldX, update_released hNeSpace
      (update_free hNeLock (hOnly.pset _)),
      update_comm hNeOld]
  have hFreeOld : update s.held .space false
      (.pset oset) = false := by
    exact hOnly.pset oset
  have hRun : s.movePset i (some oset) (some nset) =
      .ok (some oset,
        { (((x.removed oset i).added nset i).setHeld
            (.pset nset) false).reaped oset with
          held := update s.held .space false }) := by
    refine (if_neg (by simp [hNe])).trans ?_
    refine bind_eq (lockBoth_run hNe (hInv.not_freed hRefs)
      (hInv.not_freed (hInv.alive hActive)) hOnly) ?_
    refine bind_eq (unlock_held ?_) ?_
    · simp [setHeld, hOnly.space]
    rw [hLocked]
    refine bind_eq (require_of (hRcv ▸ hActive)) ?_
    refine bind_eq (remove_run (hRcv ▸ hHeld.1) (hRcv ▸ hPset)
      ?_ (hQueues _) (hQueues _)) ?_
    · rw [← hLocked]
      exact hRefs
    refine bind_eq (add_run hInvOut.rcv hActiveNew hHeldNew
      hMoved.pset (hQueues _) (hQueues _)) ?_
    refine bind_eq (unlock_held hIsNew) ?_
    exact bind_eq (checkUnlock_of _ hIsOld hFreeOld) rfl
  refine ⟨_, _, hRun, rfl, ?_, ?_⟩
  · have hDropped : LockedInv
        (((x.removed oset i).added nset i).setHeld
          (.pset nset) false) :=
      hInvIn.congr hInvIn.rcv (fun _ => rfl) rfl rfl rfl
    have hKept := hDropped.reaped (q := oset)
    exact hKept.congr hKept.rcv (fun _ => rfl) rfl rfl rfl
  · refine reaped_rcv.trans ?_
    unfold RcvSystem.ipcPsetMove
    rw [hPset, ← hRcv]
    rw [if_neg (by simp [hNe])]
    rfl

/- Where a port is moved, of the sets it may be moved to. -/
theorem movePset_run
    (hOnly : s.SpaceOnly)
    (hHeld : s.rcv.Held i)
    (hActive : ∀ q, nset = some q → s.rcv.ipsActive q = true) :
    ∃ result s',
      s.movePset i (s.rcv.ports i).ipPset nset =
        .ok (result, s') ∧ s.Moved i nset s' := by
  by_cases hSame : (s.rcv.ports i).ipPset = nset
  · exact move_same hInv hOnly hSame
  · cases hPset : (s.rcv.ports i).ipPset with
    | none =>
        cases nset with
        | none => exact absurd hPset hSame
        | some q =>
            exact move_in hInv hOnly hHeld hPset (hActive q rfl)
    | some oset =>
        cases nset with
        | none => exact move_out hInv hOnly hPset
        | some q =>
            apply move_over hInv hOnly hPset _ (hActive q rfl)
            rintro rfl
            exact hSame hPset

theorem performed_psetMove
    (hLegal : s.Legal (.psetMove i nset))
    (hReady : s.Ready (.psetMove i nset)) :
    ∃ s', Performed s (.psetMove i nset) s' := by
  have hFree : ∀ l, l ≠ .space → s.held l = false := by
    intro l hl
    exact hReady.2 l (by simp [PsetOp.entryLocks, hl]) hl
  have hPort := hFree (.port i) (by simp)
  have hSpace : s.held .space = true :=
    hReady.1 _ (by simp [PsetOp.entryLocks])
  have hOnly : (s.setHeld (.port i) true).SpaceOnly := by
    refine ⟨?_, ?_, ?_⟩
    · simp [setHeld, hSpace]
    · intro q
      simp [setHeld, hFree (.pset q)]
    · intro r
      simp [setHeld, hFree (.mqueue r)]
  have hLocked : LockedInv (s.setHeld (.port i) true) :=
    hInv.congr hInv.rcv (fun _ => rfl) rfl rfl rfl
  rcases movePset_run hLocked hOnly hLegal.1 hLegal.2 with
    ⟨result, s', hRun, hMoved⟩
  have hHeldPort : s'.held =
      update (update s.held .space false)
        (.port i) true := by
    rw [hMoved.held]
    exact update_comm (by simp) ..
  have hFreePort : update s.held .space false
      (.port i) = false := by
    exact hPort
  refine ⟨{ s' with
    held := update s.held .space false }, ?_, ?_,
    hMoved.inv.congr hMoved.inv.rcv (fun _ => rfl) rfl rfl rfl,
    hMoved.effect⟩
  · have hMove : s.ipcPsetMove i nset =
        .ok (!(nset.isNone && result.isNone),
          { s' with
            held := update s.held .space false }) := by
      refine bind_eq (lock_of hPort) ?_
      refine bind_eq (require_of hLegal.1.1) ?_
      refine bind_eq hRun ?_
      exact bind_eq (unlock_of _ hHeldPort hFreePort) rfl
    exact bind_eq hMove rfl
  · funext l
    unfold contract
    by_cases hl : l = .space
    · rw [hl]
      simp [PsetOp.entryLocks, PsetOp.exitLocks]
    · simp [PsetOp.entryLocks, hl]

theorem performed_other
    {op : RcvOp}
    (hLegal : s.Legal (.other op))
    (hReady : s.Ready (.other op)) :
    ∃ s', Performed s (.other op) s' :=
  ⟨_, rfl, (contract_same hReady rfl).symm,
    hInv.congr (hInv.rcv.step op hLegal.1) hLegal.2.1
      hLegal.2.2 rfl rfl, rfl⟩

/- Every other call returns with the locks of its contract. -/
theorem performed
    (hLegal : s.Legal op)
    (hReady : s.Ready op)
    (hNot : ¬ s.SeqnoOfMember op) :
    ∃ s', Performed s op s' := by
  cases op with
  | setQlimit i qlimit =>
      exact performed_setQlimit hInv hLegal hReady
  | setSeqno i seqno => exact performed_setSeqno hInv hReady hNot
  | clearReceiver i =>
      exact performed_clearReceiver hInv hLegal hReady
  | psetMove i nset =>
      exact performed_psetMove hInv hLegal hReady
  | psetDestroy q =>
      exact performed_psetDestroy hInv hLegal hReady
  | other op => exact performed_other hInv hLegal hReady

/- Exactly one call keeps a lock. -/
theorem balanced_iff
    (hLegal : s.Legal op)
    (hReady : s.Ready op) :
    s.Balanced op ↔ ¬ s.SeqnoOfMember op := by
  constructor
  · rintro ⟨s', hRun, hHeld⟩ hMember
    cases op with
    | setSeqno i seqno =>
        rcases hMember with ⟨q, hPset, hActive⟩
        rw [setSeqno_member hInv hReady hPset hActive] at hRun
        injection hRun with hEq
        have hSet : s.held (.pset q) = false :=
          hReady.2 _ (by simp [PsetOp.entryLocks]) (by simp)
        have hKept := congrFun hHeld (.pset q)
        rw [contract_same hReady rfl, hSet, ← hEq] at hKept
        simp [setSeqno, setHeld] at hKept
    | setQlimit i qlimit | clearReceiver i | psetMove i nset
    | psetDestroy q | other op => exact hMember
  · intro hNot
    rcases performed hInv hLegal hReady hNot with ⟨s', h⟩
    exact ⟨s', h.run, h.held⟩

end

------
-- Runs
------

/- No lock is held. -/
def AllFree (s : LockedPorts) : Prop :=
  ∀ l, s.held l = false

/- The state of a caller that has taken its locks. -/
def entered
    (s : LockedPorts)
    (op : PsetOp) : LockedPorts :=
  { s with held := fun l => decide (l ∈ op.entryLocks) }

theorem lockAll_entry
    (hFree : s.AllFree)
    (op : PsetOp) :
    lockAll op.entryLocks s = .ok (s.entered op) := by
  have hHeld : s.held = fun _ => false := funext hFree
  have hOne : ∀ l, lockAll [l] s =
      .ok { s with held := fun l' => decide (l' ∈ [l]) } := by
    intro l
    refine bind_eq (lock_of (hFree l)) ?_
    unfold lockAll setHeld
    congr 2
    funext l'
    rw [hHeld]
    simp [update_apply]
  cases op with
  | other op =>
      unfold lockAll entered PsetOp.entryLocks
      dsimp only
      congr 1
      rw [LockedPorts.mk.injEq]
      exact ⟨rfl, rfl, rfl, rfl, rfl, hHeld⟩
  | setQlimit i qlimit | setSeqno i seqno | clearReceiver i
  | psetMove i nset | psetDestroy q => exact hOne _

theorem entered_ready
    (op : PsetOp) :
    (s.entered op).Ready op := by
  refine ⟨?_, ?_⟩
  · intro l hMem
    exact decide_eq_true hMem
  · intro l hNot _
    exact decide_eq_false hNot

/- A caller drops what the contract left it. -/
theorem unlockAll_exit
    (hHeld : s.held = fun l => decide (l ∈ op.exitLocks)) :
    ∃ s', unlockAll op.exitLocks s = .ok s' ∧ s'.AllFree ∧
      s' = { s with held := fun _ => false } := by
  have hOne : ∀ l, s.held = (fun l' => decide (l' ∈ [l])) →
      unlockAll [l] s =
        .ok { s with held := fun _ => false } := by
    intro l hOnly
    have hIs : s.held l = true := by
      rw [hOnly]
      simp
    refine bind_eq (unlock_held hIs) ?_
    unfold unlockAll setHeld
    congr 2
    funext l'
    rw [hOnly]
    by_cases hl : l' = l <;> simp [hl]
  have hNone : s.held = (fun l' => decide (l' ∈ [])) →
      unlockAll [] s =
        .ok { s with held := fun _ => false } := by
    intro hOnly
    unfold unlockAll
    congr 1
    rw [LockedPorts.mk.injEq]
    refine ⟨rfl, rfl, rfl, rfl, rfl, ?_⟩
    rw [hOnly]
    rfl
  refine ⟨_, ?_, fun _ => rfl, rfl⟩
  cases op with
  | setQlimit i qlimit | setSeqno i seqno | clearReceiver i => exact hOne _ hHeld
  | psetMove i nset | psetDestroy q | other op => exact hNone hHeld

theorem contract_entered
    (op : PsetOp) :
    (s.entered op).contract op =
      fun l => decide (l ∈ op.exitLocks) := by
  funext l
  unfold contract entered
  split
  · rfl
  · rename_i hNot
    cases op <;>
      simp_all [PsetOp.entryLocks, PsetOp.exitLocks]

theorem settle_held
    (op : PsetOp) :
    (s.settle op).held = s.held := by
  cases op <;> rfl

/- A call that keeps its contract leaves no lock behind. -/
theorem call_run
    (hInv : LockedInv s)
    (hFree : s.AllFree)
    (hLegal : s.Legal op)
    (hNot : ¬ s.SeqnoOfMember op) :
    ∃ s', s.call op = .ok s' ∧ s'.AllFree ∧ LockedInv s' ∧
      s'.rcv = op.effect s.rcv := by
  have hEntered : LockedInv (s.entered op) :=
    hInv.congr hInv.rcv (fun _ => rfl) rfl rfl rfl
  have hLegal' : (s.entered op).Legal op := by
    cases op <;> exact hLegal
  have hNot' : ¬ (s.entered op).SeqnoOfMember op := by
    cases op <;> exact hNot
  rcases performed hEntered hLegal' (entered_ready op) hNot'
    with ⟨t, h⟩
  have hHeld : (t.settle op).held =
      fun l => decide (l ∈ op.exitLocks) := by
    rw [settle_held, h.held, contract_entered]
  rcases unlockAll_exit hHeld with ⟨s', hRun, hAll, hEq⟩
  refine ⟨s', ?_, hAll, ?_, ?_⟩
  · refine bind_eq (lockAll_entry hFree op) ?_
    exact bind_eq h.run hRun
  · rw [hEq]
    exact h.inv.congr h.inv.rcv (fun _ => rfl) rfl rfl rfl
  · rw [hEq]
    exact h.effect

/- A call on a member of a live set leaves the set locked. -/
theorem call_leaks
    (hInv : LockedInv s)
    (hFree : s.AllFree)
    (hPset : (s.rcv.ports i).ipPset = some q)
    (hActive : s.rcv.ipsActive q = true) :
    ∃ s', s.call (.setSeqno i seqno) = .ok s' ∧
      s'.held = (fun l => decide (l = .pset q)) ∧
      LockedInv s' := by
  have hEntered : LockedInv
      (s.entered (.setSeqno i seqno)) :=
    hInv.congr hInv.rcv (fun _ => rfl) rfl rfl rfl
  have hRun := @setSeqno_member (s.entered
    (.setSeqno i seqno)) q i seqno hEntered (entered_ready _)
    hPset hActive
  refine ⟨(((s.entered (.setSeqno i seqno)).setHeld (.pset q)
    true).setSeqno i seqno).setHeld (.port i) false, ?_, ?_,
    ?_⟩
  · refine bind_eq (lockAll_entry hFree _) ?_
    refine bind_eq hRun ?_
    refine bind_eq (unlock_held ?_) rfl
    simp [settle, setSeqno, setHeld, entered, PsetOp.entryLocks]
  · funext l
    by_cases hSet : l = .pset q
    · rw [hSet]
      simp [setSeqno, setHeld]
    · by_cases hPort : l = .port i
      · rw [hPort]
        simp [setHeld]
      · simp [setSeqno, setHeld, entered, PsetOp.entryLocks,
          hSet, hPort]
  · have hNew := hInv.setSeqno (i := i) seqno
    exact hNew.congr hNew.rcv (fun _ => rfl) rfl rfl rfl

/- The calls of a run may each be made where they are made. -/
def LegalCalls : List PsetOp → LockedPorts → Prop
| [], _ => True
| op :: ops, s =>
    s.Legal op ∧
      ∀ s', s.call op = .ok s' → LegalCalls ops s'

/- No call stores the number of a port in a live set. -/
def NoSeqnoOfMember : List PsetOp → LockedPorts → Prop
| [], _ => True
| op :: ops, s =>
    ¬ s.SeqnoOfMember op ∧
      ∀ s', s.call op = .ok s' → NoSeqnoOfMember ops s'

/- Every call of a run returns, and all locks are dropped. -/
def AllReturn : List PsetOp → LockedPorts → Prop
| [], _ => True
| op :: ops, s =>
    ∃ s', s.call op = .ok s' ∧ s'.AllFree ∧ AllReturn ops s'

/- The locks are dropped in the runs without such a call. -/
theorem allReturn_iff
    (ops : List PsetOp)
    (hInv : LockedInv s)
    (hFree : s.AllFree)
    (hLegal : LegalCalls ops s) :
    AllReturn ops s ↔ NoSeqnoOfMember ops s := by
  induction ops generalizing s with
  | nil => exact Iff.rfl
  | cons op ops ih =>
      rcases hLegal with ⟨hFirst, hRest⟩
      constructor
      · rintro ⟨s', hCall, hFree', hReturn⟩
        have hNot : ¬ s.SeqnoOfMember op := by
          intro hMember
          cases op with
          | setSeqno i seqno =>
              rcases hMember with ⟨q, hPset, hActive⟩
              rcases call_leaks (i := i) (q := q) hInv hFree
                hPset hActive with ⟨t, hLeaks, hHeld, _⟩
              rw [hCall] at hLeaks
              injection hLeaks with hEq
              have hKept := hFree' (.pset q)
              rw [hEq, hHeld] at hKept
              simp at hKept
          | setQlimit i qlimit | clearReceiver i
          | psetMove i nset | psetDestroy q | other op => exact hMember
        refine ⟨hNot, ?_⟩
        intro t hRun
        rcases call_run hInv hFree hFirst hNot with
          ⟨t', hRun', hFreeT, hInvT, _⟩
        rw [hCall] at hRun hRun'
        injection hRun with hEq
        injection hRun' with hEq'
        rw [← hEq'] at hInvT
        rw [← hEq]
        exact (ih hInvT hFree' (hRest s' hCall)).mp hReturn
      · rintro ⟨hNot, hNone⟩
        rcases call_run hInv hFree hFirst hNot with
          ⟨s', hCall, hFree', hInv', _⟩
        exact ⟨s', hCall, hFree',
          (ih hInv' hFree' (hRest s' hCall)).mpr
            (hNone s' hCall)⟩

/- A call that takes the lock of a set. -/
def UsesPset
    (s : LockedPorts)
    (q : Nat) : PsetOp → Prop
| .setSeqno i _ => (s.rcv.ports i).ipPset = some q
| .clearReceiver i => (s.rcv.ports i).ipPset = some q
| .psetMove i nset =>
    (s.rcv.ports i).ipPset ≠ nset ∧
      ((s.rcv.ports i).ipPset = some q ∨ nset = some q)
| .psetDestroy q' => q' = q
| _ => False

/- The lock of a set is held, and no other. -/
structure Leaked
    (s : LockedPorts)
    (q : Nat) : Prop where
  inv : LockedInv s
  held : s.held = fun l => decide (l = .pset q)

/- Whoever takes a lock that is held waits forever. -/
theorem lock_held
    (hHeld : s.held l = true) :
    s.lock l = .error .deadlock := by
  unfold lock
  rw [if_pos hHeld]

theorem bind_error
    {α β : Type}
    {x : Except LockFault α}
    {f : α → Except LockFault β}
    {e : LockFault}
    (h : x = .error e) :
    (x >>= f) = .error e := by
  rw [h]
  rfl

theorem ipsLock_held
    (hFreed : s.ipsFreed q = false)
    (hHeld : s.held (.pset q) = true) :
    s.ipsLock q = .error .deadlock := by
  unfold ipsLock
  rw [if_neg (by simp [hFreed]), lock_held hHeld]

/- A lock that is held stays so while others are taken. -/
theorem setHeld_held
    (hHeld : s.held l' = true) :
    (s.setHeld l true).held l' = true := by
  unfold setHeld
  dsimp only
  by_cases hl : l' = l
  · rw [hl]
    exact update_self ..
  · rw [update_of_ne hl]
    exact hHeld

/- Of two sets one is locked: the first or the second try. -/
theorem ipsLock_two
    {a b : Nat}
    (hFreedA : s.ipsFreed a = false)
    (hFreedB : s.ipsFreed b = false)
    (hHeld : s.held (.pset a) = true ∨
      s.held (.pset b) = true) :
    (do
      let s ← s.ipsLock a
      s.ipsLock b) = .error .deadlock := by
  cases hFirst : s.held (.pset a) with
  | true => exact bind_error (ipsLock_held hFreedA hFirst)
  | false =>
      have hSecond : s.held (.pset b) = true := by
        rw [hFirst] at hHeld
        simpa using hHeld
      refine bind_eq (ipsLock_of hFreedA hFirst) ?_
      exact ipsLock_held hFreedB (setHeld_held hSecond)

theorem lockBoth_held
    {oset nset : Nat}
    (hFreedOld : s.ipsFreed oset = false)
    (hFreedNew : s.ipsFreed nset = false)
    (hHeld : s.held (.pset oset) = true ∨
      s.held (.pset nset) = true) :
    s.lockBoth oset nset = .error .deadlock := by
  unfold lockBoth
  split
  · exact ipsLock_two hFreedOld hFreedNew hHeld
  · exact ipsLock_two hFreedNew hFreedOld hHeld.symm

/- A move from or to a set that is locked. -/
theorem movePset_held
    (hInv : LockedInv s)
    (hActive : ∀ q, nset = some q → s.rcv.ipsActive q = true)
    (hSpace : s.held .space = true)
    (hHeld : s.held (.pset q) = true)
    (hNe : (s.rcv.ports i).ipPset ≠ nset)
    (hUses : (s.rcv.ports i).ipPset = some q ∨
      nset = some q) :
    s.movePset i (s.rcv.ports i).ipPset nset =
      .error .deadlock := by
  have hMember : ∀ q', (s.rcv.ports i).ipPset = some q' →
      s.ipsFreed q' = false := by
    intro q' hPset
    exact hInv.not_freed
      (Nat.lt_of_le_of_lt (Nat.zero_le _) (hInv.member hPset))
  have hTarget : ∀ q', nset = some q' →
      s.ipsFreed q' = false := by
    intro q' hIs
    exact hInv.not_freed (hInv.alive (hActive q' hIs))
  refine (if_neg hNe).trans ?_
  cases hOld : (s.rcv.ports i).ipPset with
  | none =>
      cases nset with
      | none => exact absurd hOld hNe
      | some n =>
          have hIs : n = q := by
            rcases hUses with h | h
            · rw [hOld] at h
              cases h
            · exact Option.some.inj h
          rw [hIs]
          exact bind_error (ipsLock_held
            (hTarget q (congrArg some hIs)) hHeld)
  | some o =>
      cases nset with
      | none =>
          have hIs : o = q := by
            rcases hUses with h | h
            · exact Option.some.inj (hOld.symm.trans h)
            · cases h
          have hOut : (s.setHeld .space false).held (.pset q) =
              true := by
            simp [setHeld, hHeld]
          rw [hIs] at hOld ⊢
          refine bind_eq (unlock_held hSpace) ?_
          exact bind_error (ipsLock_held (hMember q hOld) hOut)
      | some n =>
          apply bind_error
          apply lockBoth_held (hMember o hOld) (hTarget n rfl)
          rcases hUses with h | h
          · have hIs : o = q := Option.some.inj (hOld.symm.trans h)
            rw [hIs]
            exact Or.inl hHeld
          · rw [Option.some.inj h]
            exact Or.inr hHeld

/- A call on a set that was left locked waits forever. -/
theorem Leaked.deadlock
    (h : s.Leaked q)
    (hLegal : s.Legal op)
    (hUses : s.UsesPset q op) :
    s.call op = .error .deadlock := by
  have hHeld : s.held (.pset q) = true := by
    rw [h.held]
    simp
  have hFree : ∀ l, l ≠ .pset q → s.held l = false := by
    intro l hl
    rw [h.held]
    exact decide_eq_false hl
  have hLock : ∀ l, l ≠ .pset q →
      lockAll [l] s = .ok (s.setHeld l true) := by
    intro l hl
    exact bind_eq (lock_of (hFree l hl)) rfl
  have hMember : ∀ i, (s.rcv.ports i).ipPset = some q →
      ∀ l, (s.setHeld l true).ipsLock q = .error .deadlock := by
    intro i hPset l
    have hFreed := h.inv.not_freed
      (Nat.lt_of_le_of_lt (Nat.zero_le _)
        (h.inv.member hPset))
    exact ipsLock_held hFreed (setHeld_held hHeld)
  cases op with
  | setQlimit i qlimit => exact hUses.elim
  | other op => exact hUses.elim
  | setSeqno i seqno =>
      refine bind_eq (hLock (.port i) (by simp)) ?_
      apply bind_error
      unfold perform ipcPortSetSeqno
      dsimp only
      have hPset : ((s.setHeld (.port i) true).rcv.ports
        i).ipPset = some q := hUses
      rw [hPset]
      exact bind_error (hMember i hUses _)
  | clearReceiver i =>
      refine bind_eq (hLock (.port i) (by simp)) ?_
      apply bind_error
      refine bind_eq (require_of hLegal.1) ?_
      apply bind_error
      unfold clearPset
      have hPset : ((s.setHeld (.port i) true).rcv.ports
        i).ipPset = some q := hUses
      rw [hPset]
      exact bind_error (hMember i hUses _)
  | psetMove i nset =>
      refine bind_eq (hLock .space (by simp)) ?_
      apply bind_error
      apply bind_error
      have hPort : (s.setHeld .space true).held (.port i) =
          false :=
        setHeld_free (by simp) (hFree _ (by simp))
      refine bind_eq (lock_of hPort) ?_
      refine bind_eq (require_of hLegal.1.1) ?_
      apply bind_error
      have hInv : LockedInv ((s.setHeld .space true).setHeld
          (.port i) true) :=
        h.inv.congr h.inv.rcv (fun _ => rfl) rfl rfl rfl
      apply movePset_held hInv hLegal.2 _
        (setHeld_held (setHeld_held hHeld)) hUses.1 hUses.2
      simp [setHeld]
  | psetDestroy q' =>
      have hIs : q' = q := hUses
      rw [hIs]
      apply bind_error
      exact bind_error (lock_held hHeld)

/-
  The routines return with the locks of their contracts on
  every branch, except where the sequence number of a port in
  a live set is stored: runs leave all locks free exactly
  without such a call, and after one all calls on its set
  wait forever.
-/
theorem portSet_locks_iff
    {s : LockedPorts}
    (hInv : LockedInv s) :
    (∀ op, s.Legal op → s.Ready op →
      (s.Balanced op ↔ ¬ s.SeqnoOfMember op)) ∧
    (s.AllFree →
      (∀ ops, LegalCalls ops s →
        (AllReturn ops s ↔ NoSeqnoOfMember ops s)) ∧
      ∀ i seqno q, (s.rcv.ports i).ipPset = some q →
        s.rcv.ipsActive q = true →
        ∃ s', s.call (.setSeqno i seqno) = .ok s' ∧
          ∀ op, s'.Legal op → s'.UsesPset q op →
            s'.call op = .error .deadlock) := by
  refine ⟨?_, ?_⟩
  · intro op hLegal hReady
    exact balanced_iff hInv hLegal hReady
  · intro hFree
    refine ⟨?_, ?_⟩
    · intro ops hLegal
      exact allReturn_iff ops hInv hFree hLegal
    · intro i seqno q hPset hActive
      rcases call_leaks (i := i) (q := q) hInv hFree hPset
        hActive with ⟨s', hCall, hHeld, hNew⟩
      refine ⟨s', hCall, ?_⟩
      intro op hLegal hUses
      exact Leaked.deadlock ⟨hNew, hHeld⟩ hLegal hUses

/-
  Port 0 goes into set 7, and the set can be destroyed; but
  not after its sequence number was stored.
-/
theorem portSet_locks_iff_init :
    AllReturn [.psetMove 0 (some 7), .psetDestroy 7] init ∧
      ¬ AllReturn [.psetMove 0 (some 7), .setSeqno 0 5]
        init := by
  have hMove : init.Legal (.psetMove 0 (some 7)) :=
    ⟨⟨rfl, rfl⟩, fun _ _ => rfl⟩
  have hReturns := ((portSet_locks_iff LockedInv.init).2
    fun _ => rfl).1
  refine ⟨(hReturns [_, _] ⟨hMove, ?_⟩).mpr ⟨nofun, ?_⟩,
    fun hAll => ?_⟩
  · rintro _ ⟨⟩
    exact ⟨rfl, fun _ _ => trivial⟩
  · rintro _ ⟨⟩
    exact ⟨nofun, fun _ _ => trivial⟩
  · have hNone := (hReturns [_, _] ⟨hMove, ?_⟩).mp hAll
    · exact hNone.2 _ rfl |>.1 ⟨7, rfl, rfl⟩
    · rintro _ ⟨⟩
      exact ⟨⟨⟨rfl, rfl⟩, by decide⟩, fun _ _ => trivial⟩

/-
  Port 0 goes into set 7, and its sequence number is stored;
  then nobody can destroy the set.
-/
theorem portSet_locks_stuck :
    ∃ joined stored,
      init.Legal (.psetMove 0 (some 7)) ∧
      init.call (.psetMove 0 (some 7)) = .ok joined ∧
      joined.Legal (.setSeqno 0 5) ∧
      joined.call (.setSeqno 0 5) = .ok stored ∧
      stored.held (.pset 7) = true ∧
      stored.Legal (.psetDestroy 7) ∧
      stored.call (.psetDestroy 7) = .error .deadlock := by
  refine ⟨_, _, ⟨⟨rfl, rfl⟩, fun _ _ => rfl⟩, rfl,
    ⟨⟨rfl, rfl⟩, by decide⟩, rfl, rfl, rfl, rfl⟩

end LockedPorts

end Ipc

end OsfMach
