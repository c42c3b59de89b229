import OsfMach.Ipc.PortLocks
import OsfMach.Ipc.PortSetSteps

/-
  References of port sets, and what each routine does to a
  set and its locks when the set is referenced by its members.

  Main declarations:
    * `LockedInv`
    * `LockedPorts.removed`, `added`, `reaped`
    * `remove_run`, `add_run`, `leaveSet_run`
    * `LockedInv.removed`, `LockedInv.added`
-/

------
-- Locking
------

namespace OsfMach

namespace Ipc

open Function

namespace LockedPorts

variable {s : LockedPorts} {l : IpcLock} {q i : Nat}

/- A part that succeeded hands its result on. -/
theorem bind_eq
    {α β : Type}
    {x : Except LockFault α}
    {f : α → Except LockFault β}
    {a : α}
    {r : Except LockFault β}
    (h : x = .ok a)
    (hRest : f a = r) :
    (x >>= f) = r := by
  rw [h]
  exact hRest

theorem lock_of
    (hFree : s.held l = false) :
    s.lock l = .ok (s.setHeld l true) := by
  unfold lock
  rw [if_neg (by simp [hFree])]

/- A lock that was taken since is dropped. -/
theorem unlock_of
    (held : IpcLock → Bool)
    (hHeld : s.held = update held l true)
    (hFree : held l = false) :
    s.unlock l = .ok { s with held := held } := by
  have hIs : s.held l = true := by
    rw [hHeld, update_self]
  unfold unlock setHeld
  rw [if_pos hIs, hHeld, update_idem, ← hFree, update_eq_self]

/- A lock that is held is dropped. -/
theorem unlock_held
    (hIs : s.held l = true) :
    s.unlock l = .ok (s.setHeld l false) := by
  unfold unlock
  rw [if_pos hIs]

theorem require_of
    {c : Prop}
    [Decidable c]
    (h : c) :
    require c = .ok () := if_pos h

theorem ipsLock_of
    (hFreed : s.ipsFreed q = false)
    (hFree : s.held (.pset q) = false) :
    s.ipsLock q = .ok (s.setHeld (.pset q) true) := by
  unfold ipsLock
  rw [if_neg (by simp [hFreed]), lock_of hFree]

theorem ipsRelease_of
    (hRefs : 0 < s.ipsReferences q) :
    s.ipsRelease q =
      .ok { s with
        ipsReferences := update s.ipsReferences q
          (s.ipsReferences q - 1) } := by
  exact bind_eq (require_of hRefs) rfl

/- A lock was taken and dropped, another changed between. -/
theorem update_released
    {held : IpcLock → Bool}
    {m : IpcLock}
    {b : Bool}
    (hNe : l ≠ m)
    (hFree : held l = false) :
    update
        (update (update held l true) m b) l
        false =
      update held m b := by
  rw [update_comm hNe, update_idem,
    update_comm hNe.symm, ← hFree,
    update_eq_self]

/- A lock apart from one that was taken is as it was. -/
theorem update_free
    {held : IpcLock → Bool}
    {l' : IpcLock}
    (hNe : l' ≠ l)
    (hFree : held l' = false) :
    update held l true l' = false := by
  rw [update_of_ne hNe]
  exact hFree

------
-- Members
------

/- A port has left a set, and the set lost its reference. -/
def removed
    (s : LockedPorts)
    (q i : Nat) : LockedPorts :=
  { s with
    rcv := (s.rcv.ipcPsetRemove q i).1
    ipsReferences := update s.ipsReferences q
      (s.ipsReferences q - 1) }

/- A port has come into a set. -/
def added
    (s : LockedPorts)
    (q i : Nat) : LockedPorts :=
  { s with
    rcv := (s.rcv.ipcPsetAdd q i).1
    ipsReferences := update s.ipsReferences q
      (s.ipsReferences q + 1) }

/- A set has died, and lost the reference of its entry. -/
def destroyed
    (s : LockedPorts)
    (q : Nat) : LockedPorts :=
  { s with
    rcv := s.rcv.ipcPsetDestroy q
    ipsReferences := update s.ipsReferences q
      (s.ipsReferences q - 1) }

/- A set without references has been freed. -/
def reaped
    (s : LockedPorts)
    (q : Nat) : LockedPorts :=
  if s.ipsReferences q = 0 then
    { s with ipsFreed := update s.ipsFreed q true }
  else s

theorem remove_run
    (hActive : (s.rcv.ports i).ipActive = true)
    (hPset : (s.rcv.ports i).ipPset = some q)
    (hRefs : 0 < s.ipsReferences q)
    (hPort : s.held (.mqueue (.ofPort i)) = false)
    (hQueue : s.held (.mqueue (.ofPset q)) = false) :
    s.ipcPsetRemove q i = .ok (s.removed q i) := by
  have hNe : IpcLock.mqueue (.ofPset q) ≠
      .mqueue (.ofPort i) := by simp
  refine bind_eq (require_of hActive) ?_
  refine bind_eq (require_of hPset) ?_
  refine bind_eq (ipsRelease_of hRefs) ?_
  refine bind_eq (lock_of hPort) ?_
  refine bind_eq (lock_of (update_free hNe hQueue)) ?_
  refine bind_eq (unlock_of _ rfl (update_free hNe hQueue)) ?_
  exact unlock_of _ rfl hPort

/- The messages of a port have gone to its new set. -/
theorem rehomed_move
    (hInv : RcvInv s.rcv)
    (hHeld : s.rcv.Held i)
    (hPset : (s.rcv.ports i).ipPset = none) :
    Rehomed s.rcv
      ((s.rcv.setPort i
        { s.rcv.ports i with ipPset := some q }).ipcMqueueMove
          (.ofPset q) (.ofPort i) i).1 i (some q) := by
  have hQueue : s.rcv.queueOf i = .ofPort i := by
    unfold RcvSystem.queueOf
    rw [hPset]
  have hRehomed := @Rehomed.giveAll s.rcv i (some q)
    hInv.toRcvCore (Or.inr hHeld) hHeld.1
  unfold RcvSystem.ownKmsgs RcvSystem.detached at hRehomed
  rw [hQueue] at hRehomed
  rw [RcvSystem.move_eq (by simp)]
  exact hRehomed

/- A port in a set has no messages of its own queue. -/
theorem no_messages
    {rcv : RcvSystem}
    (hCore : RcvCore rcv)
    (hPset : (rcv.ports i).ipPset = some q) :
    (rcv.mqueues (.ofPort i)).imqMessages = [] := by
  apply List.eq_nil_iff_forall_not_mem.mpr
  intro kmsg hMem
  have hHome := (hCore.home _ kmsg hMem).1
  unfold RcvSystem.queueOf at hHome
  cases hOwn : (rcv.ports kmsg.msghRemotePort).ipPset with
  | some q' =>
      rw [hOwn] at hHome
      cases hHome
  | none =>
      rw [hOwn] at hHome
      injection hHome with hSame
      rw [hSame, hPset] at hOwn
      cases hOwn

/- The messages and receivers of a port move with it. -/
theorem add_run
    (hInv : RcvInv s.rcv)
    (hSet : s.rcv.ipsActive q = true)
    (hHeld : s.rcv.Held i)
    (hPset : (s.rcv.ports i).ipPset = none)
    (hPort : s.held (.mqueue (.ofPort i)) = false)
    (hQueue : s.held (.mqueue (.ofPset q)) = false) :
    s.ipcPsetAdd q i = .ok (s.added q i) := by
  have hNe : IpcLock.mqueue (.ofPset q) ≠
      .mqueue (.ofPort i) := by simp
  have hMoved := rehomed_move (q := q) hInv hHeld hPset
  rcases @RcvCore.changed _ (.ofPort i) .portChanged
    hMoved.core (by simp) (by simp) with ⟨_, _, hNobody⟩
  refine bind_eq (require_of hSet) ?_
  refine bind_eq (require_of hHeld.1) ?_
  refine bind_eq (require_of hPset) ?_
  refine bind_eq (lock_of hPort) ?_
  refine bind_eq (lock_of (update_free hNe hQueue)) ?_
  refine bind_eq (unlock_of _ rfl (update_free hNe hQueue)) ?_
  refine bind_eq
    (require_of (no_messages hMoved.core hMoved.pset)) ?_
  refine bind_eq (require_of hNobody) ?_
  exact unlock_of _ rfl hPort

/- A set that was locked is unlocked, and freed if it is due. -/
theorem checkUnlock_of
    (held : IpcLock → Bool)
    (hHeld : s.held = update held (.pset q) true)
    (hFree : held (.pset q) = false) :
    s.ipsCheckUnlock q =
      .ok { s.reaped q with held := held } := by
  unfold ipsCheckUnlock reaped
  refine bind_eq (unlock_of held hHeld hFree) ?_
  split <;> rfl

theorem seqnoUnder_run
    {r : MqueueRef}
    (seqno : Nat)
    (hQueue : s.held (.mqueue r) = false) :
    s.seqnoUnder r i seqno = .ok (s.setSeqno i seqno) := by
  refine bind_eq (lock_of hQueue) ?_
  exact unlock_of _ rfl hQueue

end LockedPorts

------
-- References
------

/-
  Members of a set and the entry of a live set hold references
  to it, and a set that was freed has none.
-/
structure LockedInv (s : LockedPorts) : Prop where
  rcv : RcvInv s.rcv
  references :
    ∀ q, ∃ members : Finset Nat,
      (∀ i, (s.rcv.ports i).ipPset = some q → i ∈ members) ∧
      members.card + (s.rcv.ipsActive q).toNat ≤
        s.ipsReferences q
  freed : ∀ q, s.ipsFreed q = true → s.ipsReferences q = 0

namespace LockedInv

variable {s s' : LockedPorts} {q i : Nat}

theorem init : LockedInv LockedPorts.init where
  rcv := RcvInv.init
  references := fun _ =>
    ⟨∅, fun _ h => (by cases h), Nat.le_refl 1⟩
  freed := fun _ h => by cases h

section

variable (hInv : LockedInv s)
include hInv

/- A member's reference, and the entry's if the set lives. -/
theorem member
    (hPset : (s.rcv.ports i).ipPset = some q) :
    (s.rcv.ipsActive q).toNat < s.ipsReferences q := by
  rcases hInv.references q with ⟨members, hAll, hLe⟩
  have hPos := Finset.card_pos.mpr ⟨i, hAll i hPset⟩
  omega

theorem alive
    (hActive : s.rcv.ipsActive q = true) :
    0 < s.ipsReferences q := by
  rcases hInv.references q with ⟨members, _, hLe⟩
  rw [hActive] at hLe
  have hOne : true.toNat = 1 := rfl
  omega

theorem not_freed
    (hRefs : 0 < s.ipsReferences q) :
    s.ipsFreed q = false := by
  cases hFreed : s.ipsFreed q with
  | false => rfl
  | true =>
      have hNone := hInv.freed q hFreed
      omega

/- The sets and their members are what they were. -/
theorem congr
    (hRcv : RcvInv s'.rcv)
    (hPset : ∀ i, (s'.rcv.ports i).ipPset =
      (s.rcv.ports i).ipPset)
    (hActive : s'.rcv.ipsActive = s.rcv.ipsActive)
    (hRefs : s'.ipsReferences = s.ipsReferences)
    (hFreed : s'.ipsFreed = s.ipsFreed) :
    LockedInv s' := by
  refine ⟨hRcv, ?_, ?_⟩
  · intro q
    rcases hInv.references q with ⟨members, hAll, hLe⟩
    refine ⟨members, ?_, ?_⟩
    · intro i hIs
      exact hAll i ((hPset i).symm.trans hIs)
    · rw [hActive, hRefs]
      exact hLe
  · intro q hIs
    rw [hRefs]
    exact hInv.freed q (by rw [← hFreed]; exact hIs)

end

/- A set without references may be freed. -/
theorem reaped
    (hInv : LockedInv s) :
    LockedInv (s.reaped q) := by
  unfold LockedPorts.reaped
  split
  · rename_i hNone
    refine ⟨hInv.rcv, hInv.references, ?_⟩
    intro q' hFreed
    by_cases hq : q' = q
    · rw [hq]
      exact hNone
    · apply hInv.freed q'
      have hOther : update s.ipsFreed q true q' =
          true := hFreed
      rw [update_of_ne hq] at hOther
      exact hOther
  · exact hInv

section

variable (hInv : LockedInv s)
include hInv

/- A port leaves its set with its reference. -/
theorem removed
    (hPset : (s.rcv.ports i).ipPset = some q) :
    LockedInv (s.removed q i) := by
  rcases hInv.rcv.remove hPset with ⟨hRcv, hMoved, _⟩
  have hRefs := hInv.member hPset
  refine ⟨hRcv, ?_, ?_⟩
  · intro q'
    rcases hInv.references q' with ⟨members, hAll, hLe⟩
    unfold LockedPorts.removed
    dsimp only
    rw [hMoved.sets]
    by_cases hq : q' = q
    · subst hq
      have hMem := hAll i hPset
      refine ⟨members.erase i, ?_, ?_⟩
      · intro j hj
        have hNe : j ≠ i := by
          rintro rfl
          rw [hMoved.pset] at hj
          cases hj
        rw [hMoved.other j hNe] at hj
        exact Finset.mem_erase.mpr ⟨hNe, hAll j hj⟩
      · rw [update_self, Finset.card_erase_of_mem hMem]
        omega
    · refine ⟨members, ?_, ?_⟩
      · intro j hj
        by_cases hNe : j = i
        · rw [hNe, hMoved.pset] at hj
          cases hj
        · rw [hMoved.other j hNe] at hj
          exact hAll j hj
      · rw [update_of_ne hq]
        exact hLe
  · intro q' hFreed
    have hNone := hInv.freed q' hFreed
    unfold LockedPorts.removed
    dsimp only
    by_cases hq : q' = q
    · rw [hq] at hNone
      omega
    · rw [update_of_ne hq]
      exact hNone

/- A port comes into a live set. -/
theorem added
    (hHeld : s.rcv.Held i)
    (hPset : (s.rcv.ports i).ipPset = none)
    (hActive : s.rcv.ipsActive q = true) :
    LockedInv (s.added q i) := by
  have hRcv := hInv.rcv.add (q := q) hHeld hPset
  have hMoved : Rehomed s.rcv (s.rcv.ipcPsetAdd q i).1 i
      (some q) := by
    have hIn := LockedPorts.rehomed_move (q := q) hInv.rcv hHeld
      hPset
    rcases @RcvCore.changed _ (.ofPort i) .portChanged
      hIn.core (by simp) (by simp) with ⟨hCore, hSame, _⟩
    exact hIn.trans hCore hSame
  refine ⟨hRcv, ?_, ?_⟩
  · intro q'
    rcases hInv.references q' with ⟨members, hAll, hLe⟩
    unfold LockedPorts.added
    dsimp only
    rw [hMoved.sets]
    by_cases hq : q' = q
    · subst hq
      refine ⟨insert i members, ?_, ?_⟩
      · intro j hj
        by_cases hNe : j = i
        · rw [hNe]
          exact Finset.mem_insert_self i members
        · rw [hMoved.other j hNe] at hj
          exact Finset.mem_insert_of_mem (hAll j hj)
      · have hCard := Finset.card_insert_le i members
        rw [update_self]
        omega
    · refine ⟨members, ?_, ?_⟩
      · intro j hj
        by_cases hNe : j = i
        · rw [hNe, hMoved.pset] at hj
          injection hj with hSame
          exact absurd hSame.symm hq
        · rw [hMoved.other j hNe] at hj
          exact hAll j hj
      · rw [update_of_ne hq]
        exact hLe
  · intro q' hFreed
    have hNone := hInv.freed q' hFreed
    unfold LockedPorts.added
    dsimp only
    by_cases hq : q' = q
    · have hPos := hInv.alive hActive
      rw [hq] at hNone
      omega
    · rw [update_of_ne hq]
      exact hNone

/- A sequence number is stored. -/
theorem setSeqno
    (seqno : Nat) :
    LockedInv (s.setSeqno i seqno) := by
  refine hInv.congr (hInv.rcv.storeSeqno seqno) ?_ rfl rfl rfl
  intro j
  by_cases hj : j = i
  · subst hj
    unfold LockedPorts.setSeqno
    rw [RcvSystem.setPort_self]
  · unfold LockedPorts.setSeqno
    rw [RcvSystem.setPort_of_ne hj]

/- A set dies with the reference of its entry. -/
theorem destroyed
    (hActive : s.rcv.ipsActive q = true) :
    LockedInv (s.destroyed q) := by
  have hRcv := hInv.rcv.psetDestroy (q := q)
  have hCore : RcvCore
      { s.rcv with
        ipsActive := update s.rcv.ipsActive q false } :=
    ⟨hInv.rcv.apart, hInv.rcv.home, hInv.rcv.dead,
      hInv.rcv.limbo, hInv.rcv.waiting, hInv.rcv.nodup,
      hInv.rcv.sound⟩
  rcases @RcvCore.changed _ (.ofPset q) .portDied hCore
    (by simp) (by simp) with ⟨_, hSame, _⟩
  have hPset : ∀ i, ((s.rcv.ipcPsetDestroy q).ports i).ipPset =
      (s.rcv.ports i).ipPset := hSame.pset
  have hSets : (s.rcv.ipcPsetDestroy q).ipsActive =
      update s.rcv.ipsActive q false := hSame.sets
  refine ⟨hRcv, ?_, ?_⟩
  · intro q'
    rcases hInv.references q' with ⟨members, hAll, hLe⟩
    refine ⟨members, ?_, ?_⟩
    · intro i hi
      exact hAll i ((hPset i).symm.trans hi)
    · unfold LockedPorts.destroyed
      dsimp only
      rw [hSets]
      by_cases hq : q' = q
      · subst hq
        rw [hActive] at hLe
        rw [update_self, update_self]
        have hOne : true.toNat = 1 := rfl
        have hZero : false.toNat = 0 := rfl
        omega
      · rw [update_of_ne hq, update_of_ne hq]
        exact hLe
  · intro q' hFreed
    have hNone := hInv.freed q' hFreed
    unfold LockedPorts.destroyed
    dsimp only
    by_cases hq : q' = q
    · have hPos := hInv.alive hActive
      rw [hq] at hNone
      omega
    · rw [update_of_ne hq]
      exact hNone

end

end LockedInv

end Ipc

end OsfMach
