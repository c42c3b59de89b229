import OsfMach.Kern.SyncPolicy
import OsfMach.Lib.Runs

/-
  Lock sets, from `kern/sync_lock.c`.

  Each action is a section under the locks of the set and of
  a ulock, or what a thread does between two of them. A
  thread wakes another up, and tests whether its operation
  was completed, outside of the locks.

  Key definitions include:
    * `Ulock`, `LockSet`, `LockAction`
    * `lockAcquire`, `lockReleaseInternal`
    * `lockHandoff`, `lockHandoffAccept`
    * `lockSetStep`
-/

------
-- Lock Sets
------

namespace OsfMach

namespace Kern

open Function
open Lib

inductive LockReturn where
| success
| lockUnstable
| invalidArgument
| invalidRight
| lockSetDestroyed
| lockOwned
| lockOwnedSelf
| alreadyWaiting
| aborted
| interrupted
deriving DecidableEq, Repr

def LockReturn.isGrant (r : LockReturn) : Bool :=
  r == .success || r == .lockUnstable

inductive LockOp where
| acquire
| tryAcquire
| release
| handoff
| accept
deriving DecidableEq, Repr

/-
  A thread in the middle of an operation: it is about to
  wait, waits, has been woken, or is going to take itself off.
-/
inductive LockStage where
| entering
| blocked
| woken (result : LockReturn)
| undoing
deriving DecidableEq, Repr

/-
  Where a thread is. One that completes has left the locks,
  and has a thread to wake up before it returns.
-/
inductive LockPhase (τ : Type) where
| outside
| waiting (op : LockOp) (id : Nat) (stage : LockStage)
| completing
    (op : LockOp) (id : Nat) (thread : τ) (result : LockReturn)
deriving DecidableEq, Repr

/- A ulock. A thread stands for its top activation. -/
structure Ulock (τ : Type) where
  owner : Option τ
  stable : Bool
  held : Bool
  hoThread : Option τ
  blockedCount : Int
  blockedThreads : List τ
deriving Repr

/- A call that has returned. -/
structure LockCall (τ : Type) where
  thread : τ
  id : Nat
  op : LockOp
  result : LockReturn
deriving DecidableEq, Repr

/-
  A lock set, what its threads do, and the calls that have
  returned, from the last one on.
-/
structure LockSet (τ : Type) where
  active : Bool
  heldUlocks : List Nat
  handoffUlocks : List Nat
  ulock : Nat → Ulock τ
  phase : τ → LockPhase τ
  linked : τ → Bool
  calls : List (LockCall τ)

structure LockConfig (τ : Type) where
  policy : SyncPolicy
  priority : τ → Int
  nUlocks : Nat

/-
  `lock_set_create`. What is left in the links of the threads
  comes from what they did before.
-/
def lockSetCreate
    {τ : Type}
    (linked : τ → Bool) : LockSet τ :=
  { active := true
    heldUlocks := []
    handoffUlocks := []
    ulock := fun _ =>
      { owner := none
        stable := true
        held := false
        hoThread := none
        blockedCount := 0
        blockedThreads := [] }
    phase := fun _ => .outside
    linked := linked
    calls := [] }

variable {τ : Type} [DecidableEq τ]

namespace LockSet

def setPhase
    (s : LockSet τ)
    (t : τ)
    (p : LockPhase τ) : LockSet τ :=
  { s with phase := update s.phase t p }

def setUlock
    (s : LockSet τ)
    (id : Nat)
    (u : Ulock τ) : LockSet τ :=
  { s with ulock := update s.ulock id u }

def finish
    (s : LockSet τ)
    (t : τ)
    (id : Nat)
    (op : LockOp)
    (r : LockReturn) : LockSet τ :=
  { s.setPhase t .outside with
    calls := ⟨t, id, op, r⟩ :: s.calls }

/- `LOCK_OPERATION_COMPLETE` and `clear_wait`. -/
def complete
    (s : LockSet τ)
    (t : τ)
    (r : LockReturn) : LockSet τ :=
  let s := { s with linked := update s.linked t false }
  match s.phase t with
  | .waiting op id .blocked =>
      s.setPhase t (.waiting op id (.woken r))
  | _ => s

end LockSet

/- What a thread learns when it gets a ulock. -/
def Ulock.grant (u : Ulock τ) : LockReturn :=
  if u.stable then .success else .lockUnstable

------
-- Operations
------

/- What the operations check before they lock the ulock. -/
def withUlock
    (c : LockConfig τ)
    (s : LockSet τ)
    (t : τ)
    (id : Nat)
    (op : LockOp)
    (f : Ulock τ → LockSet τ) : LockSet τ :=
  if c.nUlocks ≤ id then s.finish t id op .invalidArgument
  else if s.active = false then
    s.finish t id op .lockSetDestroyed
  else f (s.ulock id)

/- A ulock that is free, given to a thread. -/
def LockSet.take
    (s : LockSet τ)
    (t : τ)
    (id : Nat)
    (op : LockOp) : LockSet τ :=
  let u := s.ulock id
  { s.setUlock id { u with owner := some t, held := true } with
    heldUlocks := s.heldUlocks ++ [id] }.finish
      t id op u.grant

section

variable (c : LockConfig τ) (s : LockSet τ) (t : τ)

def lockAcquire
    (id : Nat) : LockSet τ :=
  withUlock c s t id .acquire fun u =>
    if u.held then
      { (s.setUlock id { u with
            blockedCount := u.blockedCount + 1
            blockedThreads :=
              syncPolicyEnqueue c.policy c.priority
                u.blockedThreads t }).setPhase
          t (.waiting .acquire id .entering) with
        linked := update s.linked t true }
    else s.take t id .acquire

def lockTry
    (id : Nat) : LockSet τ :=
  withUlock c s t id .tryAcquire fun u =>
    if u.held then
      if u.owner = some t then
        s.finish t id .tryAcquire .lockOwnedSelf
      else s.finish t id .tryAcquire .lockOwned
    else s.take t id .tryAcquire

/- `lock_release`, which is `lock_release_internal`. -/
def lockReleaseInternal
    (id : Nat) : LockSet τ :=
  withUlock c s t id .release fun u =>
    if u.owner ≠ some t then
      s.finish t id .release .invalidRight
    else
      match u.blockedThreads with
      | w :: q =>
          (s.setUlock id { u with
              owner := some w
              blockedCount := u.blockedCount - 1
              blockedThreads := q }).setPhase
            t (.completing .release id w u.grant)
      | [] =>
          { s.setUlock id
              { u with owner := none, held := false } with
            heldUlocks := s.heldUlocks.erase id }.finish
              t id .release .success

def lockHandoff
    (id : Nat) : LockSet τ :=
  withUlock c s t id .handoff fun u =>
    if u.owner ≠ some t then
      s.finish t id .handoff .invalidRight
    else
      match u.hoThread with
      | some w =>
          { (s.setUlock id { u with
                owner := some w, hoThread := none }).setPhase
              t (.completing .handoff id w u.grant) with
            handoffUlocks := s.handoffUlocks.erase id }
      | none =>
          { (s.setUlock id { u with
                hoThread := some t }).setPhase
              t (.waiting .handoff id .entering) with
            handoffUlocks := s.handoffUlocks ++ [id] }

def lockHandoffAccept
    (id : Nat) : LockSet τ :=
  withUlock c s t id .accept fun u =>
    match u.hoThread with
    | some w =>
        if u.owner ≠ some w then
          s.finish t id .accept .alreadyWaiting
        else
          { (s.setUlock id { u with
                owner := some t, hoThread := none }).setPhase
              t (.completing .accept id w .success) with
            handoffUlocks := s.handoffUlocks.erase id }
    | none =>
        { (s.setUlock id { u with
              hoThread := some t }).setPhase
            t (.waiting .accept id .entering) with
          handoffUlocks := s.handoffUlocks ++ [id] }

def lockMakeStable
    (id : Nat) : LockSet τ :=
  let u := s.ulock id
  if id < c.nUlocks ∧ s.active ∧ u.owner = some t then
    s.setUlock id { u with stable := true }
  else s

end

/- Called for a thread that ends with the ulock held. -/
def lockMakeUnstable
    (s : LockSet τ)
    (t : τ)
    (id : Nat) : LockSet τ :=
  let u := s.ulock id
  if s.active ∧ u.owner = some t then
    s.setUlock id { u with stable := false }
  else s

------
-- After the Sections
------

section

variable (s : LockSet τ) (t : τ) (op : LockOp)

/- The last steps of a call that has to wake a thread up. -/
def lockComplete
    (id : Nat)
    (w : τ)
    (r : LockReturn) : LockSet τ :=
  (s.complete w r).finish t id op
    (if op = .accept then (s.ulock id).grant else .success)

/- The test of `wait_link.prev`. -/
def lockTest
    (id : Nat)
    (r : LockReturn) : LockSet τ :=
  if s.linked t then s.setPhase t (.waiting op id .undoing)
  else s.finish t id op r

/-
  What a call that was aborted takes back. A thread or a
  ulock that is not in the queue has no place there to be
  taken from.
-/
def lockUndo
    (id : Nat) : Option (LockSet τ) :=
  let u := s.ulock id
  if op = .acquire then
    if t ∈ u.blockedThreads then
      some ((s.setUlock id { u with
          blockedCount := u.blockedCount - 1
          blockedThreads := u.blockedThreads.erase t }).finish
        t id op .aborted)
    else none
  else if s.active = false then some (s.finish t id op .aborted)
  else if id ∈ s.handoffUlocks then
    some ({ s.setUlock id { u with hoThread := none } with
      handoffUlocks := s.handoffUlocks.erase id }.finish
        t id op .aborted)
  else none

end

------
-- Destruction
------

/- The threads that are blocked on a held ulock. -/
def destroyHeld
    (s : LockSet τ)
    (id : Nat) : LockSet τ :=
  let u := s.ulock id
  let s := u.blockedThreads.foldl
    (fun s t => s.complete t .lockSetDestroyed) s
  s.setUlock id { u with
    owner := none
    blockedCount := u.blockedCount - u.blockedThreads.length
    blockedThreads := [] }

/- The thread that waits in a hand-off. -/
def destroyHandoff
    (s : LockSet τ)
    (id : Nat) : Option (LockSet τ) :=
  (s.ulock id).hoThread.map fun t =>
    s.complete t .lockSetDestroyed

def lockSetDestroy (s : LockSet τ) : Option (LockSet τ) :=
  if s.active then do
    let s := { s with active := false }
    let s := s.heldUlocks.reverse.foldl destroyHeld s
    let s ← s.handoffUlocks.reverse.foldlM destroyHandoff s
    some { s with heldUlocks := [], handoffUlocks := [] }
  else some s

------
-- Actions
------

inductive LockAction (τ : Type) where
| acquire (t : τ) (id : Nat)
| tryAcquire (t : τ) (id : Nat)
| release (t : τ) (id : Nat)
| handoff (t : τ) (id : Nat)
| accept (t : τ) (id : Nat)
| makeStable (t : τ) (id : Nat)
| makeUnstable (t : τ) (id : Nat)
| complete (t : τ)
| block (t : τ)
| abort (t : τ)
| test (t : τ)
| undo (t : τ)
| destroy
deriving DecidableEq, Repr

/- A call, which a thread makes when it is outside. -/
def LockSet.call
    (s : LockSet τ)
    (t : τ)
    (s' : LockSet τ) : Option (LockSet τ) :=
  match s.phase t with
  | .outside => some s'
  | _ => none

def lockSetStep
    (c : LockConfig τ)
    (s : LockSet τ)
    (a : LockAction τ) : Option (LockSet τ) :=
  match a with
  | .acquire t id => s.call t (lockAcquire c s t id)
  | .tryAcquire t id => s.call t (lockTry c s t id)
  | .release t id => s.call t (lockReleaseInternal c s t id)
  | .handoff t id => s.call t (lockHandoff c s t id)
  | .accept t id => s.call t (lockHandoffAccept c s t id)
  | .makeStable t id => s.call t (lockMakeStable c s t id)
  | .makeUnstable t id => some (lockMakeUnstable s t id)
  | .complete t =>
      match s.phase t with
      | .completing op id w r =>
          some (lockComplete s t op id w r)
      | _ => none
  | .block t =>
      match s.phase t with
      | .waiting op id .entering =>
          some (s.setPhase t (.waiting op id .blocked))
      | _ => none
  | .abort t =>
      match s.phase t with
      | .waiting op id .blocked =>
          some (s.setPhase t
            (.waiting op id (.woken .interrupted)))
      | _ => none
  | .test t =>
      match s.phase t with
      | .waiting op id (.woken r) => some (lockTest s t op id r)
      | _ => none
  | .undo t =>
      match s.phase t with
      | .waiting op id .undoing => lockUndo s t op id
      | _ => none
  | .destroy => lockSetDestroy s

end Kern

end OsfMach
