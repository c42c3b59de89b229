import OsfMach.Kern.SyncPolicy
import OsfMach.Lib.Runs
import Mathlib.Algebra.Group.Int.Defs
import Mathlib.Algebra.Group.Nat.Defs

/-
  Semaphores, from `kern/sync_sema.c`.

  Each action is a section under the lock of the semaphore,
  or what a thread or the clock does between two of them. A
  thread that stops waiting tests outside of the lock whether
  its operation was completed. The semaphore is active, and
  no thread changes its priority during a run.

  Key definitions include:
    * `Semaphore`, `SemaAction`
    * `semaphoreWaitCommon`, `semaphoreSignalCommon`
    * `semaStep`
-/

------
-- Semaphores
------

namespace OsfMach

namespace Kern

open Function
open Lib

/- A value of the type `int`. -/
def toInt (x : Int) : Int := Int.bmod x (2 ^ 32)

inductive WaitResult where
| success
| timedOut
| interrupted
deriving DecidableEq, Repr

/-
  What a call returns. The result of a wait is returned as
  it is when the operation was completed.
-/
inductive SemaReturn where
| success
| invalidValue
| operationTimedOut
| aborted
| waitResult (result : WaitResult)
deriving DecidableEq, Repr

/- Whether a thread learns that it was signaled. -/
def SemaReturn.isSuccess (r : SemaReturn) : Bool :=
  r == .success || r == .waitResult .success

/- How far a thread is with a wait. -/
inductive SemaPhase where
| outside (last : Option SemaReturn)
| blocked (timed : Bool)
| woken (result : WaitResult)
| undoing (result : WaitResult)
deriving DecidableEq, Repr

/- What the calls on a semaphore share. -/
structure SemaConfig (τ : Type) where
  policy : SyncPolicy
  priority : τ → Int
  hz : Nat

/-
  A semaphore, and what its threads do. A thread is linked
  as long as `wait_link.prev` is not null.
-/
structure Semaphore (τ : Type) where
  count : Int
  blockedThreads : List τ
  phase : τ → SemaPhase
  linked : τ → Bool

/- `semaphore_create`. -/
def semaphoreCreate (τ : Type) (value : Int) : Semaphore τ :=
  { count := value
    blockedThreads := []
    phase := fun _ => .outside none
    linked := fun _ => false }

variable {τ : Type} [DecidableEq τ]

namespace Semaphore

def setPhase
    (s : Semaphore τ)
    (t : τ)
    (p : SemaPhase) : Semaphore τ :=
  { s with phase := update s.phase t p }

/-
  `SEMAPHORE_OPERATION_COMPLETE`, and `clear_wait`, which
  has no effect on a thread that does not wait any more.
-/
def complete (s : Semaphore τ) (t : τ) : Semaphore τ :=
  let s := { s with linked := update s.linked t false }
  match s.phase t with
  | .blocked _ => s.setPhase t (.woken .success)
  | _ => s

end Semaphore

------
-- Waiting
------

structure TvalSpec where
  tvSec : Nat
  tvNsec : Int
deriving DecidableEq, Repr

inductive WaitTime where
| forever
| ticks (n : Int)
deriving DecidableEq, Repr

/- The number of ticks to wait, as the source computes it. -/
def waitTicks
    (hz : Nat)
    (waitTime : Option TvalSpec) :
    Except SemaReturn WaitTime :=
  match waitTime with
  | none => .ok .forever
  | some time =>
      if time.tvNsec < 0 ∨ 1000000000 ≤ time.tvNsec then
        .error .invalidValue
      else
        let ticks := toInt (time.tvSec * hz)
        if ticks % 2 ^ 32 < time.tvSec then .ok .forever
        else
          let t :=
            toInt (ticks + time.tvNsec / 1000000000 / hz)
          if t < ticks then .ok .forever
          else if ticks = 0 then .error .operationTimedOut
          else .ok (.ticks t)

/- The first section of `semaphore_wait_common`. -/
def semaphoreWaitCommon
    (c : SemaConfig τ)
    (s : Semaphore τ)
    (t : τ)
    (waitTime : Option TvalSpec) : Semaphore τ :=
  match waitTicks c.hz waitTime with
  | .error r => s.setPhase t (.outside (some r))
  | .ok time =>
      if time = .ticks 0 ∧ s.count ≤ 0 then
        s.setPhase t (.outside (some .operationTimedOut))
      else
        let count := toInt (s.count - 1)
        if count < 0 then
          { s.setPhase t (.blocked (time != .forever)) with
            count := count
            blockedThreads :=
              syncPolicyEnqueue c.policy c.priority
                s.blockedThreads t
            linked := update s.linked t true }
        else
          { s.setPhase t (.outside (some .success)) with
            count := count }

/- The test outside of the lock, and the return after it. -/
def semaphoreTest
    (s : Semaphore τ)
    (t : τ)
    (result : WaitResult) : Semaphore τ :=
  if s.linked t then s.setPhase t (.undoing result)
  else s.setPhase t (.outside (some (.waitResult result)))

/-
  The second section. A thread that is not in the queue has
  no link to write through, and the kernel stops.
-/
def semaphoreUndo
    (s : Semaphore τ)
    (t : τ)
    (result : WaitResult) : Option (Semaphore τ) :=
  if t ∈ s.blockedThreads then
    let r : SemaReturn :=
      if result = .timedOut then .operationTimedOut
      else .aborted
    some { s.setPhase t (.outside (some r)) with
      count := toInt (s.count + 1)
      blockedThreads := s.blockedThreads.erase t }
  else none

------
-- Signaling
------

/- Take the first thread off, which has to be there. -/
def signalFirst (s : Semaphore τ) : Option (Semaphore τ) :=
  match s.blockedThreads with
  | [] => none
  | t :: q =>
      some ({ s with
        count := toInt (s.count + 1)
        blockedThreads := q }.complete t)

/- The loop of `semaphore_signal_all`. -/
def signalLoop : Nat → Semaphore τ → Option (Semaphore τ)
| 0, s => some s
| fuel + 1, s =>
    if 0 ≤ s.count then
      some { s with count := toInt (s.count + 1) }
    else do
      let s ← signalFirst s
      if s.count < 0 then signalLoop fuel s else some s

/- Whom `semaphore_signal_common` signals. -/
inductive SignalTarget (τ : Type) where
| one
| all
| thread (t : τ)
deriving DecidableEq, Repr

def semaphoreSignalCommon
    (s : Semaphore τ)
    (target : SignalTarget τ) : Option (Semaphore τ) :=
  match target with
  | .one =>
      if 0 ≤ s.count then
        some { s with count := toInt (s.count + 1) }
      else signalFirst s
  | .all => do
      let s ← signalLoop (s.blockedThreads.length + 1) s
      some { s with count := 0 }
  | .thread t =>
      if t ∈ s.blockedThreads then
        some ({ s with
          count := toInt (s.count + 1)
          blockedThreads := s.blockedThreads.erase t }.complete
            t)
      else some s

------
-- Actions
------

inductive SemaAction (τ : Type) where
| wait (t : τ) (waitTime : Option TvalSpec)
| timeout (t : τ)
| abort (t : τ)
| test (t : τ)
| undo (t : τ)
| signal (target : SignalTarget τ)
deriving DecidableEq, Repr

def semaStep
    (c : SemaConfig τ)
    (s : Semaphore τ)
    (a : SemaAction τ) : Option (Semaphore τ) :=
  match a with
  | .wait t waitTime =>
      match s.phase t with
      | .outside _ => some (semaphoreWaitCommon c s t waitTime)
      | _ => none
  | .timeout t =>
      match s.phase t with
      | .blocked true => some (s.setPhase t (.woken .timedOut))
      | _ => none
  | .abort t =>
      match s.phase t with
      | .blocked _ =>
          some (s.setPhase t (.woken .interrupted))
      | _ => none
  | .test t =>
      match s.phase t with
      | .woken r => some (semaphoreTest s t r)
      | _ => none
  | .undo t =>
      match s.phase t with
      | .undoing r => semaphoreUndo s t r
      | _ => none
  | .signal target => semaphoreSignalCommon s target

end Kern

end OsfMach
