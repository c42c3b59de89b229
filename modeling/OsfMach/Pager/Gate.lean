import OsfMach.Lib.Runs
import Mathlib.Algebra.Group.Nat.Defs

/-
  The order of the requests on a memory object of the default
  pager, from `dp_memory_object.c` with `PARALLEL`.

  The kernel numbers the messages of a port as they are
  received. A request waits at the gate until its number is
  up. Each section under the lock of the `vstruct` is a step.
  How many writes a request starts depends on the map of the
  clusters and on errors, and is left open.

  Key definitions include:
    * `Request`, `Vstruct`
    * `vsLock`, `vsCheckRequest`, `vsWait`, `vsServe`
    * `gateStep`
-/

------
-- Requests
------

namespace OsfMach

namespace Pager

open Lib

inductive Request where
| memoryObjectInit
| memoryObjectSynchronize
| memoryObjectTerminate
| noSenders
| dataRequest
| dataInitialize
| dataReturn
deriving DecidableEq, Repr

/- The conditions of a `vstruct` that are waited for. -/
inductive Wait where
| readers
| writers
| async
| refs
deriving DecidableEq, Repr

namespace Request

def isWrite : Request → Bool
| dataInitialize => true
| dataReturn => true
| _ => false

/- Whether `vs_check_request` is called. -/
def checks : Request → Bool
| memoryObjectSynchronize => true
| dataRequest => true
| dataInitialize => true
| dataReturn => true
| _ => false

/- What is waited for behind the gate, in this order. -/
def waits : Request → List Wait
| memoryObjectTerminate => [.readers, .writers, .async, .refs]
| noSenders => [.async]
| dataRequest => [.writers, .async]
| _ => []

end Request

------
-- Memory Objects
------

/- Where a thread is in a request. -/
inductive Stage where
| gate
| checking
| waiting (rest : List Wait)
| running
deriving DecidableEq, Repr

inductive ServerPhase where
| idle
| serving (n : Nat) (r : Request) (stage : Stage)
deriving DecidableEq, Repr

/- A write that the device has not answered yet. -/
structure AsyncWrite where
  request : Nat
  size : Nat
deriving DecidableEq, Repr

/-
  The fields of a `vstruct` that order its requests, with the
  requests received so far, those that have passed the gate,
  and what the threads and the device do.
-/
structure Vstruct (τ : Type) where
  vsSeqno : Nat
  vsControlRefs : Nat
  vsNameRefs : Nat
  vsReaders : Nat
  vsWriters : Nat
  vsAsyncPending : Int
  requests : List Request
  passed : List Nat
  phase : τ → ServerPhase
  async : List AsyncWrite

/- What a pager is configured with. -/
structure GateConfig where
  maxUrefs : Nat
  clusterSize : Nat

section Operations

variable {τ : Type} [DecidableEq τ]

def Vstruct.setPhase
    (vs : Vstruct τ)
    (t : τ)
    (p : ServerPhase) : Vstruct τ :=
  { vs with phase := Function.update vs.phase t p }

/- The sequence number of a message. -/
def seqno (n : Nat) : Nat :=
  n % 2 ^ 32

/- An `unsigned int` that is decremented. -/
def decr (n : Nat) : Nat :=
  if n = 0 then 2 ^ 32 - 1 else n - 1

def vsUnlock (vs : Vstruct τ) : Vstruct τ :=
  { vs with vsSeqno := (vs.vsSeqno + 1) % 2 ^ 32 }

def vsStartRead (vs : Vstruct τ) : Vstruct τ :=
  { vs with vsReaders := (vs.vsReaders + 1) % 2 ^ 32 }

def vsFinishRead (vs : Vstruct τ) : Vstruct τ :=
  { vs with vsReaders := decr vs.vsReaders }

def vsStartWrite (vs : Vstruct τ) : Vstruct τ :=
  { vs with vsWriters := (vs.vsWriters + 1) % 2 ^ 32 }

def vsFinishWrite (vs : Vstruct τ) : Vstruct τ :=
  { vs with vsWriters := decr vs.vsWriters }

/- Whether the loop of a wait goes on. -/
def Vstruct.blocked (vs : Vstruct τ) : Wait → Bool
| .readers => vs.vsReaders != 0
| .writers => vs.vsWriters != 0
| .async => decide (0 < vs.vsAsyncPending)
| .refs => vs.vsNameRefs == 0

/-
  The end of the section behind the gate. The notification
  that there are no senders does not advance the gate.
-/
def vsServe
    (vs : Vstruct τ)
    (t : τ)
    (n : Nat)
    (r : Request) : Vstruct τ :=
  match r with
  | .memoryObjectInit =>
      (vsUnlock { vs with
        vsControlRefs := 1, vsNameRefs := 1 }).setPhase t .idle
  | .memoryObjectSynchronize => (vsUnlock vs).setPhase t .idle
  | .memoryObjectTerminate =>
      (vsUnlock { vs with
        vsControlRefs := 0, vsNameRefs := 0 }).setPhase t
        (.serving n r .running)
  | .noSenders => vs.setPhase t (.serving n r .running)
  | .dataRequest =>
      (vsUnlock (vsStartRead vs)).setPhase t
        (.serving n r .running)
  | .dataInitialize =>
      (vsUnlock (vsStartWrite vs)).setPhase t
        (.serving n r .running)
  | .dataReturn =>
      (vsUnlock (vsStartWrite vs)).setPhase t
        (.serving n r .running)

/- The lock is dropped at the first wait that goes on. -/
def vsWait
    (vs : Vstruct τ)
    (t : τ)
    (n : Nat)
    (r : Request) : List Wait → Vstruct τ
| [] => vsServe vs t n r
| w :: rest =>
    if vs.blocked w then
      vs.setPhase t (.serving n r (.waiting (w :: rest)))
    else vsWait vs t n r rest

/- `vs_check_request` drops the lock for too many references. -/
def vsCheckRequest
    (c : GateConfig)
    (vs : Vstruct τ)
    (t : τ)
    (n : Nat)
    (r : Request) : Vstruct τ :=
  if r.checks then
    let refs := (vs.vsControlRefs + 1) % 2 ^ 32
    if c.maxUrefs < refs then
      { vs with vsControlRefs := 1 }.setPhase t
        (.serving n r .checking)
    else
      vsWait { vs with vsControlRefs := refs } t n r r.waits
  else vsWait vs t n r r.waits

/- A turn of the loop of `vs_lock`. -/
def vsLock
    (c : GateConfig)
    (vs : Vstruct τ)
    (t : τ)
    (n : Nat)
    (r : Request) : Vstruct τ :=
  if vs.vsSeqno = seqno n then
    vsCheckRequest c { vs with passed := vs.passed ++ [n] }
      t n r
  else vs

/- The end of a request. -/
def vsFinish
    (vs : Vstruct τ)
    (t : τ)
    (r : Request) : Vstruct τ :=
  if r.isWrite then (vsFinishWrite vs).setPhase t .idle
  else if r = .dataRequest then
    (vsFinishRead vs).setPhase t .idle
  else vs.setPhase t .idle

/- `vs_async_pending` is an `int`. -/
def vsStartAsync
    (vs : Vstruct τ)
    (w : AsyncWrite) : Vstruct τ :=
  { vs with
    vsAsyncPending := (vs.vsAsyncPending + w.size).bmod (2 ^ 32)
    async := w :: vs.async }

/- `vs_cl_write_complete`, for an asynchronous write. -/
def vsClWriteComplete
    (vs : Vstruct τ)
    (w : AsyncWrite) : Vstruct τ :=
  { vs with
    vsAsyncPending := (vs.vsAsyncPending - w.size).bmod (2 ^ 32)
    async := vs.async.erase w }

------
-- Actions
------

inductive GateAction (τ : Type) where
| receive (t : τ) (r : Request)
| lock (t : τ)
| relock (t : τ)
| wake (t : τ)
| write (t : τ) (size : Nat)
| complete (w : AsyncWrite)
| finish (t : τ)

/-
  A wait that is woken tests its own condition again. A write
  is at most a cluster.
-/
def gateStep
    (c : GateConfig)
    (vs : Vstruct τ)
    (a : GateAction τ) : Option (Vstruct τ) :=
  match a with
  | .receive t r =>
      match vs.phase t with
      | .idle =>
          some ({ vs with
            requests := vs.requests ++ [r] }.setPhase t
            (.serving vs.requests.length r .gate))
      | _ => none
  | .lock t =>
      match vs.phase t with
      | .serving n r .gate => some (vsLock c vs t n r)
      | _ => none
  | .relock t =>
      match vs.phase t with
      | .serving n r .checking => some (vsWait vs t n r r.waits)
      | _ => none
  | .wake t =>
      match vs.phase t with
      | .serving n r (.waiting rest) =>
          some (vsWait vs t n r rest)
      | _ => none
  | .write t size =>
      match vs.phase t with
      | .serving n r .running =>
          if r.isWrite ∧ 0 < size ∧ size ≤ c.clusterSize then
            some (vsStartAsync vs { request := n, size := size })
          else none
      | _ => none
  | .complete w =>
      if w ∈ vs.async then some (vsClWriteComplete vs w)
      else none
  | .finish t =>
      match vs.phase t with
      | .serving _ r .running => some (vsFinish vs t r)
      | _ => none

end Operations

/- `ps_vstruct_create`, with the references of the object. -/
def psVstructCreate
    (τ : Type)
    (controlRefs nameRefs : Nat) : Vstruct τ :=
  { vsSeqno := 0
    vsControlRefs := controlRefs
    vsNameRefs := nameRefs
    vsReaders := 0
    vsWriters := 0
    vsAsyncPending := 0
    requests := []
    passed := []
    phase := fun _ => .idle
    async := [] }

end Pager

end OsfMach
