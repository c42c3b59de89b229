import OsfMach.Lib.Counting
import OsfMach.Pager.Gate
import Mathlib.Tactic.SplitIfs

/-
  The invariant of the gate of a memory object, and the
  threads that pass it.

  Requests pass the gate in the order of their numbers: those
  that have been received and not passed are at most as many
  as there are threads, so that no two of them have the same
  sequence number. A request that is behind the gate stops
  others from starting reads or writes while it waits.

  Main declarations:
    * `Finished`, `GateInv`
    * `GateInv.enter`, `GateInv.pass`, `GateInv.serve`
    * `GateInv.lock`
-/

------
-- The Invariant
------

namespace OsfMach

namespace Pager

open Function
open Lib
open Lib.Counting

variable {τ : Type}

namespace ServerPhase

def number : ServerPhase → Option Nat
| idle => none
| serving n _ _ => some n

def atGate : ServerPhase → Bool
| serving _ _ .gate => true
| _ => false

def isReading : ServerPhase → Bool
| serving _ .dataRequest .running => true
| _ => false

def isWriting : ServerPhase → Bool
| serving _ r .running => r.isWrite
| _ => false

end ServerPhase

/- A request that no thread and no write is left of. -/
structure Finished (vs : Vstruct τ) (m : Nat) : Prop where
  threads : ∀ t, (vs.phase t).number ≠ some m
  writes : ∀ w ∈ vs.async, w.request ≠ m

/- The requests that a request has to wait for. -/
def Request.awaits : Request → Request → Bool
| .dataRequest, r => r.isWrite
| .memoryObjectTerminate, r => r.isWrite || r == .dataRequest
| _, _ => false

/- The requests before a request that it waits for. -/
def Awaited (vs : Vstruct τ) (n : Nat) (r : Request) : Prop :=
  ∀ m < n, ∀ r', vs.requests[m]? = some r' →
    r.awaits r' = true → Finished vs m

/- What a wait has seen, as long as the gate is closed. -/
def Clear (vs : Vstruct τ) : Wait → Prop
| .readers => ∀ t, (vs.phase t).isReading = false
| .writers => ∀ t, (vs.phase t).isWriting = false
| .async => vs.async = []
| .refs => True

/- Writes that are started undo a wait for asynchronous ones. -/
def Seen (vs : Vstruct τ) (past : List Wait) : Prop :=
  ∀ w ∈ past, (w = .async → Wait.writers ∈ past) →
    Clear vs w

/- What holds of a thread that serves a request. -/
def StageOk
    (vs : Vstruct τ)
    (k n : Nat)
    (r : Request) : Stage → Prop
| .gate => vs.passed.length ≤ n
| .checking => n = k ∧ vs.passed.length = k + 1
| .waiting rest =>
    (n = k ∧ vs.passed.length = k + 1) ∧
      ∃ past, r.waits = past ++ rest ∧ Seen vs past
| .running =>
    (n < k ∨ n = k ∧ vs.passed.length = k + 1 ∧
      r = .noSenders) ∧ Awaited vs n r

def pendingBytes (vs : Vstruct τ) : Nat :=
  (vs.async.map AsyncWrite.size).sum

/- The gate has been advanced `k` times. -/
structure GateInv
    [Fintype τ]
    (vs : Vstruct τ)
    (k : Nat) : Prop where
  gateAt : vs.vsSeqno = seqno k
  passed : vs.passed = List.range vs.passed.length
  low : k ≤ vs.passed.length
  high : vs.passed.length ≤ k + 1
  within : vs.passed.length ≤ vs.requests.length
  received :
    ∀ t n r st, vs.phase t = .serving n r st →
      vs.requests[n]? = some r
  stage :
    ∀ t n r st, vs.phase t = .serving n r st →
      StageOk vs k n r st
  distinct :
    ∀ t u n, (vs.phase t).number = some n →
      (vs.phase u).number = some n → t = u
  backlog :
    vs.requests.length ≤
      vs.passed.length + count ServerPhase.atGate vs.phase
  readers :
    vs.vsReaders = count ServerPhase.isReading vs.phase
  writers :
    vs.vsWriters = count ServerPhase.isWriting vs.phase
  pending : vs.vsAsyncPending = pendingBytes vs
  fits : pendingBytes vs < 2 ^ 31
  sizes : ∀ w ∈ vs.async, 0 < w.size

------
-- Finished Requests
------

section Finished

variable {vs vs' : Vstruct τ} {m n k : Nat} {r : Request}

/- Nothing comes back to a request that is finished. -/
structure Onward (vs vs' : Vstruct τ) : Prop where
  requests :
    ∀ m < vs.requests.length,
      vs'.requests[m]? = vs.requests[m]?
  threads :
    ∀ t m, m < vs.requests.length →
      (vs'.phase t).number = some m →
      (vs.phase t).number = some m
  writes :
    ∀ w ∈ vs'.async, w ∈ vs.async ∨
      ∃ t, (vs.phase t).number = some w.request

theorem Finished.onward
    (h : Finished vs m)
    (hOn : Onward vs vs')
    (hm : m < vs.requests.length) :
    Finished vs' m := by
  constructor
  · intro t ht
    exact h.threads t (hOn.threads t m hm ht)
  · intro w hw hEq
    rcases hOn.writes w hw with hOld | ⟨t, ht⟩
    · exact h.writes w hOld hEq
    · rw [hEq] at ht
      exact h.threads t ht

theorem Awaited.onward
    (h : Awaited vs n r)
    (hOn : Onward vs vs')
    (hn : n < vs.requests.length) :
    Awaited vs' n r := by
  intro m hm r' hr' hAwaits
  have hLt : m < vs.requests.length := Nat.lt_trans hm hn
  rw [hOn.requests m hLt] at hr'
  exact (h m hm r' hr' hAwaits).onward hOn hLt

end Finished

------
-- One Thread
------

section Turn

variable {vs vs' : Vstruct τ} {t u : τ} {n k k' : Nat}
variable {r : Request} {st : Stage} {p : ServerPhase}

/- A thread that a step says nothing about. -/
theorem StageOk.keep
    (h : StageOk vs k n r st)
    (hOn : Onward vs vs')
    (hn : n < vs.requests.length)
    (hPassed : vs'.passed = vs.passed)
    (hSeen : ∀ past, Seen vs past → Seen vs' past) :
    StageOk vs' k n r st := by
  cases st with
  | gate =>
      show vs'.passed.length ≤ n
      rw [hPassed]
      exact h
  | checking =>
      show n = k ∧ vs'.passed.length = k + 1
      rw [hPassed]
      exact h
  | waiting rest =>
      rcases h with ⟨hHeld, past, hWaits, hPast⟩
      refine ⟨?_, past, hWaits, hSeen past hPast⟩
      rw [hPassed]
      exact hHeld
  | running =>
      rcases h with ⟨hNumber, hAwaited⟩
      refine ⟨?_, hAwaited.onward hOn hn⟩
      rw [hPassed]
      exact hNumber

/- A thread elsewhere, while another one holds the gate. -/
theorem StageOk.passed_by
    (h : StageOk vs k n r st)
    (hOn : Onward vs vs')
    (hn : n < vs.requests.length)
    (hNe : n ≠ k)
    (hLow : k ≤ vs.passed.length)
    (hPassed : vs'.passed.length ≤ k + 1)
    (hLe : k ≤ k') :
    StageOk vs' k' n r st := by
  cases st with
  | gate =>
      have hOld : vs.passed.length ≤ n := h
      show vs'.passed.length ≤ n
      omega
  | checking => exact absurd h.1 hNe
  | waiting rest => exact absurd h.1.1 hNe
  | running =>
      rcases h with ⟨hLt | ⟨hEq, _⟩, hAwaited⟩
      · exact ⟨Or.inl (Nat.lt_of_lt_of_le hLt hLe),
          hAwaited.onward hOn hn⟩
      · exact absurd hEq hNe

section Update

variable [DecidableEq τ]

theorem Clear.update
    {w : Wait}
    (h : Clear vs w)
    (hPhase : vs'.phase = update vs.phase t p)
    (hAsync : vs'.async = vs.async)
    (hReading : p.isReading = false)
    (hWriting : p.isWriting = false) :
    Clear vs' w := by
  cases w with
  | readers =>
      intro u
      rw [hPhase]
      by_cases hEq : u = t
      · rw [hEq, update_self]
        exact hReading
      · rw [update_of_ne hEq]
        exact h u
  | writers =>
      intro u
      rw [hPhase]
      by_cases hEq : u = t
      · rw [hEq, update_self]
        exact hWriting
      · rw [update_of_ne hEq]
        exact h u
  | async => exact hAsync.trans h
  | refs => trivial

/- A thread goes on with its request, or leaves it. -/
structure Turn
    (vs vs' : Vstruct τ)
    (t : τ)
    (p : ServerPhase) : Prop where
  phase : vs'.phase = update vs.phase t p
  requests : vs'.requests = vs.requests
  async : vs'.async = vs.async
  number :
    ∀ m, p.number = some m → (vs.phase t).number = some m

theorem Turn.number_of
    {m : Nat}
    (hTurn : Turn vs vs' t p)
    (h : (vs'.phase u).number = some m) :
    (vs.phase u).number = some m := by
  rw [hTurn.phase] at h
  by_cases hEq : u = t
  · rw [hEq, update_self] at h
    rw [hEq]
    exact hTurn.number m h
  · rw [update_of_ne hEq] at h
    exact h

theorem Turn.onward
    (hTurn : Turn vs vs' t p) :
    Onward vs vs' := by
  refine ⟨?_, ?_, ?_⟩
  · intro m _
    rw [hTurn.requests]
  · intro u m _ h
    exact hTurn.number_of h
  · intro w hw
    rw [hTurn.async] at hw
    exact Or.inl hw

theorem Turn.seen
    (hTurn : Turn vs vs' t p)
    (hReading : p.isReading = false)
    (hWriting : p.isWriting = false)
    (past : List Wait)
    (h : Seen vs past) :
    Seen vs' past := by
  intro w hw hOrder
  exact (h w hw hOrder).update hTurn.phase hTurn.async hReading
    hWriting

variable [Fintype τ]

/- The clauses of the invariant that are about one thread. -/
theorem GateInv.turn
    (h : GateInv vs k)
    (hTurn : Turn vs vs' t p)
    (hReceived :
      ∀ n r st, p = .serving n r st →
        vs.requests[n]? = some r)
    (hOwn :
      ∀ n r st, p = .serving n r st → StageOk vs' k' n r st)
    (hOthers :
      ∀ u n r st, u ≠ t → vs.phase u = .serving n r st →
        StageOk vs' k' n r st)
    (hSeqno : vs'.vsSeqno = seqno k')
    (hPassed : vs'.passed = List.range vs'.passed.length)
    (hLow : k' ≤ vs'.passed.length)
    (hHigh : vs'.passed.length ≤ k' + 1)
    (hWithin : vs'.passed.length ≤ vs.requests.length)
    (hBacklog :
      vs.passed.length + (vs.phase t).atGate.toNat ≤
        vs'.passed.length + p.atGate.toNat)
    (hReaders :
      vs'.vsReaders + (vs.phase t).isReading.toNat =
        vs.vsReaders + p.isReading.toNat)
    (hWriters :
      vs'.vsWriters + (vs.phase t).isWriting.toNat =
        vs.vsWriters + p.isWriting.toNat)
    (hPending : vs'.vsAsyncPending = vs.vsAsyncPending) :
    GateInv vs' k' := by
  have hBytes : pendingBytes vs' = pendingBytes vs := by
    unfold pendingBytes
    rw [hTurn.async]
  have hCases : ∀ u n r st,
      vs'.phase u = .serving n r st →
      (u = t ∧ p = .serving n r st) ∨
        (u ≠ t ∧ vs.phase u = .serving n r st) := by
    intro u n r st hu
    rw [hTurn.phase] at hu
    by_cases hEq : u = t
    · rw [hEq, update_self] at hu
      exact Or.inl ⟨hEq, hu⟩
    · rw [update_of_ne hEq] at hu
      exact Or.inr ⟨hEq, hu⟩
  refine ⟨hSeqno, hPassed, hLow, hHigh, ?_, ?_, ?_, ?_, ?_,
    ?_, ?_, ?_, ?_, ?_⟩
  · rw [hTurn.requests]
    exact hWithin
  · intro u n r st hu
    rw [hTurn.requests]
    rcases hCases u n r st hu with ⟨_, hp⟩ | ⟨_, hOld⟩
    · exact hReceived n r st hp
    · exact h.received u n r st hOld
  · intro u n r st hu
    rcases hCases u n r st hu with ⟨_, hp⟩ | ⟨hNe, hOld⟩
    · exact hOwn n r st hp
    · exact hOthers u n r st hNe hOld
  · intro u v n hu hv
    exact h.distinct u v n (hTurn.number_of hu)
      (hTurn.number_of hv)
  · have hCount := count_update (p := ServerPhase.atGate)
      vs.phase t p
    have hOld := h.backlog
    rw [hTurn.requests, hTurn.phase]
    omega
  · have hCount := count_update (p := ServerPhase.isReading)
      vs.phase t p
    have hOld := h.readers
    rw [hTurn.phase]
    omega
  · have hCount := count_update (p := ServerPhase.isWriting)
      vs.phase t p
    have hOld := h.writers
    rw [hTurn.phase]
    omega
  · rw [hBytes, hPending]
    exact h.pending
  · rw [hBytes]
    exact h.fits
  · rw [hTurn.async]
    exact h.sizes

end Update

end Turn

------
-- The Gate
------

section Gate

variable [DecidableEq τ] [Fintype τ] {vs : Vstruct τ} {t : τ}
variable {n k : Nat} {r : Request} {st : Stage}
variable {m : Nat} {r' : Request} {st' : Stage} {w : Wait}
variable {rest : List Wait}

omit [DecidableEq τ] in
theorem GateInv.lt_received
    (h : GateInv vs k)
    (hPhase : vs.phase t = .serving n r st) :
    n < vs.requests.length := by
  have hSome := h.received t n r st hPhase
  exact (List.getElem?_eq_some_iff.mp hSome).1

omit [DecidableEq τ] in
/- Other threads have other numbers. -/
theorem GateInv.number_ne
    {u : τ}
    (h : GateInv vs k)
    (hPhase : vs.phase t = .serving n r st)
    (hOther : vs.phase u = .serving m r' st')
    (hNe : u ≠ t) :
    m ≠ n := by
  intro hEq
  apply hNe
  apply h.distinct u t n
  · rw [hOther, hEq]
    rfl
  · rw [hPhase]
    rfl

omit [DecidableEq τ] in
/-
  The sequence number tells the request: less than `2 ^ 32`
  of them are at the gate.
-/
theorem GateInv.number_up
    (h : GateInv vs k)
    (hThreads : Fintype.card τ < 2 ^ 32)
    (hPhase : vs.phase t = .serving n r .gate)
    (hSeqno : vs.vsSeqno = seqno n) :
    n = k ∧ vs.passed.length = k := by
  have hGate : vs.passed.length ≤ n := h.stage t n r _ hPhase
  have hLt := h.lt_received hPhase
  have hBacklog := h.backlog
  have hCount := count_le_card (p := ServerPhase.atGate)
    (f := vs.phase)
  have hLow := h.low
  have hHigh := h.high
  rw [h.gateAt] at hSeqno
  unfold seqno at hSeqno
  omega

/- A thread passes the gate, and holds it. -/
theorem GateInv.enter
    (h : GateInv vs k)
    (hThreads : Fintype.card τ < 2 ^ 32)
    (hPhase : vs.phase t = .serving n r .gate)
    (hSeqno : vs.vsSeqno = seqno n)
    (refs : Nat)
    (hStage : st = .checking ∨ st = .waiting r.waits) :
    GateInv
      ({ vs with
          passed := vs.passed ++ [n]
          vsControlRefs := refs }.setPhase t
        (.serving n r st)) k := by
  rcases h.number_up hThreads hPhase hSeqno with ⟨rfl, hLength⟩
  generalize hNext :
    { vs with
        passed := vs.passed ++ [n]
        vsControlRefs := refs }.setPhase t
      (.serving n r st) = vs'
  have hPassed : vs'.passed = vs.passed ++ [n] := by
    subst hNext
    rfl
  have hTurn : Turn vs vs' t (.serving n r st) := by
    subst hNext
    refine ⟨rfl, rfl, rfl, ?_⟩
    intro m hm
    rw [hPhase]
    exact hm
  have hRest : vs'.vsSeqno = vs.vsSeqno ∧
      vs'.vsReaders = vs.vsReaders ∧
      vs'.vsWriters = vs.vsWriters ∧
      vs'.vsAsyncPending = vs.vsAsyncPending := by
    subst hNext
    exact ⟨rfl, rfl, rfl, rfl⟩
  rcases hRest with ⟨hNumber, hReaders, hWriters, hPending⟩
  have hCount : vs'.passed.length = n + 1 := by
    rw [hPassed, List.length_append, hLength]
    rfl
  have hFlags : (ServerPhase.serving n r st).atGate = false ∧
      (ServerPhase.serving n r st).isReading = false ∧
      (ServerPhase.serving n r st).isWriting = false := by
    rcases hStage with rfl | rfl
    · exact ⟨rfl, by cases r <;> rfl, rfl⟩
    · exact ⟨rfl, by cases r <;> rfl, rfl⟩
  apply h.turn hTurn
  · intro m q st' hp
    cases hp
    exact h.received t n r _ hPhase
  · intro m q st' hp
    cases hp
    rcases hStage with rfl | rfl
    · exact ⟨rfl, hCount⟩
    · refine ⟨⟨rfl, hCount⟩, [], rfl, ?_⟩
      intro w hw
      cases hw
  · intro u m q st' hNe hu
    exact (h.stage u m q st' hu).passed_by hTurn.onward
      (h.lt_received hu) (h.number_ne hPhase hu hNe) h.low
      (Nat.le_of_eq hCount) (Nat.le_refl n)
  · rw [hNumber]
    exact h.gateAt
  · rw [hPassed, List.length_append, hLength, h.passed, hLength]
    exact List.range_succ.symm
  · omega
  · omega
  · rw [hCount]
    exact h.lt_received hPhase
  · rw [hPhase, hFlags.1, hCount, hLength]
    exact Nat.le_refl _
  · rw [hPhase, hFlags.2.1, hReaders]
    cases r <;> rfl
  · rw [hPhase, hFlags.2.2, hWriters]
    rfl
  · exact hPending

/- The stages in which a thread holds the gate. -/
def Stage.held : Stage → Bool
| checking => true
| waiting _ => true
| _ => false

omit [DecidableEq τ] [Fintype τ] in
theorem held_flags
    {st : Stage}
    (hHeld : st.held = true) :
    (ServerPhase.serving n r st).atGate = false ∧
      (ServerPhase.serving n r st).isReading = false ∧
      (ServerPhase.serving n r st).isWriting = false := by
  cases st with
  | gate | running => cases hHeld
  | checking | waiting rest => exact ⟨rfl, by cases r <;> rfl, rfl⟩

omit [DecidableEq τ] in
theorem GateInv.of_held
    (h : GateInv vs k)
    (hPhase : vs.phase t = .serving n r st)
    (hHeld : st.held = true) :
    n = k ∧ vs.passed.length = k + 1 := by
  have hStage := h.stage t n r st hPhase
  cases st with
  | gate => cases hHeld
  | running => cases hHeld
  | checking => exact hStage
  | waiting rest => exact hStage.1

/- The thread that holds the gate goes on. -/
theorem GateInv.restage
    (h : GateInv vs k)
    (hPhase : vs.phase t = .serving n r st)
    (hHeld : st.held = true)
    (hHeld' : st'.held = true)
    (hOwn :
      StageOk (vs.setPhase t (.serving n r st')) k n r st') :
    GateInv (vs.setPhase t (.serving n r st')) k := by
  have hTurn : Turn vs (vs.setPhase t (.serving n r st')) t
      (.serving n r st') := by
    refine ⟨rfl, rfl, rfl, ?_⟩
    intro m hm
    rw [hPhase]
    exact hm
  rcases @held_flags n r st hHeld with ⟨hGate, hRead, hWrite⟩
  rcases @held_flags n r st' hHeld' with
    ⟨hGate', hRead', hWrite'⟩
  apply h.turn hTurn
  · intro m q st₁ hp
    cases hp
    exact h.received t n r _ hPhase
  · intro m q st₁ hp
    cases hp
    exact hOwn
  · intro u m q st₁ hNe hu
    exact (h.stage u m q st₁ hu).keep hTurn.onward
      (h.lt_received hu) rfl (hTurn.seen hRead' hWrite')
  · exact h.gateAt
  · exact h.passed
  · exact h.low
  · exact h.high
  · exact h.within
  · rw [hPhase, hGate, hGate']
    exact Nat.le_refl _
  · rw [hPhase, hRead, hRead']
    rfl
  · rw [hPhase, hWrite, hWrite']
    rfl
  · rfl

omit [DecidableEq τ] in
/- What a wait that is over tells. -/
theorem GateInv.clear
    (h : GateInv vs k)
    (hOver : vs.blocked w = false) :
    Clear vs w := by
  cases w with
  | readers =>
      have hZero : vs.vsReaders = 0 := by
        simpa [Vstruct.blocked] using hOver
      rw [h.readers] at hZero
      exact count_eq_zero.mp hZero
  | writers =>
      have hZero : vs.vsWriters = 0 := by
        simpa [Vstruct.blocked] using hOver
      rw [h.writers] at hZero
      exact count_eq_zero.mp hZero
  | async =>
      have hZero : ¬ 0 < vs.vsAsyncPending :=
        of_decide_eq_false hOver
      rw [h.pending] at hZero
      show vs.async = []
      cases hAsync : vs.async with
      | nil => rfl
      | cons w rest =>
          have hPos := h.sizes w (by
            rw [hAsync]
            exact List.mem_cons_self)
          unfold pendingBytes at hZero
          rw [hAsync, List.map_cons, List.sum_cons] at hZero
          omega
  | refs => trivial

omit [DecidableEq τ] [Fintype τ] in
/- Writers are waited for before asynchronous writes. -/
theorem writers_first
    {past rest : List Wait}
    (h : r.waits = past ++ .writers :: rest) :
    Wait.async ∉ past := by
  cases r <;>
    simp [Request.waits, List.cons_eq_append_iff] at h
  · grind
  · grind

/- A wait is over. -/
theorem GateInv.pass
    (h : GateInv vs k)
    (hPhase : vs.phase t = .serving n r (.waiting (w :: rest)))
    (hOver : vs.blocked w = false) :
    GateInv (vs.setPhase t (.serving n r (.waiting rest)))
      k := by
  rcases h.stage t n r _ hPhase with
    ⟨hHeld, past, hWaits, hSeen⟩
  apply h.restage hPhase rfl rfl
  refine ⟨hHeld, past ++ [w], ?_, ?_⟩
  · rw [hWaits, List.append_assoc]
    rfl
  · have hFlags := @held_flags n r (.waiting rest) rfl
    intro w' hw' hOrder
    have hClear : Clear vs w' := by
      rcases List.mem_append.mp hw' with hOld | hNew
      · apply hSeen w' hOld
        intro hAsync
        rcases List.mem_append.mp (hOrder hAsync) with
          hIn | hIs
        · exact hIn
        · have hFirst : Wait.writers = w :=
            List.mem_singleton.mp hIs
          subst hFirst
          subst hAsync
          exact absurd hOld (writers_first hWaits)
      · rw [List.mem_singleton.mp hNew]
        exact h.clear hOver
    exact hClear.update rfl rfl hFlags.2.1 hFlags.2.2

omit [DecidableEq τ] [Fintype τ] in
/- Who awaits something waits for the writes. -/
theorem awaits_waits
    (h : r.awaits r' = true) :
    Wait.writers ∈ r.waits ∧ Wait.async ∈ r.waits ∧
      (r'.isWrite = true ∨
        r' = .dataRequest ∧ Wait.readers ∈ r.waits) := by
  cases r with
  | dataRequest => exact ⟨by decide, by decide, Or.inl h⟩
  | memoryObjectTerminate =>
      refine ⟨by decide, by decide, ?_⟩
      rcases (Bool.or_eq_true _ _).mp h with hWrite | hRead
      · exact Or.inl hWrite
      · exact Or.inr ⟨beq_iff_eq.mp hRead, by decide⟩
  | memoryObjectInit | memoryObjectSynchronize | noSenders
  | dataInitialize | dataReturn => cases h

omit [DecidableEq τ] in
/- All that a request waits for is finished. -/
theorem GateInv.awaited
    (h : GateInv vs k)
    (hPhase : vs.phase t = .serving n r (.waiting [])) :
    Awaited vs n r := by
  rcases h.stage t n r _ hPhase with
    ⟨⟨hEq, hLength⟩, past, hWaits, hSeen⟩
  rw [List.append_nil] at hWaits
  subst hEq
  subst hWaits
  intro m hm r' hr' hAwaits
  rcases awaits_waits hAwaits with ⟨hWriters, hAsync, hKind⟩
  have hNoWriter : ∀ u, (vs.phase u).isWriting = false :=
    hSeen .writers hWriters (fun _ => hWriters)
  have hNoWrite : vs.async = [] :=
    hSeen .async hAsync (fun _ => hWriters)
  constructor
  · intro u hu
    cases hServing : vs.phase u with
    | idle =>
        rw [hServing] at hu
        cases hu
    | serving m' q st =>
        rw [hServing] at hu
        cases hu
        have hSame := h.received u m q st hServing
        rw [hr'] at hSame
        cases hSame
        have hStage := h.stage u m r' st hServing
        cases st with
        | gate =>
            have hGate : vs.passed.length ≤ m := hStage
            omega
        | checking => exact absurd hStage.1 (Nat.ne_of_lt hm)
        | waiting rest =>
            exact absurd hStage.1.1 (Nat.ne_of_lt hm)
        | running =>
            rcases hKind with hWrite | ⟨hRead, hReaders⟩
            · have hNot := hNoWriter u
              rw [hServing] at hNot
              rw [show r'.isWrite = false from hNot] at hWrite
              cases hWrite
            · have hNot : ∀ u, (vs.phase u).isReading = false :=
                hSeen .readers hReaders
                  (fun hAbsurd => by cases hAbsurd)
              have hIs := hNot u
              rw [hServing, hRead] at hIs
              cases hIs
  · intro w hw
    rw [hNoWrite] at hw
    cases hw

/- The phase of a thread that has been served. -/
def Request.after (n : Nat) : Request → ServerPhase
| .memoryObjectInit => .idle
| .memoryObjectSynchronize => .idle
| r => .serving n r .running

/- The gate is advanced, except for the last notification. -/
def Request.advance (k : Nat) : Request → Nat
| .noSenders => k
| _ => k + 1

omit [Fintype τ] in
theorem vsServe_spec
    (vs : Vstruct τ)
    (t : τ)
    (n : Nat)
    (r : Request) :
    ((vsServe vs t n r).phase =
        update vs.phase t (r.after n) ∧
      (vsServe vs t n r).requests = vs.requests ∧
      (vsServe vs t n r).async = vs.async ∧
      (vsServe vs t n r).passed = vs.passed ∧
      (vsServe vs t n r).vsAsyncPending =
        vs.vsAsyncPending) ∧
    (vsServe vs t n r).vsSeqno =
      (if r = .noSenders then vs.vsSeqno
      else (vs.vsSeqno + 1) % 2 ^ 32) ∧
    (vsServe vs t n r).vsReaders =
      (if (r.after n).isReading then
        (vs.vsReaders + 1) % 2 ^ 32
      else vs.vsReaders) ∧
    (vsServe vs t n r).vsWriters =
      (if (r.after n).isWriting then
        (vs.vsWriters + 1) % 2 ^ 32
      else vs.vsWriters) := by
  cases r <;>
    exact ⟨⟨rfl, rfl, rfl, rfl, rfl⟩, rfl, rfl, rfl⟩

omit [DecidableEq τ] [Fintype τ] in
theorem after_cases
    {q : Request}
    (h : r.after n = .serving m q st) :
    m = n ∧ q = r ∧ st = .running := by
  cases r <;> cases h <;> exact ⟨rfl, rfl, rfl⟩

omit [DecidableEq τ] [Fintype τ] in
theorem after_atGate
    (n : Nat)
    (r : Request) :
    (r.after n).atGate = false := by
  cases r <;> rfl

/- The count of the threads that read, or that write. -/
theorem count_start
    {flag : ServerPhase → Bool}
    {p : ServerPhase}
    {old : Nat}
    (hThreads : Fintype.card τ < 2 ^ 32)
    (hOld : old = count flag vs.phase)
    (hPhase : flag (vs.phase t) = false) :
    (if flag p then (old + 1) % 2 ^ 32 else old) =
      old + (flag p).toNat := by
  have hCount := count_update (p := flag) vs.phase t p
  have hLe := count_le_card (p := flag)
    (f := update vs.phase t p)
  rw [hPhase, Bool.toNat_false] at hCount
  cases hFlag : flag p with
  | false => rfl
  | true =>
      rw [hFlag, Bool.toNat_true] at hCount
      apply Nat.mod_eq_of_lt
      omega

/- The thread that holds the gate opens it. -/
theorem GateInv.serve
    (h : GateInv vs k)
    (hThreads : Fintype.card τ < 2 ^ 32)
    (hPhase : vs.phase t = .serving n r (.waiting [])) :
    GateInv (vsServe vs t n r) (r.advance k) := by
  rcases vsServe_spec vs t n r with
    ⟨⟨hPhases, hRequests, hAsync, hPassed, hPending⟩,
      hSeqno, hReaders, hWriters⟩
  generalize vsServe vs t n r = vs' at *
  rcases h.of_held hPhase rfl with ⟨hEq, hLength⟩
  subst hEq
  rcases @held_flags n r (.waiting []) rfl with
    ⟨hGate, hRead, hWrite⟩
  have hTurn : Turn vs vs' t (r.after n) := by
    refine ⟨hPhases, hRequests, hAsync, ?_⟩
    intro m hm
    rw [hPhase]
    cases hAfter : r.after n with
    | idle =>
        rw [hAfter] at hm
        cases hm
    | serving m' q st =>
        rw [hAfter] at hm
        cases hm
        rw [(after_cases hAfter).1]
        rfl
  have hLe : n ≤ r.advance n := by
    cases r <;> simp [Request.advance]
  have hGt : r.advance n ≤ n + 1 := by
    cases r <;> simp [Request.advance]
  apply h.turn hTurn
  · intro m q st hp
    rcases after_cases hp with ⟨rfl, rfl, rfl⟩
    exact h.received t m q _ hPhase
  · intro m q st hp
    rcases after_cases hp with ⟨rfl, rfl, rfl⟩
    refine ⟨?_, ?_⟩
    · by_cases hLast : q = .noSenders
      · subst hLast
        rw [hPassed]
        exact Or.inr ⟨rfl, hLength, rfl⟩
      · left
        cases q <;> first
          | exact Nat.lt_succ_self m
          | exact absurd rfl hLast
    · exact (h.awaited hPhase).onward hTurn.onward
        (h.lt_received hPhase)
  · intro u m q st hNe hu
    apply (h.stage u m q st hu).passed_by hTurn.onward
      (h.lt_received hu) (h.number_ne hPhase hu hNe) h.low _ hLe
    rw [hPassed, hLength]
  · rw [hSeqno, h.gateAt]
    split_ifs with hLast
    · rw [hLast]
      rfl
    · unfold seqno
      cases r <;> first
        | exact absurd rfl hLast
        | (simp only [Request.advance]; omega)
  · rw [hPassed]
    exact h.passed
  · rw [hPassed, hLength]
    exact hGt
  · rw [hPassed, hLength]
    omega
  · rw [hPassed]
    exact h.within
  · rw [hPhase, hGate, after_atGate, hPassed]
  · rw [hPhase, hRead, hReaders]
    apply count_start hThreads h.readers (t := t)
    rw [hPhase]
    exact hRead
  · rw [hPhase, hWrite, hWriters]
    apply count_start hThreads h.writers (t := t)
    rw [hPhase]
    exact hWrite
  · exact hPending

omit [Fintype τ] in
theorem setPhase_setPhase
    (p q : ServerPhase) :
    (vs.setPhase t p).setPhase t q = vs.setPhase t q := by
  unfold Vstruct.setPhase
  simp only [update_idem]

omit [Fintype τ] in
/- Where the thread was before does not matter. -/
theorem vsWait_setPhase
    (p : ServerPhase)
    (rest : List Wait) :
    vsWait (vs.setPhase t p) t n r rest =
      vsWait vs t n r rest := by
  induction rest with
  | nil =>
      cases r <;>
        simp [vsWait, vsServe, vsUnlock, vsStartRead,
          vsStartWrite, Vstruct.setPhase]
  | cons w rest ih =>
      unfold vsWait
      have hSame : (vs.setPhase t p).blocked w =
          vs.blocked w := by
        cases w <;> rfl
      rw [hSame, ih, setPhase_setPhase]

/- A thread that holds the gate waits, or opens it. -/
theorem GateInv.wait
    (h : GateInv vs k)
    (hThreads : Fintype.card τ < 2 ^ 32)
    (hPhase : vs.phase t = .serving n r (.waiting rest)) :
    ∃ k', GateInv (vsWait vs t n r rest) k' := by
  induction rest generalizing vs with
  | nil => exact ⟨_, h.serve hThreads hPhase⟩
  | cons w rest ih =>
      unfold vsWait
      cases hBlocked : vs.blocked w with
      | true =>
          refine ⟨k, ?_⟩
          have hSame : vs.setPhase t
              (.serving n r (.waiting (w :: rest))) = vs := by
            unfold Vstruct.setPhase
            rw [← hPhase, update_eq_self]
          rw [if_pos rfl, hSame]
          exact h
      | false =>
          rw [if_neg (by decide),
            ← vsWait_setPhase (.serving n r (.waiting rest))]
          apply ih (h.pass hPhase hBlocked)
          exact update_self _ _ _

theorem GateInv.lock
    (c : GateConfig)
    (h : GateInv vs k)
    (hThreads : Fintype.card τ < 2 ^ 32)
    (hPhase : vs.phase t = .serving n r .gate) :
    ∃ k', GateInv (vsLock c vs t n r) k' := by
  unfold vsLock
  split_ifs with hSeqno
  · have hWait : ∀ refs, ∃ k', GateInv
        (vsWait { vs with
          passed := vs.passed ++ [n]
          vsControlRefs := refs } t n r r.waits) k' := by
      intro refs
      rw [← vsWait_setPhase (.serving n r (.waiting r.waits))]
      apply (h.enter hThreads hPhase hSeqno refs
        (Or.inr rfl)).wait hThreads
      exact update_self _ _ _
    unfold vsCheckRequest
    dsimp only
    split_ifs
    · exact ⟨k, h.enter hThreads hPhase hSeqno 1 (Or.inl rfl)⟩
    · exact hWait _
    · exact hWait _
  · exact ⟨k, h⟩

/- The lock is taken again after `vs_check_request`. -/
theorem GateInv.relock
    (h : GateInv vs k)
    (hThreads : Fintype.card τ < 2 ^ 32)
    (hPhase : vs.phase t = .serving n r .checking) :
    ∃ k', GateInv (vsWait vs t n r r.waits) k' := by
  rw [← vsWait_setPhase (.serving n r (.waiting r.waits))]
  apply GateInv.wait _ hThreads (update_self _ _ _)
  · exact k
  · apply h.restage hPhase rfl rfl
    refine ⟨h.of_held hPhase rfl, [], rfl, ?_⟩
    intro w hw
    cases hw

end Gate

end Pager

end OsfMach
