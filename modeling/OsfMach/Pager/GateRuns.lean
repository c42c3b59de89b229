import OsfMach.Pager.GateInv
import Mathlib.Tactic.Ring

/-
  Whole runs of the gate of a memory object.

  Main declarations:
    * `AsyncFits`
    * `gateStep_inv`
    * `pager_ordering`
-/

------
-- Other Steps
------

namespace OsfMach

namespace Pager

open Function
open Lib
open Lib.Counting

variable {τ : Type}

/- The writes that are started leave the count an `int`. -/
def AsyncFits (vs : Vstruct τ) : GateAction τ → Prop
| .write _ size => pendingBytes vs + size < 2 ^ 31
| _ => True

section Steps

variable [DecidableEq τ] [Fintype τ] {vs : Vstruct τ} {t : τ}
variable {n k : Nat} {r : Request}

theorem GateInv.receive
    (h : GateInv vs k)
    (hPhase : vs.phase t = .idle)
    (r : Request) :
    GateInv
      ({ vs with requests := vs.requests ++ [r] }.setPhase t
        (.serving vs.requests.length r .gate)) k := by
  generalize hNext :
    { vs with requests := vs.requests ++ [r] }.setPhase t
      (.serving vs.requests.length r .gate) = vs'
  have hPhases : vs'.phase = update vs.phase t
      (.serving vs.requests.length r .gate) := by
    subst hNext
    rfl
  have hRequests : vs'.requests = vs.requests ++ [r] := by
    subst hNext
    rfl
  have hRest : vs'.vsSeqno = vs.vsSeqno ∧
      vs'.passed = vs.passed ∧ vs'.async = vs.async ∧
      vs'.vsReaders = vs.vsReaders ∧
      vs'.vsWriters = vs.vsWriters ∧
      vs'.vsAsyncPending = vs.vsAsyncPending := by
    subst hNext
    exact ⟨rfl, rfl, rfl, rfl, rfl, rfl⟩
  rcases hRest with
    ⟨hSeqno, hPassed, hAsync, hReaders, hWriters, hPending⟩
  have hCases : ∀ u p, vs'.phase u = p →
      (u = t ∧ p = .serving vs.requests.length r .gate) ∨
        (u ≠ t ∧ vs.phase u = p) := by
    intro u p hu
    rw [hPhases] at hu
    by_cases hEq : u = t
    · rw [hEq, update_self] at hu
      exact Or.inl ⟨hEq, hu.symm⟩
    · rw [update_of_ne hEq] at hu
      exact Or.inr ⟨hEq, hu⟩
  have hNumber : ∀ u m, (vs'.phase u).number = some m →
      (u = t ∧ m = vs.requests.length) ∨
        (vs.phase u).number = some m ∧
          m < vs.requests.length := by
    intro u m hu
    rcases hCases u _ rfl with ⟨hEq, hp⟩ | ⟨_, hOld⟩
    · rw [hp] at hu
      exact Or.inl ⟨hEq, (Option.some.inj hu).symm⟩
    · right
      rw [← hOld] at hu
      refine ⟨hu, ?_⟩
      cases hServing : vs.phase u with
      | idle =>
          rw [hServing] at hu
          cases hu
      | serving m' q st =>
          rw [hServing] at hu
          cases hu
          exact h.lt_received hServing
  have hOn : Onward vs vs' := by
    refine ⟨?_, ?_, ?_⟩
    · intro m hm
      rw [hRequests, List.getElem?_append_left hm]
    · intro u m hm hu
      rcases hNumber u m hu with ⟨_, hEq⟩ | ⟨hOld, _⟩
      · omega
      · exact hOld
    · intro w hw
      rw [hAsync] at hw
      exact Or.inl hw
  have hBytes : pendingBytes vs' = pendingBytes vs := by
    unfold pendingBytes
    rw [hAsync]
  have hCounts : ∀ flag : ServerPhase → Bool,
      count flag vs'.phase + (flag .idle).toNat =
        count flag vs.phase +
          (flag (.serving vs.requests.length r .gate)).toNat := by
    intro flag
    rw [hPhases, ← hPhase]
    exact count_update _ _ _
  have hIsRead : (ServerPhase.serving vs.requests.length r
      .gate).isReading = false := by
    cases r <;> rfl
  have hSeen : ∀ past, Seen vs past → Seen vs' past := by
    intro past hPast w hw hOrder
    exact (hPast w hw hOrder).update hPhases hAsync hIsRead rfl
  refine ⟨?_, ?_, ?_, ?_, ?_, ?_, ?_, ?_, ?_, ?_, ?_, ?_, ?_,
    ?_⟩
  · rw [hSeqno]
    exact h.gateAt
  · rw [hPassed]
    exact h.passed
  · rw [hPassed]
    exact h.low
  · rw [hPassed]
    exact h.high
  · rw [hPassed, hRequests, List.length_append]
    exact Nat.le_trans h.within (Nat.le_add_right _ _)
  · intro u m q st hu
    rcases hCases u _ hu with ⟨_, hp⟩ | ⟨_, hOld⟩
    · cases hp
      rw [hRequests, List.getElem?_concat_length]
    · rw [hOn.requests m (h.lt_received hOld)]
      exact h.received u m q st hOld
  · intro u m q st hu
    rcases hCases u _ hu with ⟨_, hp⟩ | ⟨_, hOld⟩
    · cases hp
      show vs'.passed.length ≤ vs.requests.length
      rw [hPassed]
      exact h.within
    · exact (h.stage u m q st hOld).keep hOn
        (h.lt_received hOld) hPassed hSeen
  · intro u v m hu hv
    rcases hNumber u m hu with ⟨rfl, hEq⟩ | ⟨hOld, hLt⟩
    · rcases hNumber v m hv with ⟨rfl, _⟩ | ⟨_, hLt⟩
      · rfl
      · omega
    · rcases hNumber v m hv with ⟨_, hEq⟩ | ⟨hOld', _⟩
      · omega
      · exact h.distinct u v m hOld hOld'
  · have hCount := hCounts ServerPhase.atGate
    have hOld := h.backlog
    rw [hRequests, hPassed, List.length_append]
    simp only [ServerPhase.atGate, Bool.toNat_true,
      Bool.toNat_false, List.length_singleton] at hCount ⊢
    omega
  · have hCount := hCounts ServerPhase.isReading
    rw [hIsRead] at hCount
    rw [hReaders, h.readers]
    exact hCount.symm
  · rw [hWriters, h.writers]
    exact (hCounts ServerPhase.isWriting).symm
  · rw [hPending, hBytes]
    exact h.pending
  · rw [hBytes]
    exact h.fits
  · rw [hAsync]
    exact h.sizes

/- A thread leaves its request. -/
theorem GateInv.leave
    {readers writers : Nat}
    (h : GateInv vs k)
    (hPhase : (vs.phase t).atGate = false)
    (hReaders :
      readers + (vs.phase t).isReading.toNat = vs.vsReaders)
    (hWriters :
      writers + (vs.phase t).isWriting.toNat =
        vs.vsWriters) :
    GateInv
      { vs with
        vsReaders := readers
        vsWriters := writers
        phase := update vs.phase t .idle } k := by
  generalize hNext :
    { vs with
      vsReaders := readers
      vsWriters := writers
      phase := update vs.phase t .idle } = vs'
  have hTurn : Turn vs vs' t .idle := by
    subst hNext
    refine ⟨rfl, rfl, rfl, ?_⟩
    intro m hm
    cases hm
  have hPassed : vs'.passed = vs.passed := by
    subst hNext
    rfl
  have hRest : vs'.vsSeqno = vs.vsSeqno ∧
      vs'.vsReaders = readers ∧ vs'.vsWriters = writers ∧
      vs'.vsAsyncPending = vs.vsAsyncPending := by
    subst hNext
    exact ⟨rfl, rfl, rfl, rfl⟩
  rcases hRest with ⟨hSeqno, hReaders', hWriters', hPending⟩
  apply h.turn hTurn
  · intro m q st hp
    cases hp
  · intro m q st hp
    cases hp
  · intro u m q st _ hu
    exact (h.stage u m q st hu).keep hTurn.onward
      (h.lt_received hu) hPassed (hTurn.seen rfl rfl)
  · rw [hSeqno]
    exact h.gateAt
  · rw [hPassed]
    exact h.passed
  · rw [hPassed]
    exact h.low
  · rw [hPassed]
    exact h.high
  · rw [hPassed]
    exact h.within
  · rw [hPhase, hPassed]
    exact Nat.le_refl _
  · rw [hReaders']
    exact hReaders
  · rw [hWriters']
    exact hWriters
  · exact hPending

omit [DecidableEq τ] in
theorem count_finish
    {flag : ServerPhase → Bool}
    {old : Nat}
    (hOld : old = count flag vs.phase)
    (hPhase : flag (vs.phase t) = true) :
    decr old + 1 = old := by
  have hPos : 0 < count flag vs.phase := by
    rcases Nat.eq_zero_or_pos (count flag vs.phase) with
      hZero | hPos
    · rw [count_eq_zero.mp hZero t] at hPhase
      cases hPhase
    · exact hPos
  unfold decr
  rw [if_neg (by omega)]
  omega

theorem GateInv.finish
    (h : GateInv vs k)
    (hPhase : vs.phase t = .serving n r .running) :
    GateInv (vsFinish vs t r) k := by
  have hGate : (vs.phase t).atGate = false := by
    rw [hPhase]
    rfl
  have hWriting : (vs.phase t).isWriting = r.isWrite := by
    rw [hPhase]
    rfl
  have hReading : (vs.phase t).isReading =
      decide (r = .dataRequest) := by
    rw [hPhase]
    cases r <;> rfl
  unfold vsFinish
  by_cases hWrite : r.isWrite = true
  · have hRead : r ≠ .dataRequest := by
      intro hEq
      rw [hEq] at hWrite
      cases hWrite
    rw [if_pos hWrite]
    apply h.leave hGate
    · rw [hReading, decide_eq_false hRead]
      rfl
    · rw [hWriting, hWrite]
      apply count_finish h.writers (t := t)
      rw [hWriting]
      exact hWrite
  · rw [if_neg hWrite]
    rw [Bool.not_eq_true] at hWrite
    by_cases hRead : r = .dataRequest
    · rw [if_pos hRead]
      apply h.leave hGate
      · rw [hReading, decide_eq_true hRead]
        apply count_finish h.readers (t := t)
        rw [hReading]
        exact decide_eq_true hRead
      · rw [hWriting, hWrite]
        rfl
    · rw [if_neg hRead]
      apply h.leave hGate
      · rw [hReading, decide_eq_false hRead]
        rfl
      · rw [hWriting, hWrite]
        rfl

omit [DecidableEq τ] in
/- The writes change, and the threads do not. -/
theorem GateInv.writes
    {pending : Int}
    {async : List AsyncWrite}
    (h : GateInv vs k)
    (hOn :
      Onward vs
        { vs with vsAsyncPending := pending, async := async })
    (hSeen :
      ∀ past, Seen vs past →
        Seen { vs with
          vsAsyncPending := pending, async := async } past)
    (hPending :
      pending = ((async.map AsyncWrite.size).sum : Nat))
    (hFits : (async.map AsyncWrite.size).sum < 2 ^ 31)
    (hSizes : ∀ w ∈ async, 0 < w.size) :
    GateInv
      { vs with vsAsyncPending := pending, async := async }
      k := by
  refine ⟨h.gateAt, h.passed, h.low, h.high, h.within,
    h.received, ?_, h.distinct, h.backlog, h.readers,
    h.writers, hPending, hFits, hSizes⟩
  intro t n r st hPhase
  exact (h.stage t n r st hPhase).keep hOn
    (h.lt_received hPhase) rfl hSeen

theorem bmod_of_lt
    {x : Int}
    (hLow : 0 ≤ x)
    (hHigh : x < 2 ^ 31) :
    x.bmod (2 ^ 32) = x := by
  apply Int.bmod_eq_of_le
  · omega
  · omega

omit [DecidableEq τ] in
theorem GateInv.write
    {size : Nat}
    (h : GateInv vs k)
    (hPhase : vs.phase t = .serving n r .running)
    (hWrite : r.isWrite = true)
    (hPos : 0 < size)
    (hFits : pendingBytes vs + size < 2 ^ 31) :
    GateInv (vsStartAsync vs { request := n, size := size })
      k := by
  have hSum :
      ((({ request := n, size := size } : AsyncWrite) ::
        vs.async).map AsyncWrite.size).sum =
        pendingBytes vs + size := by
    rw [List.map_cons, List.sum_cons, Nat.add_comm]
    rfl
  apply h.writes
  · refine ⟨fun _ _ => rfl, fun _ _ _ hu => hu, ?_⟩
    intro w hw
    rcases List.mem_cons.mp hw with rfl | hOld
    · right
      refine ⟨t, ?_⟩
      rw [hPhase]
      rfl
    · exact Or.inl hOld
  · intro past hPast w hw hOrder
    have hClear := hPast w hw hOrder
    cases w with
    | readers => exact hClear
    | writers => exact hClear
    | refs => trivial
    | async =>
        -- Who is past the writers has no thread that writes.
        have hNone : ∀ u, (vs.phase u).isWriting = false :=
          hPast .writers (hOrder rfl) (fun _ => hOrder rfl)
        have hNot := hNone t
        rw [hPhase] at hNot
        rw [show r.isWrite = false from hNot] at hWrite
        cases hWrite
  · rw [hSum, h.pending]
    show ((pendingBytes vs : Int) + (size : Int)).bmod
      (2 ^ 32) = _
    rw [bmod_of_lt (by omega) (by omega)]
    rfl
  · rw [hSum]
    exact hFits
  · intro w hw
    rcases List.mem_cons.mp hw with rfl | hOld
    · exact hPos
    · exact h.sizes w hOld

omit [DecidableEq τ] in
theorem GateInv.complete
    {w : AsyncWrite}
    (h : GateInv vs k)
    (hw : w ∈ vs.async) :
    GateInv (vsClWriteComplete vs w) k := by
  have hSum : pendingBytes vs =
      w.size + ((vs.async.erase w).map AsyncWrite.size).sum := by
    have hPerm := (List.perm_cons_erase hw).map AsyncWrite.size
    exact hPerm.sum_eq
  have hFits := h.fits
  apply h.writes
  · refine ⟨fun _ _ => rfl, fun _ _ _ hu => hu, ?_⟩
    intro w' hw'
    exact Or.inl (List.mem_of_mem_erase hw')
  · intro past hPast w' hw' hOrder
    have hClear := hPast w' hw' hOrder
    cases w' with
    | readers => exact hClear
    | writers => exact hClear
    | refs => trivial
    | async =>
        have hNil : vs.async = [] := hClear
        rw [hNil] at hw
        cases hw
  · rw [h.pending]
    rw [bmod_of_lt (by omega) (by omega)]
    omega
  · omega
  · intro w' hw'
    exact h.sizes w' (List.mem_of_mem_erase hw')

end Steps

------
-- Runs
------

section Runs

variable [DecidableEq τ] [Fintype τ]

theorem gateStep_inv
    (c : GateConfig)
    (hThreads : Fintype.card τ < 2 ^ 32)
    (vs : Vstruct τ)
    (a : GateAction τ)
    (vs' : Vstruct τ)
    (hInv : ∃ k, GateInv vs k)
    (hFits : AsyncFits vs a)
    (hStep : gateStep c vs a = some vs') :
    ∃ k, GateInv vs' k := by
  rcases hInv with ⟨k, h⟩
  unfold gateStep at hStep
  cases a with
  | receive t r =>
      dsimp only at hStep
      split at hStep
      · rename_i hPhase
        cases hStep
        exact ⟨k, h.receive hPhase r⟩
      · cases hStep
  | lock t =>
      dsimp only at hStep
      split at hStep
      · rename_i n r hPhase
        cases hStep
        exact h.lock c hThreads hPhase
      · cases hStep
  | relock t =>
      dsimp only at hStep
      split at hStep
      · rename_i n r hPhase
        cases hStep
        exact h.relock hThreads hPhase
      · cases hStep
  | wake t =>
      dsimp only at hStep
      split at hStep
      · rename_i n r rest hPhase
        cases hStep
        exact h.wait hThreads hPhase
      · cases hStep
  | write t size =>
      dsimp only at hStep
      split at hStep
      · rename_i n r hPhase
        split_ifs at hStep with hOk
        · cases hStep
          exact ⟨k, h.write hPhase hOk.1 hOk.2.1 hFits⟩
      · cases hStep
  | complete w =>
      dsimp only at hStep
      split_ifs at hStep with hw
      · cases hStep
        exact ⟨k, h.complete hw⟩
  | finish t =>
      dsimp only at hStep
      split at hStep
      · rename_i n r hPhase
        cases hStep
        exact ⟨k, h.finish hPhase⟩
      · cases hStep

omit [DecidableEq τ] in
theorem psVstructCreate_inv
    (controlRefs nameRefs : Nat) :
    GateInv (psVstructCreate τ controlRefs nameRefs) 0 := by
  have hNone : ∀ flag : ServerPhase → Bool,
      flag .idle = false → 0 = count flag
        (psVstructCreate τ controlRefs nameRefs).phase := by
    intro flag hFlag
    exact (count_eq_zero.mpr fun _ => hFlag).symm
  refine ⟨rfl, rfl, Nat.le_refl 0, Nat.zero_le 1,
    Nat.le_refl 0, ?_, ?_, ?_, Nat.zero_le _, hNone _ rfl,
    hNone _ rfl, rfl, Nat.two_pow_pos 31, ?_⟩
  · intro t n r st hPhase
    cases hPhase
  · intro t n r st hPhase
    cases hPhase
  · intro t u n hNumber
    cases hNumber
  · intro w hw
    cases hw

/-
  The order of the requests in every state of a run in which
  less than `2 ^ 31` bytes are being written: requests pass
  the gate one after the other, a request that reads has no
  write before it left, and one that terminates has no read
  or write before it left.
-/
theorem pager_ordering
    (c : GateConfig)
    (controlRefs nameRefs : Nat)
    {as : List (GateAction τ)}
    {vs : Vstruct τ}
    (hThreads : Fintype.card τ < 2 ^ 32)
    (hMeets :
      Runs.Meets (gateStep c) AsyncFits
        (psVstructCreate τ controlRefs nameRefs) as)
    (hExec :
      Runs.exec (gateStep c)
        (psVstructCreate τ controlRefs nameRefs) as =
        some vs) :
    vs.passed = List.range vs.passed.length ∧
    (∀ t n,
      vs.phase t = .serving n .dataRequest .running →
      ∀ m < n, ∀ r, vs.requests[m]? = some r →
        r.isWrite = true → Finished vs m) ∧
    (∀ t n,
      vs.phase t =
        .serving n .memoryObjectTerminate .running →
      ∀ m < n, ∀ r, vs.requests[m]? = some r →
        r.isWrite = true ∨ r = .dataRequest →
        Finished vs m) := by
  have hInv : ∃ k, GateInv vs k :=
    Runs.exec_invariant (P := fun vs => ∃ k, GateInv vs k)
      (gateStep_inv c hThreads)
      ⟨0, psVstructCreate_inv controlRefs nameRefs⟩
      hMeets hExec
  rcases hInv with ⟨k, h⟩
  refine ⟨h.passed, ?_, ?_⟩
  · intro t n hPhase m hm r hr hWrite
    exact (h.stage t n _ _ hPhase).2 m hm r hr hWrite
  · intro t n hPhase m hm r hr hKind
    apply (h.stage t n _ _ hPhase).2 m hm r hr
    rcases hKind with hWrite | rfl
    · exact (Bool.or_eq_true _ _).mpr (Or.inl hWrite)
    · rfl

/- Pages of `0x1000` bytes, and clusters of eight pages. -/
def eightPages : GateConfig :=
  { maxUrefs := 10000, clusterSize := 0x8000 }

/- A read waits for the write before it. -/
theorem pager_ordering_read :
    ∃ vs, Runs.exec (gateStep eightPages)
        (psVstructCreate Bool 1 1)
        [.receive false .dataReturn,
          .receive true .dataRequest, .lock true,
          .lock false, .write false 0x1000, .lock true,
          .finish false, .wake true,
          .complete { request := 0, size := 0x1000 },
          .wake true] = some vs ∧
      vs.passed = [0, 1] ∧
      vs.phase true = .serving 1 .dataRequest .running ∧
      Finished vs 0 := by
  have hMeets : Runs.Meets (gateStep eightPages) AsyncFits
      (psVstructCreate Bool 1 1)
      [.receive false .dataReturn,
        .receive true .dataRequest, .lock true,
        .lock false, .write false 0x1000, .lock true,
        .finish false, .wake true,
        .complete { request := 0, size := 0x1000 },
        .wake true] := by
    refine ⟨trivial, fun vs hvs => ?_⟩
    cases hvs
    refine ⟨trivial, fun vs hvs => ?_⟩
    cases hvs
    refine ⟨trivial, fun vs hvs => ?_⟩
    cases hvs
    refine ⟨trivial, fun vs hvs => ?_⟩
    cases hvs
    refine ⟨show 0 + 0x1000 < 2 ^ 31 by decide,
      fun vs hvs => ?_⟩
    cases hvs
    refine ⟨trivial, fun vs hvs => ?_⟩
    cases hvs
    refine ⟨trivial, fun vs hvs => ?_⟩
    cases hvs
    refine ⟨trivial, fun vs hvs => ?_⟩
    cases hvs
    refine ⟨trivial, fun vs hvs => ?_⟩
    cases hvs
    exact ⟨trivial, fun vs hvs => trivial⟩
  have hAll := pager_ordering eightPages 1 1 (by decide)
    hMeets rfl
  exact ⟨_, rfl, rfl, rfl,
    hAll.2.1 true 1 rfl 0 (by decide) .dataReturn rfl rfl⟩

omit [Fintype τ] in
/- A request that starts one write after the other. -/
theorem exec_writes
    {c : GateConfig}
    {t : τ}
    {n size : Nat}
    {r : Request}
    (hWrite : r.isWrite = true)
    (hPos : 0 < size)
    (hLe : size ≤ c.clusterSize)
    (j : Nat)
    (vs : Vstruct τ)
    (x : Int)
    (hPhase : vs.phase t = .serving n r .running)
    (hPending : vs.vsAsyncPending = x.bmod (2 ^ 32)) :
    Runs.exec (gateStep c) vs
      (List.replicate j (.write t size)) =
      some { vs with
        vsAsyncPending := (x + j * size).bmod (2 ^ 32)
        async := List.replicate j
          { request := n, size := size } ++ vs.async } := by
  induction j generalizing vs x with
  | zero =>
      have hSame : x + ((0 : Nat) : Int) * size = x := by
        simp
      rw [hSame, ← hPending]
      rfl
  | succ j ih =>
      rw [List.replicate_succ, Runs.exec_cons]
      refine ⟨vsStartAsync vs { request := n, size := size },
        ?_, ?_⟩
      · unfold gateStep
        dsimp only
        rw [hPhase]
        exact if_pos ⟨hWrite, hPos, hLe⟩
      · have hNext : (vsStartAsync vs
            { request := n, size := size }).vsAsyncPending =
            (x + size).bmod (2 ^ 32) := by
          show (vs.vsAsyncPending + size).bmod (2 ^ 32) = _
          rw [hPending, Int.bmod_add_bmod]
        rw [ih (vsStartAsync vs _) _ hPhase hNext]
        have hSum : x + size + j * size =
            x + ((j + 1 : Nat) : Int) * size := by
          push_cast
          ring
        have hList : List.replicate (j + 1)
              { request := n, size := size } ++ vs.async =
            List.replicate j { request := n, size := size } ++
              { request := n, size := size } :: vs.async := by
          rw [List.replicate_succ', List.append_assoc]
          rfl
        rw [hSum, hList]
        rfl

/-
  Half of an address space of writes makes the count of bytes
  negative, and a read starts while they all are in flight.
-/
theorem pager_stale_read :
    ∃ vs, Runs.exec (gateStep eightPages)
        (psVstructCreate Bool 1 1)
        ([.receive false .dataReturn, .lock false] ++
          (List.replicate 0x10000 (.write false 0x8000) ++
            [.finish false, .receive true .dataRequest,
              .lock true])) = some vs ∧
      vs.requests = [.dataReturn, .dataRequest] ∧
      vs.phase true = .serving 1 .dataRequest .running ∧
      ¬ Finished vs 0 := by
  have hFirst : ∃ vs, Runs.exec (gateStep eightPages)
      (psVstructCreate Bool 1 1)
      [.receive false .dataReturn, .lock false] = some vs ∧
      vs.phase false = .serving 0 .dataReturn .running ∧
      vs.phase true = .idle ∧ vs.vsSeqno = 1 ∧
      vs.vsControlRefs = 2 ∧ vs.vsWriters = 1 ∧
      vs.requests = [.dataReturn] ∧ vs.vsAsyncPending = 0 :=
    ⟨_, rfl, rfl, rfl, rfl, rfl, rfl, rfl, rfl⟩
  rcases hFirst with ⟨vs₁, hExec, hPhase, hIdle, hSeqno,
    hRefs, hWriters, hRequests, hPending⟩
  have hWrites := exec_writes (c := eightPages)
    (r := .dataReturn) rfl (show 0 < 0x8000 by decide)
    (Nat.le_refl _) 0x10000 vs₁ 0 hPhase hPending
  have hIn : ({ request := 0, size := 0x8000 } : AsyncWrite) ∈
      List.replicate 0x10000
        { request := 0, size := 0x8000 } ++ vs₁.async :=
    List.mem_append_left _
      (List.mem_replicate.mpr ⟨by decide, rfl⟩)
  generalize List.replicate 0x10000
    ({ request := 0, size := 0x8000 } : AsyncWrite) ++
      vs₁.async = l at *
  have hRest : ∃ vs, Runs.exec (gateStep eightPages)
      { vs₁ with vsAsyncPending := -2 ^ 31, async := l }
      [.finish false, .receive true .dataRequest,
        .lock true] = some vs ∧
      vs.requests = [.dataReturn, .dataRequest] ∧
      vs.phase true = .serving 1 .dataRequest .running ∧
      vs.async = l := by
    simp [Runs.exec, gateStep, vsFinish, vsFinishWrite, decr,
      Request.isWrite, vsLock, seqno, vsCheckRequest,
      Request.checks, eightPages, vsWait, Request.waits,
      Vstruct.blocked, vsServe, vsUnlock, vsStartRead,
      Vstruct.setPhase, hPhase, hIdle, hRequests, hSeqno,
      hRefs, hWriters]
  rcases hRest with ⟨vs, hEnd, hAll, hReads, hAsync⟩
  refine ⟨vs, ?_, hAll, hReads, ?_⟩
  · rw [Runs.exec_append]
    refine ⟨vs₁, hExec, ?_⟩
    rw [Runs.exec_append]
    exact ⟨_, hWrites, hEnd⟩
  · intro hFinished
    apply hFinished.writes { request := 0, size := 0x8000 }
    · rw [hAsync]
      exact hIn
    · rfl

end Runs

end Pager

end OsfMach
