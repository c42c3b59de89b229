import OsfMach.Device.NetFilter
import OsfMach.Lib.Checked

/-
  What the check of a filter says of its runs.

  The check counts one operand less for an operator that
  ends the run early than the run pops. The stack of a run
  is as deep as the check has it, less one cell for each of
  these operators that it went past.

  Main declarations:
    * `FilterSafe`, `WithinSlack`
    * `lockstep_after`
    * `filterSafe_iff`
-/

------
-- Instructions
------

namespace OsfMach

namespace Device

open Lib
open Lib.Checked

variable {filter : List FilterWord} {n : Nat}
variable {input : NetInput} {c : ParseState}
variable {s s' : FilterState} {b : Bool} {memory : Int → Cell}

/- Operators that pop an operand more than the check has. -/
def NetOp.shortCircuits (op : NetOp) : Bool :=
  op == .cor || op == .cand || op == .cnor || op == .cnand

namespace NetArg

/- How many words an instruction takes after its first. -/
def literals (arg : NetArg) : Nat :=
  if arg = .pushLit then 1 else 0

/- How many cells an argument pops. -/
def pops (arg : NetArg) : Nat :=
  match arg with
  | .noPush | .pushInd | .pushHdrInd => 1
  | _ => 0

end NetArg

/- How the pointer moves for an operator, in a run. -/
def NetOp.moves (op : NetOp) : Int :=
  if op = .nop then -1
  else if op.shortCircuits then 1
  else 0

/- How the counter moves for an operator, in the check. -/
def NetOp.counts (op : NetOp) : Int :=
  if op = .nop then 0 else 1

theorem NetOp.moves_eq
    (op : NetOp) :
    op.moves =
      op.counts - 1 +
        if op.shortCircuits = true then 1 else 0 := by
  cases op with
  | nop | eq | lt | le | gt | ge | and | or | xor | cor | cand
  | cnor | cnand | neq | lsh | rsh | add | sub => rfl

section Check

variable {filter : List FilterWord} {c c' : ParseState}
variable {arg : NetArg}

/- What the check asks of an argument. -/
structure ArgChecked
    (filter : List FilterWord)
    (c : ParseState)
    (arg : NetArg)
    (c' : ParseState) : Prop where
  pos : c'.pos = c.pos + arg.literals
  sp : c'.sp = c.sp + arg.pops - 1
  literal : arg = .pushLit → c.pos + 1 < filter.length
  index :
    arg = .pushInd ∨ arg = .pushHdrInd →
      c.sp < netFilterStackDepth
  slot :
    ∀ n, arg = .pushStk n → n + c.sp ≤ netFilterStackDepth
  header : ∀ n, arg = .pushHdr n → n < netHdwHdrMax / 2

theorem parseArg_spec
    (h : parseArg filter c arg = .ok c') :
    ArgChecked filter c arg c' := by
  unfold parseArg at h
  cases arg with
  | noPush | pushZero | pushWord w =>
      cases h
      exact ⟨rfl, by simp [NetArg.pops], by simp, by simp,
        by simp, by simp⟩
  | pushLit =>
      dsimp only at h
      split_ifs at h with hLast
      cases h
      exact ⟨rfl, by simp [NetArg.pops],
        fun _ => Nat.lt_of_not_le hLast, by simp, by simp,
        by simp⟩
  | pushInd | pushHdrInd =>
      dsimp only at h
      split_ifs at h with hEmpty
      cases h
      exact ⟨rfl, by simp [NetArg.pops], by simp,
        fun _ => Int.lt_of_not_ge hEmpty, by simp, by simp⟩
  | pushHdr n =>
      dsimp only at h
      split_ifs at h with hPast
      cases h
      refine ⟨rfl, by simp [NetArg.pops], by simp, by simp,
        by simp, ?_⟩
      intro k hk
      rw [← NetArg.pushHdr.inj hk]
      exact Nat.lt_of_not_le hPast
  | pushStk n =>
      dsimp only at h
      split_ifs at h with hPast
      cases h
      refine ⟨rfl, by simp [NetArg.pops], by simp, by simp,
        ?_, by simp⟩
      intro k hk
      rw [← NetArg.pushStk.inj hk]
      exact Int.not_lt.mp hPast

/- What the check asks before an operator. -/
theorem parseOp_spec
    {op : Option NetOp}
    (h : parseOp c op = .ok c') :
    ∃ o, op = some o ∧ 2 ≤ c.sp ∧ c'.pos = c.pos ∧
      c'.sp = c.sp + o.counts ∧
      (o ≠ .nop → c.sp ≤ netFilterStackDepth - 2) := by
  unfold parseOp at h
  by_cases hFull : c.sp < 2
  · rw [if_pos hFull] at h
    cases h
  rw [if_neg hFull] at h
  have hRoom : 2 ≤ c.sp := Int.not_lt.mp hFull
  cases op with
  | none => cases h
  | some o =>
      refine ⟨o, rfl, hRoom, ?_⟩
      by_cases hNop : o = .nop
      · subst hNop
        cases h
        exact ⟨rfl, by simp [NetOp.counts], by simp⟩
      · have hBinary :
            (if netFilterStackDepth - 2 < c.sp then
                .error false
              else .ok { c with sp := c.sp + 1 } :
                Except Bool ParseState) = .ok c' := by
          cases o with
          | nop => exact absurd rfl hNop
          | _ => exact h
        split_ifs at hBinary with hFew
        cases hBinary
        refine ⟨rfl, ?_, fun _ => Int.not_lt.mp hFew⟩
        unfold NetOp.counts
        rw [if_neg hNop]

end Check

section Run

variable {input : NetInput} {s s' : FilterState} {arg : NetArg}
variable {x : Cell}

theorem fetchArg_moves
    (h : fetchArg input s arg = .ok (x, s')) :
    s'.fp = s.fp + arg.literals ∧
      s'.sp = s.sp + arg.pops := by
  unfold fetchArg at h
  cases arg with
  | noPush =>
      rcases bind_ok h with ⟨y, _, hy⟩
      cases hy
      exact ⟨rfl, rfl⟩
  | pushLit =>
      cases hWord : input.filter[s.fp]? with
      | none =>
          rw [hWord] at h
          cases h
      | some w =>
          rw [hWord] at h
          cases h
          exact ⟨rfl, by simp [NetArg.pops]⟩
  | pushZero =>
      cases h
      exact ⟨rfl, by simp [NetArg.pops]⟩
  | pushInd | pushHdrInd =>
      rcases bind_ok h with ⟨i, _, hi⟩
      split_ifs at hi
      rcases bind_ok hi with ⟨y, _, hy⟩
      cases hy
      exact ⟨rfl, rfl⟩
  | pushWord w =>
      dsimp only at h
      split_ifs at h
      rcases bind_ok h with ⟨y, _, hy⟩
      cases hy
      exact ⟨rfl, by simp [NetArg.pops]⟩
  | pushHdr n | pushStk n =>
      rcases bind_ok h with ⟨y, _, hy⟩
      cases hy
      exact ⟨rfl, by simp [NetArg.pops]⟩

theorem write_moves
    {i : Int}
    (h : s.write i x = .ok s') :
    s'.fp = s.fp ∧ s'.sp = s.sp := by
  unfold FilterState.write at h
  split_ifs at h
  cases h
  exact ⟨rfl, rfl⟩

theorem binary_moves
    {f : Cell → Cell}
    (h : binary s f = .ok s') :
    s'.fp = s.fp ∧ s'.sp = s.sp := by
  rcases bind_ok h with ⟨y, _, hy⟩
  exact write_moves hy

theorem shortCircuit_moves
    {ends : Cell → Bool}
    {accepted : Bool}
    (h : shortCircuit s ends accepted = .ok s') :
    s'.fp = s.fp ∧ s'.sp = s.sp + 1 := by
  rcases bind_ok h with ⟨y, _, hy⟩
  split_ifs at hy
  cases hy
  exact ⟨rfl, rfl⟩

theorem applyOp_moves
    {op : NetOp}
    (h : applyOp s x (some op) = .ok s') :
    s'.fp = s.fp ∧ s'.sp = s.sp + op.moves := by
  have hBinary :
      ∀ f, op.moves = 0 → binary s f = .ok s' →
        s'.fp = s.fp ∧ s'.sp = s.sp + op.moves := by
    intro f hStays hf
    rw [hStays, Int.add_zero]
    exact binary_moves hf
  have hShort :
      ∀ ends accepted, op.moves = 1 →
        shortCircuit s ends accepted = .ok s' →
        s'.fp = s.fp ∧ s'.sp = s.sp + op.moves := by
    intro ends accepted hPops hf
    rw [hPops]
    exact shortCircuit_moves hf
  cases op with
  | nop =>
      rcases bind_ok h with ⟨t, ht, hEq⟩
      cases hEq
      rcases write_moves ht with ⟨hFp, hSp⟩
      refine ⟨hFp, ?_⟩
      change t.sp - 1 = s.sp + -1
      omega
  | cor | cand | cnor | cnand => exact hShort _ _ rfl h
  | _ => exact hBinary _ rfl h

end Run

------
-- Lockstep
------

/-
  The words of the first instructions, and the number of
  them that short circuit.
-/
def passed (filter : List FilterWord) : Nat → Nat × Nat
| 0 => (0, 0)
| n + 1 =>
    let p := passed filter n
    match filter[p.1]? with
    | none => p
    | some w =>
        (p.1 + 1 + (netfArg w).literals,
          p.2 + if (netfOp w).any NetOp.shortCircuits = true
            then 1 else 0)

def filterAfter
    (input : NetInput)
    (memory : Int → Cell)
    (n : Nat) : Except NetStop FilterState :=
  Loop.after (filterTurn input) (filterStart memory) n

def parseAfter
    (filter : List FilterWord)
    (n : Nat) : Except Bool ParseState :=
  Loop.after (parseTurn filter) parseStart n

/- A run and the check after as many instructions. -/
structure Lockstep
    (filter : List FilterWord)
    (n : Nat)
    (s : FilterState)
    (c : ParseState) : Prop where
  fp : s.fp = c.pos
  pos : c.pos = (passed filter n).1
  sp : s.sp = c.sp + (passed filter n).2
  low : 2 ≤ c.sp
  high : c.sp ≤ netFilterStackDepth
  drifted :
    (passed filter n).2 ≠ 0 → c.sp < netFilterStackDepth

theorem passed_succ
    {w : FilterWord}
    {o : NetOp}
    (hWord : filter[(passed filter n).1]? = some w)
    (ho : netfOp w = some o) :
    passed filter (n + 1) =
      ((passed filter n).1 + 1 + (netfArg w).literals,
        (passed filter n).2 +
          if o.shortCircuits = true then 1 else 0) := by
  rw [passed, hWord]
  dsimp only
  rw [ho]
  rfl

theorem NetArg.pops_le
    (arg : NetArg) :
    arg.pops ≤ 1 := by
  cases arg with
  | noPush | pushInd | pushHdrInd => exact Nat.le_refl _
  | _ => exact Nat.zero_le _

/- An instruction that both the check and a run go past. -/
theorem Lockstep.turn
    {c c' : ParseState}
    (h : Lockstep input.filter n s c)
    (hRun : filterTurn input s = .ok s')
    (hCheck : parseTurn input.filter c = .ok c') :
    Lockstep input.filter (n + 1) s' c' := by
  unfold filterTurn at hRun
  unfold parseTurn at hCheck
  rw [h.fp] at hRun
  cases hWord : input.filter[c.pos]? with
  | none =>
      rw [hWord] at hCheck
      cases hCheck
  | some w =>
      rw [hWord] at hRun hCheck
      rcases bind_ok hRun with ⟨⟨x, s₁⟩, hFetch, hApply⟩
      rcases bind_ok hCheck with ⟨c₁, hArg, hRest⟩
      rcases bind_ok hRest with ⟨c₂, hOp, hEq⟩
      cases hEq
      rcases parseOp_spec hOp with
        ⟨o, ho, hLow, hPos, hSp, hFew⟩
      rw [ho] at hApply
      rcases fetchArg_moves hFetch with ⟨hFp₁, hSp₁⟩
      rcases applyOp_moves hApply with ⟨hFp₂, hSp₂⟩
      have hChecked := parseArg_spec hArg
      have hPos₁ := hChecked.pos
      have hSpC₁ := hChecked.sp
      have hMoves := o.moves_eq
      have hNext := passed_succ (h.pos ▸ hWord) ho
      have hSpC := h.sp
      have hHigh := h.high
      have hPops : ((netfArg w).pops : Int) ≤ 1 := by
        exact_mod_cast (netfArg w).pops_le
      dsimp only at hFp₁ hSp₁ hFp₂ hSp₂
      have hAfter : 2 ≤ c₂.sp ∧
          (c₂.sp ≤ c.sp ∨ c₂.sp < netFilterStackDepth) ∧
          (o ≠ .nop → c₂.sp < netFilterStackDepth) := by
        unfold NetOp.counts at hSp
        split_ifs at hSp with hNop
        · exact ⟨by omega, Or.inl (by omega),
            fun hNot => absurd hNop hNot⟩
        · have hRoom := hFew hNop
          exact ⟨by omega, Or.inr (by omega),
            fun _ => by omega⟩
      rcases hAfter with ⟨hLow₂, hHigh₂, hNotNop⟩
      refine ⟨?_, ?_, ?_, hLow₂, ?_, ?_⟩
      · dsimp only
        omega
      · rw [hNext]
        dsimp only
        rw [← h.pos]
        omega
      · rw [hNext]
        split_ifs at hMoves ⊢
        · push_cast
          omega
        · push_cast
          omega
      · dsimp only
        omega
      · intro hDrift
        by_cases hNop : o = .nop
        · subst hNop
          have hOld : (passed input.filter n).2 ≠ 0 := by
            rw [hNext] at hDrift
            exact hDrift
          have hDrifted := h.drifted hOld
          dsimp only
          omega
        · exact hNotNop hNop

theorem lockstep_start
    (filter : List FilterWord)
    (memory : Int → Cell) :
    Lockstep filter 0 (filterStart memory) parseStart := by
  refine ⟨rfl, rfl, rfl, ?_, ?_, ?_⟩
  · decide
  · exact Int.le_refl _
  · intro h
    exact absurd rfl h

/- The check does not refuse on the way to accepting. -/
theorem parseTurn_accepts
    (hAccepted : parseNetFilter filter = true)
    (h : parseAfter filter n = .ok c) :
    parseTurn filter c ≠ .error false := by
  intro hRefused
  have hRun := eq_of_beq hAccepted
  have hSame := Loop.run_eq_of_turn hRun h hRefused
  cases hSame

theorem parseArg_error
    {arg : NetArg}
    (h : parseArg filter c arg = .error b) :
    b = false := by
  unfold parseArg at h
  split at h
  · cases h
  · cases h
  · split_ifs at h
    cases h
    rfl
  · split_ifs at h
    cases h
    rfl
  · split_ifs at h
    cases h
    rfl
  · split_ifs at h
    cases h
    rfl
  · split_ifs at h
    cases h
    rfl
  · cases h

theorem parseOp_error
    {op : Option NetOp}
    (h : parseOp c op = .error b) :
    b = false := by
  unfold parseOp at h
  split at h
  · cases h
    rfl
  · split at h
    · cases h
    · split_ifs at h
      cases h
      rfl
    · cases h
      rfl

/- Only the end of a filter is accepted. -/
theorem parseTurn_true
    (h : parseTurn filter c = .error true) :
    filter[c.pos]? = none := by
  unfold parseTurn at h
  cases hWord : filter[c.pos]? with
  | none => rfl
  | some w =>
      rw [hWord] at h
      dsimp only at h
      cases hArg : parseArg filter c (netfArg w) with
      | error b =>
          rw [hArg] at h
          cases h
          cases parseArg_error hArg
      | ok c₁ =>
          rw [hArg] at h
          cases hOp : parseOp c₁ (netfOp w) with
          | error b =>
              change (parseOp c₁ (netfOp w) >>= _) = _ at h
              rw [hOp] at h
              cases h
              cases parseOp_error hOp
          | ok c₂ =>
              change (parseOp c₁ (netfOp w) >>= _) = _ at h
              rw [hOp] at h
              cases h

/- The check is in step with a run as long as it goes on. -/
theorem lockstep_after
    (hAccepted : parseNetFilter input.filter = true)
    (h : filterAfter input memory n = .ok s) :
    ∃ c, parseAfter input.filter n = .ok c ∧
      Lockstep input.filter n s c := by
  induction n generalizing s with
  | zero =>
      cases h
      exact ⟨parseStart, rfl, lockstep_start _ memory⟩
  | succ n ih =>
      rcases Loop.after_succ.mp h with ⟨t, ht, hTurn⟩
      rcases ih ht with ⟨c, hc, hStep⟩
      have hAccepts := parseTurn_accepts hAccepted hc
      cases hCheck : parseTurn input.filter c with
      | ok c' =>
          exact ⟨c', Loop.after_succ.mpr ⟨c, hc, hCheck⟩,
            hStep.turn hTurn hCheck⟩
      | error b =>
          cases b with
          | false => exact absurd hCheck hAccepts
          | true =>
              -- the run ends where the filter does
              have hEnd := parseTurn_true hCheck
              rw [← hStep.fp] at hEnd
              unfold filterTurn at hTurn
              rw [hEnd] at hTurn
              rcases bind_ok hTurn with ⟨y, _, hy⟩
              cases hy

------
-- Faults
------

section Faults

variable {input : NetInput} {s : FilterState} {x : Cell}
variable {i : Int}

/- A part of a run that makes no access out of range. -/
def NoFault {α : Type} (e : Except NetStop α) : Prop :=
  ∀ array, e ≠ .error (.fault array)

theorem noFault_ok
    {α : Type}
    (a : α) :
    NoFault (.ok a) := by
  intro array h
  cases h

theorem noFault_returned
    {α : Type}
    (accepted : Bool) :
    NoFault (.error (.returned accepted) :
      Except NetStop α) := by
  intro array h
  cases h

theorem NoFault.bind
    {α β : Type}
    {e : Except NetStop α}
    {f : α → Except NetStop β}
    (h : NoFault e)
    (hf : ∀ a, e = .ok a → NoFault (f a)) :
    NoFault (e >>= f) := by
  cases e with
  | error r =>
      intro array hr
      cases hr
      exact h array rfl
  | ok a => exact hf a rfl

/- An index into the stack. -/
def InStack (i : Int) : Prop :=
  0 ≤ i ∧ i ≤ netFilterStackDepth

theorem read_noFault
    (h : InStack i) :
    NoFault (s.read i) := by
  unfold InStack at h
  unfold FilterState.read
  rw [if_pos h]
  exact noFault_ok _

theorem write_noFault
    (h : InStack i) :
    NoFault (s.write i x) := by
  unfold InStack at h
  unfold FilterState.write
  rw [if_pos h]
  exact noFault_ok _

theorem readWord_noFault
    {bytes : List Byte}
    {array : NetArray}
    {i : Nat}
    (h : i < bytes.length / 2) :
    NoFault (readWord bytes array i) := by
  have hLo : 2 * i < bytes.length := by omega
  have hHi : 2 * i + 1 < bytes.length := by omega
  unfold readWord
  rw [List.getElem?_eq_getElem hLo,
    List.getElem?_eq_getElem hHi]
  exact noFault_ok _

theorem fetchArg_noFault
    {arg : NetArg}
    (hHeader : input.header.length = netHdwHdrMax)
    (hPops : arg.pops = 1 → InStack s.sp)
    (hLiteral : arg = .pushLit → s.fp < input.filter.length)
    (hSlot : ∀ n, arg = .pushStk n → InStack (s.sp + n))
    (hHdr : ∀ n, arg = .pushHdr n → n < netHdwHdrMax / 2) :
    NoFault (fetchArg input s arg) := by
  unfold fetchArg
  cases arg with
  | noPush =>
      apply (read_noFault (hPops rfl)).bind
      intro y _
      exact noFault_ok _
  | pushLit =>
      rw [List.getElem?_eq_getElem (hLiteral rfl)]
      exact noFault_ok _
  | pushZero =>
      exact noFault_ok _
  | pushInd =>
      apply (read_noFault (hPops rfl)).bind
      intro i _
      split_ifs with hPast
      · exact noFault_returned _
      · apply (readWord_noFault (Nat.lt_of_not_le hPast)).bind
        intro y _
        exact noFault_ok _
  | pushHdrInd =>
      apply (read_noFault (hPops rfl)).bind
      intro i _
      split_ifs with hPast
      · exact noFault_returned _
      · rw [← hHeader] at hPast
        apply (readWord_noFault (Nat.lt_of_not_le hPast)).bind
        intro y _
        exact noFault_ok _
  | pushWord w =>
      dsimp only
      split_ifs with hPast
      · exact noFault_returned _
      · apply (readWord_noFault (Nat.lt_of_not_le hPast)).bind
        intro y _
        exact noFault_ok _
  | pushHdr n =>
      have hIn := hHdr n rfl
      rw [← hHeader] at hIn
      apply (readWord_noFault hIn).bind
      intro y _
      exact noFault_ok _
  | pushStk n =>
      apply (read_noFault (hSlot n rfl)).bind
      intro y _
      exact noFault_ok _

theorem binary_noFault
    (h : InStack s.sp)
    (f : Cell → Cell) :
    NoFault (binary s f) := by
  apply (read_noFault h).bind
  intro y _
  exact write_noFault h

theorem shortCircuit_noFault
    (h : InStack s.sp)
    (ends : Cell → Bool)
    (accepted : Bool) :
    NoFault (shortCircuit s ends accepted) := by
  apply (read_noFault h).bind
  intro y _
  split_ifs
  · exact noFault_returned _
  · exact noFault_ok _

theorem applyOp_noFault
    {op : NetOp}
    (hPush : op = .nop → InStack (s.sp - 1))
    (hTop : op ≠ .nop → InStack s.sp) :
    NoFault (applyOp s x (some op)) := by
  cases op with
  | nop =>
      apply (write_noFault (hPush rfl)).bind
      intro t _
      exact noFault_ok _
  | cor | cand | cnor => exact shortCircuit_noFault (hTop (by decide)) _ _
  | cnand =>
      exact shortCircuit_noFault (hTop (by decide)) _ _
  | _ => exact binary_noFault (hTop (by decide)) _

/-
  An instruction that the check goes past, as long as no
  more than one cell is missing and no slot is read there.
-/
theorem Lockstep.noFault
    (h : Lockstep input.filter n s c)
    (hHeader : input.header.length = netHdwHdrMax)
    (hCheck : parseTurn input.filter c ≠ .error false)
    (hOne : (passed input.filter n).2 ≤ 1)
    (hSlot :
      (passed input.filter n).2 = 1 →
        ∀ w k, input.filter[c.pos]? = some w →
          netfArg w = .pushStk k →
          k + c.sp ≠ netFilterStackDepth) :
    NoFault (filterTurn input s) := by
  have hLow := h.low
  have hHigh := h.high
  have hSp := h.sp
  have hTop : s.sp ≤ netFilterStackDepth := by
    by_cases hNone : (passed input.filter n).2 = 0
    · omega
    · have hDrifted := h.drifted hNone
      omega
  unfold filterTurn
  cases hWord : input.filter[s.fp]? with
  | none =>
      apply (read_noFault ⟨by omega, hTop⟩).bind
      intro y _
      exact noFault_returned _
  | some w =>
      rw [h.fp] at hWord
      cases hTurn : parseTurn input.filter c with
      | error b =>
          cases b with
          | false => exact absurd hTurn hCheck
          | true =>
              rw [parseTurn_true hTurn] at hWord
              cases hWord
      | ok c' =>
          unfold parseTurn at hTurn
          rw [hWord] at hTurn
          rcases bind_ok hTurn with ⟨c₁, hArg, hRest⟩
          rcases bind_ok hRest with ⟨c₂, hOp, _⟩
          rcases parseOp_spec hOp with
            ⟨o, ho, hRoom, _, _, hFew⟩
          have hChecked := parseArg_spec hArg
          have hSpC := hChecked.sp
          apply NoFault.bind
          · apply fetchArg_noFault hHeader
            · intro _
              exact ⟨by dsimp only; omega, hTop⟩
            · intro hLit
              have hIn := hChecked.literal hLit
              rw [h.fp]
              exact hIn
            · intro k hk
              have hIn := hChecked.slot k hk
              dsimp only
              refine ⟨by omega, ?_⟩
              by_cases hNone : (passed input.filter n).2 = 1
              · have hNot := hSlot hNone w k hWord hk
                omega
              · omega
            · exact hChecked.header
          · intro r hr
            rcases r with ⟨y, t⟩
            rcases fetchArg_moves hr with ⟨_, hMoved⟩
            dsimp only at hMoved ⊢
            have hPops := (netfArg w).pops_le
            rw [ho]
            apply applyOp_noFault
            · intro _
              exact ⟨by omega, by omega⟩
            · intro hNop
              have hTwo := hFew hNop
              exact ⟨by omega, by omega⟩

end Faults

------
-- Safety
------

/- The cells of the stack in use, with the first one. -/
def FilterState.depth (s : FilterState) : Int :=
  netFilterStackDepth + 1 - s.sp

/- The cells that the check takes to be in use. -/
def ParseState.depth (c : ParseState) : Int :=
  netFilterStackDepth - c.sp

/-
  No access of a run is out of range, and its stack is at
  each instruction as deep as the check has it, or deeper by
  the cell that is there at first.
-/
structure FilterSafe
    (input : NetInput)
    (memory : Int → Cell) : Prop where
  noFault :
    ∀ n s, filterAfter input memory n = .ok s →
      NoFault (filterTurn input s)
  depth :
    ∀ n s, filterAfter input memory n = .ok s →
      ∃ c, parseAfter input.filter n = .ok c ∧
        (s.depth = c.depth ∨ s.depth = c.depth + 1)

/-
  A run goes past no more than one operator that short
  circuits, and reads no slot after it that is the last one
  in use by the count of the check.
-/
def WithinSlack
    (input : NetInput)
    (memory : Int → Cell) : Prop :=
  ∀ n s, filterAfter input memory n = .ok s →
    (passed input.filter n).2 ≤ 1 ∧
      ((passed input.filter n).2 = 1 →
        ∀ c w k, parseAfter input.filter n = .ok c →
          input.filter[c.pos]? = some w →
          netfArg w = .pushStk k →
          k + c.sp ≠ netFilterStackDepth)

section Safety

variable {input : NetInput} {memory : Int → Cell}

theorem FilterSafe.withinSlack
    (hSafe : FilterSafe input memory)
    (hAccepted : parseNetFilter input.filter = true) :
    WithinSlack input memory := by
  intro n s hs
  rcases lockstep_after hAccepted hs with ⟨c, hc, hStep⟩
  rcases hSafe.depth n s hs with ⟨c', hc', hDepth⟩
  have hSame : c' = c := by
    rw [hc] at hc'
    exact (Except.ok.inj hc').symm
  subst hSame
  have hSp := hStep.sp
  unfold FilterState.depth ParseState.depth at hDepth
  refine ⟨by omega, ?_⟩
  intro hOne c₁ w k hc₁ hWord hk hLast
  rw [hc] at hc₁
  cases hc₁
  -- the slot is one past the end of the stack
  have hRead : s.read (s.sp + k) =
      .error (.fault .stack) := by
    unfold FilterState.read
    rw [if_neg (by omega)]
  have hFault : filterTurn input s =
      .error (.fault .stack) := by
    unfold filterTurn
    rw [hStep.fp, hWord]
    dsimp only
    rw [hk]
    change (s.read (s.sp + k) >>= _) >>= _ = _
    rw [hRead]
    rfl
  exact hSafe.noFault n s hs .stack hFault

theorem WithinSlack.filterSafe
    (hSlack : WithinSlack input memory)
    (hHeader : input.header.length = netHdwHdrMax)
    (hAccepted : parseNetFilter input.filter = true) :
    FilterSafe input memory := by
  refine ⟨?_, ?_⟩
  · intro n s hs
    rcases lockstep_after hAccepted hs with ⟨c, hc, hStep⟩
    rcases hSlack n s hs with ⟨hOne, hSlot⟩
    apply hStep.noFault hHeader
      (parseTurn_accepts hAccepted hc) hOne
    intro hIs w k hWord hk
    exact hSlot hIs c w k hc hWord hk
  · intro n s hs
    rcases lockstep_after hAccepted hs with ⟨c, hc, hStep⟩
    rcases hSlack n s hs with ⟨hOne, _⟩
    have hSp := hStep.sp
    refine ⟨c, hc, ?_⟩
    unfold FilterState.depth ParseState.depth
    omega

end Safety

/- Each turn goes on to a later word. -/
theorem filterTurn_fp
    (h : filterTurn input s = .ok s') :
    s.fp < input.filter.length ∧ s.fp < s'.fp := by
  unfold filterTurn at h
  cases hWord : input.filter[s.fp]? with
  | none =>
      rw [hWord] at h
      rcases bind_ok h with ⟨y, _, hy⟩
      cases hy
  | some w =>
      rw [hWord] at h
      rcases bind_ok h with ⟨⟨x, t⟩, hFetch, hApply⟩
      rcases fetchArg_moves hFetch with ⟨hFp, _⟩
      have hSame : s'.fp = t.fp := by
        cases hOp : netfOp w with
        | none =>
            rw [hOp] at hApply
            cases hApply
            rfl
        | some o =>
            rw [hOp] at hApply
            exact (applyOp_moves hApply).1
      refine ⟨?_, ?_⟩
      · exact (List.getElem?_eq_some_iff.mp hWord).1
      · dsimp only at hFp
        omega

/- A filter within the slack gives an answer. -/
theorem netDoFilter_returns
    (hHeader : input.header.length = netHdwHdrMax)
    (hAccepted : parseNetFilter input.filter = true)
    (hSlack : WithinSlack input memory) :
    ∃ accepted,
      netDoFilter input memory = some (.returned accepted) := by
  have hSafe := hSlack.filterSafe hHeader hAccepted
  have hSome : (netDoFilter input memory).isSome = true := by
    apply Loop.run_isSome (s := filterStart memory)
      (f := fun s => input.filter.length - s.fp)
    · intro u t hTurn
      have hFp := filterTurn_fp hTurn
      omega
    · exact Nat.lt_succ_of_le (Nat.sub_le _ _)
  rcases Option.isSome_iff_exists.mp hSome with ⟨r, hr⟩
  rcases Loop.turn_of_run hr with ⟨n, s, hs, hTurn⟩
  cases r with
  | returned accepted => exact ⟨accepted, hr⟩
  | fault array =>
      exact absurd hTurn (hSafe.noFault n s hs array)

/- A filter that pushes zero, on a packet of one word. -/
def pushZero : NetInput := ⟨[2], [1, 0], List.replicate 64 0⟩

theorem pushZero_withinSlack :
    WithinSlack pushZero (fun _ => 0) := by
  have hPassed : ∀ n, (passed [2] n).2 = 0 := by
    intro n
    induction n with
    | zero => rfl
    | succ n ih =>
        unfold passed
        dsimp only
        split
        · exact ih
        · rename_i w hWord
          rw [List.mem_singleton.mp
            (List.mem_of_getElem? hWord), ih]
          rfl
  intro n s _
  unfold pushZero
  dsimp only
  rw [hPassed n]
  exact ⟨Nat.zero_le 1, fun hOne => absurd hOne (by decide)⟩

theorem netDoFilter_returns_pushZero :
    ∃ accepted,
      netDoFilter pushZero (fun _ => 0) =
        some (.returned accepted) :=
  netDoFilter_returns (by decide) (by decide)
    pushZero_withinSlack

theorem filterSafe_iff
    (input : NetInput)
    (memory : Int → Cell)
    (hHeader : input.header.length = netHdwHdrMax)
    (hAccepted : parseNetFilter input.filter = true) :
    FilterSafe input memory ↔ WithinSlack input memory :=
  ⟨fun hSafe => hSafe.withinSlack hAccepted,
    fun hSlack => hSlack.filterSafe hHeader hAccepted⟩

theorem filterSafe_iff_pushZero :
    parseNetFilter pushZero.filter = true ∧
      FilterSafe pushZero (fun _ => 0) :=
  ⟨by decide, (filterSafe_iff _ _ (by decide) (by decide)).mpr
    pushZero_withinSlack⟩

/-
  A filter that tests for one twice, with an operator that
  pops both operands, and then returns what is past the end
  of the stack.
-/
theorem filter_cand_twice :
    parseNetFilter [1, 1, 10241, 1, 10241, 1] = true ∧
      ¬ FilterSafe
        ⟨[1, 1, 10241, 1, 10241, 1], [],
          List.replicate 64 0⟩ (fun _ => 0) := by
  refine ⟨by decide, ?_⟩
  intro h
  have hFault : ∃ s,
      filterAfter ⟨[1, 1, 10241, 1, 10241, 1], [],
          List.replicate 64 0⟩ (fun _ => 0) 3 = .ok s ∧
        filterTurn ⟨[1, 1, 10241, 1, 10241, 1], [],
          List.replicate 64 0⟩ s = .error (.fault .stack) :=
    ⟨_, rfl, rfl⟩
  rcases hFault with ⟨s, hs, hTurn⟩
  exact h.noFault 3 s hs .stack hTurn

end Device

end OsfMach
