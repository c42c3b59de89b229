import Mathlib.Algebra.Group.Nat.Defs
import Mathlib.Data.List.Basic
import OsfMach.Lib.Loop

/-
  Packet filters, from `device/net_io.c`: the check of a
  filter, and its evaluation on a packet.

  The evaluation stack is an array that grows down. An
  access outside of an array ends a run with a fault.

  Key definitions include:
    * `NetArg`, `NetOp`
    * `parseNetFilter`
    * `netDoFilter`
-/

------
-- Filter Words
------

namespace OsfMach

namespace Device

open Lib

def netFilterStackDepth : Int := 32
def netHdwHdrMax : Nat := 64
def netfPushword : Nat := 16
def netfPushhdr : Nat := 960
def netfPushstk : Nat := 992

/- `filter_t`, and the cells of the stack. -/
abbrev FilterWord := BitVec 16
abbrev Cell := BitVec 32
abbrev Byte := BitVec 8

/- Where the argument of an instruction comes from. -/
inductive NetArg where
| noPush
| pushLit
| pushZero
| pushInd
| pushHdrInd
| pushWord (arg : Nat)
| pushHdr (n : Nat)
| pushStk (n : Nat)
deriving DecidableEq, Repr

/- `NETF_ARG`, with the cases of the switch. -/
def netfArg (w : FilterWord) : NetArg :=
  let arg := w.toNat % 1024
  if arg = 0 then .noPush
  else if arg = 1 then .pushLit
  else if arg = 2 then .pushZero
  else if arg = 14 then .pushInd
  else if arg = 15 then .pushHdrInd
  else if netfPushstk ≤ arg then .pushStk (arg - netfPushstk)
  else if netfPushhdr ≤ arg then .pushHdr (arg - netfPushhdr)
  else .pushWord arg

inductive NetOp where
| nop
| eq
| lt
| le
| gt
| ge
| and
| or
| xor
| cor
| cand
| cnor
| cnand
| neq
| lsh
| rsh
| add
| sub
deriving DecidableEq, Repr

/- `NETF_OP`, for the operators that there are. -/
def netfOp (w : FilterWord) : Option NetOp :=
  match w.toNat / 1024 with
  | 0 => some .nop
  | 1 => some .eq
  | 2 => some .lt
  | 3 => some .le
  | 4 => some .gt
  | 5 => some .ge
  | 6 => some .and
  | 7 => some .or
  | 8 => some .xor
  | 9 => some .cor
  | 10 => some .cand
  | 11 => some .cnor
  | 12 => some .cnand
  | 13 => some .neq
  | 14 => some .lsh
  | 15 => some .rsh
  | 16 => some .add
  | 17 => some .sub
  | _ => none

------
-- The Check of a Filter
------

/- The variables of `parse_net_filter`. -/
structure ParseState where
  pos : Nat
  sp : Int
deriving DecidableEq, Repr

/- The first switch: the argument of an instruction. -/
def parseArg
    (filter : List FilterWord)
    (s : ParseState)
    (arg : NetArg) : Except Bool ParseState :=
  match arg with
  | .noPush => .ok s
  | .pushZero => .ok { s with sp := s.sp - 1 }
  | .pushLit =>
      if filter.length ≤ s.pos + 1 then .error false
      else .ok { pos := s.pos + 1, sp := s.sp - 1 }
  | .pushInd | .pushHdrInd =>
      if netFilterStackDepth ≤ s.sp then .error false
      else .ok s
  | .pushStk n =>
      if netFilterStackDepth < n + s.sp then .error false
      else .ok { s with sp := s.sp - 1 }
  | .pushHdr n =>
      if netHdwHdrMax / 2 ≤ n then .error false
      else .ok { s with sp := s.sp - 1 }
  | .pushWord _ => .ok { s with sp := s.sp - 1 }

/- The second half: all operators but one are binary. -/
def parseOp
    (s : ParseState)
    (op : Option NetOp) : Except Bool ParseState :=
  if s.sp < 2 then .error false
  else
    match op with
    | some .nop => .ok s
    | some _ =>
        if netFilterStackDepth - 2 < s.sp then .error false
        else .ok { s with sp := s.sp + 1 }
    | none => .error false

/- A turn of the loop, which ends with the answer. -/
def parseTurn
    (filter : List FilterWord)
    (s : ParseState) : Except Bool ParseState :=
  match filter[s.pos]? with
  | none => .error true
  | some w => do
      let s ← parseArg filter s (netfArg w)
      let s ← parseOp s (netfOp w)
      .ok { s with pos := s.pos + 1 }

def parseStart : ParseState :=
  { pos := 0, sp := netFilterStackDepth }

/- No turn goes back, so there are no more than words. -/
def parseNetFilter (filter : List FilterWord) : Bool :=
  (Loop.run (parseTurn filter) (filter.length + 1)
    parseStart) == some true

------
-- The Evaluation of a Filter
------

/- The arrays that a run reads. -/
structure NetInput where
  filter : List FilterWord
  data : List Byte
  header : List Byte
deriving DecidableEq, Repr

inductive NetArray where
| stack
| filter
| data
| header
deriving DecidableEq, Repr

/- How a run of a filter ends. -/
inductive NetStop where
| returned (accepted : Bool)
| fault (array : NetArray)
deriving DecidableEq, Repr

/- The variables of `net_do_filter`. -/
structure FilterState where
  fp : Nat
  sp : Int
  stack : Int → Cell

namespace FilterState

def read (s : FilterState) (i : Int) : Except NetStop Cell :=
  if 0 ≤ i ∧ i ≤ netFilterStackDepth then .ok (s.stack i)
  else .error (.fault .stack)

def write
    (s : FilterState)
    (i : Int)
    (x : Cell) : Except NetStop FilterState :=
  if 0 ≤ i ∧ i ≤ netFilterStackDepth then
    .ok { s with stack := Function.update s.stack i x }
  else .error (.fault .stack)

end FilterState

/- A word of an array of bytes, the low byte first. -/
def readWord
    (bytes : List Byte)
    (array : NetArray)
    (i : Nat) : Except NetStop Cell :=
  match bytes[2 * i]?, bytes[2 * i + 1]? with
  | some lo, some hi =>
      .ok (BitVec.ofNat 32 (lo.toNat + 256 * hi.toNat))
  | _, _ => .error (.fault array)

/- The first switch: the argument, which a pop may give. -/
def fetchArg
    (input : NetInput)
    (s : FilterState)
    (arg : NetArg) : Except NetStop (Cell × FilterState) :=
  let dataCount := input.data.length / 2
  match arg with
  | .noPush => do
      let x ← s.read s.sp
      .ok (x, { s with sp := s.sp + 1 })
  | .pushZero => .ok (0, s)
  | .pushLit =>
      match input.filter[s.fp]? with
      | some w => .ok (w.setWidth 32, { s with fp := s.fp + 1 })
      | none => .error (.fault .filter)
  | .pushInd => do
      let i ← s.read s.sp
      if dataCount ≤ i.toNat then .error (.returned false)
      else do
        let x ← readWord input.data .data i.toNat
        .ok (x, { s with sp := s.sp + 1 })
  | .pushHdrInd => do
      let i ← s.read s.sp
      if netHdwHdrMax / 2 ≤ i.toNat then
        .error (.returned false)
      else do
        let x ← readWord input.header .header i.toNat
        .ok (x, { s with sp := s.sp + 1 })
  | .pushStk n => do
      let x ← s.read (s.sp + n)
      .ok (x, s)
  | .pushHdr n => do
      let x ← readWord input.header .header n
      .ok (x, s)
  | .pushWord arg =>
      -- the difference is unsigned
      let i := (arg + 2 ^ 32 - netfPushword) % 2 ^ 32
      if dataCount ≤ i then .error (.returned false)
      else do
        let x ← readWord input.data .data i
        .ok (x, s)

/- An operator whose result takes the place of the top. -/
def binary
    (s : FilterState)
    (f : Cell → Cell) : Except NetStop FilterState := do
  let x ← s.read s.sp
  s.write s.sp (f x)

/- An operator that pops, and may end the run. -/
def shortCircuit
    (s : FilterState)
    (ends : Cell → Bool)
    (accepted : Bool) : Except NetStop FilterState := do
  let x ← s.read s.sp
  if ends x then .error (.returned accepted)
  else .ok { s with sp := s.sp + 1 }

def ofBool (b : Bool) : Cell := if b then 1 else 0

/-
  The second switch. A comparison with the unsigned argument
  is unsigned. A shift takes its count as the processor does,
  which C does not say for 32 or more.
-/
def applyOp
    (s : FilterState)
    (arg : Cell)
    (op : Option NetOp) : Except NetStop FilterState :=
  match op with
  | some .nop => do
      let s ← s.write (s.sp - 1) arg
      .ok { s with sp := s.sp - 1 }
  | some .and => binary s fun x => x &&& arg
  | some .or => binary s fun x => x ||| arg
  | some .xor => binary s fun x => x ^^^ arg
  | some .eq => binary s fun x => ofBool (x == arg)
  | some .neq => binary s fun x => ofBool (x != arg)
  | some .lt => binary s fun x => ofBool (x.ult arg)
  | some .le => binary s fun x => ofBool (x.ule arg)
  | some .gt => binary s fun x => ofBool (arg.ult x)
  | some .ge => binary s fun x => ofBool (arg.ule x)
  | some .cor => shortCircuit s (fun x => x == arg) true
  | some .cand => shortCircuit s (fun x => x != arg) false
  | some .cnor => shortCircuit s (fun x => x == arg) false
  | some .cnand => shortCircuit s (fun x => x != arg) true
  | some .lsh =>
      binary s fun x => (x <<< (arg.toNat % 32)) &&& 0xFFFF
  | some .rsh =>
      binary s fun x => x.sshiftRight (arg.toNat % 32)
  | some .add => binary s fun x => (x + arg) &&& 0xFFFF
  | some .sub => binary s fun x => (x - arg) &&& 0xFFFF
  | none => .ok s

/- A turn of the loop, or the return after it. -/
def filterTurn
    (input : NetInput)
    (s : FilterState) : Except NetStop FilterState :=
  match input.filter[s.fp]? with
  | none => do
      let x ← s.read s.sp
      .error (.returned (x != 0))
  | some w => do
      let r ← fetchArg input { s with fp := s.fp + 1 }
        (netfArg w)
      applyOp r.2 r.1 (netfOp w)

/- The cells below the first are what was in memory. -/
def filterStart (memory : Int → Cell) : FilterState :=
  { fp := 0
    sp := netFilterStackDepth
    stack := Function.update memory netFilterStackDepth 1 }

def netDoFilter
    (input : NetInput)
    (memory : Int → Cell) : Option NetStop :=
  Loop.run (filterTurn input) (input.filter.length + 1)
    (filterStart memory)

end Device

end OsfMach
