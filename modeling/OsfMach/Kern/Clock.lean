import OsfMach.Lib.Cells
import OsfMach.Lib.Runs
import Mathlib.Algebra.Group.Nat.Defs

/-
  Alarms of the clocks, from `kern/clock.c`.

  Each section under the lock of the clocks is a step. The
  device layer of a clock passes the time to its interrupts
  and is told when to deliver the next one.

  Key definitions include:
    * `Tvalspec`, `checkTime`
    * `Alarm`, `Clocks`
    * `postAlarm`, `takeFirst`, `flushAlarms`,
      `clockAlarmIntr`
    * `clockSleepReturn`, `alarmThread`
    * `clockStep`
-/

------
-- Times
------

namespace OsfMach

namespace Kern

open Function
open Lib.Cells

structure Tvalspec where
  tvSec : Nat
  tvNsec : Int
deriving DecidableEq, Repr

def nsecPerSec : Int := 1000000000

/- `BAD_TVALSPEC`. -/
def badTvalspec (t : Tvalspec) : Bool :=
  t.tvNsec < 0 || nsecPerSec ≤ t.tvNsec

/- `CMP_TVALSPEC`. -/
def cmpTvalspec (t t' : Tvalspec) : Int :=
  if t'.tvSec < t.tvSec then 1
  else if t.tvSec < t'.tvSec then -1
  else t.tvNsec - t'.tvNsec

/- `ADD_TVALSPEC`; the seconds are an `unsigned int`. -/
def addTvalspec (t t' : Tvalspec) : Tvalspec :=
  if nsecPerSec ≤ t.tvNsec + t'.tvNsec then
    ⟨(t.tvSec + 1 + t'.tvSec) % 2 ^ 32,
      t.tvNsec + t'.tvNsec - nsecPerSec⟩
  else
    ⟨(t.tvSec + t'.tvSec) % 2 ^ 32, t.tvNsec + t'.tvNsec⟩

/- `BAD_ALRMTYPE`. -/
def badAlrmtype (alarmType : BitVec 32) : Bool :=
  alarmType &&& 0xfe#32 ≠ 0#32

/- `CheckTime`; also returns the time it may have added. -/
def checkTime
    (alarmType : BitVec 32)
    (alarmTime clockTime : Tvalspec) : Int × Tvalspec :=
  if badAlrmtype alarmType then (-1, alarmTime)
  else if badTvalspec alarmTime then (-1, alarmTime)
  else
    let time :=
      if alarmType &&& 0xff#32 = 1#32 then
        addTvalspec alarmTime clockTime
      else alarmTime
    (cmpTvalspec time clockTime, time)

------
-- Alarms
------

inductive AlarmStatus where
| free
| sleep
| clock
| done
deriving DecidableEq, Repr

/- The heads that the alarms of a list point back to. -/
inductive AlarmHead where
| clAlarm (clock : Nat)
| alrmdone
deriving DecidableEq, Repr

/-
  `struct alarm` without its links. Every `clock_alarm` that
  succeeds is given a number, to tell the requests apart.
-/
structure Alarm where
  alStatus : AlarmStatus
  alTime : Tvalspec
  alType : BitVec 32
  alPort : Nat
  alPortType : Nat
  alClock : Nat
  request : Nat
deriving DecidableEq, Repr

/- What a call enters into an alarm that it gets. -/
inductive Posting where
| alarm
    (alarmType : BitVec 32)
    (time : Tvalspec)
    (port portType : Nat)
| sleep (time : Tvalspec)
deriving DecidableEq, Repr

inductive ClockReturn where
| success
| invalidArgument
| invalidCapability
| invalidValue
| resourceShortage
| aborted
| failure
deriving DecidableEq, Repr

/-
  Where a thread is in `clock_alarm` or `clock_sleep`. A
  thread that was woken still has to take the lock.
-/
inductive CallPhase where
| idle
| allocating (clock : Nat) (posting : Posting)
| sleeping (alarm : Nat) (woken : Bool)
| returned (code : ClockReturn) (time : Option Tvalspec)
deriving DecidableEq, Repr

/- Where the alarm thread is. -/
inductive AlarmThread where
| ready
| serving (alarm : Nat)
| replied (alarm : Nat)
| asleep
deriving DecidableEq, Repr

/- A `clock_alarm_reply`. -/
structure AlarmReply where
  request : Nat
  port : Nat
  portType : Nat
  code : ClockReturn
  alarmType : BitVec 32
  time : Tvalspec
deriving DecidableEq, Repr

/-
  The clocks, the alarms ever allocated, and what the threads
  do. Alarms go to the free list but never back to the zone.
-/
structure Clocks (τ : Type) where
  links : Links AlarmHead
  alarms : Nat → Alarm
  alrmfree : Nat
  nextAlarm : Nat
  phase : τ → CallPhase
  server : AlarmThread
  setalrm : Nat → Option Tvalspec
  requests : Nat
  replies : List AlarmReply

/- `IP_VALID`. -/
def ipValid (port : Nat) : Bool :=
  port ≠ 0 && port ≠ 2 ^ 32 - 1

------
-- Operations
------

variable {τ : Type} [DecidableEq τ]

namespace Clocks

def setPhase
    (s : Clocks τ)
    (t : τ)
    (p : CallPhase) : Clocks τ :=
  { s with phase := update s.phase t p }

@[simp] theorem setPhase_phase
    (s : Clocks τ)
    (t u : τ)
    (p : CallPhase) :
    (s.setPhase t p).phase u =
      if u = t then p else s.phase u := by
  simp [setPhase, update_apply]

def setAlarm
    (s : Clocks τ)
    (a : Nat)
    (alarm : Alarm) : Clocks τ :=
  { s with alarms := update s.alarms a alarm }

/- `thread_wakeup` of the thread that sleeps on an alarm. -/
def wake (s : Clocks τ) (a : Nat) : Clocks τ :=
  { s with
    phase := fun t =>
      match s.phase t with
      | .sleeping b woken =>
          .sleeping b (woken || decide (b = a))
      | p => p }

/- `thread_wakeup` of the alarm thread. -/
def wakeServer (s : Clocks τ) : Clocks τ :=
  { s with
    server :=
      if s.server = .asleep then .ready else s.server }

/- `clock_alarm_reply`. -/
def clockAlarmReply
    (s : Clocks τ)
    (r : AlarmReply) : Clocks τ :=
  { s with replies := s.replies ++ [r] }

/- Return an alarm to the free list. -/
def freeAlarm (s : Clocks τ) (a : Nat) : Clocks τ :=
  { s with
    alarms := update s.alarms a
      { s.alarms a with alStatus := .free }
    links := s.links.setNext (.cell a) s.alrmfree
    alrmfree := a }

/- The loop of `PostAlarm`: where the alarm goes. -/
def postWalk
    (s : Clocks τ)
    (alarmTime : Tvalspec) :
    Nat → Ref AlarmHead → Option (Ref AlarmHead)
| 0, _ => none
| fuel + 1, alrm1 =>
    let alrm2 := s.links.next alrm1
    if alrm2 = 0 then some alrm1
    else if 0 < cmpTvalspec (s.alarms alrm2).alTime alarmTime
      then some alrm1
    else postWalk s alarmTime fuel (.cell alrm2)

/- `PostAlarm`. -/
def postAlarm
    (s : Clocks τ)
    (clock : Nat)
    (a : Nat) : Option (Clocks τ) := do
  let time := (s.alarms a).alTime
  let alrm1 ←
    s.postWalk time s.nextAlarm (.head (.clAlarm clock))
  let links := s.links.insertAfter alrm1 a
  some { s with
    links := links
    setalrm :=
      if links.next (.head (.clAlarm clock)) = a then
        update s.setalrm clock (some time)
      else s.setalrm }

/- Fill in an alarm and post it. -/
def post
    (s : Clocks τ)
    (t : τ)
    (clock : Nat)
    (posting : Posting)
    (a : Nat) : Option (Clocks τ) :=
  match posting with
  | .alarm alarmType time port portType => do
      let s ← (s.setAlarm a
        { alStatus := .clock
          alTime := time
          alType := alarmType
          alPort := port
          alPortType := portType
          alClock := clock
          request := s.requests }).postAlarm clock a
      some ({ s with requests := s.requests + 1 }.setPhase t
        (.returned .success none))
  | .sleep time => do
      let s ← (s.setAlarm a
        { s.alarms a with
          alTime := time
          alStatus := .sleep }).postAlarm clock a
      some (s.setPhase t (.sleeping a false))

/- Take an alarm off the free list, if there is one. -/
def getAlarm
    (s : Clocks τ)
    (t : τ)
    (clock : Nat)
    (posting : Posting) : Option (Clocks τ) :=
  if s.alrmfree = 0 then
    some (s.setPhase t (.allocating clock posting))
  else
    { s with alrmfree := s.links.next (.cell s.alrmfree) }.post
      t clock posting s.alrmfree

section

variable (hasSetalrm : Nat → Bool) (s : Clocks τ) (t : τ)
variable (clock : Nat)

/- `clock_alarm`, up to its first release of the lock. -/
def clockAlarm
    (alarmType : BitVec 32)
    (alarmTime : Tvalspec)
    (alarmPort alarmPortType : Nat)
    (clockTime : Tvalspec) : Option (Clocks τ) :=
  if clock = 0 then
    some (s.setPhase t (.returned .invalidArgument none))
  else if !hasSetalrm clock then
    some (s.setPhase t (.returned .failure none))
  else if !ipValid alarmPort then
    some (s.setPhase t (.returned .invalidCapability none))
  else
    let (chkstat, time) :=
      checkTime alarmType alarmTime clockTime
    if chkstat ≤ 0 then
      let code :=
        if chkstat < 0 then ClockReturn.invalidValue
        else .success
      let s := s.clockAlarmReply
        ⟨s.requests, alarmPort, alarmPortType, code,
          alarmType, clockTime⟩
      some ({ s with requests := s.requests + 1 }.setPhase t
        (.returned .success none))
    else
      s.getAlarm t clock
        (.alarm alarmType time alarmPort alarmPortType)

/- `clock_sleep`, up to its first release of the lock. -/
def clockSleep
    (sleepType : BitVec 32)
    (sleepTime clockTime : Tvalspec) : Option (Clocks τ) :=
  if clock = 0 then
    some (s.setPhase t (.returned .invalidArgument none))
  else if !hasSetalrm clock then
    some (s.setPhase t (.returned .failure none))
  else
    let (chkstat, time) :=
      checkTime sleepType sleepTime clockTime
    if chkstat < 0 then
      some (s.setPhase t (.returned .invalidValue none))
    else if 0 < chkstat then s.getAlarm t clock (.sleep time)
    else some (s.setPhase t (.returned .success (some time)))

end

/- The answer of `zalloc` when the free list was empty. -/
def zallocAlarm
    (s : Clocks τ)
    (t : τ)
    (clock : Nat)
    (posting : Posting)
    (ok : Bool) : Option (Clocks τ) :=
  if ok then
    { s with nextAlarm := s.nextAlarm + 1 }.post t clock
      posting s.nextAlarm
  else
    some (s.setPhase t (.returned .resourceShortage none))

/-
  `clock_sleep` after its thread was woken. An alarm that is
  not done is taken for one that is still on its list.
-/
def clockSleepReturn
    (s : Clocks τ)
    (t : τ)
    (a : Nat) : Clocks τ :=
  let aborted := (s.alarms a).alStatus ≠ .done
  let links :=
    if aborted then
      s.links.cut (s.links.prev a) (s.links.next (.cell a))
    else s.links
  ({ s with links := links }.freeAlarm a).setPhase t
    (.returned (if aborted then .aborted else .success)
      (some (s.alarms a).alTime))

/- Put an alarm on the done list. -/
def pushDone (s : Clocks τ) (a : Nat) : Clocks τ :=
  let alrmdone := s.links.next (.head .alrmdone)
  let links := s.links.setNext (.cell a) alrmdone
  let s :=
    if alrmdone = 0 then
      { s with links := links }.wakeServer
    else
      { s with links := links.setPrev alrmdone (.cell a) }
  { s with
    links := (s.links.setPrev a
      (.head .alrmdone)).setNext (.head .alrmdone) a }

/-
  The body of the loops of `clock_alarm_intr` and
  `FlushAlarms`: the first alarm is taken off. When it has
  expired the clock's time is given.
-/
def takeFirst
    (s : Clocks τ)
    (clock : Nat)
    (a : Nat)
    (expired : Option Tvalspec) : Clocks τ :=
  let s := { s with
    links := s.links.cut (.head (.clAlarm clock))
      (s.links.next (.cell a)) }
  if (s.alarms a).alStatus = .sleep then
    let s := { s with links := s.links.setNext (.cell a) 0 }
    let s :=
      match expired with
      | none => s
      | some now =>
          s.setAlarm a
            { s.alarms a with
              alStatus := .done
              alTime := now }
    s.wake a
  else
    let s := s.pushDone a
    match expired with
    | none => s
    | some _ =>
        s.setAlarm a { s.alarms a with alStatus := .done }

/- `FlushAlarms`. -/
def flushAlarms
    (clock : Nat) : Nat → Clocks τ → Option (Clocks τ)
| 0, _ => none
| fuel + 1, s =>
    let alrm2 := s.links.next (.head (.clAlarm clock))
    if alrm2 = 0 then some s
    else flushAlarms clock fuel (s.takeFirst clock alrm2 none)

/- `clock_alarm_intr`. -/
def clockAlarmIntr
    (clock : Nat)
    (clockTime : Tvalspec)
    (gettime : Nat → Tvalspec) :
    Nat → Clocks τ → Option (Clocks τ)
| 0, _ => none
| fuel + 1, s =>
    let alrm2 := s.links.next (.head (.clAlarm clock))
    if alrm2 = 0 then some s
    else if 0 < cmpTvalspec (s.alarms alrm2).alTime clockTime
      then
        some { s with
          setalrm := update s.setalrm clock
            (some (s.alarms alrm2).alTime) }
    else
      clockAlarmIntr clock clockTime gettime fuel
        (s.takeFirst clock alrm2 (some (gettime alrm2)))

/- The alarm thread takes an alarm, or goes to sleep. -/
def takeDone (s : Clocks τ) : Clocks τ :=
  let alrm := s.links.next (.head .alrmdone)
  if alrm = 0 then { s with server := .asleep }
  else
    { s with
      links := s.links.cut (.head .alrmdone)
        (s.links.next (.cell alrm))
      server := .serving alrm }

/- The loop of `alarm_thread`, a step at a time. -/
def alarmThread
    (s : Clocks τ)
    (wakeupTime : Tvalspec) : Option (Clocks τ) :=
  match s.server with
  | .ready => some s.takeDone
  | .serving a =>
      let alrm := s.alarms a
      let code :=
        if alrm.alStatus = .done then ClockReturn.success
        else .aborted
      let s :=
        if ipValid alrm.alPort then
          s.clockAlarmReply
            ⟨alrm.request, alrm.alPort, alrm.alPortType, code,
              alrm.alType, wakeupTime⟩
        else s
      some { s with server := .replied a }
  | .replied a => some (s.freeAlarm a).takeDone
  | .asleep => none

end Clocks

------
-- Steps
------

inductive ClockAction (τ : Type) where
| clockAlarm
    (t : τ)
    (clock : Nat)
    (alarmType : BitVec 32)
    (alarmTime : Tvalspec)
    (alarmPort alarmPortType : Nat)
    (clockTime : Tvalspec)
| clockSleep
    (t : τ)
    (clock : Nat)
    (sleepType : BitVec 32)
    (sleepTime clockTime : Tvalspec)
| zalloc (t : τ) (ok : Bool)
| abort (t : τ)
| sleepReturn (t : τ)
| clockAlarmIntr
    (clock : Nat)
    (clockTime : Tvalspec)
    (gettime : Nat → Tvalspec)
| flushAlarms (clock : Nat)
| alarmThread (wakeupTime : Tvalspec)

/- A thread that is in none of the calls. -/
def CallPhase.isFree : CallPhase → Bool
| .idle => true
| .returned _ _ => true
| _ => false

/- One section; a sleep can be aborted at any time. -/
def clockStep
    (hasSetalrm : Nat → Bool)
    (s : Clocks τ) : ClockAction τ → Option (Clocks τ)
| .clockAlarm t clock alarmType time port portType now =>
    if (s.phase t).isFree then
      s.clockAlarm hasSetalrm t clock alarmType time port
        portType now
    else none
| .clockSleep t clock sleepType time now =>
    if (s.phase t).isFree then
      s.clockSleep hasSetalrm t clock sleepType time now
    else none
| .zalloc t ok =>
    match s.phase t with
    | .allocating clock posting =>
        s.zallocAlarm t clock posting ok
    | _ => none
| .abort t =>
    match s.phase t with
    | .sleeping a _ => some (s.setPhase t (.sleeping a true))
    | _ => none
| .sleepReturn t =>
    match s.phase t with
    | .sleeping a true => some (s.clockSleepReturn t a)
    | _ => none
| .clockAlarmIntr clock clockTime gettime =>
    s.clockAlarmIntr clock clockTime gettime s.nextAlarm
| .flushAlarms clock => s.flushAlarms clock s.nextAlarm
| .alarmThread wakeupTime => s.alarmThread wakeupTime

/-
  Before any call. The memory of the alarms that are not yet
  allocated holds anything.
-/
def clocksInit
    (memory : Nat → Alarm)
    (back : Nat → Ref AlarmHead)
    (cells : Nat → Nat) : Clocks τ :=
  { links :=
      { next := fun r =>
          match r with
          | .head _ => 0
          | .cell a => cells a
        prev := back }
    alarms := memory
    alrmfree := 0
    nextAlarm := 1
    phase := fun _ => .idle
    server := .ready
    setalrm := fun _ => none
    requests := 0
    replies := [] }

end Kern

end OsfMach
