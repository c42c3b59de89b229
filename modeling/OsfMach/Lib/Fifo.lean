import Mathlib.Data.List.Basic
import Mathlib.Data.List.Range

/-
  A first-in first-out queue that numbers what it gives out,
  and a place for one item, as machines that accept lists of
  events.

  Main declarations:
    * `Fifo`, `FifoEvent`, `Fifo.run`
    * `SlotEvent`, `slotRun`
    * `Fifo.takes_prefix`, `Fifo.puts_eq`
    * `Fifo.numbers_eq`
    * `slotRun_fills`
-/

------
-- Queues
------

namespace Lib

open List

variable {α : Type*} [DecidableEq α]

/- The items, the next number, and whether it is open. -/
structure Fifo (α : Type*) where
  items : List α
  number : Nat
  isOpen : Bool

inductive FifoEvent (α : Type*) where
| put (x : α)
| take (x : α) (number : Nat)
| renumber (number : Nat)
| close

namespace FifoEvent

omit [DecidableEq α]

def item? : FifoEvent α → Option α
| .put x => some x
| _ => none

def taken? : FifoEvent α → Option α
| .take x _ => some x
| _ => none

def number? : FifoEvent α → Option Nat
| .take _ number => some number
| _ => none

def Renumbers : FifoEvent α → Prop
| .renumber _ => True
| _ => False

end FifoEvent

namespace Fifo

/- Items come in at the end and leave at the front. -/
def step
    (modulus : Nat)
    (f : Fifo α) : FifoEvent α → Option (Fifo α)
| .put x =>
    if f.isOpen = true then
      some { f with items := f.items ++ [x] }
    else none
| .take x number =>
    match f.items with
    | [] => none
    | y :: items =>
        if y = x ∧ number = f.number then
          some { f with
            items := items
            number := (number + 1) % modulus }
        else none
| .renumber number =>
    if number < modulus then
      some { f with number := number }
    else none
| .close => some { f with items := [], isOpen := false }

def run
    (modulus : Nat)
    (f : Fifo α)
    (events : List (FifoEvent α)) : Option (Fifo α) :=
  events.foldlM (step modulus) f

variable {modulus : Nat} {f f' : Fifo α} {event : FifoEvent α}
variable {events events' : List (FifoEvent α)}

theorem run_append :
    run modulus f (events ++ events') =
      (run modulus f events).bind
        (fun f' => run modulus f' events') :=
  foldlM_append

theorem run_singleton :
    run modulus f [event] = step modulus f event := by
  exact Option.bind_fun_some _

/- The state between two parts of a run. -/
theorem run_append_some
    (hRun : run modulus f (events ++ events') = some f') :
    ∃ mid, run modulus f events = some mid ∧
      run modulus mid events' = some f' := by
  rw [run_append] at hRun
  exact Option.bind_eq_some_iff.mp hRun

theorem run_cons_some
    (hRun : run modulus f (event :: events) = some f') :
    ∃ mid, step modulus f event = some mid ∧
      run modulus mid events = some f' := by
  exact Option.bind_eq_some_iff.mp hRun

/- What one event does. -/
theorem step_some
    (hStep : step modulus f event = some f') :
    (∃ x, event = .put x ∧ f.isOpen = true ∧
        f' = { f with items := f.items ++ [x] }) ∨
      (∃ x items, event = .take x f.number ∧
        f.items = x :: items ∧
        f' = { f with
          items := items
          number := (f.number + 1) % modulus }) ∨
      (∃ number, event = .renumber number ∧
        number < modulus ∧
        f' = { f with number := number }) ∨
      (event = .close ∧
        f' = { f with items := [], isOpen := false }) := by
  cases event with
  | put x =>
      left
      unfold step at hStep
      split_ifs at hStep with hOpen
      exact ⟨x, rfl, hOpen, (Option.some.inj hStep).symm⟩
  | take x number =>
      right
      left
      unfold step at hStep
      cases hItems : f.items with
      | nil =>
          rw [hItems] at hStep
          cases hStep
      | cons y items =>
          rw [hItems] at hStep
          dsimp only at hStep
          split_ifs at hStep with hEq
          rcases hEq with ⟨rfl, rfl⟩
          exact ⟨y, items, rfl, rfl,
            (Option.some.inj hStep).symm⟩
  | renumber number =>
      right
      right
      left
      unfold step at hStep
      dsimp only at hStep
      split_ifs at hStep with hLt
      exact ⟨number, rfl, hLt, (Option.some.inj hStep).symm⟩
  | close =>
      right
      right
      right
      exact ⟨rfl, (Option.some.inj hStep).symm⟩

/- A closed queue does not open again. -/
theorem isOpen_of_run
    (hRun : run modulus f events = some f')
    (hOpen : f'.isOpen = true) :
    f.isOpen = true := by
  induction events generalizing f with
  | nil =>
      cases hRun
      exact hOpen
  | cons event events ih =>
      rcases run_cons_some hRun with ⟨mid, hStep, hRest⟩
      have hMid := ih hRest
      rcases step_some hStep with ⟨x, _, h, rfl⟩ |
        ⟨x, items, _, _, rfl⟩ | ⟨n, _, _, rfl⟩ | ⟨_, rfl⟩
      · exact h
      · exact hMid
      · exact hMid
      · cases hMid

/- While it is open, nothing is lost or put out of order. -/
theorem puts_eq
    (hRun : run modulus f events = some f')
    (hOpen : f'.isOpen = true) :
    f.items ++ events.filterMap FifoEvent.item? =
      events.filterMap FifoEvent.taken? ++ f'.items := by
  induction events generalizing f with
  | nil =>
      cases hRun
      simp
  | cons event events ih =>
      rcases run_cons_some hRun with ⟨mid, hStep, hRest⟩
      have hEq := ih hRest
      have hMid := isOpen_of_run hRest hOpen
      rcases step_some hStep with ⟨x, rfl, _, rfl⟩ |
        ⟨x, items, rfl, hItems, rfl⟩ | ⟨n, rfl, _, rfl⟩ |
        ⟨rfl, rfl⟩
      · simp only [filterMap_cons, FifoEvent.item?,
          FifoEvent.taken?]
        simpa using hEq
      · simp only [filterMap_cons, FifoEvent.item?,
          FifoEvent.taken?]
        rw [hItems, cons_append, cons_append]
        exact congrArg (List.cons x) hEq
      · exact hEq
      · cases hMid

/- Nothing goes through a closed and empty queue. -/
theorem puts_closed
    (hClosed : f.isOpen = false)
    (hEmpty : f.items = [])
    (hRun : run modulus f events = some f') :
    events.filterMap FifoEvent.item? = [] ∧
      events.filterMap FifoEvent.taken? = [] := by
  induction events generalizing f with
  | nil => exact ⟨rfl, rfl⟩
  | cons event events ih =>
      rcases run_cons_some hRun with ⟨mid, hStep, hRest⟩
      rcases step_some hStep with ⟨x, _, h, _⟩ |
        ⟨x, items, _, h, _⟩ | ⟨n, rfl, _, rfl⟩ | ⟨rfl, rfl⟩
      · rw [hClosed] at h
        cases h
      · rw [hEmpty] at h
        cases h
      · exact @ih { f with number := n } hClosed hEmpty hRest
      · exact ih rfl rfl hRest

/- What leaves is a first part of what came in. -/
theorem takes_prefix
    (hRun : run modulus f events = some f') :
    events.filterMap FifoEvent.taken? <+:
      f.items ++ events.filterMap FifoEvent.item? := by
  induction events generalizing f with
  | nil => simp
  | cons event events ih =>
      rcases run_cons_some hRun with ⟨mid, hStep, hRest⟩
      have hPrefix := ih hRest
      rcases step_some hStep with ⟨x, rfl, _, rfl⟩ |
        ⟨x, items, rfl, hItems, rfl⟩ | ⟨n, rfl, _, rfl⟩ |
        ⟨rfl, rfl⟩
      · simp only [filterMap_cons, FifoEvent.item?,
          FifoEvent.taken?]
        simpa using hPrefix
      · rw [hItems, cons_append]
        exact (prefix_cons_inj x).mpr hPrefix
      · exact hPrefix
      · -- nothing is left to take, and nothing comes in
        have hNone := puts_closed rfl rfl hRest
        simp only [filterMap_cons, FifoEvent.item?,
          FifoEvent.taken?]
        rw [hNone.2]
        exact nil_prefix

/- The next number stays below the modulus. -/
theorem number_lt
    (hLt : f.number < modulus)
    (hRun : run modulus f events = some f') :
    f'.number < modulus := by
  induction events generalizing f with
  | nil =>
      cases hRun
      exact hLt
  | cons event events ih =>
      rcases run_cons_some hRun with ⟨mid, hStep, hRest⟩
      apply ih _ hRest
      rcases step_some hStep with ⟨x, _, _, rfl⟩ |
        ⟨x, items, _, _, rfl⟩ | ⟨n, _, h, rfl⟩ | ⟨_, rfl⟩
      · exact hLt
      · exact Nat.mod_lt _ (Nat.zero_lt_of_lt hLt)
      · exact h
      · exact hLt

/- Without renumbering the numbers are consecutive. -/
theorem numbers_eq
    (hLt : f.number < modulus)
    (hRun : run modulus f events = some f')
    (hKeep : ∀ event ∈ events, ¬ event.Renumbers) :
    events.filterMap FifoEvent.number? =
      (List.range
        (events.filterMap FifoEvent.number?).length).map
          (fun k => (f.number + k) % modulus) := by
  induction events generalizing f with
  | nil => rfl
  | cons event events ih =>
      rcases run_cons_some hRun with ⟨mid, hStep, hRest⟩
      have hKeep' : ∀ event ∈ events, ¬ event.Renumbers :=
        fun event h =>
          hKeep event (mem_cons_of_mem _ h)
      rcases step_some hStep with ⟨x, rfl, _, rfl⟩ |
        ⟨x, items, rfl, _, rfl⟩ | ⟨n, rfl, _, _⟩ |
        ⟨rfl, rfl⟩
      · exact @ih { f with items := f.items ++ [x] } hLt
          hRest hKeep'
      · have hNext := ih
          (Nat.mod_lt _ (Nat.zero_lt_of_lt hLt)) hRest hKeep'
        simp only [filterMap_cons, FifoEvent.number?,
          length_cons, range_succ_eq_map,
          map_cons, map_map, Nat.add_zero]
        rw [Nat.mod_eq_of_lt hLt]
        refine congrArg (List.cons f.number) ?_
        refine hNext.trans ?_
        apply map_congr_left
        intro k _
        rw [Nat.mod_add_mod]
        congr 1
        omega
      · exact absurd trivial
          (hKeep (.renumber n) (mem_cons_self ..))
      · exact @ih { f with items := [], isOpen := false } hLt
          hRest hKeep'

end Fifo

------
-- Places for One Item
------

inductive SlotEvent (α : Type*) where
| fill (x : α)
| drain (x : α)

namespace SlotEvent

omit [DecidableEq α]

def filled? : SlotEvent α → Option α
| .fill x => some x
| .drain _ => none

def drained? : SlotEvent α → Option α
| .drain x => some x
| .fill _ => none

end SlotEvent

/- Only an empty place is filled, with one item. -/
def slotStep
    (slot : Option α) : SlotEvent α → Option (Option α)
| .fill x => if slot = none then some (some x) else none
| .drain x => if slot = some x then some none else none

def slotRun
    (slot : Option α)
    (events : List (SlotEvent α)) : Option (Option α) :=
  events.foldlM slotStep slot

theorem slotRun_singleton
    {slot : Option α}
    {event : SlotEvent α} :
    slotRun slot [event] = slotStep slot event := by
  exact Option.bind_fun_some _

/- What goes in comes out, but for what is still there. -/
theorem slotRun_fills
    {slot slot' : Option α}
    {events : List (SlotEvent α)}
    (hRun : slotRun slot events = some slot') :
    slot.toList ++ events.filterMap SlotEvent.filled? =
      events.filterMap SlotEvent.drained? ++
        slot'.toList := by
  induction events generalizing slot with
  | nil =>
      cases hRun
      simp
  | cons event events ih =>
      rcases Option.bind_eq_some_iff.mp hRun with
        ⟨mid, hStep, hRest⟩
      have hEq := ih hRest
      cases event with
      | fill x =>
          unfold slotStep at hStep
          split_ifs at hStep with hNone
          cases hStep
          subst hNone
          exact hEq
      | drain x =>
          unfold slotStep at hStep
          dsimp only at hStep
          split_ifs at hStep with hSome
          cases hStep
          subst hSome
          exact congrArg (List.cons x) hEq

end Lib
