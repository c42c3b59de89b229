import Mathlib.Logic.Function.Basic
import Mathlib.Data.List.Basic

/-
  Asymmetric copies of a memory object, from
  `vm/vm_object.c` and `vm/vm_fault.c`.

  A copy object shadows the source, and gets the old page
  when the source is about to be written. Offsets and sizes
  are counted in pages. A call of `vm_object_copy_delayed`
  that makes a copy object links it in one step and
  write-protects the source in a later one, after waiting
  for the paging operations under way. A write fault pushes
  the page, looks at the copy object again, and enters the
  mapping. Each call keeps the contents that the source had
  while it was made.

  Key definitions include:
    * `CopyObject`, `CopySystem`, `CopyCall`
    * `vmObjectCopyDelayed`, `CopySystem.pushPage`
    * `CopySystem.step`, `CopyRun`, `ReuseSafe`
-/

------
-- Objects
------

namespace OsfMach

namespace Vm

open Function

/-
  A copy object: its size, the copy object it shadows, and
  its pages in memory and with its pager. Without a copy
  object to shadow it shadows the source.
-/
structure CopyObject (α : Type) where
  size : Nat
  shadow : Option Nat
  resident : List (Nat × α)
  paged : List (Nat × α)
  pagerCreated : Bool

/-
  A call of `vm_object_copy_delayed`, with the copy object
  it has for its caller and the contents of the source from
  its start to its return.
-/
structure CopyCall (α : Type) where
  copy : Nat
  srcOffset : Nat
  size : Nat
  moments : List (Nat → α)
  returned : Bool

/-
  How far a write fault is: its page is pushed and it knows
  the copy object, or it knows whether it may map the page
  for writing.
-/
inductive FaultPhase where
| pushed (oldCopyObject : Option Nat)
| checked (write : Bool)
deriving DecidableEq, Repr

structure WriteFault where
  offset : Nat
  phase : FaultPhase
deriving DecidableEq, Repr

/-
  The source with its contents, its pages mapped for
  writing and its copy object, and what is done to it.
-/
structure CopySystem (α : Type) where
  contents : Nat → α
  writable : Nat → Bool
  copy : Option Nat
  copies : Nat → CopyObject α
  used : Nat
  faults : List WriteFault
  calls : List (CopyCall α)

inductive CopyOp (α : Type) where
| copyDelayed (srcOffset size : Nat)
| protect (n : Nat)
| writeFault (i : Nat) (toPager : Bool)
| fastFault (i : Nat)
| recheck (n : Nat)
| pmapEnter (n : Nat)
| store (i : Nat) (v : α)
| pageout (k i : Nat)
| unmap (i : Nat)

variable {α : Type}

namespace CopyObject

def new (size : Nat) : CopyObject α :=
  ⟨size, none, [], [], false⟩

/- The page at an offset, in memory or with the pager. -/
def page (o : CopyObject α) (i : Nat) : Option α :=
  match o.resident.lookup i with
  | some c => some c
  | none => o.paged.lookup i

/- It has not been modified. -/
def unmodified (o : CopyObject α) : Bool :=
  o.resident.length == 0 && !o.pagerCreated

/-
  Push a page that the object has not. With a pager that may
  know the page, it is paged out at once, and the pager
  ignores a page that it has.
-/
def push
    (o : CopyObject α)
    (i : Nat)
    (c : α)
    (toPager : Bool) : CopyObject α :=
  match o.page i with
  | some _ => o
  | none =>
      if o.pagerCreated && toPager then
        { o with paged := (i, c) :: o.paged }
      else { o with resident := (i, c) :: o.resident }

/- Page one page out. -/
def pageout (o : CopyObject α) (i : Nat) : CopyObject α :=
  match o.resident.lookup i with
  | none => o
  | some c =>
      { o with
        resident := o.resident.filter fun q => !(q.1 == i)
        paged := (i, c) :: o.paged
        pagerCreated := true }

end CopyObject

------
-- Copies and Faults
------

/- Calls that are not back yet see every state. -/
def CopyCall.observe
    (contents : Nat → α)
    (c : CopyCall α) : CopyCall α :=
  if c.returned then c
  else { c with moments := contents :: c.moments }

namespace CopySystem

/- A source without copies. -/
def start
    (contents : Nat → α)
    (writable : Nat → Bool) : CopySystem α :=
  { contents := contents
    writable := writable
    copy := none
    copies := fun _ => CopyObject.new 0
    used := 0
    faults := []
    calls := [] }

section

variable (s : CopySystem α)

def setCopy
    (k : Nat)
    (o : CopyObject α) : CopySystem α :=
  { s with copies := update s.copies k o }

def setWritable
    (i : Nat)
    (b : Bool) : CopySystem α :=
  { s with writable := update s.writable i b }

def call
    (c : CopyCall α) : CopySystem α :=
  { s with calls := s.calls ++ [c] }

/- Return another reference to the copy object. -/
def reuseCopy
    (old srcOffset size : Nat) : CopySystem α :=
  let o := s.copies old
  (s.setCopy old
    { o with
      size :=
        if o.size < srcOffset + size then srcOffset + size
        else o.size }).call
    ⟨old, srcOffset, size, [s.contents], true⟩

/-
  The new copy object is large enough to back either the old
  copy object or the new mapping.
-/
def newSize
    (old : Option Nat)
    (srcOffset size : Nat) : Nat :=
  match old with
  | none => srcOffset + size
  | some k =>
      if (s.copies k).size > srcOffset + size then
        srcOffset + ((s.copies k).size - srcOffset)
      else srcOffset + size

/- Make the old copy object shadow the new one. -/
def relink
    (old : Option Nat) : CopySystem α :=
  match old with
  | none => s
  | some k =>
      s.setCopy k { s.copies k with shadow := some s.used }

/- Point the source at a new copy object. -/
def linkCopy
    (o : CopyObject α) : CopySystem α :=
  { s.setCopy s.used o with
    copy := some s.used
    used := s.used + 1 }

/-
  Link a new copy object between the source and the old one.
  The call does not return before the pages are protected.
-/
def newCopy
    (old : Option Nat)
    (srcOffset size : Nat) : CopySystem α :=
  ((s.relink old).linkCopy
    (CopyObject.new (s.newSize old srcOffset size))).call
    ⟨s.used, srcOffset, size, [s.contents], false⟩

def vmObjectCopyDelayed
    (srcOffset size : Nat) : CopySystem α :=
  match s.copy with
  | none => s.newCopy none srcOffset size
  | some old =>
      if (s.copies old).unmodified then
        s.reuseCopy old srcOffset size
      else s.newCopy (some old) srcOffset size

/-
  The end of `vm_fault_page` for a write fault: push the
  page into the copy object if it covers the page and has
  it not.
-/
def pushPage
    (i : Nat)
    (toPager : Bool) : CopySystem α :=
  match s.copy with
  | none => s
  | some k =>
      if (s.copies k).size ≤ i then s
      else
        match (s.copies k).page i with
        | some _ => s
        | none =>
            (s.setCopy k
              ((s.copies k).push i (s.contents i)
                toPager)).setWritable i false

def addFault
    (f : WriteFault) : CopySystem α :=
  { s with faults := s.faults ++ [f] }

end

def step
    (s : CopySystem α) :
    CopyOp α → Option (CopySystem α)
| .copyDelayed srcOffset size =>
    some (s.vmObjectCopyDelayed srcOffset size)
| .protect n =>
    match s.calls[n]? with
    | none => none
    | some c =>
        if s.faults = [] ∧ c.returned = false then
          some
            { s with
              writable := fun _ => false
              calls :=
                s.calls.set n { c with returned := true } }
        else none
| .writeFault i toPager =>
    some ((s.pushPage i toPager).addFault
      ⟨i, .pushed s.copy⟩)
| .fastFault i =>
    match s.copy with
    | none => some (s.addFault ⟨i, .checked true⟩)
    | some _ => none
| .recheck n =>
    match s.faults[n]? with
    | some ⟨i, .pushed old⟩ =>
        some
          { s with
            faults :=
              s.faults.set n ⟨i, .checked (s.copy == old)⟩ }
    | _ => none
| .pmapEnter n =>
    match s.faults[n]? with
    | some ⟨i, .checked write⟩ =>
        some ({ s with
          faults := s.faults.eraseIdx n }.setWritable i
            (write || s.writable i))
    | _ => none
| .store i v =>
    if s.writable i then
      let contents := update s.contents i v
      some
        { s with
          contents := contents
          calls := s.calls.map (CopyCall.observe contents) }
    else none
| .pageout k i =>
    some (s.setCopy k ((s.copies k).pageout i))
| .unmap i => some (s.setWritable i false)

/- Read a copy object through the objects it shadows. -/
def readCopy (s : CopySystem α) :
    Nat → Nat → Nat → Option α
| 0, _, _ => none
| fuel + 1, k, i =>
    match (s.copies k).page i with
    | some c => some c
    | none =>
        match (s.copies k).shadow with
        | none => some (s.contents i)
        | some k' => s.readCopy fuel k' i

end CopySystem

/- A fault that can still map its page for writing. -/
def WriteFault.mayWrite
    (copy : Option Nat)
    (f : WriteFault) : Bool :=
  match f.phase with
  | .pushed old => copy == old
  | .checked write => write

/- No mapping for writing, and no fault that makes one. -/
def CopySystem.Guarded
    (s : CopySystem α)
    (i : Nat) : Prop :=
  s.writable i = false ∧
    ∀ f ∈ s.faults, f.offset = i → f.mayWrite s.copy = false

/-
  A call that gets the copy object there is finds the pages
  of its range guarded.
-/
def ReuseSafe
    (s : CopySystem α) : CopyOp α → Prop
| .copyDelayed srcOffset size =>
    ∀ old, s.copy = some old →
      (s.copies old).unmodified = true →
        ∀ i, srcOffset ≤ i → i < srcOffset + size →
          s.Guarded i
| _ => True

/- Runs whose steps all meet a condition. -/
inductive CopyRun
    (P : CopySystem α → CopyOp α → Prop) :
    CopySystem α → Prop where
| start (contents : Nat → α) (writable : Nat → Bool) :
    CopyRun P (CopySystem.start contents writable)
| step {s s' : CopySystem α} {op : CopyOp α} :
    CopyRun P s →
    P s op →
    s.step op = some s' →
    CopyRun P s'

end Vm

end OsfMach
