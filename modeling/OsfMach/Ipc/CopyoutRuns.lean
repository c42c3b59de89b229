import OsfMach.Ipc.CopyoutCost
import OsfMach.Ipc.KmsgCopyin

/-
  Whether copying out a body consumes what the message holds,
  each thing once.

  When there is no space for an array of ports the whole body
  is cleaned, and the copying out goes on. That is right only
  when the other descriptors hold nothing then.

  Main declarations:
    * `Quiet`, `LeavesNothing`, `Tame`
    * `ConsumesAll`
    * `copyoutDescriptor_consumes`
    * `copyoutLoop_consumes`, `copyoutLoop_tame`
    * `copyout_body_consumes_iff`
-/

------
-- Quiet Descriptors
------

namespace OsfMach

namespace Ipc

open List
open Lib
open Lib.Checked

variable {d : Descriptor} {ds : List Descriptor}
variable {buffers : Nat → List Nat} {answer : MapAnswer}
variable {region : Option Descriptor} {i mr : Nat}
variable {d' : Descriptor} {done rest : List Descriptor}
variable {before : Prop}

/- A descriptor that cleaning passes over. -/
def Quiet
    (cfg : KmsgConfig)
    (buffers : Nat → List Nat)
    (d : Descriptor) : Prop :=
  heldBy cfg buffers d = [] ∧ ¬ Wrapped d

/- Where there is no memory there is no address. -/
structure Emptied (d : Descriptor) : Prop where
  ool : IsOol d → d.size = 0 → d.address = 0
  none :
    d.type = machMsgOolPortsDescriptor →
      d.portsLength = 0 → d.address = 0

theorem Queued.emptied
    {nextAddr : Nat}
    (h : Queued nextAddr buffers d) :
    Emptied d :=
  ⟨h.ool, h.none⟩

theorem not_ool_of_port
    (h : d.type = machMsgPortDescriptor) :
    ¬ IsOol d := by
  unfold IsOol
  rw [h]
  decide

theorem not_ool_of_ports
    (h : d.type = machMsgOolPortsDescriptor) :
    ¬ IsOol d := by
  unfold IsOol
  rw [h]
  decide

theorem not_ports_of_port
    (h : d.type = machMsgPortDescriptor) :
    d.type ≠ machMsgOolPortsDescriptor := by
  rw [h]
  decide

theorem not_ports_of_ool
    (h : IsOol d) :
    d.type ≠ machMsgOolPortsDescriptor :=
  fun hPorts => not_ool_of_ports hPorts h

theorem Wrapped.ports
    (h : Wrapped d) :
    d.type = machMsgOolPortsDescriptor := h.1

section Quiet

variable {cfg : KmsgConfig} {buffers : Nat → List Nat}
variable {d : Descriptor}

theorem Quiet.length
    (h : Quiet cfg buffers d)
    (hType : d.type = machMsgOolPortsDescriptor) :
    d.portsLength = 0 := by
  by_contra hLength
  have hHeld := h.1
  rw [heldBy_ports hType, if_neg hLength] at hHeld
  simp at hHeld

theorem Quiet.converted
    (h : Quiet cfg buffers d)
    (hEmptied : Emptied d)
    (nextAddr : Nat) :
    Converted nextAddr buffers d :=
  ⟨hEmptied.ool, hEmptied.none, fun hType hLength =>
    absurd (h.length hType) hLength⟩

theorem quiet_port_iff
    (hType : d.type = machMsgPortDescriptor) :
    Quiet cfg buffers d ↔ ¬ ioValid d.name = true := by
  unfold Quiet
  rw [heldBy_port hType]
  constructor
  · rintro ⟨hHeld, _⟩ hValid
    rw [heldObjects_valid hValid] at hHeld
    simp at hHeld
  · intro hNot
    exact ⟨heldObjects_not hNot, fun h =>
      not_ports_of_port hType h.ports⟩

theorem quiet_ports_iff
    (hType : d.type = machMsgOolPortsDescriptor) :
    Quiet cfg buffers d ↔ d.count = 0 := by
  constructor
  · intro h
    by_contra hCount
    exact h.2 ⟨hType, hCount, h.length hType⟩
  · intro hCount
    have hLength : d.portsLength = 0 := by
      unfold Descriptor.portsLength
      rw [hCount, Nat.zero_mul, Nat.zero_mod]
    refine ⟨?_, fun h => h.2.1 hCount⟩
    rw [heldBy_ports hType, if_pos hLength]

/- Memory that was copied out is not small any more. -/
theorem quiet_outOol_iff
    (hOol : IsOol d)
    (hSize : d.size ≠ 0) :
    Quiet cfg buffers (outOol cfg answer d region) ↔
      (outOol cfg answer d region).address = 0 := by
  have hKind : IsOol (outOol cfg answer d region) := hOol
  have hSame : (outOol cfg answer d region).size ≠ 0 := hSize
  have hCopy : (outOol cfg answer d region).copy ≠
      machMsgPhysicalCopy := by
    have hAllocate : machMsgAllocate ≠ machMsgPhysicalCopy := by
      decide
    have hOverwrite : machMsgOverwrite ≠ machMsgPhysicalCopy :=
      by decide
    cases region with
    | none => exact hAllocate
    | some s => exact hOverwrite
  unfold Quiet
  rw [heldBy_ool hKind, if_neg hSame,
    if_neg (fun h => hCopy h.1)]
  unfold heldCopy
  constructor
  · rintro ⟨hHeld, _⟩
    by_contra hNot
    rw [if_neg hNot] at hHeld
    simp at hHeld
  · intro hZero
    rw [if_pos hZero]
    exact ⟨rfl, fun h => not_ports_of_ool hKind h.ports⟩

theorem quiet_ool_zero
    (hOol : IsOol d)
    (hSize : d.size = 0) :
    Quiet cfg buffers d := by
  refine ⟨?_, fun h => not_ports_of_ool hOol h.ports⟩
  rw [heldBy_ool hOol, if_pos hSize]

/- Other types hold nothing. -/
theorem NoSpace.not_quiet
    (h : NoSpace cfg answer d region) :
    ¬ Quiet cfg buffers d :=
  fun hQuiet => h.2.1 (hQuiet.length h.1)

end Quiet

------
-- Tame Bodies
------

/-
  The descriptor at a place leaves nothing for cleaning: its
  name is null or dead, its memory is empty or was refused, or
  its array has no ports.
-/
structure LeavesNothing
    (cfg : KmsgConfig)
    (env : CopyoutAnswers)
    (i : Nat)
    (d : Descriptor)
    (region : Option Descriptor) : Prop where
  port :
    d.type = machMsgPortDescriptor →
      ¬ ioValid (copiedName (env.object i 0) d.name) = true
  ool :
    IsOol d →
      d.size = 0 ∨
        (outOol cfg (env.map i) d region).address = 0
  ports : d.type = machMsgOolPortsDescriptor → d.count = 0

/-
  From a place on: where there is no space for an array, what
  comes before has left nothing and what follows is quiet.
-/
def Tame
    (cfg : KmsgConfig)
    (env : CopyoutAnswers)
    (buffers : Nat → List Nat) :
    Nat → Prop → List Descriptor → ScatterList → Prop
| _, _, [], _ => True
| i, before, d :: ds, ss =>
    (NoSpace cfg (env.map i) d (scatterNext ss).1 →
      before ∧ ∀ x, x ∈ ds → Quiet cfg buffers x) ∧
    Tame cfg env buffers (i + 1)
      (before ∧ LeavesNothing cfg env i d (scatterNext ss).1)
      ds (scatterAfter d ss)

theorem tame_of_quiet
    {cfg : KmsgConfig}
    {env : CopyoutAnswers}
    (h : ∀ x, x ∈ ds → Quiet cfg buffers x)
    (i : Nat)
    (before : Prop)
    (ss : ScatterList) :
    Tame cfg env buffers i before ds ss := by
  induction ds generalizing i before ss with
  | nil => trivial
  | cons d ds ih =>
      refine ⟨fun hNone =>
        absurd (h d mem_cons_self) hNone.not_quiet, ?_⟩
      exact ih (fun x hx => h x (mem_cons_of_mem _ hx)) _ _ _

------
-- Descriptors
------

section Step

variable {cfg : KmsgConfig} {env : CopyoutAnswers}
variable {buffers : Nat → List Nat} {nextAddr : Nat}
variable {d : Descriptor} {ss : ScatterList}

/- What a descriptor leaves behind. -/
structure Left
    (cfg : KmsgConfig)
    (env : CopyoutAnswers)
    (buffers : Nat → List Nat)
    (i : Nat)
    (d : Descriptor)
    (ss : ScatterList)
    (out : Nat × Descriptor × ScatterList) : Prop where
  after : out.2.2 = scatterAfter d ss
  emptied : Emptied out.2.1
  quiet :
    Quiet cfg buffers out.2.1 ↔
      LeavesNothing cfg env i d (scatterNext ss).1

theorem takeScatter_consumes
    (hPort : d.isPort = false) :
    Consumes buffers (takeScatter d ss) []
      (fun out => out = scatterNext ss) := by
  intro r rest hInv hBuffers hHeld
  rcases takeScatter_run hPort ss r with ⟨reads, hRun, _⟩
  exact ⟨_, _, hRun, hInv, hBuffers, hHeld,
    PassedOn.of_eq rfl rfl, rfl⟩

theorem left_port
    (hType : d.type = machMsgPortDescriptor)
    {i mr name : Nat}
    (hName : name = copiedName (env.object i 0) d.name) :
    Left cfg env buffers i d ss
      (mr, { d with address := name }, ss) := by
  have hPort : d.isPort = true := decide_eq_true hType
  have hSame : ({ d with address := name } : Descriptor).type =
      machMsgPortDescriptor := hType
  refine ⟨(scatterAfter_port hPort ss).symm,
    ⟨fun h => absurd h (not_ool_of_port hSame),
      fun h => absurd h (not_ports_of_port hSame)⟩, ?_⟩
  rw [quiet_port_iff hSame]
  constructor
  · intro hNot
    rw [hName] at hNot
    exact ⟨fun _ => hNot,
      fun h => absurd h (not_ool_of_port hType),
      fun h => absurd h (not_ports_of_port hType)⟩
  · intro h
    rw [hName]
    exact h.port hType

theorem left_ool
    (h : Queued nextAddr buffers d)
    (hOol : IsOol d)
    (hOut : d' =
      if d.size = 0 then d
      else outOol cfg (env.map i) d (scatterNext ss).1) :
    Left cfg env buffers i d ss
      (mr, d', (scatterNext ss).2) := by
  have hPort : d.isPort = false := by
    rcases hOol with hType | hType
    · exact isPort_of_type hType (by decide)
    · exact isPort_of_type hType (by decide)
  have hNotPort : d.type ≠ machMsgPortDescriptor :=
    fun hType => not_ool_of_port hType hOol
  have hLeaves : LeavesNothing cfg env i d (scatterNext ss).1 ↔
      (d.size = 0 ∨ (outOol cfg (env.map i) d
        (scatterNext ss).1).address = 0) :=
    ⟨fun hAll => hAll.ool hOol, fun hZero =>
      ⟨fun hType => absurd hType hNotPort, fun _ => hZero,
        fun hType => absurd hType (not_ports_of_ool hOol)⟩⟩
  refine ⟨(scatterAfter_other hPort ss).symm, ?_, ?_⟩
  · by_cases hSize : d.size = 0
    · rw [hOut, if_pos hSize]
      exact h.emptied
    · rw [hOut, if_neg hSize]
      have hKind : IsOol (outOol cfg (env.map i) d
        (scatterNext ss).1) := hOol
      exact ⟨fun _ hZero => absurd hZero hSize, fun hType =>
        absurd hType (not_ports_of_ool hKind)⟩
  · rw [hLeaves, hOut]
    by_cases hSize : d.size = 0
    · rw [if_pos hSize]
      exact iff_of_true (quiet_ool_zero hOol hSize)
        (Or.inl hSize)
    · rw [if_neg hSize, quiet_outOol_iff hOol hSize]
      exact (or_iff_right hSize).symm

theorem left_ports
    (h : Queued nextAddr buffers d)
    (hType : d.type = machMsgOolPortsDescriptor)
    (hOut : if d.portsLength = 0 then d' = d
      else d'.type = d.type ∧ d'.size = d.size) :
    Left cfg env buffers i d ss
      (mr, d', (scatterNext ss).2) := by
  have hPort := isPort_of_type hType (by decide)
  have hNotPort : d.type ≠ machMsgPortDescriptor :=
    fun hPort => not_ports_of_port hPort hType
  have hLeaves : LeavesNothing cfg env i d (scatterNext ss).1 ↔
      d.count = 0 :=
    ⟨fun hAll => hAll.ports hType, fun hZero =>
      ⟨fun hIs => absurd hIs hNotPort,
        fun hOol => absurd hOol (not_ool_of_ports hType),
        fun _ => hZero⟩⟩
  have hSame : d'.type = d.type ∧ d'.size = d.size := by
    by_cases hLength : d.portsLength = 0
    · rw [if_pos hLength] at hOut
      rw [hOut]
      exact ⟨rfl, rfl⟩
    · rw [if_neg hLength] at hOut
      exact hOut
  have hType' : d'.type = machMsgOolPortsDescriptor :=
    hSame.1.trans hType
  have hCount : d'.count = d.count := hSame.2
  refine ⟨(scatterAfter_other hPort ss).symm,
    ⟨fun hOol => absurd hOol (not_ool_of_ports hType'), ?_⟩, ?_⟩
  · intro _ hZero
    have hLength : d.portsLength = 0 := by
      unfold Descriptor.portsLength at hZero ⊢
      rw [hCount] at hZero
      exact hZero
    rw [if_pos hLength] at hOut
    rw [hOut]
    exact h.none hType hLength
  · rw [hLeaves, quiet_ports_iff hType', hCount]

/- A descriptor for which there is space is consumed. -/
theorem copyoutDescriptor_consumes
    (done rest : List Descriptor)
    (h : Queued nextAddr buffers d)
    (hSpace : ¬ NoSpace cfg (env.map done.length) d
      (scatterNext ss).1) :
    Consumes buffers
      (copyoutDescriptor cfg env done rest d ss)
      (heldBy cfg buffers d)
      (Left cfg env buffers done.length d ss) := by
  have hMemory : IsOol d → Consumes buffers
      (withRegion d ss
        (copyoutOol cfg (env.map done.length) d))
      (heldBy cfg buffers d)
      (Left cfg env buffers done.length d ss) := by
    intro hOol
    have hPort : d.isPort = false := by
      rcases hOol with hType | hType
      · exact isPort_of_type hType (by decide)
      · exact isPort_of_type hType (by decide)
    apply (takeScatter_consumes hPort).bind
    intro out hTaken
    rw [hTaken]
    exact (copyoutOol_consumes h hOol).last fun out hOut =>
      consumes_pure (left_ool h hOol hOut)
  unfold copyoutDescriptor
  split
  · rename_i hType
    rw [heldBy_port hType]
    exact (copyoutObject_consumes env.memory _ _ _).last
      fun out hOut => consumes_pure (left_port hType hOut)
  · rename_i hType
    exact hMemory (Or.inl hType)
  · rename_i hType
    exact hMemory (Or.inr hType)
  · rename_i hType
    have hPort := isPort_of_type hType (by decide)
    apply (takeScatter_consumes hPort).bind
    intro out hTaken
    rw [hTaken]
    exact (copyoutPorts_consumes done rest h hType hSpace).last
      fun out hOut => consumes_pure (left_ports h hType hOut)
  · rename_i hPort hVolatile hOol hPorts
    rcases h.type with hType | hType | hType
    · exact absurd hType hPort
    · rcases hType with hType | hType
      · exact absurd hType hVolatile
      · exact absurd hType hOol
    · exact absurd hType hPorts

theorem flatMap_quiet
    (h : ∀ x, x ∈ ds → Quiet cfg buffers x) :
    ds.flatMap (heldBy cfg buffers) = [] :=
  flatMap_eq_nil_iff.mpr fun x hx => (h x hx).1

/- Cleaning among quiet descriptors releases one's own. -/
theorem cleanBody_releases
    (hDone : ∀ x, x ∈ done →
      Emptied x ∧ Quiet cfg buffers x)
    (hRest : ∀ x, x ∈ rest →
      Emptied x ∧ Quiet cfg buffers x)
    (h : Converted nextAddr buffers d)
    (hWrapped : ¬ Wrapped d) :
    Releases buffers
      (ipcKmsgCleanBody cfg env.memory (done ++ d :: rest))
      (heldBy cfg buffers d) := by
  have hHeld : (done ++ d :: rest).flatMap
      (heldBy cfg buffers) = heldBy cfg buffers d := by
    rw [flatMap_append, flatMap_cons,
      flatMap_quiet fun x hx => (hDone x hx).2,
      flatMap_quiet fun x hx => (hRest x hx).2,
      append_nil, nil_append]
  rw [← hHeld]
  have hSplit : ∀ x, x ∈ done ++ d :: rest →
      (Emptied x ∧ Quiet cfg buffers x) ∨ x = d := by
    intro x hIn
    rcases mem_append.mp hIn with hFirst | hSecond
    · exact Or.inl (hDone x hFirst)
    · rcases mem_cons.mp hSecond with hEq | hLast
      · exact Or.inr hEq
      · exact Or.inl (hRest x hLast)
  have hAll : ∀ x, x ∈ done ++ d :: rest →
      Converted nextAddr buffers x := by
    intro x hIn
    rcases hSplit x hIn with ⟨hEmptied, hQuiet⟩ | hEq
    · exact hQuiet.converted hEmptied nextAddr
    · exact hEq ▸ h
  refine ipcKmsgCleanBody_releases _ hAll fun x hIn => ?_
  · rcases hSplit x hIn with ⟨_, hQuiet⟩ | hEq
    · exact hQuiet.2
    · exact hEq ▸ hWrapped

/- A descriptor without space is cleaned among quiet ones. -/
theorem copyoutDescriptor_cleans
    (h : Queued nextAddr buffers d)
    (hNone : NoSpace cfg (env.map done.length) d
      (scatterNext ss).1)
    (hDone : ∀ x, x ∈ done →
      Emptied x ∧ Quiet cfg buffers x)
    (hRest : ∀ x, x ∈ rest →
      Emptied x ∧ Quiet cfg buffers x) :
    Consumes buffers
      (copyoutDescriptor cfg env done rest d ss)
      (heldBy cfg buffers d)
      (Left cfg env buffers done.length d ss) := by
  have hType := hNone.1
  have hPort := isPort_of_type hType (by decide)
  rcases copyoutPorts_noSpace done rest hNone with
    ⟨mr, copy, hRun⟩
  have hConverted : Converted nextAddr buffers
      { d with copy := copy } :=
    Converted.of_ports hType (h.none hType) (h.ports hType)
  have hHeld : heldBy cfg buffers { d with copy := copy } =
      heldBy cfg buffers d := by
    rw [heldBy_ports hType]
    exact heldBy_ports hType
  have hClean : Releases buffers
      (ipcKmsgCleanBody cfg env.memory
        (done ++ { d with copy := copy } :: rest))
      (heldBy cfg buffers d) := by
    rw [← hHeld]
    exact cleanBody_releases hDone hRest hConverted
      fun hWrapped => hNone.2.1 hWrapped.2.2
  rw [copyoutDescriptor_ports hType]
  apply (takeScatter_consumes hPort).bind
  intro out hTaken
  rw [hTaken]
  dsimp only
  rw [hRun]
  apply (hClean.consumes.last fun _ _ => consumes_pure
    (Q := fun out : Nat × Descriptor => out.2 =
      { d with
        address := 0
        copy := copy }) rfl).last
  intro out hOut
  refine consumes_pure (left_ports h hType ?_)
  rw [if_neg hNone.2.1, hOut]
  exact ⟨rfl, rfl⟩

/- A tame body is consumed, each thing once. -/
theorem copyoutLoop_consumes
    (done ds : List Descriptor)
    (ss : ScatterList)
    (mr : Nat)
    (hDone : ∀ x, x ∈ done → Emptied x)
    (hBefore : before → ∀ x, x ∈ done → Quiet cfg buffers x)
    (hQueued : ∀ d, d ∈ ds → Queued nextAddr buffers d)
    (hTame : Tame cfg env buffers done.length before ds ss) :
    Consumes buffers (copyoutLoop cfg env done ds ss mr)
      (ds.flatMap (heldBy cfg buffers)) (fun _ => True) := by
  induction ds generalizing done ss mr before with
  | nil => exact consumes_pure trivial
  | cons d ds ih =>
      have h := hQueued d mem_cons_self
      have hStep : Consumes buffers
          (copyoutDescriptor cfg env done ds d ss)
          (heldBy cfg buffers d)
          (Left cfg env buffers done.length d ss) := by
        by_cases hNone : NoSpace cfg (env.map done.length) d
            (scatterNext ss).1
        · rcases hTame.1 hNone with ⟨hIs, hQuiet⟩
          apply copyoutDescriptor_cleans h hNone
          · exact fun x hx => ⟨hDone x hx, hBefore hIs x hx⟩
          · exact fun x hx =>
              ⟨(hQueued x (mem_cons_of_mem _ hx)).emptied,
                hQuiet x hx⟩
        · exact copyoutDescriptor_consumes done ds h hNone
      apply hStep.bind
      intro out hLeft
      have hNext : Tame cfg env buffers
          (done ++ [out.2.1]).length
          (before ∧ LeavesNothing cfg env done.length d
            (scatterNext ss).1) ds out.2.2 := by
        rw [hLeft.after, length_append]
        exact hTame.2
      refine ih (done ++ [out.2.1]) out.2.2 _ ?_ ?_ ?_ hNext
      · intro x hx
        rcases mem_append.mp hx with hOld | hNew
        · exact hDone x hOld
        · exact mem_singleton.mp hNew ▸ hLeft.emptied
      · intro hBoth x hx
        rcases mem_append.mp hx with hOld | hNew
        · exact hBefore hBoth.1 x hOld
        · exact mem_singleton.mp hNew ▸
            hLeft.quiet.mpr hBoth.2
      · exact fun x hx =>
          hQueued x (mem_cons_of_mem _ hx)

------
-- Bodies That Are Not Tame
------

theorem quiet_of_cleanCost
    (h : cleanCost cfg buffers d = 0) :
    Quiet cfg buffers d := by
  unfold cleanCost at h
  refine ⟨eq_nil_of_length_eq_zero (by omega), ?_⟩
  intro hWrapped
  rw [if_pos hWrapped] at h
  omega

theorem quiet_of_cleanCosts
    (h : (ds.map (cleanCost cfg buffers)).sum = 0) :
    ∀ x, x ∈ ds → Quiet cfg buffers x := by
  intro x hIn
  apply quiet_of_cleanCost
  exact sum_eq_zero_iff.mp h _ (mem_map_of_mem hIn)

/-
  A body that is not tame loses more than it holds: where
  there is no space, what the others hold is taken off twice.
-/
theorem copyoutLoop_tame
    (done ds : List Descriptor)
    (ss : ScatterList)
    (mr : Nat)
    (hDone : ∀ x, x ∈ done → Emptied x)
    (hBefore : (∀ x, x ∈ done → Quiet cfg buffers x) → before)
    (hQueued : ∀ d, d ∈ ds → Queued nextAddr buffers d)
    {r r' : Receiver}
    {rest : List Held}
    {out : Nat × List Descriptor}
    (hInv : SenderInv r.message)
    (hBuffers : r.message.buffers = buffers)
    (hHeld : r.message.held.Perm
      (ds.flatMap (heldBy cfg buffers) ++ rest))
    (hRun : copyoutLoop cfg env done ds ss mr r =
      (.ok out, r'))
    (hLeft : rest.length ≤ r'.message.held.length) :
    Tame cfg env buffers done.length before ds ss := by
  induction ds generalizing done ss mr before r with
  | nil => trivial
  | cons d ds ih =>
      have h := hQueued d mem_cons_self
      have hRest : ∀ x, x ∈ ds → Queued nextAddr buffers x :=
        fun x hx => hQueued x (mem_cons_of_mem _ hx)
      rw [flatMap_cons, append_assoc] at hHeld
      unfold copyoutLoop at hRun
      by_cases hNone : NoSpace cfg (env.map done.length) d
          (scatterNext ss).1
      · rcases of_bind_run hRun with ⟨a, u, hStep, hRun⟩
        rcases copyoutDescriptor_noSpace
            (fun x hx => (hDone x hx).none) hRest h hNone
            r a u hBuffers hStep with
          ⟨hBuffers', hCost⟩
        have hCost' := (copyoutLoop_costs _ ds _ _ hRest
          u out r' hBuffers' hRun).2
        have hTotal := hHeld.length_eq
        rw [length_append, length_append] at hTotal
        dsimp only at hCost hCost'
        have hOld : (done.map (cleanCost cfg buffers)).sum =
            0 := by omega
        have hNew : (ds.map (cleanCost cfg buffers)).sum =
            0 := by omega
        have hQuiet := quiet_of_cleanCosts hNew
        exact ⟨fun _ =>
            ⟨hBefore (quiet_of_cleanCosts hOld), hQuiet⟩,
          tame_of_quiet hQuiet _ _ _⟩
      · rcases copyoutDescriptor_consumes done ds h hNone r _
            hInv hBuffers hHeld with
          ⟨a, u, hStep, hInv', hBuffers', hHeld', _, hAfter⟩
        rw [bind_run hStep] at hRun
        refine ⟨fun hIs => absurd hIs hNone, ?_⟩
        rw [← hAfter.after]
        have hLength : done.length + 1 =
            (done ++ [a.2.1]).length := by
          rw [length_append]
          rfl
        rw [hLength]
        refine ih (done ++ [a.2.1]) a.2.2 _ ?_ ?_ hRest hInv'
          hBuffers' hHeld' hRun
        · intro x hx
          rcases mem_append.mp hx with hOld | hNew
          · exact hDone x hOld
          · exact mem_singleton.mp hNew ▸ hAfter.emptied
        · intro hQuiet
          refine ⟨hBefore fun x hx =>
            hQuiet x (mem_append_left _ hx), ?_⟩
          exact hAfter.quiet.mp (hQuiet a.2.1
            (mem_append_right _ (mem_singleton.mpr rfl)))

end Step

------
-- Consuming a Message
------

/-
  The copying out returns, the message has lost what its body
  held, and the space and the map have got what is not gone.
-/
def ConsumesAll
    (cfg : KmsgConfig)
    (env : CopyoutAnswers)
    (ds : List Descriptor)
    (ss : ScatterList)
    (message : Sender)
    (rest : List Held) : Prop :=
  ∃ out r,
    ipcKmsgCopyoutBody cfg env ds ss (Receiver.start message) =
      (.ok out, r) ∧
    r.message.held.Perm rest ∧
    ∃ gone,
      (ds.flatMap (heldBy cfg message.buffers)).Perm
        (gone ++ r.installed ++ r.mapped)

/-
  Copying out consumes everything exactly once when the body
  is tame.
-/
theorem copyout_body_consumes_iff
    (cfg : KmsgConfig)
    (env : CopyoutAnswers)
    (ds : List Descriptor)
    (ss : ScatterList)
    (message : Sender)
    (rest : List Held)
    (hInv : SenderInv message)
    (hQueued : ∀ d, d ∈ ds →
      Queued message.nextAddr message.buffers d)
    (hHeld : message.held.Perm
      (ds.flatMap (heldBy cfg message.buffers) ++ rest)) :
    ConsumesAll cfg env ds ss message rest ↔
      Tame cfg env message.buffers 0 True ds ss := by
  constructor
  · rintro ⟨out, r, hRun, hLeft, _⟩
    exact copyoutLoop_tame [] ds ss 0
      (fun x hx => absurd hx not_mem_nil)
      (fun _ => trivial) hQueued hInv rfl hHeld hRun
      (Nat.le_of_eq hLeft.length_eq.symm)
  · intro hTame
    rcases copyoutLoop_consumes [] ds ss 0
        (fun x hx => absurd hx not_mem_nil)
        (fun _ x hx => absurd hx not_mem_nil) hQueued
        hTame (Receiver.start message) rest hInv rfl hHeld with
      ⟨out, r, hRun, _, _, hLeft, hPassed, _⟩
    rcases hPassed with
      ⟨installed, mapped, gone, hInstalled, hMapped, hPerm⟩
    have hNone : (Receiver.start message).installed = [] := rfl
    have hNone' : (Receiver.start message).mapped = [] := rfl
    rw [hNone, append_nil] at hInstalled
    rw [hNone', append_nil] at hMapped
    exact ⟨out, r, hRun, hLeft, gone,
      hInstalled ▸ hMapped ▸ hPerm⟩

def lonePort : Descriptor :=
  ⟨1, 0, 0, 0, machMsgTypePortSend, machMsgPortDescriptor⟩

/- The name that the space gives, and no space in the map. -/
def spacelessAnswers : CopyoutAnswers :=
  ⟨nullAnswers, fun _ _ => .success 5, fun _ => .noSpace⟩

theorem Queued.of_port
    (nextAddr : Nat)
    (buffers : Nat → List Nat)
    (hType : d.type = machMsgPortDescriptor) :
    Queued nextAddr buffers d := by
  have hOol := not_ool_of_port hType
  have hPorts := not_ports_of_port hType
  exact
    { ool := fun h => absurd h hOol
      none := fun h => absurd h hPorts
      ports := fun h => absurd h hPorts
      type := .inl hType
      copy := fun h => absurd h hOol
      memory := fun h => absurd h hOol
      length_le := fun h => absurd h hPorts }

/- A right to send to a port is installed. -/
theorem copyout_body_consumes_port :
    ConsumesAll loneConfig spacelessAnswers [lonePort] []
      loneSender [] := by
  refine (copyout_body_consumes_iff loneConfig spacelessAnswers
    [lonePort] [] loneSender [] loneSender_inv.inv
    (fun d hMem => by
      rw [mem_singleton.mp hMem]
      exact Queued.of_port _ _ rfl)
    (List.Perm.refl _)).mpr ?_
  exact ⟨fun hNone => absurd hNone.1 (by decide), trivial⟩

/- An array of the null name. -/
def nullPorts : Descriptor :=
  ⟨1, 1, 0, 0, machMsgTypePortSend, machMsgOolPortsDescriptor⟩

def arraySender : Sender :=
  { loneSender with
    held := [.right 1 machMsgTypePortSend, .buffer 1 4]
    buffers := fun _ => [ioNull]
    nextAddr := 2 }

/-
  There is no space for the array after the right has been
  installed, and the right is given up again.
-/
theorem copyout_body_consumes_array :
    (SenderInv arraySender ∧
      (∀ d, d ∈ [lonePort, nullPorts] →
        Queued arraySender.nextAddr arraySender.buffers d) ∧
      arraySender.held.Perm
        ([lonePort, nullPorts].flatMap
          (heldBy loneConfig arraySender.buffers) ++ [])) ∧
      ¬ ConsumesAll loneConfig spacelessAnswers
        [lonePort, nullPorts] [] arraySender [] := by
  refine ⟨⟨?_, ?_, List.Perm.refl _⟩, ?_⟩
  · have hGrown := (loneSender_inv.inv.other true
      (fun _ => [ioNull]) 0 0 []).grown 0 (Nat.le_succ 1)
    refine hGrown.heldMemory fun p type => ?_
    exact (@List.count_append _ _ _ loneSender.held _).trans (by
      rfl)
  · intro d hMem
    rcases mem_pair.mp hMem with hEq | hEq
    · rw [hEq]
      exact Queued.of_port _ _ rfl
    · rw [hEq]
      exact
        { ool := by decide
          none := by decide
          ports := fun _ _ =>
            ⟨by decide, by decide, Nat.le_refl 1⟩
          type := .inr (.inr rfl)
          copy := fun h => absurd h (by unfold IsOol; decide)
          memory := fun h => absurd h (by unfold IsOol; decide)
          length_le := fun _ _ => Nat.le_refl 1 }
  · rintro ⟨out, r, hRun, _⟩
    have hStop :
        (ipcKmsgCopyoutBody loneConfig spacelessAnswers
          [lonePort, nullPorts] []
          (Receiver.start arraySender)).1 =
            .error (.trap .release) := rfl
    rw [hRun] at hStop
    cases hStop

end Ipc

end OsfMach
