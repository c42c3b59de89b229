import OsfMach.Ipc.CopyoutRuns
import OsfMach.Ipc.KmsgSizes

/-
  What copying in leaves in a queue for a user.

  A body that was copied in, for a port that is not an object
  of the kernel, has the descriptors that copying out expects,
  and holds just what they hold.

  Main declarations:
    * `Plain`
    * `convertDescriptor_plain`, `conversionPass_queued`
    * `copyin_body_queued`
    * `copyin_copyout_consumes_iff`
-/

------
-- Plain Descriptors
------

namespace OsfMach

namespace Ipc

open Lib
open Lib.Checked

variable {P : Sender → Prop} {d : Descriptor}
variable {pr' : Progress} {t : Sender}

/- What more is known of a descriptor for a user. -/
structure Plain
    (buffers : Nat → List Nat)
    (d : Descriptor) : Prop where
  type :
    d.type = machMsgPortDescriptor ∨ IsOol d ∨
      d.type = machMsgOolPortsDescriptor
  copy :
    IsOol d →
      d.copy ≠ machMsgKallocCopyT ∧
        d.copy ≠ machMsgPageListCopyT
  memory : IsOol d → d.size ≠ 0 → d.address ≠ 0
  length_le :
    d.type = machMsgOolPortsDescriptor → d.portsLength ≠ 0 →
      (buffers d.address).length ≤ d.count

section Descriptors

variable {buffers : Nat → List Nat} {nextAddr : Nat}
variable {d : Descriptor}

theorem Plain.queued
    (hPlain : Plain buffers d)
    (hConverted : Converted nextAddr buffers d) :
    Queued nextAddr buffers d :=
  ⟨hConverted, hPlain.type, hPlain.copy, hPlain.memory,
    hPlain.length_le⟩

theorem not_ool_of_kind
    {type : Nat}
    (hKind : d.type = type)
    (hNot : type ≠ machMsgOolVolatileDescriptor ∧
      type ≠ machMsgOolDescriptor) :
    ¬ IsOol d := by
  rintro (hVolatile | hOol)
  · exact hNot.1 (hKind.symm.trans hVolatile)
  · exact hNot.2 (hKind.symm.trans hOol)

theorem Plain.of_port
    (hKind : d.type = machMsgPortDescriptor) :
    Plain buffers d := by
  have hNot : ¬ IsOol d :=
    not_ool_of_kind hKind ⟨by decide, by decide⟩
  refine ⟨.inl hKind, fun h => absurd h hNot,
    fun h => absurd h hNot, fun hPorts => ?_⟩
  exact absurd (hKind.symm.trans hPorts) (by decide)

theorem Plain.of_ool
    (hKind : IsOol d)
    (hCopy : d.copy = machMsgPhysicalCopy ∨
      d.copy = machMsgVirtualCopy)
    (hMemory : d.size ≠ 0 → d.address ≠ 0) :
    Plain buffers d := by
  refine ⟨.inr (.inl hKind), fun _ => ?_, fun _ => hMemory,
    fun hPorts => ?_⟩
  · rcases hCopy with hPhysical | hVirtual
    · rw [hPhysical]
      decide
    · rw [hVirtual]
      decide
  · have hNot : ¬ IsOol d :=
      not_ool_of_kind hPorts ⟨by decide, by decide⟩
    exact absurd hKind hNot

theorem Plain.of_ports
    (hKind : d.type = machMsgOolPortsDescriptor)
    (hLength : d.portsLength ≠ 0 →
      (buffers d.address).length ≤ d.count) :
    Plain buffers d := by
  have hNot : ¬ IsOol d :=
    not_ool_of_kind hKind ⟨by decide, by decide⟩
  exact ⟨.inr (.inr hKind), fun h => absurd h hNot,
    fun h => absurd h hNot, fun _ => hLength⟩

end Descriptors

------
-- Conversions
------

section Conversions

variable {cfg : KmsgConfig} {env : KmsgAnswers} {pr : Progress}
variable {d : Descriptor}

/- A conversion that is not refused adds a plain one. -/
def AddsPlain
    (pr : Progress)
    (r : Except Refusal Progress)
    (t : Sender) : Prop :=
  ∀ pr', r = .ok pr' →
    ∃ d', pr'.done = pr.done ++ [d'] ∧ Plain t.buffers d'

theorem addsPlain_refuse
    {mr : MachMsgReturn} :
    AddsPlain pr (pr'.refuse mr) t := by
  intro pr'' hEq
  cases hEq

theorem addsPlain_accept
    {d' : Descriptor}
    (hDone : pr'.done = pr.done)
    (h : Plain t.buffers d') :
    AddsPlain pr (pr'.accept d') t := by
  intro pr'' hEq
  cases hEq
  exact ⟨d', congrArg (· ++ [d']) hDone, h⟩

/- There is an address to give. -/
def HasAddr (s : Sender) : Prop :=
  0 < s.nextAddr

theorem ask_hasAddr :
    Yields HasAddr (ask env) fun _ => HasAddr := by
  have hKeeps : Keeps Sender.nextAddr (ask env) :=
    fun _ => rfl
  exact hKeeps.yields fun n => 0 < n

theorem copyinUser_hasAddr
    {addr length : Nat} :
    Yields HasAddr (copyinUser env addr length)
      fun _ => HasAddr := by
  have hKeeps :
      Keeps Sender.nextAddr (copyinUser env addr length) :=
    fun _ => rfl
  exact hKeeps.yields fun n => 0 < n

/- A new address is not null. -/
theorem freshAddr_pos
    {size : Nat} :
    Yields HasAddr (freshAddr size)
      fun addr _ => addr ≠ 0 := by
  intro s hPos a t hRun
  cases hRun
  exact Nat.pos_iff_ne_zero.mp hPos

theorem convertPort_plain
    (hKind : d.type = machMsgPortDescriptor) :
    Yields P (convertPort env pr d) (AddsPlain pr) := by
  refine Yields.after fun type => ?_
  refine yields_ite ?_ ?_
  · intro _
    exact yields_pure fun _ _ =>
      addsPlain_accept rfl (.of_port hKind)
  · intro _
    refine Yields.after fun out => ?_
    refine yields_ite ?_ ?_
    · intro _
      exact yields_pure fun _ _ => addsPlain_refuse
    · intro _
      refine Yields.after fun circular => ?_
      exact yields_pure fun _ _ =>
        addsPlain_accept rfl (.of_port hKind)

section

variable (hKind : IsOol d)
include hKind

theorem convertCopy_plain
    (hCopy : d.copy = machMsgPhysicalCopy ∨
      d.copy = machMsgVirtualCopy) :
    Yields HasAddr (convertCopy env pr d) (AddsPlain pr) := by
  refine Yields.bind ask_hasAddr fun granted => ?_
  refine yields_ite ?_ ?_
  · intro _
    exact yields_pure fun _ _ => addsPlain_refuse
  · intro _
    refine Yields.bind freshAddr_pos fun copy => ?_
    refine Yields.bind yields_fact fun _ => ?_
    exact yields_pure fun _ hNe =>
      addsPlain_accept rfl (.of_ool hKind hCopy fun _ => hNe)

theorem convertSmall_plain
    (hCopy : d.copy = machMsgPhysicalCopy) :
    Yields HasAddr (convertSmall cfg env 0 pr d)
      (AddsPlain pr) := by
  refine yields_require fun _ => ?_
  refine Yields.bind ask_hasAddr fun granted => ?_
  refine yields_ite ?_ ?_
  · intro _
    exact yields_pure fun _ _ => addsPlain_refuse
  intro _
  refine Yields.bind copyinUser_hasAddr fun copied => ?_
  refine yields_ite ?_ ?_
  · intro _
    exact yields_pure fun _ _ => addsPlain_refuse
  intro _
  refine Yields.bind freshAddr_pos fun kaddr => ?_
  refine yields_ite ?_ ?_
  · intro hKobject
    exact absurd hKobject (by decide)
  intro _
  refine Yields.bind yields_fact fun _ => ?_
  exact yields_pure fun _ hNe =>
    addsPlain_accept rfl
      (.of_ool hKind (.inl hCopy) fun _ => hNe)

theorem convertPhysical_plain
    (hCopy : d.copy = machMsgPhysicalCopy) :
    Yields HasAddr (convertPhysical env pr d)
      (AddsPlain pr) := by
  refine Yields.bind copyinUser_hasAddr fun copied => ?_
  refine yields_ite ?_ ?_
  · intro _
    exact yields_pure fun _ _ => addsPlain_refuse
  intro _
  refine yields_require fun _ => ?_
  refine Yields.bind ask_hasAddr fun granted => ?_
  refine yields_ite ?_ ?_
  · intro _
    exact yields_pure fun _ _ => addsPlain_refuse
  intro _
  refine Yields.bind freshAddr_pos fun copy => ?_
  -- the address is known, whatever becomes of the region
  refine Yields.bind yields_fact fun _ => ?_
  refine Yields.bind yields_fact fun _ => ?_
  refine Yields.bind yields_fact fun _ => ?_
  refine yields_pure fun _ hNe => ?_
  exact addsPlain_accept rfl
    (.of_ool hKind (.inl hCopy) fun _ => hNe)

theorem convertOol_plain
    (hCopy : d.copy = machMsgPhysicalCopy ∨
      d.copy = machMsgVirtualCopy) :
    Yields HasAddr (convertOol cfg env 0 pr d)
      (AddsPlain pr) := by
  refine yields_ite ?_ ?_
  · intro _
    refine yields_pure fun _ _ pr' hEq => ?_
    cases hEq
  intro _
  refine yields_ite ?_ ?_
  · intro hSize
    exact yields_pure fun _ _ =>
      addsPlain_accept rfl
        (.of_ool hKind hCopy fun hNe => absurd hSize hNe)
  intro _
  refine yields_ite ?_ ?_
  · intro hLists
    exact absurd hLists (by decide)
  intro _
  refine yields_ite ?_ ?_
  · intro hSmall
    exact convertSmall_plain hKind hSmall.2
  intro _
  refine yields_ite ?_ ?_
  · intro hPhysical
    exact convertPhysical_plain hKind hPhysical.1
  intro _
  refine yields_ite ?_ ?_
  · intro _
    exact yields_pure fun _ _ => addsPlain_refuse
  · intro _
    exact convertCopy_plain hKind hCopy

end

/- As many names are read as the length has words. -/
theorem readNames_length :
    Returns
      (fun r => ∀ data names, r = .ok (data, names) →
        names.length = d.portsLength / 4)
      (readNames env d) := by
  refine returns_bind fun granted => ?_
  refine returns_ite ?_ ?_
  · intro _
    refine returns_pure fun _ _ hEq => ?_
    cases hEq
  intro _
  refine returns_bind fun data => ?_
  refine returns_bind fun _ => ?_
  refine returns_bind fun s => ?_
  refine returns_bind fun copied => ?_
  refine returns_ite ?_ ?_
  · intro _
    refine returns_bind fun _ => ?_
    refine returns_pure fun _ _ hEq => ?_
    cases hEq
  · intro _
    refine returns_pure fun _ _ hEq => ?_
    cases hEq
    rw [List.length_map, List.length_range]

/- Every name that is accepted gives one object. -/
theorem convertNames_length
    {disposition type : Nat}
    (names : List Nat)
    (objects : List Nat)
    (circular : Bool) :
    Returns
      (fun r => ∀ objects' circular',
        r = some (objects', circular') →
          objects'.length = objects.length + names.length)
      (convertNames env disposition type objects circular
        names) := by
  induction names generalizing objects circular with
  | nil =>
      refine returns_pure fun _ _ hEq => ?_
      cases hEq
      rfl
  | cons port ports ih =>
      have hStep : ∀ (object : Nat) (circular : Bool),
          Returns
            (fun r => ∀ objects' circular',
              r = some (objects', circular') →
                objects'.length =
                  objects.length + (port :: ports).length)
            (convertNames env disposition type
              (objects ++ [object]) circular ports) := by
        intro object circular
        have hRest := ih (objects ++ [object]) circular
        rw [List.length_append, List.length_singleton,
          Nat.add_assoc, Nat.add_comm 1] at hRest
        exact hRest
      refine returns_ite ?_ ?_
      · intro _
        exact hStep port circular
      intro _
      refine returns_bind fun out => ?_
      refine returns_ite ?_ ?_
      · intro _
        refine returns_bind fun _ => ?_
        refine returns_pure fun _ _ hEq => ?_
        cases hEq
      · intro _
        exact returns_bind fun circular =>
          hStep out.2 circular

theorem keepNames_plain
    {data type : Nat}
    {r : Option (List Nat × Bool)}
    (hKind : d.type = machMsgOolPortsDescriptor)
    (hLength : ∀ objects circular,
      r = some (objects, circular) →
        objects.length ≤ d.count) :
    Yields P (keepNames pr d data type r)
      (AddsPlain pr) := by
  cases r with
  | none =>
      refine Yields.after fun _ => ?_
      exact yields_pure fun _ _ => addsPlain_refuse
  | some kept =>
      rcases kept with ⟨objects, circular⟩
      refine yields_require fun _ => ?_
      have hKept : Yields P
          (change fun s => { s with
            buffers :=
              Function.update s.buffers data objects } :
                KmsgProg Unit)
          fun _ t => t.buffers data = objects :=
        yields_change fun s _ => Function.update_self _ _ _
      refine Yields.bind hKept fun _ => ?_
      refine yields_pure fun t hBuffer => ?_
      refine addsPlain_accept rfl (.of_ports hKind fun _ => ?_)
      rw [hBuffer]
      exact hLength objects circular rfl

theorem convertPorts_plain
    (hKind : d.type = machMsgOolPortsDescriptor) :
    Yields P (convertPorts env pr d) (AddsPlain pr) := by
  refine yields_ite ?_ ?_
  · intro hNone
    refine yields_pure fun _ _ => ?_
    exact addsPlain_accept rfl
      (.of_ports hKind fun hSome => absurd hNone hSome)
  intro _
  refine Yields.bind readNames_length.yields fun r => ?_
  cases r with
  | error mr =>
      exact yields_pure fun _ _ => addsPlain_refuse
  | ok read =>
      rcases read with ⟨data, names⟩
      refine yields_of_fact fun hRead => ?_
      have hNames := hRead data names rfl
      have hShort : names.length ≤ d.count := by
        unfold Descriptor.portsLength at hNames
        omega
      refine Yields.after fun type => ?_
      refine Yields.bind
        (convertNames_length names [] pr.circular).yields
        fun accepted => ?_
      refine yields_of_fact fun hAccepted => ?_
      refine keepNames_plain hKind fun objects circular hEq => ?_
      have hSame := hAccepted objects circular hEq
      rw [List.length_nil] at hSame
      omega

/- A conversion for a port that no kernel object is behind. -/
theorem convertDescriptor_plain
    (hCopy : IsOol d → d.copy = machMsgPhysicalCopy ∨
      d.copy = machMsgVirtualCopy) :
    Yields HasAddr (convertDescriptor cfg env 0 pr d)
      (AddsPlain pr) := by
  unfold convertDescriptor
  split
  · rename_i hKind
    exact convertPort_plain hKind
  · rename_i hKind
    exact convertOol_plain (.inl hKind) (hCopy (.inl hKind))
  · rename_i hKind
    exact convertOol_plain (.inr hKind) (hCopy (.inr hKind))
  · rename_i hKind
    exact convertPorts_plain hKind
  · exact yields_pure fun _ _ => addsPlain_refuse

end Conversions

------
-- The Passes
------

section Passes

variable {cfg : KmsgConfig} {env : KmsgAnswers}
variable {header : HeaderPorts} {pr : Progress} {s t : Sender}

theorem Plain.mono
    (h : Plain s.buffers d)
    (hConverted : Converted s.nextAddr s.buffers d)
    (hFrame : Frame s t) :
    Plain t.buffers d := by
  refine ⟨h.type, h.copy, h.memory, fun hType hLength => ?_⟩
  have hUsed := (hConverted.ports hType hLength).2.1
  rw [hFrame.buffers _ hUsed]
  exact h.length_le hType hLength

theorem judged_after
    {α : Type}
    {x : KmsgProg α}
    {tame polite : Prop}
    {good : α → Sender → Prop}
    {back : Sender → Prop}
    (h : Ends x s (Judged tame polite good back)) :
    After x s good := by
  intro a u hRun
  unfold Ends at h
  rw [hRun] at h
  exact h.2.2

/- Every kind of copy that passes is known. -/
def KnownCopies (ds : List (Nat × Descriptor)) : Prop :=
  ∀ x, x ∈ ds → IsOol x.2 →
    x.2.copy = machMsgPhysicalCopy ∨
      x.2.copy = machMsgVirtualCopy

theorem knownCopies_cons
    {x : Nat × Descriptor}
    {ds : List (Nat × Descriptor)}
    (hFirst : IsOol x.2 →
      x.2.copy = machMsgPhysicalCopy ∨
        x.2.copy = machMsgVirtualCopy)
    (h : KnownCopies ds) :
    KnownCopies (x :: ds) := by
  intro y hMem
  rcases List.mem_cons.mp hMem with hEq | hRest
  · exact hEq ▸ hFirst
  · exact h y hRest

theorem isOol_iff :
    d.isOol = true ↔ IsOol d := by
  unfold Descriptor.isOol IsOol
  rw [decide_eq_true_eq]
  exact or_comm

theorem sizingPass_known
    {pageLists : Bool}
    (ds : List (Nat × Descriptor))
    (spaceNeeded : Nat) :
    Returns (fun _ => KnownCopies ds)
      (sizingPass cfg env header pageLists ds spaceNeeded) := by
  induction ds generalizing spaceNeeded with
  | nil =>
      refine returns_pure fun x hMem => ?_
      exact absurd hMem List.not_mem_nil
  | cons first ds ih =>
      rcases first with ⟨addr, d⟩
      refine returns_bind fun _ => ?_
      refine returns_ite ?_ ?_
      · intro hOol
        refine returns_require fun _ => ?_
        refine returns_ite ?_ ?_
        · intro _
          exact failBody_not_ok _
        intro hKnown
        have hFirst : IsOol d →
            d.copy = machMsgPhysicalCopy ∨
              d.copy = machMsgVirtualCopy := by
          intro _
          by_contra hNone
          exact hKnown (not_or.mp hNone)
        have hRest := fun spaceNeeded =>
          (ih spaceNeeded).mono fun _ h =>
            knownCopies_cons (x := (addr, d)) hFirst h
        refine returns_ite ?_ ?_
        · intro _
          refine returns_ite ?_ ?_
          · intro _
            exact failBody_not_ok _
          · intro _
            exact hRest _
        · intro _
          exact hRest _
      · intro hOol
        exact (ih spaceNeeded).mono fun _ h =>
          knownCopies_cons
            (fun hIs => absurd (isOol_iff.mpr hIs) hOol) h

/- What a pass has done so far is for a user. -/
structure QueuedInv
    (cfg : KmsgConfig)
    (header : HeaderPorts)
    (pr : Progress)
    (s : Sender) : Prop where
  pass : PassInv cfg header pr s
  plain : ∀ d, d ∈ pr.done → Plain s.buffers d

theorem QueuedInv.queued
    (h : QueuedInv cfg header pr s)
    (hMem : d ∈ pr.done) :
    Queued s.nextAddr s.buffers d :=
  (h.plain d hMem).queued (h.pass.converted d hMem)

/- One descriptor of the second pass. -/
theorem convertDescriptor_queued
    (hCopy : IsOol d → d.copy = machMsgPhysicalCopy ∨
      d.copy = machMsgVirtualCopy) :
    Yields (QueuedInv cfg header pr)
      (convertDescriptor cfg env 0 pr d)
      fun r t => ∀ pr', r = .ok pr' →
        QueuedInv cfg header pr' t := by
  intro s h r t hRun pr' hEq
  have hStep := judged_after
    (convertDescriptor_judged env 0 d h.pass) r t hRun
  subst hEq
  rcases hStep with ⟨hFrame, hPass⟩
  rcases convertDescriptor_plain hCopy s h.pass.inv.nextAddr
      _ t hRun pr' rfl with
    ⟨d', hDone, hPlain⟩
  refine ⟨hPass, fun x hMem => ?_⟩
  rw [hDone] at hMem
  rcases List.mem_append.mp hMem with hOld | hNew
  · exact (h.plain x hOld).mono (h.pass.converted x hOld)
      hFrame
  · rw [List.mem_singleton.mp hNew]
    exact hPlain

/- The second pass, by induction on the descriptors left. -/
theorem conversionPass_queued
    (ds : List (Nat × Descriptor))
    (hKnown : KnownCopies ds)
    (pr : Progress) :
    Yields (QueuedInv cfg header pr)
      (conversionPass cfg env header 0 ds pr)
      (QueuedInv cfg header) := by
  induction ds generalizing pr with
  | nil =>
      exact yields_pure fun _ h => h
  | cons first ds ih =>
      rcases first with ⟨addr, d⟩
      have hTouch : Yields (QueuedInv cfg header pr)
          (touch addr) fun _ => QueuedInv cfg header pr :=
        yields_change fun s h =>
          ⟨h.pass.touched _, h.plain⟩
      refine Yields.bind hTouch fun _ => ?_
      have hFirst := hKnown (addr, d) List.mem_cons_self
      have hRest : KnownCopies ds :=
        fun x hMem => hKnown x (List.mem_cons_of_mem _ hMem)
      refine Yields.bind (convertDescriptor_queued hFirst)
        fun r => ?_
      cases r with
      | ok pr' =>
          exact fun s h => ih hRest pr' s (h pr' rfl)
      | error no =>
          intro s _ a t hRun
          exact absurd hRun
            (fun hIs => failBody_not_ok (fun _ => False)
              s a t hIs)

/- Both passes, for a port that no kernel object is behind. -/
theorem copyinDescriptors_queued
    (ds : List (Nat × Descriptor)) :
    Yields
      (fun s => HeaderInv header s ∧
        (s.ports header.remotePort).ipKotype = 0)
      (copyinDescriptors cfg env header ds)
      (QueuedInv cfg header) := by
  rintro s ⟨hHeader, hUser⟩
  unfold copyinDescriptors
  intro pr t hRun
  rw [bind_run read_run, hUser] at hRun
  have hSizing : Yields (HeaderInv header)
      (sizingPass cfg env header (takesPageLists 0) ds 0)
      fun _ u => HeaderInv header u ∧ KnownCopies ds := by
    intro u hInv n v hSized
    exact ⟨(judged_after (sizingPass_judged _ ds 0 hInv)
        n v hSized).2,
      sizingPass_known ds 0 u n v hSized⟩
  have hSpace : ∀ n, Yields
      (fun u => HeaderInv header u ∧ KnownCopies ds)
      (allocateSpace cfg env header n)
      fun paddr u =>
        PassInv cfg header ⟨[], paddr, n, false, false⟩ u ∧
          KnownCopies ds := by
    intro n u hSized paddr v hRun
    exact ⟨(judged_after (allocateSpace_judged n hSized.1)
        paddr v hRun).2,
      hSized.2⟩
  have hPass : ∀ n paddr, Yields
      (fun u =>
        PassInv cfg header ⟨[], paddr, n, false, false⟩ u ∧
          KnownCopies ds)
      (conversionPass cfg env header 0 ds
        ⟨[], paddr, n, false, false⟩)
      (QueuedInv cfg header) := by
    intro n paddr u hNone
    exact conversionPass_queued ds hNone.2 _ u
      ⟨hNone.1, fun x hMem => absurd hMem List.not_mem_nil⟩
  have hBoth := Yields.bind hSizing fun n =>
    Yields.bind (hSpace n) (hPass n)
  exact hBoth s hHeader pr t hRun

/-
  A body that was copied in, for a port that no object of the
  kernel is behind, has descriptors for a user, and what it
  holds is what they, the header and the region hold.
-/
theorem copyin_body_queued
    (memory : Nat → Descriptor)
    (msgh msghSize descriptorCount : Nat)
    (hHeader : HeaderInv header s)
    (hUser : (s.ports header.remotePort).ipKotype = 0)
    (hRun : ipcKmsgCopyinBody cfg env header memory msgh
      msghSize descriptorCount s = (.ok pr, t)) :
    SenderInv t ∧
      (∀ d, d ∈ pr.done → Queued t.nextAddr t.buffers d) ∧
      t.held.Perm
        (pr.done.flatMap (heldBy cfg t.buffers) ++
          (header.held ++
            heldRegion pr.paddr pr.spaceNeeded)) := by
  have hBody : Yields
      (fun s => HeaderInv header s ∧
        (s.ports header.remotePort).ipKotype = 0)
      (ipcKmsgCopyinBody cfg env header memory msgh msghSize
        descriptorCount)
      (QueuedInv cfg header) := by
    refine yields_ite ?_ ?_
    · intro _ s _ a t hStop
      exact (failBody_not_ok (fun _ => False) s a t hStop).elim
    · intro _
      exact copyinDescriptors_queued _
  have hInv := hBody s ⟨hHeader, hUser⟩ pr t hRun
  refine ⟨hInv.pass.inv, fun d hMem => hInv.queued hMem, ?_⟩
  exact hInv.pass.held.trans List.perm_append_comm

variable (env) in
/-
  From the sender to the receiver: after a body was copied in
  for a user the names and what the message holds account for
  the rights of each port, and copying it out consumes what
  it took, each thing once, exactly when the body is tame.
-/
theorem copyin_copyout_consumes_iff
    (answers : CopyoutAnswers)
    (ss : ScatterList)
    (memory : Nat → Descriptor)
    (msgh msghSize descriptorCount : Nat)
    (hHeader : HeaderInv header s)
    (hUser : (s.ports header.remotePort).ipKotype = 0)
    (hRun : ipcKmsgCopyinBody cfg env header memory msgh
      msghSize descriptorCount s = (.ok pr, t)) :
    SenderInv t ∧
      (ConsumesAll cfg answers pr.done ss t
          (header.held ++ heldRegion pr.paddr pr.spaceNeeded) ↔
        Tame cfg answers t.buffers 0 True pr.done ss) := by
  rcases copyin_body_queued memory msgh msghSize
    descriptorCount hHeader hUser hRun with
    ⟨hInv, hQueued, hHeld⟩
  refine ⟨hInv, ?_, ?_⟩
  · rintro ⟨out, r, hOut, hLeft, _⟩
    exact copyoutLoop_tame [] pr.done ss 0
      (fun x hx => absurd hx List.not_mem_nil)
      (fun _ => trivial) hQueued hInv rfl hHeld hOut
      (Nat.le_of_eq hLeft.length_eq.symm)
  · intro hTame
    rcases copyoutLoop_consumes [] pr.done ss 0
        (fun x hx => absurd hx List.not_mem_nil)
        (fun _ x hx => absurd hx List.not_mem_nil) hQueued
        hTame (Receiver.start t) _ hInv rfl hHeld with
      ⟨out, r, hOut, _, _, hLeft, hPassed, _⟩
    rcases hPassed with
      ⟨installed, mapped, gone, hInstalled, hMapped, hPerm⟩
    have hMine : r.installed = installed :=
      hInstalled.trans (List.append_nil _)
    have hTheirs : r.mapped = mapped :=
      hMapped.trans (List.append_nil _)
    rw [← hMine, ← hTheirs] at hPerm
    exact ⟨out, r, hOut, hLeft, gone, hPerm⟩

end Passes

/- A page of memory is sent, and then mapped or not. -/
def onePage : Descriptor :=
  ⟨8192, 4096, 0, machMsgVirtualCopy, 0, machMsgOolDescriptor⟩

theorem copyin_copyout_consumes_page :
    ∃ pr t,
      ipcKmsgCopyinBody loneConfig nullAnswers loneHeader
          (fun _ => onePage) 65536 40 1 loneSender =
        (.ok pr, t) ∧
      (SenderInv t ∧
        (ConsumesAll loneConfig spacelessAnswers pr.done [] t
            (loneHeader.held ++
              heldRegion pr.paddr pr.spaceNeeded) ↔
          Tame loneConfig spacelessAnswers t.buffers 0 True
            pr.done [])) := by
  refine ⟨_, _, rfl, ?_⟩
  exact copyin_copyout_consumes_iff nullAnswers
    spacelessAnswers [] (fun _ => onePage) 65536 40 1
    loneSender_inv rfl rfl

end Ipc

end OsfMach
