import OsfMach.Ipc.KmsgNames

/-
  Copying the body of a message in accounts for all that it
  takes, where every descriptor is tame.

  Main declarations:
    * `PassInv`, `StepOk`
    * `TameDescriptor`, `PoliteDescriptor`
    * `AtDescriptors`
    * `convertDescriptor_judged`
    * `conversionPass_judged`
    * `ipcKmsgCopyinBody_judged`
-/

------
-- The Account of the Second Pass
------

namespace OsfMach

namespace Ipc

open Function
open List
open Lib
open Lib.Checked

variable {mr : MachMsgReturn} {d' : Descriptor}
variable {buffers : Nat → List Nat} {nextAddr ikot : Nat}
variable {names : List Nat}
variable {circular : Bool} {type : Nat} {u : Sender}
variable {data : Nat} {P : List Nat → Sender → Prop}

/- What the message holds between two descriptors. -/
structure PassInv
    (cfg : KmsgConfig)
    (header : HeaderPorts)
    (pr : Progress)
    (s : Sender) : Prop where
  inv : SenderInv s
  converted : ∀ d, d ∈ pr.done →
    Converted s.nextAddr s.buffers d
  space : pr.spaceNeeded ≠ 0 → pr.paddr ≠ 0
  rt : cfg.rt = true → pr.spaceNeeded = 0
  held : s.held.Perm
    (header.held ++ heldRegion pr.paddr pr.spaceNeeded ++
      pr.done.flatMap (heldBy cfg s.buffers))

/- What it holds when a descriptor is refused. -/
structure RefusalOk
    (cfg : KmsgConfig)
    (header : HeaderPorts)
    (done : List Descriptor)
    (no : Refusal)
    (s : Sender) : Prop where
  inv : SenderInv s
  converted : ∀ d, d ∈ done →
    Converted s.nextAddr s.buffers d
  held : s.held.Perm
    (header.held ++ heldRegion no.paddr no.length ++
      done.flatMap (heldBy cfg s.buffers))

/- What the conversion of a descriptor leaves. -/
def StepOk
    (cfg : KmsgConfig)
    (header : HeaderPorts)
    (pr : Progress)
    (s : Sender) :
    Except Refusal Progress → Sender → Prop
| .ok pr', t => Frame s t ∧ PassInv cfg header pr' t
| .error no, t =>
    Frame s t ∧ RefusalOk cfg header pr.done no t

section Steps

variable {cfg : KmsgConfig} {env : KmsgAnswers}
variable {header : HeaderPorts} {pr : Progress} {s t : Sender}
variable {d : Descriptor}

section

variable (h : PassInv cfg header pr s)
include h

theorem PassInv.done_mono
    (hFrame : Frame s t) :
    (∀ d, d ∈ pr.done → Converted t.nextAddr t.buffers d) ∧
      pr.done.flatMap (heldBy cfg t.buffers) =
        pr.done.flatMap (heldBy cfg s.buffers) := by
  constructor
  · intro d hIn
    exact (h.converted d hIn).mono hFrame
  · rw [flatMap_def, flatMap_def]
    congr 1
    apply map_congr_left
    intro d hIn
    exact heldBy_mono (h.converted d hIn) hFrame

/- A refused descriptor has taken nothing. -/
theorem PassInv.refused
    (hFrame : Frame s t)
    (hInv : SenderInv t)
    (hHeld : t.held.Perm s.held) :
    StepOk cfg header pr s (pr.refuse mr) t := by
  rcases h.done_mono hFrame with ⟨hDone, hSame⟩
  refine ⟨hFrame, hInv, hDone, ?_⟩
  rw [hSame]
  exact hHeld.trans h.held

/- An accepted descriptor holds what was taken. -/
theorem PassInv.accepted
    (hFrame : Frame s t)
    (hInv : SenderInv t)
    (hConverted : Converted t.nextAddr t.buffers d')
    (hHeld : t.held.Perm
      (heldBy cfg t.buffers d' ++ s.held)) :
    StepOk cfg header pr s
      ({ pr with circular := circular }.accept d') t := by
  rcases h.done_mono hFrame with ⟨hDone, hSame⟩
  refine ⟨hFrame, hInv, ?_, h.space, h.rt, ?_⟩
  · intro d hIn
    rcases mem_append.mp hIn with hOld | hNew
    · exact hDone d hOld
    · rw [mem_singleton.mp hNew]
      exact hConverted
  · have hAppend : (pr.done ++ [d']).flatMap
        (heldBy cfg t.buffers) =
          pr.done.flatMap (heldBy cfg s.buffers) ++
            heldBy cfg t.buffers d' := by
      rw [flatMap_append, hSame, flatMap_cons,
        flatMap_nil, append_nil]
    have hGoal := (h.held.append_left
      (heldBy cfg t.buffers d')).trans perm_append_comm
    rw [append_assoc _ _ (heldBy cfg t.buffers d'),
      ← hAppend] at hGoal
    exact hHeld.trans hGoal

end

------
-- Port Descriptors
------

theorem heldBy_port
    (hKind : d.type = machMsgPortDescriptor) :
    heldBy cfg buffers d =
      heldObjects d.disposition [d.name] := by
  cases d
  subst hKind
  rfl

theorem Converted.of_port
    (hKind : d.type = machMsgPortDescriptor) :
    Converted nextAddr buffers d := by
  constructor
  · intro hOol
    rw [hKind] at hOol
    simp at hOol
  · intro hPorts
    rw [hKind] at hPorts
    simp at hPorts
  · intro hPorts
    rw [hKind] at hPorts
    simp at hPorts

def PolitePort
    (d : Descriptor)
    (s : Sender) : Prop :=
  KnownType d.disposition ∧
    (ioValid d.name = true →
      PoliteName d.disposition d.name s)

theorem liftTrap_run
    {α : Type}
    (x : Except Trap α)
    (a : α)
    (h : x = .ok a) :
    liftTrap x s = (.ok a, s) := by
  rw [h]
  rfl

theorem liftTrap_stop
    {α : Type}
    (x : Except Trap α)
    (trap : Trap)
    (h : x = .error trap) :
    liftTrap x s = (.error (.trap trap), s) := by
  rw [h]
  rfl

theorem convertPort_judged
    (h : PassInv cfg header pr s)
    (hKind : d.type = machMsgPortDescriptor) :
    Ends (convertPort env pr d) s
      (Judged True (PolitePort d s) (StepOk cfg header pr s)
        fun _ => False) := by
  by_cases hKnown : KnownType d.disposition
  · rcases ipcObjectCopyinType_known.mpr hKnown with
      ⟨type, hType⟩
    refine ends_after (liftTrap_run _ type hType) ?_
    dsimp only
    by_cases hName : ioValid d.name = true
    · rw [if_neg (by simp [hName])]
      rcases ipcObjectCopyin_cases d.name h.inv hType with
        ⟨hPolite, kr, object, t, hRun, hIn⟩ | ⟨hRude, hRun⟩
      · refine ends_after hRun ?_
        by_cases hSuccess : kr = .success
        · rw [if_neg (not_not_intro hSuccess)]
          rcases checkCircular_run env type
              pr.circular hIn.inv with
            ⟨found, u, hCheck, hInv', hFrame', hSame, _⟩
          refine ends_after hCheck ?_
          apply judged_pure trivial
            ⟨hKnown, fun _ => hPolite⟩
          refine h.accepted (hIn.frame.trans hFrame') hInv'
            (.of_port hKind) ?_
          have hHolds : heldBy cfg u.buffers
              { d with address := object, disposition := type } =
                heldObjects type [object] := heldBy_port hKind
          rw [hHolds, hSame, hIn.held]
          unfold heldIf
          rw [if_pos hSuccess]
        · rw [if_pos hSuccess]
          apply judged_pure trivial
            ⟨hKnown, fun _ => hPolite⟩
          refine h.refused hIn.frame hIn.inv ?_
          rw [hIn.held]
          unfold heldIf
          rw [if_neg hSuccess]
          rfl
      · refine judged_run (bind_stop hRun _) ⟨trivial, ?_⟩
        exact fun hPolite => hRude (hPolite.2 hName)
    · have hInvalid : ioValid d.name = false := by
        simpa using hName
      rw [if_pos (by simp [hInvalid])]
      apply judged_pure trivial
        ⟨hKnown, fun hValid => absurd hValid hName⟩
      refine h.accepted (Frame.refl s) h.inv
        (.of_port hKind) ?_
      have hHolds : heldBy cfg s.buffers
          { d with disposition := type } =
            heldObjects type [d.name] := heldBy_port hKind
      rw [hHolds, heldObjects_invalid hInvalid, nil_append]
  · refine judged_run (bind_stop
      (liftTrap_stop _ _ (ipcObjectCopyinType_unknown hKnown))
        _) ⟨trivial, ?_⟩
    exact fun hPolite => hKnown hPolite.1

------
-- Out-of-Line Memory
------

def IsOol (d : Descriptor) : Prop :=
  d.type = machMsgOolVolatileDescriptor ∨
    d.type = machMsgOolDescriptor

theorem heldBy_ool
    (hKind : IsOol d) :
    heldBy cfg buffers d =
      if d.size = 0 then []
      else if d.copy = machMsgPhysicalCopy ∧
          d.size < cfg.msgOolSizeSmall then
        [.buffer d.address d.size]
      else heldCopy d.address := by
  cases d
  rcases hKind with hType | hType
  · subst hType
    rfl
  · subst hType
    rfl

theorem Converted.of_ool
    (hKind : IsOol d)
    (hSize : d.size = 0 → d.address = 0) :
    Converted nextAddr buffers d := by
  have hNot : d.type ≠ machMsgOolPortsDescriptor := by
    intro hPorts
    rcases hKind with hType | hType
    · rw [hType] at hPorts
      simp at hPorts
    · rw [hType] at hPorts
      simp at hPorts
  exact ⟨fun _ => hSize, fun hPorts => absurd hPorts hNot,
    fun hPorts => absurd hPorts hNot⟩

/- Memory is taken at a new address. -/
theorem PassInv.took
    {kept : Held}
    (asked length : Nat)
    (h : PassInv cfg header pr s)
    (hHolds : heldBy cfg s.buffers d' = [kept])
    (hKind : IsOol d')
    (hSize : d'.size ≠ 0)
    (hMemory : ∀ p type, kept ≠ .right p type) :
    StepOk cfg header pr s (pr.accept d')
      { s with
        asked := asked
        nextAddr := s.nextAddr + length + 1
        held := kept :: s.held } := by
  have hCount : ∀ p type,
      (kept :: s.held).count (.right p type) =
        s.held.count (.right p type) := by
    intro p type
    exact count_cons_of_ne (hMemory p type)
  refine h.accepted (.of_eq rfl rfl rfl ?_ rfl) ?_
    (.of_ool hKind fun hZero => absurd hZero hSize) ?_
  · dsimp only
    omega
  · exact (h.inv.heldMemory hCount).grown asked (by
      dsimp only
      omega)
  · rw [hHolds]
    rfl

theorem PassInv.gaveUp
    (h : PassInv cfg header pr s)
    (asked : Nat) :
    StepOk cfg header pr s (pr.refuse mr)
      { s with asked := asked } :=
  h.refused (.of_eq rfl rfl rfl (Nat.le_refl _) rfl)
    (h.inv.grown asked (Nat.le_refl _)) (List.Perm.refl _)

theorem copyinUser_run
    (env : KmsgAnswers)
    (addr length : Nat)
    (s : Sender) :
    copyinUser env addr length s =
      (.ok (env.grant s.asked && addr + length < 2 ^ 32),
        { s with asked := s.asked + 1 }) := rfl

theorem freshAddr_run
    (length : Nat)
    (s : Sender) :
    freshAddr length s =
      (.ok s.nextAddr,
        { s with nextAddr := s.nextAddr + length + 1 }) := rfl

/- A copy object is made, or there is none. -/
theorem convertCopy_judged
    (h : PassInv cfg header pr s)
    (hKind : IsOol d')
    (hSize : d'.size ≠ 0)
    (hCopy : ¬ (d'.copy = machMsgPhysicalCopy ∧
      d'.size < cfg.msgOolSizeSmall)) :
    Ends (convertCopy env pr d') s
      (Judged True True (StepOk cfg header pr s)
        fun _ => False) := by
  refine ends_after (ask_run env s) ?_
  cases hGrant : env.grant s.asked with
  | false =>
      exact judged_pure trivial trivial (h.gaveUp _)
  | true =>
      have hHolds : heldBy cfg s.buffers
          { d' with address := s.nextAddr } =
            [.copy s.nextAddr] := by
        refine (heldBy_ool ?_).trans ?_
        · exact hKind
        · rw [if_neg hSize, if_neg hCopy]
          exact heldCopy_of h.inv.nextAddr.ne'
      refine ends_after (freshAddr_run 0 _) ?_
      exact ⟨trivial, trivial,
        h.took (s.asked + 1) 0 hHolds hKind hSize (by simp)⟩

/- Small data is copied, or there is no memory for it. -/
theorem convertSmall_judged
    (h : PassInv cfg header pr s)
    (hKind : IsOol d)
    (hSize : d.size ≠ 0)
    (hSmall : d.size < cfg.msgOolSizeSmall)
    (hCopy : d.copy = machMsgPhysicalCopy) :
    Ends (convertSmall cfg env ikot pr d) s
      (Judged True (¬ (isIpcKobject ikot ∧ cfg.rt))
        (StepOk cfg header pr s) fun _ => False) := by
  by_cases hRt : ¬ (isIpcKobject ikot ∧ cfg.rt)
  · refine ends_after (require_run hRt) ?_
    refine ends_after (ask_run env s) ?_
    cases hGrant : env.grant s.asked with
    | false =>
        exact judged_pure trivial hRt (h.gaveUp _)
    | true =>
        refine ends_after (copyinUser_run env _ _ _) ?_
        split_ifs with hCopied hKobject
        · exact judged_pure trivial hRt (h.gaveUp _)
        · have hHolds : heldBy cfg s.buffers
              { d with
                address := s.nextAddr
                copy := machMsgKallocCopyT } =
                [.copy s.nextAddr] := by
            refine (heldBy_ool ?_).trans ?_
            · exact hKind
            · have hCopyT :
                  machMsgKallocCopyT ≠ machMsgPhysicalCopy := by
                decide
              rw [if_neg hSize, if_neg (fun h => hCopyT h.1)]
              exact heldCopy_of h.inv.nextAddr.ne'
          exact ⟨trivial, hRt,
            h.took (s.asked + 2) d.size hHolds hKind hSize
              (by simp)⟩
        · have hHolds : heldBy cfg s.buffers
              { d with address := s.nextAddr } =
                [.buffer s.nextAddr d.size] := by
            refine (heldBy_ool ?_).trans ?_
            · exact hKind
            · rw [if_neg hSize, if_pos ⟨hCopy, hSmall⟩]
          exact ⟨trivial, hRt,
            h.took (s.asked + 2) d.size hHolds hKind hSize
              (by simp)⟩
  · exact judged_run (bind_stop (require_stop hRt) _)
      ⟨trivial, hRt⟩

/- The data of a physical copy fits the space that is left. -/
def TamePhysical
    (env : KmsgAnswers)
    (pr : Progress)
    (d : Descriptor)
    (s : Sender) : Prop :=
  After (copyinUser env d.address d.size) s fun copied _ =>
    copied = true → d.size ≤ pr.spaceNeeded

theorem acquire_run
    (h : Held)
    (s : Sender) :
    acquire h s = (.ok (), { s with held := h :: s.held }) :=
  rfl

theorem acquireRegion_run
    (paddr length : Nat)
    (s : Sender) :
    acquireRegion paddr length s =
      (.ok (),
        { s with held := heldRegion paddr length ++ s.held }) := by
  unfold acquireRegion heldRegion
  split_ifs
  · rfl
  · rfl

theorem heldRegion_eq
    {paddr length : Nat}
    (hPaddr : paddr ≠ 0)
    (hLength : length ≠ 0) :
    heldRegion paddr length = [.region paddr length] :=
  if_pos ⟨hPaddr, hLength⟩

theorem heldRegion_count
    {paddr length p type : Nat} :
    (heldRegion paddr length).count (.right p type) = 0 := by
  unfold heldRegion
  split_ifs
  · simp
  · rfl

theorem PassInv.region_held
    (h : PassInv cfg header pr s)
    (hSpace : pr.spaceNeeded ≠ 0) :
    .region pr.paddr pr.spaceNeeded ∈ s.held := by
  apply h.held.symm.subset
  rw [heldRegion_eq (h.space hSpace) hSpace]
  simp

/- The front of the space becomes a copy object. -/
theorem PassInv.physical
    (asked : Nat)
    (h : PassInv cfg header pr s)
    (hKind : IsOol d)
    (hSize : d.size ≠ 0)
    (hSmall : ¬ (d.copy = machMsgPhysicalCopy ∧
      d.size < cfg.msgOolSizeSmall))
    (hFits : d.size ≤ pr.spaceNeeded) :
    StepOk cfg header pr s
      ({ pr with
        paddr := pr.paddr + roundPageIpc d.size
        spaceNeeded :=
          pr.spaceNeeded - roundPageIpc d.size }.accept
        { d with address := s.nextAddr })
      { s with
        asked := asked
        nextAddr := s.nextAddr + 0 + 1
        held := .copy s.nextAddr ::
          (heldRegion (pr.paddr + roundPageIpc d.size)
              (pr.spaceNeeded - roundPageIpc d.size) ++
            s.held.erase
              (.region pr.paddr pr.spaceNeeded)) } := by
  have hSpace : pr.spaceNeeded ≠ 0 := by omega
  have hFrame : Frame s
      { s with
        asked := asked
        nextAddr := s.nextAddr + 0 + 1
        held := .copy s.nextAddr ::
          (heldRegion (pr.paddr + roundPageIpc d.size)
              (pr.spaceNeeded - roundPageIpc d.size) ++
            s.held.erase
              (.region pr.paddr pr.spaceNeeded)) } :=
    .of_eq rfl rfl rfl (by dsimp only; omega) rfl
  rcases h.done_mono hFrame with ⟨hDone, hSame⟩
  have hHolds : heldBy cfg s.buffers
      { d with address := s.nextAddr } = [.copy s.nextAddr] := by
    refine (heldBy_ool ?_).trans ?_
    · exact hKind
    · rw [if_neg hSize, if_neg hSmall]
      exact heldCopy_of h.inv.nextAddr.ne'
  refine ⟨hFrame, ?_, ?_, ?_, ?_, ?_⟩
  · have hCount : ∀ p type,
        (.copy s.nextAddr ::
          (heldRegion (pr.paddr + roundPageIpc d.size)
              (pr.spaceNeeded - roundPageIpc d.size) ++
            s.held.erase
              (.region pr.paddr pr.spaceNeeded))).count
                (.right p type) =
          s.held.count (.right p type) := by
      intro p type
      rw [count_cons_of_ne (by simp), count_append,
        heldRegion_count, Nat.zero_add,
        count_erase_of_ne (by simp)]
    have hAddr : s.nextAddr ≤ s.nextAddr + 0 + 1 := by omega
    exact (h.inv.heldMemory hCount).grown asked hAddr
  · intro d' hIn
    rcases mem_append.mp hIn with hOld | hNew
    · exact hDone d' hOld
    · rw [mem_singleton.mp hNew]
      exact .of_ool hKind fun hZero => absurd hZero hSize
  · intro _
    have hPaddr := h.space hSpace
    dsimp only [Progress.accept]
    omega
  · intro hRt
    exact absurd (h.rt hRt) hSpace
  · have hErase : (s.held.erase
        (.region pr.paddr pr.spaceNeeded)).Perm
          (header.held ++
            pr.done.flatMap (heldBy cfg s.buffers)) := by
      have hHeld := h.held
      rw [heldRegion_eq (h.space hSpace) hSpace] at hHeld
      have hFront := (hHeld.trans
        (perm_append_comm.append_right _)).erase
          (.region pr.paddr pr.spaceNeeded)
      simpa using hFront
    have hAppend : (pr.done ++
        [{ d with address := s.nextAddr }]).flatMap
          (heldBy cfg s.buffers) =
        pr.done.flatMap (heldBy cfg s.buffers) ++
          [.copy s.nextAddr] := by
      rw [flatMap_append, flatMap_cons, hHolds]
      rfl
    have hMiddle := (hErase.append_left
      (heldRegion (pr.paddr + roundPageIpc d.size)
        (pr.spaceNeeded - roundPageIpc d.size))).cons
          (.copy s.nextAddr)
    refine hMiddle.trans ?_
    rw [hAppend, ← append_assoc, ← append_assoc]
    exact ((perm_append_comm.append_right _).cons _).trans
      (perm_append_singleton _ _).symm

/- Data is copied to the space that was allocated. -/
theorem convertPhysical_judged
    (h : PassInv cfg header pr s)
    (hKind : IsOol d)
    (hSize : d.size ≠ 0)
    (hSmall : ¬ (d.copy = machMsgPhysicalCopy ∧
      d.size < cfg.msgOolSizeSmall)) :
    Ends (convertPhysical env pr d) s
      (Judged (TamePhysical env pr d s) True
        (StepOk cfg header pr s) fun _ => False) := by
  have hTame : TamePhysical env pr d s ↔
      ((env.grant s.asked && d.address + d.size < 2 ^ 32) =
        true → d.size ≤ pr.spaceNeeded) :=
    after_run (copyinUser_run env _ _ s) _
  rw [hTame]
  refine ends_after (copyinUser_run env _ _ s) ?_
  cases hCopied :
      (env.grant s.asked && d.address + d.size < 2 ^ 32) with
  | false =>
      exact judged_pure (fun hIs => absurd hIs (by simp))
        trivial (h.gaveUp _)
  | true =>
      by_cases hFits : d.size ≤ pr.spaceNeeded
      · refine ends_after (require_run hFits) ?_
        refine ends_after (ask_run env _) ?_
        cases hGrant : env.grant (s.asked + 1) with
        | false =>
            exact judged_pure (fun _ => hFits) trivial
              (h.gaveUp _)
        | true =>
            have hRegion := h.region_held (by omega)
            refine ends_after (freshAddr_run 0 _) ?_
            refine ends_after (releaseHeld_run hRegion) ?_
            refine ends_after (acquireRegion_run _ _ _) ?_
            exact ⟨fun _ => hFits, trivial,
              h.physical (s.asked + 2) hKind hSize hSmall hFits⟩
      · refine judged_run (bind_stop (require_stop hFits) _) ?_
        exact fun hTame => hFits (hTame rfl)

/- No physical copy is larger than the space for it. -/
def TameOol
    (cfg : KmsgConfig)
    (env : KmsgAnswers)
    (ikot : Nat)
    (pr : Progress)
    (d : Descriptor)
    (s : Sender) : Prop :=
  ipcKobjectVmPageList ikot = false →
    d.physical cfg = true → TamePhysical env pr d s

/- Real-time data does not go to an object of the kernel. -/
def PoliteOol
    (cfg : KmsgConfig)
    (ikot : Nat)
    (d : Descriptor) : Prop :=
  cfg.rt = true → d.deallocate = 0 → d.size ≠ 0 →
    ipcKobjectVmPageList ikot = false ∧
      ¬ (isIpcKobject ikot = true ∧
        d.size < cfg.msgOolSizeSmall ∧
        d.copy = machMsgPhysicalCopy)

theorem Descriptor.physical_iff :
    d.physical cfg = true ↔
      d.copy = machMsgPhysicalCopy ∧
        cfg.msgOolSizeSmall ≤ d.size ∧ d.deallocate = 0 := by
  simp [Descriptor.physical]

theorem tamePhysical_zero
    (hSize : d.size = 0) :
    TamePhysical env pr d s := by
  intro copied t _ _
  rw [hSize]
  exact Nat.zero_le _

theorem convertOol_judged
    (h : PassInv cfg header pr s)
    (hKind : IsOol d) :
    Ends (convertOol cfg env ikot pr d) s
      (Judged (TameOol cfg env ikot pr d s)
        (PoliteOol cfg ikot d) (StepOk cfg header pr s)
        fun _ => False) := by
  unfold convertOol
  by_cases hDealloc : d.deallocate ≠ 0 ∧ cfg.rt = true
  · rw [if_pos hDealloc]
    refine judged_pure ?_ ?_ ?_
    · intro _ hPhysical
      rw [Descriptor.physical_iff] at hPhysical
      exact absurd hPhysical.2.2 hDealloc.1
    · intro _ hNone
      exact absurd hNone hDealloc.1
    · refine ⟨Frame.refl s, h.inv, h.converted, ?_⟩
      have hHeld := h.held
      rw [h.rt hDealloc.2] at hHeld
      simpa [heldRegion] using hHeld
  rw [if_neg hDealloc]
  by_cases hSize : d.size = 0
  · rw [if_pos hSize]
    refine judged_pure (fun _ _ => tamePhysical_zero hSize)
      (fun _ _ hSome => absurd hSize hSome) ?_
    have hHolds : heldBy cfg s.buffers
        { d with address := 0 } = [] := by
      refine (heldBy_ool ?_).trans ?_
      · exact hKind
      · rw [if_pos hSize]
    refine h.accepted (Frame.refl s) h.inv
      (.of_ool hKind fun _ => rfl) ?_
    rw [hHolds, nil_append]
  rw [if_neg hSize]
  by_cases hLists : ipcKobjectVmPageList ikot = true
  · rw [if_pos hLists]
    have hTame : TameOol cfg env ikot pr d s := by
      intro hNot
      rw [hLists] at hNot
      simp at hNot
    by_cases hRt : ¬ cfg.rt = true
    · refine ends_after (require_run hRt) ?_
      have hCopyT :
          machMsgPageListCopyT ≠ machMsgPhysicalCopy := by
        decide
      have hKind' : IsOol
          { d with copy := machMsgPageListCopyT } := hKind
      exact (convertCopy_judged h hKind' hSize
        (fun h => hCopyT h.1)).mono fun r t hEnd =>
          hEnd.imp (iff_of_true trivial hTame)
            (iff_of_true trivial (fun h => absurd h hRt))
            (fun _ _ h => h) fun _ h => h
    · refine judged_run (bind_stop (require_stop hRt) _) ?_
      refine ⟨hTame, fun hPolite => ?_⟩
      have hIs : cfg.rt = true := not_not.mp hRt
      have hNone : d.deallocate = 0 := by
        by_contra hSome
        exact hDealloc ⟨hSome, hIs⟩
      have hNot := (hPolite hIs hNone hSize).1
      rw [hLists] at hNot
      simp at hNot
  have hNoLists : ipcKobjectVmPageList ikot = false := by
    simpa using hLists
  rw [if_neg hLists]
  by_cases hSmall : d.size < cfg.msgOolSizeSmall ∧
      d.copy = machMsgPhysicalCopy
  · rw [if_pos hSmall]
    refine (convertSmall_judged h hKind hSize hSmall.1
      hSmall.2).mono fun r t hEnd => hEnd.imp ?_ ?_
        (fun _ _ h => h) fun _ h => h
    · refine iff_of_true trivial fun _ hPhysical => ?_
      rw [Descriptor.physical_iff] at hPhysical
      exact absurd hPhysical.2.1 (by omega)
    · constructor
      · intro hNot hRt _ _
        exact ⟨hNoLists, fun hIs => hNot ⟨hIs.1, hRt⟩⟩
      · rintro hPolite ⟨hKobject, hRt⟩
        have hNone : d.deallocate = 0 := by
          by_contra hSome
          exact hDealloc ⟨hSome, hRt⟩
        exact (hPolite hRt hNone hSize).2
          ⟨hKobject, hSmall.1, hSmall.2⟩
  have hPolite : PoliteOol cfg ikot d := by
    intro _ _ _
    exact ⟨hNoLists, fun hIs => hSmall ⟨hIs.2.1, hIs.2.2⟩⟩
  have hSwap : ¬ (d.copy = machMsgPhysicalCopy ∧
      d.size < cfg.msgOolSizeSmall) :=
    fun hIs => hSmall ⟨hIs.2, hIs.1⟩
  rw [if_neg hSmall]
  by_cases hPhysical : d.copy = machMsgPhysicalCopy ∧
      d.deallocate = 0
  · rw [if_pos hPhysical]
    refine (convertPhysical_judged h hKind hSize hSwap).mono
      fun r t hEnd => hEnd.imp ?_
        (iff_of_true trivial hPolite) (fun _ _ h => h)
        fun _ h => h
    constructor
    · exact fun hTame _ _ => hTame
    · intro hTame
      apply hTame hNoLists
      rw [Descriptor.physical_iff]
      refine ⟨hPhysical.1, ?_, hPhysical.2⟩
      by_contra hLess
      exact hSmall ⟨by omega, hPhysical.1⟩
  have hTame : TameOol cfg env ikot pr d s := by
    intro _ hIs
    rw [Descriptor.physical_iff] at hIs
    exact absurd ⟨hIs.1, hIs.2.2⟩ hPhysical
  rw [if_neg hPhysical]
  by_cases hRt : cfg.rt = true
  · rw [if_pos hRt]
    exact judged_pure hTame hPolite (h.refused (Frame.refl s)
      h.inv (List.Perm.refl _))
  · rw [if_neg hRt]
    exact (convertCopy_judged h hKind hSize hSwap).mono
      fun r t hEnd => hEnd.imp (iff_of_true trivial hTame)
        (iff_of_true trivial hPolite) (fun _ _ h => h)
        fun _ h => h

------
-- Arrays of Ports
------

theorem heldBy_ports
    (hKind : d.type = machMsgOolPortsDescriptor) :
    heldBy cfg buffers d =
      if d.portsLength = 0 then []
      else
        heldObjects d.disposition (buffers d.address) ++
          [.buffer d.address d.portsLength] := by
  cases d
  subst hKind
  rfl

theorem Converted.of_ports
    (hKind : d.type = machMsgOolPortsDescriptor)
    (hNone : d.portsLength = 0 → d.address = 0)
    (hSome : d.portsLength ≠ 0 →
      d.address ≠ 0 ∧ d.address < nextAddr ∧
        d.count ≤ (buffers d.address).length) :
    Converted nextAddr buffers d := by
  refine ⟨?_, fun _ => hNone, fun _ => hSome⟩
  intro hOol
  rw [hKind] at hOol
  simp at hOol

/- The names were read to new memory. -/
structure NamesRead
    (d : Descriptor)
    (s : Sender)
    (data : Nat)
    (names : List Nat)
    (t : Sender) : Prop where
  inv : SenderInv t
  frame : Frame s t
  fresh : s.nextAddr ≤ data
  used : data < t.nextAddr
  held : t.held = .buffer data d.portsLength :: s.held
  length : names.length = d.portsLength / 4

theorem readNames_cases
    (env : KmsgAnswers)
    (d : Descriptor)
    (hInv : SenderInv s) :
    (∃ mr t, readNames env d s = (.ok (.error mr), t) ∧
      SenderInv t ∧ Frame s t ∧ t.held = s.held) ∨
    ∃ data names t,
      readNames env d s = (.ok (.ok (data, names)), t) ∧
        NamesRead d s data names t := by
  have hAddr : s.nextAddr ≤
      s.nextAddr + d.portsLength + 1 := by omega
  have hFrame : ∀ held, Frame s
      { s with
        asked := s.asked + 2
        nextAddr := s.nextAddr + d.portsLength + 1
        held := held } :=
    fun _ => .of_eq rfl rfl rfl hAddr rfl
  unfold readNames
  rw [bind_run (ask_run env s)]
  cases hGrant : env.grant s.asked with
  | false =>
      exact Or.inl ⟨_, _, rfl,
        hInv.grown (s.asked + 1) (Nat.le_refl _),
        .of_eq rfl rfl rfl (Nat.le_refl _) rfl, rfl⟩
  | true =>
      rw [if_neg (by simp), bind_run (freshAddr_run _ _),
        bind_run (acquire_run _ _), read_bind,
        bind_run (copyinUser_run env _ _ _)]
      cases hCopied : (env.grant (s.asked + 1) &&
          d.address + d.portsLength < 2 ^ 32) with
      | false =>
          left
          refine ⟨.sendInvalidMemory,
            { s with
              asked := s.asked + 2
              nextAddr := s.nextAddr + d.portsLength + 1 },
            ?_, hInv.grown _ hAddr, hFrame _, rfl⟩
          rw [if_pos (by simp), bind_run (releaseHeld_run
            mem_cons_self), erase_cons_head]
          rfl
      | true =>
          have hCount : ∀ p type,
              (.buffer s.nextAddr d.portsLength ::
                s.held).count (.right p type) =
                  s.held.count (.right p type) :=
            fun _ _ => count_cons_of_ne (by simp)
          refine Or.inr ⟨s.nextAddr, _, _, rfl,
            (hInv.heldMemory hCount).grown _ hAddr, hFrame _,
            Nat.le_refl _, ?_, rfl, ?_⟩
          · dsimp only
            omega
          · rw [length_map, length_range]

/- There is one type that a disposition stands for. -/
theorem forall_type
    {disposition type : Nat}
    {P : Nat → Prop}
    (hType : ipcObjectCopyinType disposition = .ok type) :
    (∀ type', ipcObjectCopyinType disposition = .ok type' →
      P type') ↔ P type := by
  constructor
  · intro hAll
    exact hAll type hType
  · intro hP type' hType'
    rw [hType] at hType'
    injection hType' with hEq
    rw [← hEq]
    exact hP

section

variable (env : KmsgAnswers) (pr : Progress) (d : Descriptor)
variable (names : List Nat)

/- The conversion of names that were read. -/
def TameRead
    (s : Sender) : Prop :=
  ∀ type, ipcObjectCopyinType d.disposition = .ok type →
    AtNames env d.disposition type (TameName d.disposition)
        names [] pr.circular s ∧
      After (convertNames env d.disposition type []
          pr.circular names) s
        fun r _ => r ≠ none → d.count * 4 < 2 ^ 32

def PoliteRead
    (s : Sender) : Prop :=
  KnownType d.disposition ∧
    ∀ type, ipcObjectCopyinType d.disposition = .ok type →
      AtNames env d.disposition type
        (fun port _ => PoliteName d.disposition port) names []
        pr.circular s

end

section

variable (h : PassInv cfg header pr s)
include h

section

variable (hKind : d.type = machMsgOolPortsDescriptor)
include hKind

section

variable (hLength : d.portsLength ≠ 0)
include hLength

/- An array whose names were all accepted is kept. -/
theorem PassInv.array
    {names objects : List Nat}
    (hRead : NamesRead d s data names t)
    (hInv : SenderInv u)
    (hFrame : Frame t u)
    (hHeld : u.held.Perm (heldObjects type objects ++
      .buffer data d.portsLength :: s.held))
    (hCount : d.count ≤ objects.length) :
    StepOk cfg header pr s
      ({ pr with circular := circular }.accept
        { d with address := data, disposition := type })
      { u with
        buffers := update u.buffers data objects } := by
  have hAll : Frame s u := hRead.frame.trans hFrame
  have hSelf : update u.buffers data objects data =
      objects := update_self _ _ _
  have hHolds : heldBy cfg
      (update u.buffers data objects)
      { d with address := data, disposition := type } =
        heldObjects type objects ++
          [.buffer data d.portsLength] := by
    refine (heldBy_ports ?_).trans ?_
    · exact hKind
    · rw [hSelf]
      exact if_neg hLength
  refine h.accepted ⟨hAll.sends, hAll.onces, hAll.notified,
      hAll.nextAddr, ?_⟩
    (hInv.other u.isActive _ u.asked u.timestamp u.touched)
    (.of_ports hKind (fun hNone => absurd hNone hLength)
      fun _ => ⟨?_, ?_, ?_⟩) ?_
  · intro addr hLt
    have hNe : addr ≠ data := by
      have hFresh := hRead.fresh
      omega
    exact (update_of_ne hNe _ _).trans
      (hAll.buffers addr hLt)
  · have hPos := h.inv.nextAddr
    have hFresh := hRead.fresh
    dsimp only
    omega
  · exact Nat.lt_of_lt_of_le hRead.used hFrame.nextAddr
  · dsimp only
    rw [hSelf]
    exact hCount
  · rw [hHolds, append_assoc]
    exact hHeld

/- After the names of an array. -/
theorem keepNames_judged
    {r : Option (List Nat × Bool)}
    (hRead : NamesRead d s data names t)
    (hDone : NamesDone t type
      (([] : List Nat).length + names.length)
      (.buffer data d.portsLength :: s.held) r u) :
    Ends (keepNames pr d data type r) u
      (Judged (r ≠ none → d.count * 4 < 2 ^ 32) True
        (StepOk cfg header pr s) fun _ => False) := by
  have hAll : Frame s u := hRead.frame.trans hDone.frame
  cases r with
  | none =>
      have hHeld := hDone.refused rfl
      have hMem : .buffer data d.portsLength ∈ u.held :=
        hHeld.symm.subset mem_cons_self
      have hErase : (u.held.erase
          (.buffer data d.portsLength)).Perm s.held := by
        simpa using hHeld.erase (.buffer data d.portsLength)
      refine ends_after (releaseHeld_run hMem) ?_
      refine judged_pure (fun hSome => absurd rfl hSome)
        trivial ?_
      refine h.refused ⟨hAll.sends, hAll.onces, hAll.notified,
        hAll.nextAddr, hAll.buffers⟩ (hDone.inv.heldMemory ?_) hErase
      intro p kind
      exact count_erase_of_ne (by simp)
  | some pair =>
      rcases pair with ⟨objects, circular⟩
      rcases hDone.accepted objects circular rfl with
        ⟨hHeld, hSize⟩
      have hShort := hRead.length
      have hBound : d.count ≤ objects.length ↔
          d.count * 4 < 2 ^ 32 := by
        unfold Descriptor.portsLength at hShort
        rw [hSize, hShort, length_nil]
        omega
      by_cases hCount : d.count ≤ objects.length
      · refine ends_after (require_run hCount) ?_
        exact ⟨fun _ => hBound.mp hCount, trivial,
          h.array hKind hLength hRead hDone.inv hDone.frame
            hHeld hCount⟩
      · refine judged_run (bind_stop (require_stop hCount) _) ?_
        exact fun hTame =>
          hCount (hBound.mpr (hTame (by simp)))

theorem convertRead_judged
    (hRead : NamesRead d s data names t) :
    Ends (convertRead env pr d data names) t
      (Judged (TameRead env pr d names t)
        (PoliteRead env pr d names t)
        (StepOk cfg header pr s) fun _ => False) := by
  by_cases hKnown : KnownType d.disposition
  · rcases ipcObjectCopyinType_known.mpr hKnown with
      ⟨type, hType⟩
    have hTame : TameRead env pr d names t ↔ _ :=
      forall_type hType
    have hPolite : PoliteRead env pr d names t ↔
        AtNames env d.disposition type
          (fun port _ => PoliteName d.disposition port) names []
          pr.circular t :=
      (and_iff_right hKnown).trans (forall_type hType)
    rw [hTame, hPolite]
    refine ends_after (liftTrap_run _ type hType) ?_
    have hHeld : t.held.Perm (heldObjects type [] ++
        .buffer data d.portsLength :: s.held) :=
      List.Perm.of_eq hRead.held
    refine (judged_bind (convertNames_judged hType names []
      pr.circular _ hRead.inv hHeld) fun r u hDone =>
        keepNames_judged h hKind hLength hRead hDone).mono
          fun r u hEnd => hEnd.imp Iff.rfl ?_
            (fun _ _ h => h) fun _ h => h
    exact and_iff_left fun _ _ _ => trivial
  · refine judged_run (bind_stop
      (liftTrap_stop _ _ (ipcObjectCopyinType_unknown hKnown))
        _) ⟨?_, fun hPolite => hKnown hPolite.1⟩
    intro type hType
    exact absurd (ipcObjectCopyinType_known.mp ⟨type, hType⟩)
      hKnown

end

end

end

/- What holds of the names of an array when they are read. -/
def AtArray
    (env : KmsgAnswers)
    (d : Descriptor)
    (P : List Nat → Sender → Prop)
    (s : Sender) : Prop :=
  d.portsLength ≠ 0 →
    After (readNames env d) s fun r t =>
      ∀ data names, r = .ok (data, names) → P names t

theorem atArray_read
    (hLength : d.portsLength ≠ 0)
    (hRun : readNames env d s = (.ok (.ok (data, names)), t)) :
    AtArray env d P s ↔ P names t := by
  unfold AtArray
  rw [after_run hRun]
  constructor
  · intro hAll
    exact hAll hLength data names rfl
  · intro hP _ data' names' hEq
    injection hEq with hPair
    injection hPair with _ hNames
    rw [← hNames]
    exact hP

theorem atArray_none
    (hRun : readNames env d s = (.ok (.error mr), t)) :
    AtArray env d P s := by
  intro _
  rw [after_run hRun]
  intro data names hEq
  simp at hEq

theorem convertPorts_judged
    (h : PassInv cfg header pr s)
    (hKind : d.type = machMsgOolPortsDescriptor) :
    Ends (convertPorts env pr d) s
      (Judged (AtArray env d (TameRead env pr d) s)
        (AtArray env d (PoliteRead env pr d) s)
        (StepOk cfg header pr s) fun _ => False) := by
  unfold convertPorts
  by_cases hLength : d.portsLength = 0
  · rw [if_pos hLength]
    refine judged_pure (fun hNot => absurd hLength hNot)
      (fun hNot => absurd hLength hNot) ?_
    have hHolds : heldBy cfg s.buffers
        { d with address := 0 } = [] := by
      refine (heldBy_ports ?_).trans ?_
      · exact hKind
      · exact if_pos hLength
    refine h.accepted (Frame.refl s) h.inv
      (.of_ports hKind (fun _ => rfl)
        fun hNot => absurd hLength hNot) ?_
    rw [hHolds, nil_append]
  · rw [if_neg hLength]
    rcases readNames_cases env d h.inv with
      ⟨mr, t, hRun, hInv, hFrame, hHeld⟩ |
      ⟨data, names, t, hRun, hRead⟩
    · refine ends_after hRun ?_
      exact judged_pure (atArray_none hRun) (atArray_none hRun)
        (h.refused hFrame hInv (List.Perm.of_eq hHeld))
    · refine ends_after hRun ?_
      exact (convertRead_judged h hKind hLength hRead).mono
        fun r u hEnd =>
          hEnd.imp (atArray_read hLength hRun).symm
            (atArray_read hLength hRun).symm (fun _ _ h => h)
            fun _ h => h

------
-- The Second Pass
------

/-
  A descriptor that is converted without going astray: a
  physical copy fits, the objects before a refused name are
  valid, and the length of an array does not wrap around.
-/
structure TameDescriptor
    (cfg : KmsgConfig)
    (env : KmsgAnswers)
    (ikot : Nat)
    (pr : Progress)
    (d : Descriptor)
    (s : Sender) : Prop where
  ool : IsOol d → TameOol cfg env ikot pr d s
  ports : d.type = machMsgOolPortsDescriptor →
    AtArray env d (TameRead env pr d) s

/-
  A descriptor that is converted without stopping the kernel:
  its rights have types, and only dead or unbound names have
  none.
-/
structure PoliteDescriptor
    (cfg : KmsgConfig)
    (env : KmsgAnswers)
    (ikot : Nat)
    (pr : Progress)
    (d : Descriptor)
    (s : Sender) : Prop where
  port : d.type = machMsgPortDescriptor → PolitePort d s
  ool : IsOol d → PoliteOol cfg ikot d
  ports : d.type = machMsgOolPortsDescriptor →
    AtArray env d (PoliteRead env pr d) s

theorem convertOol_step
    (h : PassInv cfg header pr s)
    (hKind : IsOol d) :
    Ends (convertOol cfg env ikot pr d) s
      (Judged (TameDescriptor cfg env ikot pr d s)
        (PoliteDescriptor cfg env ikot pr d s)
        (StepOk cfg header pr s) fun _ => False) := by
  have hNotPort : d.type ≠ machMsgPortDescriptor := by
    rcases hKind with hType | hType
    · rw [hType]
      decide
    · rw [hType]
      decide
  have hNotPorts : d.type ≠ machMsgOolPortsDescriptor := by
    rcases hKind with hType | hType
    · rw [hType]
      decide
    · rw [hType]
      decide
  refine (convertOol_judged h hKind).mono fun r t hEnd =>
    hEnd.imp ?_ ?_ (fun _ _ h => h) fun _ h => h
  · exact ⟨fun hTame => ⟨fun _ => hTame,
        fun hPorts => absurd hPorts hNotPorts⟩,
      fun hTame => hTame.ool hKind⟩
  · exact ⟨fun hPolite =>
        ⟨fun hPort => absurd hPort hNotPort, fun _ => hPolite,
          fun hPorts => absurd hPorts hNotPorts⟩,
      fun hPolite => hPolite.ool hKind⟩

/- A descriptor of each type, and of none. -/
theorem convertDescriptor_judged
    (env : KmsgAnswers)
    (ikot : Nat)
    (d : Descriptor)
    (h : PassInv cfg header pr s) :
    Ends (convertDescriptor cfg env ikot pr d) s
      (Judged (TameDescriptor cfg env ikot pr d s)
        (PoliteDescriptor cfg env ikot pr d s)
        (StepOk cfg header pr s) fun _ => False) := by
  unfold convertDescriptor
  split
  · rename_i hKind
    have hNotOol : ¬ IsOol d := by
      unfold IsOol
      rw [hKind]
      decide
    have hNotPorts : d.type ≠ machMsgOolPortsDescriptor := by
      rw [hKind]
      decide
    refine (convertPort_judged h hKind).mono fun r t hEnd =>
      hEnd.imp ?_ ?_ (fun _ _ h => h) fun _ h => h
    · exact iff_of_true trivial
        ⟨fun hOol => absurd hOol hNotOol,
          fun hPorts => absurd hPorts hNotPorts⟩
    · exact ⟨fun hPolite => ⟨fun _ => hPolite,
          fun hOol => absurd hOol hNotOol,
          fun hPorts => absurd hPorts hNotPorts⟩,
        fun hPolite => hPolite.port hKind⟩
  · rename_i hKind
    exact convertOol_step h (Or.inl hKind)
  · rename_i hKind
    exact convertOol_step h (Or.inr hKind)
  · rename_i hKind
    have hNotOol : ¬ IsOol d := by
      unfold IsOol
      rw [hKind]
      decide
    have hNotPort : d.type ≠ machMsgPortDescriptor := by
      rw [hKind]
      decide
    refine (convertPorts_judged h hKind).mono fun r t hEnd =>
      hEnd.imp ?_ ?_ (fun _ _ h => h) fun _ h => h
    · exact ⟨fun hTame => ⟨fun hOol => absurd hOol hNotOol,
          fun _ => hTame⟩,
        fun hTame => hTame.ports hKind⟩
    · exact ⟨fun hPolite =>
          ⟨fun hPort => absurd hPort hNotPort,
            fun hOol => absurd hOol hNotOol, fun _ => hPolite⟩,
        fun hPolite => hPolite.ports hKind⟩
  · rename_i hNotPort hNotVolatile hNotOol hNotPorts
    refine judged_pure ?_ ?_ (h.refused (Frame.refl s) h.inv
      (List.Perm.refl _))
    · refine ⟨?_, fun hPorts => absurd hPorts hNotPorts⟩
      rintro (hVolatile | hOol)
      · exact absurd hVolatile hNotVolatile
      · exact absurd hOol hNotOol
    · refine ⟨fun hPort => absurd hPort hNotPort, ?_,
        fun hPorts => absurd hPorts hNotPorts⟩
      rintro (hVolatile | hOol)
      · exact absurd hVolatile hNotVolatile
      · exact absurd hOol hNotOol

end Steps

/-
  What holds at each descriptor that the second pass reaches,
  and where one is refused.
-/
def AtDescriptors
    (cfg : KmsgConfig)
    (env : KmsgAnswers)
    (ikot : Nat)
    (P : Progress → Descriptor → Sender → Prop)
    (Q : Progress → Prop) :
    List (Nat × Descriptor) → Progress → Sender → Prop
| [], _, _ => True
| (addr, d) :: ds, pr, s =>
    After (touch addr) s fun _ t =>
      P pr d t ∧
        After (convertDescriptor cfg env ikot pr d) t
          fun r u =>
            match r with
            | .ok pr => AtDescriptors cfg env ikot P Q ds pr u
            | .error _ => Q pr

/- No array's length wrapped around to nothing. -/
def NoneWrapped (pr : Progress) : Prop :=
  ∀ d, d ∈ pr.done → ¬ Wrapped d

section Pass

variable {cfg : KmsgConfig} {env : KmsgAnswers}
variable {header : HeaderPorts} {pr : Progress} {s t : Sender}

theorem touch_run
    (addr : Nat)
    (s : Sender) :
    touch addr s =
      (.ok (), { s with touched := s.touched ++ [addr] }) :=
  rfl

theorem PassInv.touched
    (h : PassInv cfg header pr s)
    (touched : List Nat) :
    PassInv cfg header pr { s with touched := touched } :=
  ⟨h.inv.other s.isActive s.buffers s.asked s.timestamp
      touched,
    h.converted, h.space, h.rt, h.held⟩

theorem frame_touched
    (touched : List Nat) :
    Frame s { s with touched := touched } :=
  .of_eq rfl rfl rfl (Nat.le_refl _) rfl

/- A message that was refused holds nothing. -/
def GivenBack
    (s t : Sender) : Prop :=
  Frame s t ∧ SenderInv t ∧ t.held = []

/- What is judged from a later state. -/
theorem judged_from
    {α : Type}
    {x : KmsgProg α}
    {tame polite : Prop}
    {good : α → Sender → Prop}
    (hFrame : Frame s t)
    (h : Ends x t
      (Judged tame polite (fun a u => Frame t u ∧ good a u)
        (GivenBack t))) :
    Ends x t
      (Judged tame polite (fun a u => Frame s u ∧ good a u)
        (GivenBack s)) :=
  h.mono fun _ _ hEnd => hEnd.imp Iff.rfl Iff.rfl
    (fun _ _ hGood => ⟨hFrame.trans hGood.1, hGood.2⟩)
    fun _ hBack => ⟨hFrame.trans hBack.1, hBack.2⟩

theorem failBody_judged
    {α : Type}
    {no : Refusal}
    {good : α → Sender → Prop}
    (h : RefusalOk cfg header pr.done no s) :
    Ends (failBody cfg env header pr.done no.paddr no.length
        no.mr) s
      (Judged (NoneWrapped pr) True good (GivenBack s)) := by
  by_cases hWrapped : NoneWrapped pr
  · rcases failBody_run α env no.mr
        h.converted hWrapped h.inv h.held with
      ⟨t, hRun, hInv, hFrame, hNone⟩
    exact judged_run hRun
      ⟨hWrapped, trivial, hFrame.1, hInv, hNone⟩
  · have hSome : ∃ d, d ∈ pr.done ∧ Wrapped d := by
      by_contra hNot
      exact hWrapped fun d hIn hIs => hNot ⟨d, hIn, hIs⟩
    rcases failBody_wild α env no.mr
        h.converted hSome h.inv h.held with ⟨t, hRun⟩
    exact judged_run hRun hWrapped

/-
  The second pass, by induction on the descriptors that are
  left.
-/
theorem conversionPass_judged
    (ikot : Nat)
    (ds : List (Nat × Descriptor))
    (h : PassInv cfg header pr s) :
    Ends (conversionPass cfg env header ikot ds pr) s
      (Judged
        (AtDescriptors cfg env ikot
          (TameDescriptor cfg env ikot) NoneWrapped ds pr s)
        (AtDescriptors cfg env ikot
          (PoliteDescriptor cfg env ikot) (fun _ => True)
          ds pr s)
        (fun pr t => Frame s t ∧ PassInv cfg header pr t)
        (GivenBack s)) := by
  induction ds generalizing pr s with
  | nil =>
      exact judged_pure trivial trivial ⟨Frame.refl s, h⟩
  | cons first ds ih =>
      rcases first with ⟨addr, d⟩
      unfold conversionPass AtDescriptors
      rw [after_run (touch_run addr s),
        after_run (touch_run addr s)]
      refine ends_after (touch_run addr s) ?_
      have hStep := (convertDescriptor_judged env ikot d
        (h.touched (s.touched ++ [addr]))).mono
          fun r t hEnd => hEnd.noBack (GivenBack s)
      refine judged_bind hStep ?_
      intro r u hOk
      cases r with
      | ok pr' =>
          have hFrom : Frame s u := (frame_touched _).trans hOk.1
          exact judged_from hFrom (ih hOk.2)
      | error no =>
          have hFrom : Frame s u := (frame_touched _).trans hOk.1
          exact judged_from hFrom (failBody_judged hOk.2)

end Pass

end Ipc

end OsfMach
