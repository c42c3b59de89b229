import OsfMach.Ipc.KmsgBody

/-
  Copying the body of a message in, both passes.

  Main declarations:
    * `ReleasesAll`
    * `TameBody`, `PoliteBody`
    * `ipcKmsgCopyinBody_judged`
    * `copyin_body_releases_iff`
-/

------
-- The First Pass
------

namespace OsfMach

namespace Ipc

open Lib
open Lib.Checked

/- After the header was copied in, it is all that is held. -/
structure HeaderInv
    (header : HeaderPorts)
    (s : Sender) : Prop where
  inv : SenderInv s
  held : s.held.Perm header.held

/-
  Of the descriptors that the first pass reaches, no physical
  copy is for an object that takes lists of pages.
-/
def PoliteSizing
    (cfg : KmsgConfig)
    (pageLists : Bool) :
    List (Nat × Descriptor) → Nat → Prop
| [], _ => True
| (_, d) :: ds, spaceNeeded =>
    if d.isOol then
      ¬ (d.copy = machMsgPhysicalCopy ∧ pageLists = true) ∧
        (d.copy = machMsgPhysicalCopy ∨
            d.copy = machMsgVirtualCopy →
          if d.physical cfg then
            (spaceNeeded + roundPageIpc d.size) % 2 ^ 32 ≤
                cfg.ipcKmsgMaxVmSpace →
              PoliteSizing cfg pageLists ds
                ((spaceNeeded + roundPageIpc d.size) % 2 ^ 32)
          else PoliteSizing cfg pageLists ds spaceNeeded)
    else PoliteSizing cfg pageLists ds spaceNeeded

section Sizing

variable {cfg : KmsgConfig} {env : KmsgAnswers}
variable {header : HeaderPorts} {s : Sender}

theorem HeaderInv.refusal
    (h : HeaderInv header s)
    (cfg : KmsgConfig)
    (mr : MachMsgReturn) :
    RefusalOk cfg header [] ⟨mr, 0, 0⟩ s := by
  refine ⟨h.inv, fun d hIn => ?_, ?_⟩
  · simp at hIn
  · have hRegion : heldRegion 0 0 = [] := rfl
    rw [hRegion, List.flatMap_nil, List.append_nil,
      List.append_nil]
    exact h.held

theorem failHeader_judged
    {α : Type}
    {mr : MachMsgReturn}
    {good : α → Sender → Prop}
    (h : HeaderInv header s) :
    Ends (failBody cfg env header [] 0 0 mr) s
      (Judged True True good (GivenBack s)) := by
  have hRefusal := h.refusal cfg mr
  rcases failBody_run α env mr hRefusal.converted
      (fun d hIn => by simp at hIn) h.inv hRefusal.held with
    ⟨t, hRun, hInv, hFrame, hNone⟩
  exact judged_run hRun ⟨trivial, trivial, hFrame.1, hInv, hNone⟩

/- One descriptor of the first pass, and the rest of it. -/
theorem sizingStep_judged
    {pageLists : Bool}
    {d : Descriptor}
    {ds : List (Nat × Descriptor)}
    {spaceNeeded : Nat}
    (h : HeaderInv header s)
    (hRest : ∀ spaceNeeded,
      Ends (sizingPass cfg env header pageLists ds spaceNeeded)
        s
        (Judged True
          (PoliteSizing cfg pageLists ds spaceNeeded)
          (fun _ t => Frame s t ∧ HeaderInv header t)
          (GivenBack s))) :
    Ends
      (if d.isOol then do
        require (¬ (d.copy = machMsgPhysicalCopy ∧ pageLists))
          (.trap .assertion)
        if d.copy ≠ machMsgPhysicalCopy ∧
            d.copy ≠ machMsgVirtualCopy then
          failBody cfg env header [] 0 0 .sendInvalidType
        else if d.physical cfg then
          let spaceNeeded :=
            (spaceNeeded + roundPageIpc d.size) % 2 ^ 32
          if cfg.ipcKmsgMaxVmSpace < spaceNeeded then
            failBody cfg env header [] 0 0 .vmKernel
          else
            sizingPass cfg env header pageLists ds spaceNeeded
        else
          sizingPass cfg env header pageLists ds spaceNeeded
      else sizingPass cfg env header pageLists ds spaceNeeded) s
      (Judged True
        (PoliteSizing cfg pageLists ((0, d) :: ds) spaceNeeded)
        (fun _ t => Frame s t ∧ HeaderInv header t)
        (GivenBack s)) := by
  unfold PoliteSizing
  by_cases hOol : d.isOol = true
  · rw [if_pos hOol, if_pos hOol]
    by_cases hLists :
        ¬ (d.copy = machMsgPhysicalCopy ∧ pageLists = true)
    · refine ends_after (require_run hLists) ?_
      by_cases hCopy : d.copy ≠ machMsgPhysicalCopy ∧
          d.copy ≠ machMsgVirtualCopy
      · rw [if_pos hCopy]
        refine (failHeader_judged h).mono fun r t hEnd =>
          hEnd.imp Iff.rfl (iff_of_true trivial ⟨hLists, ?_⟩)
            (fun _ _ h => h) fun _ h => h
        rintro (hPhysical | hVirtual)
        · exact absurd hPhysical hCopy.1
        · exact absurd hVirtual hCopy.2
      · have hKnown : d.copy = machMsgPhysicalCopy ∨
            d.copy = machMsgVirtualCopy := by
          by_contra hNone
          exact hCopy (not_or.mp hNone)
        rw [if_neg hCopy, and_iff_right hLists,
          imp_iff_right hKnown]
        by_cases hPhysical : d.physical cfg = true
        · rw [if_pos hPhysical, if_pos hPhysical]
          by_cases hMax : cfg.ipcKmsgMaxVmSpace <
              (spaceNeeded + roundPageIpc d.size) % 2 ^ 32
          · rw [if_pos hMax]
            refine (failHeader_judged h).mono fun r t hEnd =>
              hEnd.imp Iff.rfl (iff_of_true trivial ?_)
                (fun _ _ h => h) fun _ h => h
            exact fun hLe => absurd hLe (by omega)
          · rw [if_neg hMax, imp_iff_right (by omega)]
            exact hRest _
        · rw [if_neg hPhysical, if_neg hPhysical]
          exact hRest _
    · exact judged_run (bind_stop (require_stop hLists) _)
        ⟨trivial, fun hPolite => hLists hPolite.1⟩
  · rw [if_neg hOol, if_neg hOol]
    exact hRest _

/- The first pass takes nothing. -/
theorem sizingPass_judged
    (pageLists : Bool)
    (ds : List (Nat × Descriptor))
    (spaceNeeded : Nat)
    (h : HeaderInv header s) :
    Ends (sizingPass cfg env header pageLists ds spaceNeeded) s
      (Judged True (PoliteSizing cfg pageLists ds spaceNeeded)
        (fun _ t => Frame s t ∧ HeaderInv header t)
        (GivenBack s)) := by
  induction ds generalizing spaceNeeded s with
  | nil =>
      exact judged_pure trivial trivial ⟨Frame.refl s, h⟩
  | cons first ds ih =>
      rcases first with ⟨addr, d⟩
      refine ends_after (touch_run addr s) ?_
      have hTouched : HeaderInv header
          { s with touched := s.touched ++ [addr] } :=
        ⟨h.inv.other s.isActive s.buffers s.asked s.timestamp
          _, h.held⟩
      have hFrom : Frame s
          { s with touched := s.touched ++ [addr] } :=
        frame_touched _
      exact judged_from hFrom (sizingStep_judged hTouched
        fun spaceNeeded => ih spaceNeeded hTouched)

/- Space for physical copies joins the header. -/
theorem allocateSpace_judged
    (spaceNeeded : Nat)
    (h : HeaderInv header s) :
    Ends (allocateSpace cfg env header spaceNeeded) s
      (Judged True True
        (fun paddr t => Frame s t ∧
          PassInv cfg header
            ⟨[], paddr, spaceNeeded, false, false⟩ t)
        (GivenBack s)) := by
  unfold allocateSpace
  by_cases hNone : spaceNeeded = 0
  · rw [if_pos hNone]
    refine judged_pure trivial trivial ⟨Frame.refl s, h.inv,
      fun d hIn => ?_, fun hSome => absurd hNone hSome,
      fun _ => hNone, ?_⟩
    · simp at hIn
    · have hRegion : heldRegion 0 spaceNeeded = [] := rfl
      rw [hRegion]
      simpa using h.held
  rw [if_neg hNone]
  by_cases hRt : cfg.rt = true
  · rw [if_pos hRt]
    exact failHeader_judged h
  rw [if_neg hRt]
  refine ends_after (ask_run env s) ?_
  have hAsked : HeaderInv header
      { s with asked := s.asked + 1 } :=
    ⟨h.inv.grown _ (Nat.le_refl _), h.held⟩
  cases hGrant : env.grant s.asked with
  | false =>
      have hFrom : Frame s { s with asked := s.asked + 1 } :=
        .of_eq rfl rfl rfl (Nat.le_refl _) rfl
      exact judged_from hFrom (failHeader_judged hAsked)
  | true =>
      refine ends_after (freshAddr_run _ _) ?_
      have hAddr : s.nextAddr ≤
          s.nextAddr + spaceNeeded + 1 := by omega
      have hPos := h.inv.nextAddr
      have hCount : ∀ p type,
          (.region s.nextAddr spaceNeeded ::
            s.held).count (.right p type) =
              s.held.count (.right p type) :=
        fun _ _ => List.count_cons_of_ne (by simp)
      refine ⟨trivial, trivial,
        .of_eq rfl rfl rfl hAddr rfl,
        (h.inv.heldMemory hCount).grown _ hAddr,
        fun d hIn => ?_, fun _ => ?_, fun hIs => absurd hIs hRt,
        ?_⟩
      · simp at hIn
      · dsimp only
        omega
      · have hRegion : heldRegion s.nextAddr spaceNeeded =
            [.region s.nextAddr spaceNeeded] :=
          heldRegion_eq (by omega) hNone
        rw [hRegion, List.flatMap_nil, List.append_nil]
        exact (h.held.cons _).trans
          (List.perm_append_singleton _ _).symm

end Sizing

------
-- The Body
------

/- The check that returns before any descriptor is read. -/
def Rejected (msgh msghSize descriptorCount : Nat) : Prop :=
  descriptorsEnd msgh descriptorCount ≤
      descriptorsStart msgh ∨
    descriptorsLimit msgh msghSize <
      descriptorsEnd msgh descriptorCount

/- What holds at each descriptor of the second pass. -/
def AtBody
    (cfg : KmsgConfig)
    (env : KmsgAnswers)
    (header : HeaderPorts)
    (ds : List (Nat × Descriptor))
    (P : Nat → Progress → Descriptor → Sender → Prop)
    (Q : Progress → Prop)
    (s : Sender) : Prop :=
  let ikot := (s.ports header.remotePort).ipKotype
  After
    (sizingPass cfg env header (takesPageLists ikot) ds 0) s
    fun spaceNeeded t =>
      After (allocateSpace cfg env header spaceNeeded) t
        fun paddr u =>
          AtDescriptors cfg env ikot (P ikot) Q ds
            ⟨[], paddr, spaceNeeded, false, false⟩ u

section Body

variable (cfg : KmsgConfig) (env : KmsgAnswers)
variable (header : HeaderPorts) (memory : Nat → Descriptor)
variable (msgh msghSize descriptorCount : Nat) (s : Sender)

def bodyDescriptors : List (Nat × Descriptor) :=
  descriptorsOf memory (descriptorsStart msgh)
    (descriptorsEnd msgh descriptorCount)

/- Every descriptor that is reached is tame. -/
def TameBody : Prop :=
  ¬ Rejected msgh msghSize descriptorCount →
    AtBody cfg env header
      (bodyDescriptors memory msgh descriptorCount)
      (TameDescriptor cfg env) NoneWrapped s

/- Every descriptor that is reached is polite. -/
def PoliteBody : Prop :=
  ¬ Rejected msgh msghSize descriptorCount →
    PoliteSizing cfg
        (takesPageLists
          (s.ports header.remotePort).ipKotype)
        (bodyDescriptors memory msgh descriptorCount) 0 ∧
      AtBody cfg env header
        (bodyDescriptors memory msgh descriptorCount)
        (PoliteDescriptor cfg env) (fun _ => True) s

end Body

section Judging

variable {cfg : KmsgConfig} {env : KmsgAnswers}
variable {header : HeaderPorts} {s : Sender}

theorem read_run :
    (read : KmsgProg Sender) s = (.ok s, s) := rfl

theorem copyinDescriptors_judged
    (ds : List (Nat × Descriptor))
    (h : HeaderInv header s) :
    Ends (copyinDescriptors cfg env header ds) s
      (Judged
        (AtBody cfg env header ds (TameDescriptor cfg env)
          NoneWrapped s)
        (PoliteSizing cfg
            (takesPageLists
              (s.ports header.remotePort).ipKotype) ds 0 ∧
          AtBody cfg env header ds (PoliteDescriptor cfg env)
            (fun _ => True) s)
        (fun pr t => Frame s t ∧ PassInv cfg header pr t)
        (GivenBack s)) := by
  refine ends_after read_run ?_
  refine (judged_bind (sizingPass_judged _ ds 0 h)
    fun spaceNeeded t hSized => judged_from hSized.1
      (judged_bind (allocateSpace_judged spaceNeeded hSized.2)
        fun paddr u hSpace => judged_from hSpace.1
          (conversionPass_judged _ ds hSpace.2))).mono
            fun r t hEnd =>
              hEnd.imp ?_ ?_ (fun _ _ h => h) fun _ h => h
  · unfold AtBody
    simp only [true_and]
  · unfold AtBody
    simp only [true_and]

theorem ipcKmsgCopyinBody_judged
    (memory : Nat → Descriptor)
    (msgh msghSize descriptorCount : Nat)
    (h : HeaderInv header s) :
    Ends
      (ipcKmsgCopyinBody cfg env header memory msgh msghSize
        descriptorCount) s
      (Judged
        (TameBody cfg env header memory msgh msghSize
          descriptorCount s)
        (PoliteBody cfg env header memory msgh msghSize
          descriptorCount s)
        (fun pr t => Frame s t ∧ PassInv cfg header pr t)
        (GivenBack s)) := by
  unfold ipcKmsgCopyinBody TameBody PoliteBody Rejected
  by_cases hReject :
      descriptorsEnd msgh descriptorCount ≤
          descriptorsStart msgh ∨
        descriptorsLimit msgh msghSize <
          descriptorsEnd msgh descriptorCount
  · rw [if_pos hReject]
    exact (failHeader_judged h).mono fun r t hEnd =>
      hEnd.imp
        (iff_of_true trivial fun hNot => absurd hReject hNot)
        (iff_of_true trivial fun hNot => absurd hReject hNot)
        (fun _ _ h => h) fun _ h => h
  · rw [if_neg hReject]
    exact (copyinDescriptors_judged _ h).mono fun r t hEnd =>
      hEnd.imp (imp_iff_right hReject).symm
        (imp_iff_right hReject).symm (fun _ _ h => h)
        fun _ h => h

------
-- Failure Releases What Was Acquired
------

/-
  Nothing is released that was not acquired, and nothing else
  is accessed; and when an error is returned nothing is held
  any more, and the counts of every port are those of the
  names, of the rights of others and of notifications.
-/
structure ReleasesAll
    (s : Sender)
    (r : Except Stop Progress)
    (t : Sender) : Prop where
  own : r ≠ .error (.trap .release)
  tamed : r ≠ .error (.trap .wild)
  returned : ∀ mr, r = .error (.ret mr) →
    t.held = [] ∧ SenderInv t ∧ t.sends = s.sends ∧
      t.onces = s.onces ∧ s.notified <:+ t.notified

theorem releasesAll_iff
    {tame polite : Prop}
    {good : Progress → Sender → Prop}
    {r : Except Stop Progress}
    {t : Sender}
    (h : Judged tame polite good (GivenBack s) r t) :
    ReleasesAll s r t ↔ tame := by
  cases r with
  | ok pr =>
      refine iff_of_true ⟨?_, ?_, ?_⟩ h.1
      · intro hEq
        cases hEq
      · intro hEq
        cases hEq
      · intro mr hEq
        cases hEq
  | error e =>
      cases e with
      | ret mr =>
          rcases h with ⟨hTame, _, hFrame, hInv, hNone⟩
          refine iff_of_true ⟨?_, ?_, ?_⟩ hTame
          · intro hEq
            cases hEq
          · intro hEq
            cases hEq
          · intro _ _
            exact ⟨hNone, hInv, hFrame.sends, hFrame.onces,
              hFrame.notified⟩
      | trap trap =>
          cases trap with
          | panic | assertion =>
              refine iff_of_true ⟨?_, ?_, ?_⟩ h.1
              · intro hEq
                cases hEq
              · intro hEq
                cases hEq
              · intro mr hEq
                cases hEq
          | wild =>
              exact iff_of_false
                (fun hAll => hAll.tamed rfl) h
          | release =>
              exact iff_of_false (fun hAll => hAll.own rfl) h

/-
  The copying in of a body releases what it acquired, exactly
  when every descriptor that it reaches is tame.
-/
theorem copyin_body_releases_iff
    (cfg : KmsgConfig)
    (env : KmsgAnswers)
    (header : HeaderPorts)
    (memory : Nat → Descriptor)
    (msgh msghSize descriptorCount : Nat)
    (s : Sender)
    (hHeader : HeaderInv header s) :
    ReleasesAll s
        (ipcKmsgCopyinBody cfg env header memory msgh msghSize
          descriptorCount s).1
        (ipcKmsgCopyinBody cfg env header memory msgh msghSize
          descriptorCount s).2 ↔
      TameBody cfg env header memory msgh msghSize
        descriptorCount s :=
  releasesAll_iff (ipcKmsgCopyinBody_judged memory msgh msghSize
    descriptorCount hHeader)

end Judging

/- A sender without names, with a right to send to port 1. -/
def loneSender : Sender where
  isActive := true
  isAddr := 1
  entries := fun _ => none
  ports := fun _ => ⟨true, 2, 3, 0, false, 1, 0, 0, 0⟩
  held := [.right 1 machMsgTypePortSend]
  buffers := fun _ => []
  sends := fun p => if p = 1 then 0 else 1
  onces := fun _ => 0
  notified := []
  asked := 0
  nextAddr := 1
  timestamp := 0
  touched := []

def loneHeader : HeaderPorts :=
  ⟨1, machMsgTypePortSend, ioNull, 0⟩

def loneConfig : KmsgConfig := ⟨false, 1024, 2 ^ 20⟩

theorem loneSender_inv :
    HeaderInv loneHeader loneSender := by
  have hCount : ∀ kind p,
      Counting.finCount (bearsTo kind p)
        loneSender.entries = 0 := by
    intro kind p
    unfold Counting.finCount loneSender bearsTo
    simp
  have hNone : ∀ p, loneSender.held.count
      (.right p machMsgTypePortSendOnce) = 0 := by
    intro p
    apply List.count_eq_zero.mpr
    intro hMem
    have hEq := List.mem_singleton.mp hMem
    injection hEq with _ hType
    exact absurd hType (by decide)
  refine ⟨⟨?_, ?_, ?_, ?_, ?_, ?_, ?_, ?_, ?_, ?_⟩,
    List.Perm.refl _⟩
  · intro name e hEntry
    cases hEntry
  · intro name e hEntry
    cases hEntry
  · intro kind p
    unfold loneSender bearsTo
    simp
  · intro p type hMem
    have hEq := List.mem_singleton.mp hMem
    injection hEq with hPort hType
    rw [hPort, hType]
    decide
  · intro p hMem
    have hEq := List.mem_singleton.mp hMem
    injection hEq with _ hType
    exact absurd hType (by decide)
  · intro p
    exact List.count_le_length
  · intro p _
    rw [hCount]
    by_cases hPort : p = 1
    · subst hPort
      rfl
    · have hNe : (.right 1 machMsgTypePortSend : Held) ≠
          .right p machMsgTypePortSend := by
        intro hEq
        injection hEq with hSame
        exact hPort hSame.symm
      have hHeld : loneSender.held =
          [.right 1 machMsgTypePortSend] := rfl
      have hSends : loneSender.sends p = 1 := if_neg hPort
      rw [hHeld, hSends, List.count_cons_of_ne hNe]
      rfl
  · intro p
    rw [hCount, hNone]
    exact Nat.le_refl _
  · intro p _
    rw [hCount, hNone]
    rfl
  · exact Nat.one_pos

/- An array of a null name and one that is not in use. -/
def nullArray : Descriptor :=
  ⟨4096, 2, 0, 0, machMsgTypeCopySend,
    machMsgOolPortsDescriptor⟩

def nullAnswers : KmsgAnswers :=
  ⟨fun _ => true, fun _ i => if i = 1 then 5 else 0⟩

/- The null object of an array is destroyed. -/
theorem copyin_body_releases_null :
    HeaderInv loneHeader loneSender ∧
      ¬ ReleasesAll loneSender
        (ipcKmsgCopyinBody loneConfig nullAnswers loneHeader
          (fun _ => nullArray) 65536 40 1 loneSender).1
        (ipcKmsgCopyinBody loneConfig nullAnswers loneHeader
          (fun _ => nullArray) 65536 40 1 loneSender).2 := by
  refine ⟨loneSender_inv, fun hAll => hAll.own ?_⟩
  rfl

/- An unknown type of descriptor gives all back. -/
theorem copyin_body_releases_unknown :
    ReleasesAll loneSender
      (ipcKmsgCopyinBody loneConfig nullAnswers loneHeader
        (fun _ => ⟨0, 0, 0, 0, 0, 9⟩) 65536 40 1 loneSender).1
      (ipcKmsgCopyinBody loneConfig nullAnswers loneHeader
        (fun _ => ⟨0, 0, 0, 0, 0, 9⟩) 65536 40 1
        loneSender).2 := by
  refine (copyin_body_releases_iff loneConfig nullAnswers
    loneHeader _ 65536 40 1 loneSender loneSender_inv).mpr ?_
  rintro _ _ _ ⟨⟩ _ _ ⟨⟩ _ _ ⟨⟩
  refine ⟨⟨?_, fun hPorts => absurd hPorts (by decide)⟩, ?_⟩
  · rintro (hVolatile | hOol)
    · exact absurd hVolatile (by decide)
    · exact absurd hOol (by decide)
  · rintro _ _ ⟨⟩ d hd
    cases hd

end Ipc

end OsfMach
