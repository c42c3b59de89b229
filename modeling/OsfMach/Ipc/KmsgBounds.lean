import OsfMach.Ipc.KmsgCopyin

/-
  Which descriptors the copying in of a body reads.

  Both passes read the descriptors of one list, and no other
  part reads any. The check before them scales the size of
  the message by that of a header.

  Main declarations:
    * `Touches`
    * `Fits`, `InBounds`, `BoundsKept`
    * `copyinDescriptors_touches`
    * `copyin_body_bounds_iff`
-/

------
-- Parts That Read No Descriptor
------

namespace OsfMach

namespace Ipc

open Lib
open Lib.Checked

variable {p : Nat} {d : Descriptor} {pr : Progress} {ikot : Nat}
variable {h : Held} {object msgtName name : Nat}
variable {pageLists : Bool} {spaceNeeded : Nat}
variable {first : Nat × Descriptor}
variable {ds : List (Nat × Descriptor)}

/- The addresses of descriptors that a part reads. -/
abbrev Touches
    {α : Type}
    (P : Nat → Prop)
    (x : KmsgProg α) : Prop :=
  Appends Sender.touched P x

section Touches

variable {P : Nat → Prop} {cfg : KmsgConfig} {env : KmsgAnswers}
variable {header : HeaderPorts}

theorem ask_touches :
    Touches P (ask env) :=
  appends_of_keeps fun _ => rfl

theorem acquire_touches :
    Touches P (acquire h) :=
  appends_of_keeps fun _ => rfl

theorem freshAddr_touches
    {size : Nat} :
    Touches P (freshAddr size) :=
  appends_of_keeps fun _ => rfl

theorem releaseHeld_touches :
    Touches P (releaseHeld h) :=
  appends_read.bind fun _ => appends_require.bind fun _ =>
    appends_change fun _ => rfl

theorem ipcPortReleaseSend_touches :
    Touches P (ipcPortReleaseSend p) :=
  appends_read.bind fun _ => appends_ite
    (appends_require.bind fun _ => appends_change fun _ => rfl)
    appends_pure

theorem ipcNotifySendOnce_touches :
    Touches P (ipcNotifySendOnce env p) :=
  ask_touches.bind fun _ => appends_ite
    (appends_change fun _ => rfl)
    (appends_read.bind fun _ => appends_require.bind fun _ =>
      appends_change fun _ => rfl)

theorem ipcPortReleaseReceive_touches :
    Touches P (ipcPortReleaseReceive env p) := by
  refine appends_read.bind fun _ => appends_require.bind
    fun _ => appends_require.bind fun _ =>
      appends_require.bind fun _ => appends_ite ?_ ?_
  · exact ask_touches.bind fun _ => appends_ite
      (appends_change fun _ => rfl) (appends_change fun _ => rfl)
  · exact appends_pure.bind fun _ => appends_ite
      (appends_change fun _ => rfl) (appends_change fun _ => rfl)

theorem ipcObjectDestroy_touches :
    Touches P (ipcObjectDestroy env object msgtName) := by
  refine appends_require.bind fun _ =>
    releaseHeld_touches.bind fun _ => ?_
  split
  · exact ipcPortReleaseSend_touches
  · exact ipcNotifySendOnce_touches
  · exact ipcPortReleaseReceive_touches
  · exact appends_stop

theorem storeRight_touches
    {out : RightOut} :
    Touches P (storeRight name object msgtName out) := by
  refine appends_lift.bind fun _ =>
    (appends_change ?_).bind fun _ =>
      appends_ite acquire_touches appends_pure
  intro s
  rfl

theorem ipcObjectCopyin_touches :
    Touches P (ipcObjectCopyin name msgtName) := by
  refine appends_read.bind fun s => appends_ite appends_pure ?_
  split
  · exact appends_pure
  · exact appends_lift.bind fun _ =>
      storeRight_touches.bind fun _ => appends_pure

theorem destroyValid_touches :
    Touches P (destroyValid env msgtName object) :=
  appends_ite ipcObjectDestroy_touches appends_pure

theorem destroyObjects_touches
    (objects : List Nat) :
    Touches P (destroyObjects env msgtName objects) := by
  induction objects with
  | nil => exact appends_pure
  | cons object objects ih =>
      exact destroyValid_touches.bind fun _ => ih

theorem cleanDescriptor_touches :
    Touches P (cleanDescriptor cfg env d) := by
  have hOol : Touches P (cleanOol cfg d) :=
    appends_ite appends_require
      (appends_ite releaseHeld_touches
        (appends_ite appends_pure releaseHeld_touches))
  unfold cleanDescriptor
  split
  · exact destroyValid_touches
  · exact hOol
  · exact hOol
  · exact appends_ite appends_pure
      (appends_require.bind fun _ => appends_read.bind fun _ =>
        (destroyObjects_touches _).bind fun _ =>
          appends_require.bind fun _ => releaseHeld_touches)
  · exact appends_pure

theorem ipcKmsgCleanBody_touches
    (ds : List Descriptor) :
    Touches P (ipcKmsgCleanBody cfg env ds) := by
  induction ds with
  | nil => exact appends_pure
  | cons d ds ih =>
      exact cleanDescriptor_touches.bind fun _ => ih

theorem failBody_touches
    {α : Type}
    {ds : List Descriptor}
    {paddr length : Nat}
    {mr : MachMsgReturn} :
    Touches P (failBody cfg env header ds paddr length mr :
      KmsgProg α) :=
  ((ipcObjectDestroy_touches.bind fun _ =>
      destroyValid_touches.bind fun _ =>
        appends_ite releaseHeld_touches appends_pure).bind
          fun _ => ipcKmsgCleanBody_touches _).bind
            fun _ => appends_stop

theorem checkCircular_touches
    {type : Nat}
    {circular : Bool} :
    Touches P (checkCircular env type circular) :=
  appends_ite (ask_touches.bind fun _ => appends_pure)
    appends_pure

theorem copyinUser_touches
    {addr length : Nat} :
    Touches P (copyinUser env addr length) :=
  ask_touches.bind fun _ => appends_pure

theorem convertPort_touches :
    Touches P (convertPort env pr d) :=
  appends_lift.bind fun _ => appends_ite appends_pure
    (ipcObjectCopyin_touches.bind fun _ =>
      appends_ite appends_pure
        (checkCircular_touches.bind fun _ => appends_pure))

theorem convertCopy_touches :
    Touches P (convertCopy env pr d) :=
  ask_touches.bind fun _ => appends_ite appends_pure
    (freshAddr_touches.bind fun _ =>
      acquire_touches.bind fun _ => appends_pure)

theorem convertSmall_touches :
    Touches P (convertSmall cfg env ikot pr d) :=
  appends_require.bind fun _ => ask_touches.bind fun _ =>
    appends_ite appends_pure
      (copyinUser_touches.bind fun _ =>
        appends_ite appends_pure
          (freshAddr_touches.bind fun _ => appends_ite
            (acquire_touches.bind fun _ => appends_pure)
            (acquire_touches.bind fun _ => appends_pure)))

theorem convertPhysical_touches :
    Touches P (convertPhysical env pr d) :=
  copyinUser_touches.bind fun _ => appends_ite appends_pure
    (appends_require.bind fun _ => ask_touches.bind fun _ =>
      appends_ite appends_pure
        (freshAddr_touches.bind fun _ =>
          releaseHeld_touches.bind fun _ =>
            (appends_ite acquire_touches appends_pure).bind
              fun _ => acquire_touches.bind
                fun _ => appends_pure))

theorem convertOol_touches :
    Touches P (convertOol cfg env ikot pr d) :=
  appends_ite appends_pure (appends_ite appends_pure
    (appends_ite
      (appends_require.bind fun _ => convertCopy_touches)
      (appends_ite convertSmall_touches
        (appends_ite convertPhysical_touches
          (appends_ite appends_pure convertCopy_touches)))))

theorem destroyBefore_touches
    {port type : Nat}
    (objects : List Nat) :
    Touches P (destroyBefore env port type objects) := by
  induction objects with
  | nil => exact appends_pure
  | cons object objects ih =>
      exact appends_ite
        (ipcObjectDestroy_touches.bind fun _ => ih) ih

theorem convertNames_touches
    {disposition type : Nat}
    (objects : List Nat)
    (circular : Bool)
    (names : List Nat) :
    Touches P (convertNames env disposition type objects
      circular names) := by
  induction names generalizing objects circular with
  | nil => exact appends_pure
  | cons port ports ih =>
      exact appends_ite (ih _ _)
        (ipcObjectCopyin_touches.bind fun _ => appends_ite
          ((destroyBefore_touches _).bind
            fun _ => appends_pure)
          (checkCircular_touches.bind fun _ => ih _ _))

theorem convertPorts_touches :
    Touches P (convertPorts env pr d) := by
  refine appends_ite appends_pure (Appends.bind ?_ fun r => ?_)
  · exact ask_touches.bind fun _ => appends_ite appends_pure
      (freshAddr_touches.bind fun _ =>
        acquire_touches.bind fun _ => appends_read.bind
          fun _ => copyinUser_touches.bind fun _ =>
            appends_ite
              (releaseHeld_touches.bind fun _ => appends_pure)
              appends_pure)
  · cases r with
    | error mr => exact appends_pure
    | ok read =>
        refine appends_lift.bind fun _ =>
          (convertNames_touches _ _ _).bind fun names => ?_
        cases names with
        | none =>
            exact releaseHeld_touches.bind fun _ => appends_pure
        | some names =>
            refine appends_require.bind fun _ =>
              (appends_change ?_).bind fun _ => appends_pure
            intro s
            rfl

theorem convertDescriptor_touches :
    Touches P (convertDescriptor cfg env ikot pr d) := by
  unfold convertDescriptor
  split
  · exact convertPort_touches
  · exact convertOol_touches
  · exact convertOol_touches
  · exact convertPorts_touches
  · exact appends_pure

------
-- The Passes
------

theorem touch_touches
    {addr : Nat}
    (h : P addr) :
    Touches P (touch addr) := by
  intro s
  refine ⟨[addr], rfl, fun b hIn => ?_⟩
  rw [List.mem_singleton.mp hIn]
  exact h

theorem sizingPass_touches
    (ds : List (Nat × Descriptor))
    (spaceNeeded : Nat)
    (h : ∀ d, d ∈ ds → P d.1) :
    Touches P
      (sizingPass cfg env header pageLists ds spaceNeeded) := by
  induction ds generalizing spaceNeeded with
  | nil => exact appends_pure
  | cons first ds ih =>
      rcases first with ⟨addr, d⟩
      have hRest := fun spaceNeeded => ih spaceNeeded
        fun d' hIn => h d' (List.mem_cons_of_mem _ hIn)
      exact (touch_touches (h _ List.mem_cons_self)).bind
        fun _ => appends_ite
          (appends_require.bind fun _ =>
            appends_ite failBody_touches
              (appends_ite
                (appends_ite failBody_touches (hRest _))
                (hRest _)))
          (hRest _)

theorem allocateSpace_touches :
    Touches P (allocateSpace cfg env header spaceNeeded) :=
  appends_ite appends_pure (appends_ite failBody_touches
    (ask_touches.bind fun _ => appends_ite failBody_touches
      (freshAddr_touches.bind fun _ =>
        acquire_touches.bind fun _ => appends_pure)))

theorem conversionPass_touches
    (ds : List (Nat × Descriptor))
    (pr : Progress)
    (h : ∀ d, d ∈ ds → P d.1) :
    Touches P
      (conversionPass cfg env header ikot ds pr) := by
  induction ds generalizing pr with
  | nil => exact appends_pure
  | cons first ds ih =>
      rcases first with ⟨addr, d⟩
      refine (touch_touches (h _ List.mem_cons_self)).bind
        fun _ => convertDescriptor_touches.bind fun r => ?_
      cases r with
      | ok pr =>
          exact ih pr fun d' hIn =>
            h d' (List.mem_cons_of_mem _ hIn)
      | error no => exact failBody_touches

/- Both passes read the descriptors of the list. -/
theorem copyinDescriptors_touches
    (ds : List (Nat × Descriptor))
    (h : ∀ d, d ∈ ds → P d.1) :
    Touches P (copyinDescriptors cfg env header ds) :=
  appends_read.bind fun _ =>
    (sizingPass_touches ds 0 h).bind fun _ =>
      allocateSpace_touches.bind fun _ =>
        conversionPass_touches ds _ h

/- The first descriptor is read in any case. -/
theorem sizingPass_first
    (s : Sender) :
    ∃ l,
      (sizingPass cfg env header pageLists (first :: ds)
        spaceNeeded s).2.touched =
          s.touched ++ [first.1] ++ l := by
  have hRest : ∀ spaceNeeded, Touches (fun _ => True)
      (sizingPass cfg env header pageLists ds spaceNeeded) :=
    fun spaceNeeded => sizingPass_touches ds spaceNeeded
      fun _ _ => trivial
  rcases first with ⟨addr, d⟩
  exact Appends.after (x := touch addr) (fun _ => appends_ite
    (appends_require.bind fun _ =>
      appends_ite failBody_touches
        (appends_ite
          (appends_ite failBody_touches (hRest _))
          (hRest _)))
    (hRest _)) s

theorem copyinDescriptors_first
    (s : Sender) :
    (copyinDescriptors cfg env header (first :: ds)
      s).2.touched ≠ [] := by
  have hFirst : ∃ l,
      (sizingPass cfg env header
        (takesPageLists (s.ports header.remotePort).ipKotype)
        (first :: ds) 0 s).2.touched =
          s.touched ++ [first.1] ++ l := sizingPass_first s
  have hRest : ∀ spaceNeeded, Touches (fun _ => True) (do
      let paddr ← allocateSpace cfg env header spaceNeeded
      conversionPass cfg env header
        (s.ports header.remotePort).ipKotype (first :: ds)
        ⟨[], paddr, spaceNeeded, false, false⟩) :=
    fun _ => allocateSpace_touches.bind fun _ =>
      conversionPass_touches _ _ fun _ _ => trivial
  rcases Appends.after (x := sizingPass cfg env header
      (takesPageLists (s.ports header.remotePort).ipKotype)
      (first :: ds) 0) hRest s with ⟨l', hAll⟩
  rcases hFirst with ⟨l, hFirst⟩
  rw [hFirst] at hAll
  unfold copyinDescriptors
  rw [read_bind]
  intro hNone
  rw [hNone] at hAll
  simp at hAll

------
-- The Bounds
------

/- The message has room for as many descriptors. -/
def Fits (msghSize descriptorCount : Nat) : Prop :=
  sizeofMachMsgHeader + sizeofMachMsgBody +
    sizeofMachMsgDescriptor * descriptorCount ≤ msghSize

/- A descriptor that lies in the message. -/
def InBounds (msgh msghSize addr : Nat) : Prop :=
  descriptorsStart msgh ≤ addr ∧
    addr + sizeofMachMsgDescriptor ≤ msgh + msghSize

/-
  Every descriptor that is read lies in the message; and when
  they do not all have room in it, none is read, nothing is
  acquired and the error says so.
-/
structure BoundsKept
    (msgh msghSize descriptorCount : Nat)
    (s : Sender)
    (r : Except Stop Progress)
    (t : Sender) : Prop where
  inside : ∀ addr, addr ∈ t.touched →
    InBounds msgh msghSize addr
  tooSmall : ¬ Fits msghSize descriptorCount →
    r = .error (.ret .sendMsgTooSmall) ∧ t.touched = [] ∧
      t.entries = s.entries ∧ t.held = []

end Touches

section Bounds

variable {msgh msghSize descriptorCount : Nat}

/- The addresses of the descriptors that are passed over. -/
theorem bodyDescriptors_inside
    {memory : Nat → Descriptor}
    (hFits : Fits msghSize descriptorCount)
    (hMemory : msgh + msghSize < 2 ^ 32) :
    ∀ d, d ∈ bodyDescriptors memory msgh descriptorCount →
      InBounds msgh msghSize d.1 := by
  intro d hIn
  rcases List.mem_map.mp hIn with ⟨i, hRange, hEq⟩
  have hLess := List.mem_range.mp hRange
  unfold Fits at hFits
  unfold descriptorsEnd descriptorsStart at hLess
  rw [← hEq]
  unfold InBounds descriptorsStart
  unfold sizeofMachMsgHeader sizeofMachMsgBody
    sizeofMachMsgDescriptor at *
  dsimp only
  omega

/- There is a first descriptor when the check is passed. -/
theorem bodyDescriptors_ne_nil
    (memory : Nat → Descriptor)
    (hPassed : ¬ Rejected msgh msghSize descriptorCount) :
    ∃ first ds,
      bodyDescriptors memory msgh descriptorCount =
        first :: ds := by
  have hLess : descriptorsStart msgh <
      descriptorsEnd msgh descriptorCount := by
    by_contra hNot
    exact hPassed (Or.inl (by omega))
  unfold bodyDescriptors descriptorsOf
  cases hLength : (descriptorsEnd msgh descriptorCount -
      descriptorsStart msgh + (sizeofMachMsgDescriptor - 1)) /
        sizeofMachMsgDescriptor with
  | zero =>
      unfold sizeofMachMsgDescriptor at hLength
      omega
  | succ n =>
      rw [List.range_succ_eq_map, List.map_cons]
      exact ⟨_, _, rfl⟩

/-
  The descriptors that the copying in of a body reads lie in
  the message, exactly when they fit or the check finds that
  they do not.
-/
theorem copyin_body_bounds_iff
    (cfg : KmsgConfig)
    (env : KmsgAnswers)
    (header : HeaderPorts)
    (memory : Nat → Descriptor)
    (msgh msghSize descriptorCount : Nat)
    (s : Sender)
    (hHeader : HeaderInv header s)
    (hTouched : s.touched = [])
    (hMemory : msgh + msghSize < 2 ^ 32) :
    BoundsKept msgh msghSize descriptorCount s
        (ipcKmsgCopyinBody cfg env header memory msgh msghSize
          descriptorCount s).1
        (ipcKmsgCopyinBody cfg env header memory msgh msghSize
          descriptorCount s).2 ↔
      Fits msghSize descriptorCount ∨
        Rejected msgh msghSize descriptorCount := by
  by_cases hReject : Rejected msgh msghSize descriptorCount
  · have hRun : ipcKmsgCopyinBody cfg env header memory msgh
        msghSize descriptorCount =
          failBody cfg env header [] 0 0 .sendMsgTooSmall :=
      if_pos hReject
    have hRefusal := hHeader.refusal cfg .sendMsgTooSmall
    rcases failBody_run Progress env .sendMsgTooSmall
        hRefusal.converted (fun d hIn => by simp at hIn)
        hHeader.inv hRefusal.held with
      ⟨t, hFail, _, hFrame, hNone⟩
    rcases failBody_touches (P := fun _ => False) s with
      ⟨l, hLog, hNever⟩
    rw [hFail, hTouched, List.nil_append] at hLog
    have hEmpty : t.touched = [] := by
      rw [hLog]
      exact List.eq_nil_iff_forall_not_mem.mpr hNever
    refine iff_of_true ?_ (Or.inr hReject)
    rw [hRun, hFail]
    refine ⟨fun addr hIn => ?_, fun _ =>
      ⟨rfl, hEmpty, hFrame.2, hNone⟩⟩
    rw [hEmpty] at hIn
    simp at hIn
  · have hRun : ipcKmsgCopyinBody cfg env header memory msgh
        msghSize descriptorCount =
          copyinDescriptors cfg env header
            (bodyDescriptors memory msgh descriptorCount) :=
      if_neg hReject
    rw [hRun]
    constructor
    · intro hKept
      by_contra hNeither
      have hNone := (hKept.tooSmall
        fun hFits => hNeither (Or.inl hFits)).2.1
      rcases bodyDescriptors_ne_nil memory hReject with
        ⟨first, ds, hFirst⟩
      rw [hFirst] at hNone
      exact copyinDescriptors_first s hNone
    · rintro (hFits | hIs)
      · refine ⟨fun addr hIn => ?_,
          fun hNot => absurd hFits hNot⟩
        have hTouches :
            Touches (InBounds msgh msghSize)
              (copyinDescriptors cfg env header
                (bodyDescriptors memory msgh
                  descriptorCount)) :=
          copyinDescriptors_touches _
            (bodyDescriptors_inside hFits hMemory)
        rcases hTouches s with ⟨l, hLog, hAll⟩
        rw [hTouched, List.nil_append] at hLog
        rw [hLog] at hIn
        exact hAll addr hIn
      · exact absurd hIs hReject

end Bounds

/- Two descriptors in a message that has room for one. -/
theorem copyin_body_bounds_past :
    ¬ BoundsKept 65536 40 2 loneSender
      (ipcKmsgCopyinBody loneConfig nullAnswers loneHeader
        (fun _ => ⟨0, 0, 0, 0, 0, 9⟩) 65536 40 2 loneSender).1
      (ipcKmsgCopyinBody loneConfig nullAnswers loneHeader
        (fun _ => ⟨0, 0, 0, 0, 0, 9⟩) 65536 40 2
        loneSender).2 := by
  intro hKept
  have hIn := hKept.inside 65576 (by decide)
  exact absurd hIn.2 (by decide)

/- One descriptor that fits. -/
theorem copyin_body_bounds_one :
    Fits 40 1 ∧
      BoundsKept 65536 40 1 loneSender
        (ipcKmsgCopyinBody loneConfig nullAnswers loneHeader
          (fun _ => nullArray) 65536 40 1 loneSender).1
        (ipcKmsgCopyinBody loneConfig nullAnswers loneHeader
          (fun _ => nullArray) 65536 40 1 loneSender).2 := by
  have hFits : Fits 40 1 := Nat.le_refl 40
  exact ⟨hFits, (copyin_body_bounds_iff loneConfig nullAnswers
    loneHeader _ 65536 40 1 loneSender loneSender_inv rfl
    (by decide)).mpr (Or.inl hFits)⟩

end Ipc

end OsfMach
