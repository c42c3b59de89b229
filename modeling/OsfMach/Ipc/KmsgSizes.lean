import OsfMach.Ipc.KmsgCopyin

/-
  The sizes that the two passes over a body compute.

  The first pass adds up, in 32 bits, the pages that the
  second pass fills; and the length of an array of ports is
  its count times a port's size, in 32 bits too.

  Main declarations:
    * `regionTotal`
    * `SizesHold`, `SizesFit`
    * `sizingPass_total`, `room_of_total`
    * `copyin_body_sizes_iff`, `tameBody_of_sizes`
-/

------
-- Totals
------

namespace OsfMach

namespace Ipc

open Lib
open Lib.Checked

variable {d : Descriptor} {mr : MachMsgReturn} {ikot : Nat}

/- `round_page`, of a natural number. -/
def roundPageNat (x : Nat) : Nat :=
  (x + (pageSizeIpc - 1)) / pageSizeIpc * pageSizeIpc

def sizeofMachPort : Nat := 4

section

variable (cfg : KmsgConfig) (ikot : Nat)

/- The second pass copies the data to the region. -/
def Descriptor.copiesToRegion
    (d : Descriptor) : Bool :=
  d.isOol && d.physical cfg && d.size ≠ 0 &&
    !ipcKobjectVmPageList ikot

/- The pages that a descriptor's data takes in the region. -/
def regionPages
    (d : Descriptor) : Nat :=
  if d.copiesToRegion cfg ikot then roundPageNat d.size else 0

/- All that the second pass copies to the region. -/
def regionTotal
    (ds : List (Nat × Descriptor)) : Nat :=
  (ds.map fun x => regionPages cfg ikot x.2).sum

end

theorem regionTotal_cons
    (cfg : KmsgConfig)
    (ikot addr : Nat)
    (d : Descriptor)
    (ds : List (Nat × Descriptor)) :
    regionTotal cfg ikot ((addr, d) :: ds) =
      regionPages cfg ikot d + regionTotal cfg ikot ds :=
  rfl

theorem roundPageIpc_mod
    (x : Nat) :
    roundPageIpc x = roundPageNat x % 2 ^ 32 := by
  unfold roundPageIpc roundPageNat pageSizeIpc
  omega

theorem roundPageIpc_of_lt
    {x : Nat}
    (h : roundPageNat x < 2 ^ 32) :
    roundPageIpc x = roundPageNat x := by
  rw [roundPageIpc_mod, Nat.mod_eq_of_lt h]

------
-- The First Pass
------

section Sizing

variable {cfg : KmsgConfig} {env : KmsgAnswers}
variable {header : HeaderPorts}

theorem failBody_not_ok
    {α : Type}
    {ds : List Descriptor}
    {paddr length : Nat}
    (P : α → Prop) :
    Returns P (failBody (α := α) cfg env header ds paddr
      length mr) := by
  exact returns_bind fun _ => returns_stop

/-
  A descriptor that passed the assertion adds its pages, or
  nothing.
-/
theorem regionPages_of_assert
    (hLists : d.isOol = true →
      ¬ (d.copy = machMsgPhysicalCopy ∧
        takesPageLists ikot = true)) :
    regionPages cfg ikot d =
      if d.isOol = true ∧ d.physical cfg = true then
        roundPageNat d.size
      else 0 := by
  unfold regionPages Descriptor.copiesToRegion
  by_cases hPhysical : d.isOol = true ∧ d.physical cfg = true
  · have hCopy : d.copy = machMsgPhysicalCopy :=
      (Descriptor.physical_iff.mp hPhysical.2).1
    have hLists' : ipcKobjectVmPageList ikot = false := by
      cases hIs : ipcKobjectVmPageList ikot with
      | false => rfl
      | true =>
          have hTakes : takesPageLists ikot = true := by
            unfold takesPageLists
            rw [hIs]
            rfl
          exact absurd ⟨hCopy, hTakes⟩ (hLists hPhysical.1)
    rw [if_pos hPhysical, hPhysical.1, hPhysical.2, hLists']
    by_cases hSize : d.size = 0
    · rw [hSize]
      rfl
    · simp [hSize]
  · have hNot : ¬ (d.isOol && d.physical cfg && d.size ≠ 0 &&
        !ipcKobjectVmPageList ikot) = true := by
      intro hAll
      simp only [Bool.and_eq_true] at hAll
      exact hPhysical hAll.1.1
    rw [if_neg hPhysical, if_neg hNot]

/- The first pass adds up the pages, in 32 bits. -/
theorem sizingPass_total
    (ds : List (Nat × Descriptor))
    {spaceNeeded : Nat}
    (hSpace : spaceNeeded < 2 ^ 32) :
    Returns
      (fun total => total =
        (spaceNeeded + regionTotal cfg ikot ds) % 2 ^ 32)
      (sizingPass cfg env header (takesPageLists ikot) ds
        spaceNeeded) := by
  induction ds generalizing spaceNeeded with
  | nil =>
      exact returns_pure (Nat.mod_eq_of_lt hSpace).symm
  | cons first ds ih =>
      rcases first with ⟨addr, d⟩
      rw [regionTotal_cons]
      -- a descriptor that adds nothing
      have hSkip : regionPages cfg ikot d = 0 →
          Returns
            (fun total => total =
              (spaceNeeded + (regionPages cfg ikot d +
                regionTotal cfg ikot ds)) % 2 ^ 32)
            (sizingPass cfg env header (takesPageLists ikot) ds
              spaceNeeded) := by
        intro hNone
        rw [hNone, Nat.zero_add]
        exact ih hSpace
      apply returns_bind
      intro _
      apply returns_ite
      · intro hOol
        apply returns_require
        intro hLists
        have hPages : regionPages cfg ikot d =
            if d.isOol = true ∧ d.physical cfg = true then
              roundPageNat d.size
            else 0 := regionPages_of_assert fun _ => hLists
        apply returns_ite
        · intro _
          exact failBody_not_ok _
        · intro _
          apply returns_ite
          · intro hPhysical
            rw [if_pos ⟨hOol, hPhysical⟩] at hPages
            apply returns_ite
            · intro _
              exact failBody_not_ok _
            · intro _
              have hLess : (spaceNeeded +
                  roundPageIpc d.size) % 2 ^ 32 < 2 ^ 32 :=
                Nat.mod_lt _ (by decide)
              have hRest := ih hLess
              have hSum : ((spaceNeeded +
                  roundPageIpc d.size) % 2 ^ 32 +
                    regionTotal cfg ikot ds) % 2 ^ 32 =
                  (spaceNeeded + (regionPages cfg ikot d +
                    regionTotal cfg ikot ds)) % 2 ^ 32 := by
                rw [hPages, roundPageIpc_mod]
                omega
              rw [hSum] at hRest
              exact hRest
          · intro hPhysical
            rw [if_neg fun h => hPhysical h.2] at hPages
            exact hSkip hPages
      · intro hOol
        apply hSkip
        rw [regionPages_of_assert fun h => absurd h hOol,
          if_neg fun h => hOol h.1]

end Sizing

------
-- The Second Pass
------

section Room

variable {cfg : KmsgConfig} {env : KmsgAnswers} {ikot : Nat}
variable {pr : Progress} {d : Descriptor}

/-
  What a conversion leaves of the region. The descriptor that
  it adds has the type it had.
-/
def Leaves
    (pr : Progress)
    (d : Descriptor)
    (left : Nat)
    (r : Except Refusal Progress) : Prop :=
  ∀ pr', r = .ok pr' → pr'.spaceNeeded = left ∧
    ∃ d', pr'.done = pr.done ++ [d'] ∧ d'.type = d.type

theorem leaves_refuse
    (d : Descriptor)
    (left : Nat) :
    Leaves pr d left (pr.refuse mr) := by
  intro pr' hEq
  cases hEq

/- A step after which the descriptor may be refused. -/
theorem leaves_checked
    {σ ε γ : Type}
    {left : Nat}
    {x : Checked σ ε γ}
    {refused : γ → Prop}
    [DecidablePred refused]
    {mr : γ → MachMsgReturn}
    {rest : γ → Checked σ ε (Except Refusal Progress)}
    (h : ∀ c, Returns (Leaves pr d left) (rest c)) :
    Returns (Leaves pr d left) (x >>= fun c =>
      if refused c then pure (pr.refuse (mr c)) else rest c) := by
  apply returns_bind
  intro c
  apply returns_ite
  · intro _
    exact returns_pure (leaves_refuse _ _)
  · intro _
    exact h c

theorem leaves_accept
    {d' : Descriptor}
    (hType : d'.type = d.type) :
    Leaves pr d pr.spaceNeeded (pr.accept d') := by
  intro pr' hEq
  cases hEq
  exact ⟨rfl, d', rfl, hType⟩

theorem convertPort_leaves :
    Returns (Leaves pr d pr.spaceNeeded) (convertPort env pr d) := by
  apply returns_bind
  intro _
  apply returns_ite
  · intro _
    exact returns_pure (leaves_accept rfl)
  · intro _
    apply leaves_checked
    intro _
    apply returns_bind
    intro _
    apply returns_pure
    intro pr' hEq
    cases hEq
    exact ⟨rfl, _, rfl, rfl⟩

theorem convertCopy_leaves :
    Returns (Leaves pr d pr.spaceNeeded) (convertCopy env pr d) := by
  apply leaves_checked
  intro _
  apply returns_bind
  intro _
  apply returns_bind
  intro _
  exact returns_pure (leaves_accept rfl)

theorem convertSmall_leaves :
    Returns (Leaves pr d pr.spaceNeeded)
      (convertSmall cfg env ikot pr d) := by
  apply returns_bind
  intro _
  apply leaves_checked
  intro _
  apply leaves_checked
  intro _
  apply returns_bind
  intro _
  apply returns_ite
  · intro _
    apply returns_bind
    intro _
    exact returns_pure (leaves_accept rfl)
  · intro _
    apply returns_bind
    intro _
    exact returns_pure (leaves_accept rfl)

theorem convertPhysical_leaves :
    Returns (Leaves pr d (pr.spaceNeeded - roundPageIpc d.size))
      (convertPhysical env pr d) := by
  apply leaves_checked
  intro _
  apply returns_bind
  intro _
  apply leaves_checked
  intro _
  apply returns_bind
  intro _
  apply returns_bind
  intro _
  apply returns_bind
  intro _
  apply returns_bind
  intro _
  apply returns_pure
  intro pr' hEq
  cases hEq
  exact ⟨rfl, _, rfl, rfl⟩

theorem convertPorts_leaves :
    Returns (Leaves pr d pr.spaceNeeded)
      (convertPorts env pr d) := by
  apply returns_ite
  · intro _
    exact returns_pure (leaves_accept rfl)
  · intro _
    apply returns_bind
    intro names
    cases names with
    | error mr => exact returns_pure (leaves_refuse _ _)
    | ok read =>
        rcases read with ⟨data, names⟩
        apply returns_bind
        intro _
        apply returns_bind
        intro accepted
        cases accepted with
        | none =>
            apply returns_bind
            intro _
            exact returns_pure (leaves_refuse _ _)
        | some kept =>
            rcases kept with ⟨objects, circular⟩
            apply returns_bind
            intro _
            apply returns_bind
            intro _
            apply returns_pure
            intro pr' hEq
            cases hEq
            exact ⟨rfl, _, rfl, rfl⟩

/- What is left after the data of a descriptor. -/
def leftAfter
    (cfg : KmsgConfig)
    (ikot : Nat)
    (pr : Progress)
    (d : Descriptor) : Nat :=
  if d.copiesToRegion cfg ikot then
    pr.spaceNeeded - roundPageIpc d.size
  else pr.spaceNeeded

theorem copiesToRegion_iff :
    d.copiesToRegion cfg ikot = true ↔
      d.isOol = true ∧ d.physical cfg = true ∧ d.size ≠ 0 ∧
        ipcKobjectVmPageList ikot = false := by
  unfold Descriptor.copiesToRegion
  simp [and_assoc]

theorem leftAfter_of_not
    (h : ¬ d.copiesToRegion cfg ikot = true) :
    leftAfter cfg ikot pr d = pr.spaceNeeded :=
  if_neg h

theorem convertOol_leaves
    (hOol : d.isOol = true) :
    Returns (Leaves pr d (leftAfter cfg ikot pr d))
      (convertOol cfg env ikot pr d) := by
  apply returns_ite
  · intro _
    apply returns_pure
    intro pr' hEq
    cases hEq
  intro _
  apply returns_ite
  · intro hSize
    rw [leftAfter_of_not
      fun h => (copiesToRegion_iff.mp h).2.2.1 hSize]
    exact returns_pure (leaves_accept rfl)
  intro hSize
  apply returns_ite
  · intro hLists
    rw [leftAfter_of_not fun h => by
      rw [(copiesToRegion_iff.mp h).2.2.2] at hLists
      exact absurd hLists (by simp)]
    apply returns_bind
    intro _
    exact convertCopy_leaves
  intro hLists
  apply returns_ite
  · intro hSmall
    rw [leftAfter_of_not fun h => by
      have hPhysical := (copiesToRegion_iff.mp h).2.1
      rw [Descriptor.physical_iff] at hPhysical
      omega]
    exact convertSmall_leaves
  intro hSmall
  apply returns_ite
  · intro hPhysical
    have hIs : d.copiesToRegion cfg ikot = true := by
      refine copiesToRegion_iff.mpr ⟨hOol, ?_, hSize, ?_⟩
      · rw [Descriptor.physical_iff]
        refine ⟨hPhysical.1, ?_, hPhysical.2⟩
        by_contra hLess
        exact hSmall ⟨by omega, hPhysical.1⟩
      · simpa using hLists
    unfold leftAfter
    rw [if_pos hIs]
    exact convertPhysical_leaves
  intro hPhysical
  rw [leftAfter_of_not fun h => by
    have hIs := (copiesToRegion_iff.mp h).2.1
    rw [Descriptor.physical_iff] at hIs
    exact hPhysical ⟨hIs.1, hIs.2.2⟩]
  apply returns_ite
  · intro _
    exact returns_pure (leaves_refuse _ _)
  · intro _
    exact convertCopy_leaves

theorem convertDescriptor_leaves :
    Returns (Leaves pr d (leftAfter cfg ikot pr d))
      (convertDescriptor cfg env ikot pr d) := by
  have hNot : ¬ d.isOol = true →
      leftAfter cfg ikot pr d = pr.spaceNeeded := by
    intro hOol
    exact leftAfter_of_not
      fun h => hOol (copiesToRegion_iff.mp h).1
  unfold convertDescriptor
  split
  case h_1 hType =>
      rw [hNot (by simp [Descriptor.isOol, hType])]
      exact convertPort_leaves
  case h_2 hType =>
      exact convertOol_leaves (by
        simp [Descriptor.isOol, hType])
  case h_3 hType =>
      exact convertOol_leaves (by
        simp [Descriptor.isOol, hType])
  case h_4 hType =>
      rw [hNot (by simp [Descriptor.isOol, hType])]
      exact convertPorts_leaves
  case h_5 =>
      exact returns_pure (leaves_refuse _ _)

/- The region has room for the pages of a descriptor. -/
def RoomFor
    (cfg : KmsgConfig)
    (ikot : Nat)
    (pr : Progress)
    (d : Descriptor)
    (_ : Sender) : Prop :=
  d.copiesToRegion cfg ikot = true →
    roundPageNat d.size ≤ pr.spaceNeeded

/- Where the total has room, every part of it has. -/
theorem room_of_total
    (ds : List (Nat × Descriptor))
    (s : Sender)
    (hTotal : regionTotal cfg ikot ds ≤ pr.spaceNeeded)
    (hSpace : pr.spaceNeeded < 2 ^ 32) :
    AtDescriptors cfg env ikot (RoomFor cfg ikot)
      (fun _ => True) ds pr s := by
  induction ds generalizing pr s with
  | nil => trivial
  | cons first ds ih =>
      rcases first with ⟨addr, d⟩
      rw [regionTotal_cons] at hTotal
      unfold AtDescriptors
      rw [after_run (touch_run addr s)]
      refine ⟨?_, ?_⟩
      · intro hIs
        unfold regionPages at hTotal
        rw [if_pos hIs] at hTotal
        omega
      · intro r u hRun
        have hLeft := convertDescriptor_leaves _ _ _ hRun
        cases r with
        | error no => trivial
        | ok pr' =>
            have hEq := (hLeft pr' rfl).1
            unfold leftAfter at hEq
            unfold regionPages at hTotal
            by_cases hIs : d.copiesToRegion cfg ikot = true
            · rw [if_pos hIs] at hEq hTotal
              have hRound : roundPageIpc d.size =
                  roundPageNat d.size :=
                roundPageIpc_of_lt (by omega)
              exact ih u (by omega) (by omega)
            · rw [if_neg hIs] at hEq hTotal
              exact ih u (by omega) (by omega)

/-
  Where there is room for every part, and no array of ports,
  every descriptor that is reached is tame.
-/
theorem tame_of_room
    {Q : Progress → Prop}
    (ds : List (Nat × Descriptor))
    (s : Sender)
    (hRoom : AtDescriptors cfg env ikot (RoomFor cfg ikot) Q ds
      pr s)
    (hTypes : ∀ x ∈ ds, x.2.type ≠ machMsgOolPortsDescriptor)
    (hDone : ∀ d ∈ pr.done,
      d.type ≠ machMsgOolPortsDescriptor) :
    AtDescriptors cfg env ikot (TameDescriptor cfg env ikot)
      NoneWrapped ds pr s := by
  induction ds generalizing pr s with
  | nil => trivial
  | cons first ds ih =>
      rcases first with ⟨addr, d⟩
      unfold AtDescriptors at hRoom ⊢
      rw [after_run (touch_run addr s)] at hRoom ⊢
      rcases hRoom with ⟨hFits, hRest⟩
      have hType := hTypes _ List.mem_cons_self
      refine ⟨⟨?_, fun hPorts => absurd hPorts hType⟩, ?_⟩
      · intro hOol hLists hPhysical _ _ _ _
        by_cases hSize : d.size = 0
        · rw [hSize]
          exact Nat.zero_le _
        · have hIsOol : d.isOol = true := by
            rcases hOol with h | h
            · simp [Descriptor.isOol, h]
            · simp [Descriptor.isOol, h]
          have hPages := hFits (copiesToRegion_iff.mpr
            ⟨hIsOol, hPhysical, hSize, hLists⟩)
          unfold roundPageNat pageSizeIpc at hPages
          omega
      · intro r u hRun
        have hLeft := convertDescriptor_leaves _ _ _ hRun
        have hNext := hRest r u hRun
        cases r with
        | error no =>
            exact fun d' hIn hWrapped =>
              hDone d' hIn hWrapped.1
        | ok pr' =>
            rcases (hLeft pr' rfl).2 with ⟨d', hEq, hSame⟩
            refine ih u hNext
              (fun x hIn => hTypes x
                (List.mem_cons_of_mem _ hIn)) ?_
            rw [hEq]
            intro x hIn
            rcases List.mem_append.mp hIn with hOld | hNew
            · exact hDone x hOld
            · rw [List.mem_singleton.mp hNew, hSame]
              exact hType

end Room

------
-- Sizes of a Body
------

/-
  The region that the first pass asks for has room for all
  that the second pass copies to it, in total and at each
  descriptor; and an array of ports is as long as its count.
-/
structure SizesHold
    (cfg : KmsgConfig)
    (env : KmsgAnswers)
    (header : HeaderPorts)
    (ds : List (Nat × Descriptor))
    (s : Sender)
    (spaceNeeded : Nat) : Prop where
  total :
    regionTotal cfg (s.ports header.remotePort).ipKotype ds ≤
      spaceNeeded
  room : AtBody cfg env header ds (RoomFor cfg)
    (fun _ => True) s
  arrays : ∀ addr d, (addr, d) ∈ ds →
    d.type = machMsgOolPortsDescriptor →
      d.count * sizeofMachPort ≤ d.portsLength

/- Neither the total nor a length is too large for 32 bits. -/
structure SizesFit
    (cfg : KmsgConfig)
    (ikot : Nat)
    (ds : List (Nat × Descriptor)) : Prop where
  total : regionTotal cfg ikot ds < 2 ^ 32
  arrays : ∀ addr d, (addr, d) ∈ ds →
    d.type = machMsgOolPortsDescriptor → d.count < 2 ^ 30

theorem portsLength_holds :
    d.count * sizeofMachPort ≤ d.portsLength ↔
      d.count < 2 ^ 30 := by
  unfold Descriptor.portsLength sizeofMachPort
  omega

/-
  The checks before the second pass accept a body, which
  needs this much space.
-/
def Accepted
    (cfg : KmsgConfig)
    (env : KmsgAnswers)
    (header : HeaderPorts)
    (memory : Nat → Descriptor)
    (msgh msghSize descriptorCount : Nat)
    (s : Sender)
    (spaceNeeded : Nat) : Prop :=
  ¬ Rejected msgh msghSize descriptorCount ∧
    ∃ t,
      sizingPass cfg env header
          (takesPageLists
            (s.ports header.remotePort).ipKotype)
          (bodyDescriptors memory msgh descriptorCount) 0 s =
        (.ok spaceNeeded, t)

/-
  For a body that is accepted, the sizes hold exactly when
  they fit in 32 bits.
-/
theorem copyin_body_sizes_iff
    (cfg : KmsgConfig)
    (env : KmsgAnswers)
    (header : HeaderPorts)
    (memory : Nat → Descriptor)
    (msgh msghSize descriptorCount : Nat)
    (s : Sender)
    (spaceNeeded : Nat)
    (hAccepted :
      Accepted cfg env header memory msgh msghSize
        descriptorCount s spaceNeeded) :
    SizesHold cfg env header
        (bodyDescriptors memory msgh descriptorCount) s
        spaceNeeded ↔
      SizesFit cfg (s.ports header.remotePort).ipKotype
        (bodyDescriptors memory msgh descriptorCount) := by
  rcases hAccepted with ⟨_, t, hSized⟩
  have hEq := sizingPass_total _ (by decide) s spaceNeeded t
    hSized
  constructor
  · intro hHold
    refine ⟨?_, fun addr d hIn hType =>
      portsLength_holds.mp (hHold.arrays addr d hIn hType)⟩
    have hTotal := hHold.total
    omega
  · intro hFit
    have hTotal := hFit.total
    refine ⟨by omega, ?_, fun addr d hIn hType =>
      portsLength_holds.mpr (hFit.arrays addr d hIn hType)⟩
    unfold AtBody
    rw [after_run hSized]
    intro paddr u _
    apply room_of_total
    · dsimp only
      omega
    · dsimp only
      omega

/-
  A body without arrays of ports is tame when the sizes of its
  data add up to less than 2 ^ 32.
-/
theorem tameBody_of_sizes
    {cfg : KmsgConfig}
    {env : KmsgAnswers}
    {header : HeaderPorts}
    {memory : Nat → Descriptor}
    {msgh msghSize descriptorCount : Nat}
    {s : Sender}
    (hTotal :
      regionTotal cfg (s.ports header.remotePort).ipKotype
        (bodyDescriptors memory msgh descriptorCount) < 2 ^ 32)
    (hTypes : ∀ x ∈ bodyDescriptors memory msgh descriptorCount,
      x.2.type ≠ machMsgOolPortsDescriptor) :
    TameBody cfg env header memory msgh msghSize
      descriptorCount s := by
  intro _ spaceNeeded t hSized paddr u _
  have hEq := sizingPass_total _ (by decide) s spaceNeeded t
    hSized
  refine tame_of_room _ u (room_of_total _ u ?_ ?_) hTypes
    fun d hIn => by cases hIn
  · dsimp only
    omega
  · dsimp only
    omega

/- An array of names whose length in bytes is 2 ^ 32. -/
def hugeArray : Descriptor :=
  { nullArray with size := 2 ^ 30 }

theorem not_rejected_one : ¬ Rejected 65536 40 1 := by
  unfold Rejected
  decide

/- It is accepted, and its length is taken to be zero. -/
theorem copyin_body_sizes_wrap :
    ∃ spaceNeeded,
      Accepted loneConfig nullAnswers loneHeader
        (fun _ => hugeArray) 65536 40 1 loneSender
        spaceNeeded ∧
      ¬ SizesHold loneConfig nullAnswers loneHeader
        (bodyDescriptors (fun _ => hugeArray) 65536 1)
        loneSender spaceNeeded := by
  refine ⟨0, ⟨not_rejected_one, _, rfl⟩, ?_⟩
  intro hHold
  have hLength := hHold.arrays 65564 hugeArray
    (List.mem_singleton_self _) rfl
  exact absurd hLength (by decide)

/- An array of two names. -/
theorem copyin_body_sizes_one :
    regionTotal loneConfig
        (loneSender.ports loneHeader.remotePort).ipKotype
        (bodyDescriptors (fun _ => nullArray) 65536 1) < 2 ^ 32 ∧
      SizesHold loneConfig nullAnswers loneHeader
        (bodyDescriptors (fun _ => nullArray) 65536 1)
        loneSender 0 := by
  have hTotal : regionTotal loneConfig
      (loneSender.ports loneHeader.remotePort).ipKotype
      (bodyDescriptors (fun _ => nullArray) 65536 1) <
        2 ^ 32 := by decide
  refine ⟨hTotal, (copyin_body_sizes_iff loneConfig nullAnswers
    loneHeader _ 65536 40 1 loneSender 0
    ⟨not_rejected_one, _, rfl⟩).mpr ⟨hTotal, ?_⟩⟩
  intro addr d hIn _
  cases List.mem_singleton.mp hIn
  decide

end Ipc

end OsfMach
