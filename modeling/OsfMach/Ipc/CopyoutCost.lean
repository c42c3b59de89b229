import OsfMach.Ipc.CopyoutHeld

/-
  How much a message loses at least when it is cleaned or
  copied out, whatever it holds.

  Main declarations:
    * `Costs`, `CostsOut`, `cleanCost`
    * `ipcKmsgCleanBody_costs`
    * `copyoutLoop_costs`
-/

------
-- Cleaning
------

namespace OsfMach

namespace Ipc

open List
open Lib
open Lib.Checked

variable {d : Descriptor} {nextAddr : Nat} {ss : ScatterList}

/- A part that goes through takes as much off the message. -/
abbrev Costs
    {α : Type}
    (buffers : Nat → List Nat)
    (n : Nat)
    (x : KmsgProg α) : Prop :=
  Spends (fun s : Sender => s.buffers = buffers)
    (fun s => s.held.length) n x

section Clean

variable {buffers : Nat → List Nat} {cfg : KmsgConfig}
variable (env : KmsgAnswers)

theorem releaseHeld_costs
    (h : Held) :
    Costs buffers 1 (releaseHeld h) := by
  intro s a t hI hRun
  by_cases hMem : h ∈ s.held
  · rw [releaseHeld_run hMem] at hRun
    injection hRun with _ hState
    rw [← hState]
    have hLength := length_erase_of_mem hMem
    have hPos := length_pos_of_mem hMem
    refine ⟨hI, ?_⟩
    dsimp only
    omega
  · exact absurd (of_require_run hRun).1 hMem

/- What changes neither memory nor what is held. -/
theorem change_costs
    {f : Sender → Sender}
    (hBuffers : ∀ s, (f s).buffers = s.buffers)
    (hHeld : ∀ s, (f s).held = s.held) :
    Costs buffers 0 (change f) :=
  spends_change fun s hI =>
    ⟨(hBuffers s).trans hI, by rw [hHeld, Nat.add_zero]⟩

theorem ask_costs :
    Costs buffers 0 (ask env) :=
  Spends.read fun _ _ =>
    Spends.after (change_costs (fun _ => rfl) fun _ => rfl)
      fun _ => spends_pure

theorem ipcPortReleaseSend_costs
    (p : Nat) :
    Costs buffers 0 (ipcPortReleaseSend p) := by
  apply Spends.read
  intro s _
  apply spends_ite
  · exact fun _ => Spends.require fun _ =>
      change_costs (fun _ => rfl) fun _ => rfl
  · exact fun _ => spends_pure

theorem ipcPortReleaseSonce_costs
    (p : Nat) :
    Costs buffers 0 (ipcPortReleaseSonce p) :=
  Spends.read fun _ _ => Spends.require fun _ =>
    change_costs (fun _ => rfl) fun _ => rfl

theorem ipcNotifySendOnce_costs
    (p : Nat) :
    Costs buffers 0 (ipcNotifySendOnce env p) := by
  apply (ask_costs env).after
  intro granted
  apply spends_ite
  · exact fun _ => change_costs (fun _ => rfl) fun _ => rfl
  · exact fun _ => ipcPortReleaseSonce_costs p

theorem ipcPortReleaseReceive_costs
    (p : Nat) :
    Costs buffers 0 (ipcPortReleaseReceive env p) := by
  apply Spends.read
  intro s _
  apply Spends.require
  intro _
  apply Spends.require
  intro _
  apply Spends.require
  intro _
  apply spends_ite
  · intro _
    apply (ask_costs env).after
    intro sent
    apply spends_ite
    · exact fun _ => change_costs (fun _ => rfl) fun _ => rfl
    · exact fun _ => change_costs (fun _ => rfl) fun _ => rfl
  · intro _
    apply spends_pure.after
    intro sent
    apply spends_ite
    · exact fun _ => change_costs (fun _ => rfl) fun _ => rfl
    · exact fun _ => change_costs (fun _ => rfl) fun _ => rfl

theorem ipcObjectDestroy_costs
    (object type : Nat) :
    Costs buffers 1 (ipcObjectDestroy env object type) := by
  apply Spends.require
  intro _
  apply (releaseHeld_costs _).last
  intro _
  split
  · exact ipcPortReleaseSend_costs object
  · exact ipcNotifySendOnce_costs env object
  · exact ipcPortReleaseReceive_costs env object
  · exact spends_stop

theorem destroyValid_costs
    (type object : Nat) :
    Costs buffers (heldObjects type [object]).length
      (destroyValid env type object) := by
  unfold destroyValid
  by_cases hValid : ioValid object = true
  · rw [if_pos hValid, heldObjects_valid hValid]
    exact ipcObjectDestroy_costs env object type
  · rw [if_neg hValid, heldObjects_not hValid]
    exact spends_pure

theorem destroyObjects_costs
    (type : Nat)
    (objects : List Nat) :
    Costs buffers (heldObjects type objects).length
      (destroyObjects env type objects) := by
  induction objects with
  | nil => exact spends_pure
  | cons object objects ih =>
      rw [heldObjects_cons, length_append]
      exact (destroyValid_costs env type object).bind fun _ => ih

theorem vmMapCopyDiscard_costs
    (copy : Nat) :
    Costs buffers (heldCopy copy).length
      (vmMapCopyDiscard copy) := by
  unfold vmMapCopyDiscard heldCopy
  by_cases hNone : copy = 0
  · rw [if_pos hNone, if_pos hNone]
    exact spends_pure
  · rw [if_neg hNone, if_neg hNone]
    exact releaseHeld_costs _

theorem cleanOol_costs
    (hOol : IsOol d) :
    Costs buffers (heldBy cfg buffers d).length
      (cleanOol cfg d) := by
  rw [heldBy_ool hOol]
  unfold cleanOol
  by_cases hSize : d.size = 0
  · rw [if_pos hSize, if_pos hSize]
    exact spends_require
  rw [if_neg hSize, if_neg hSize]
  by_cases hSmall : d.copy = machMsgPhysicalCopy ∧
      d.size < cfg.msgOolSizeSmall
  · rw [if_pos hSmall, if_pos hSmall]
    exact releaseHeld_costs _
  · rw [if_neg hSmall, if_neg hSmall]
    exact vmMapCopyDiscard_costs _

instance (d : Descriptor) : Decidable (Wrapped d) :=
  inferInstanceAs (Decidable (_ ∧ _ ∧ _))

/-
  What cleaning a descriptor takes at least. A length that
  wrapped around is never cleaned through.
-/
def cleanCost
    (cfg : KmsgConfig)
    (buffers : Nat → List Nat)
    (d : Descriptor) : Nat :=
  (heldBy cfg buffers d).length + if Wrapped d then 1 else 0

theorem cleanPorts_costs
    (hType : d.type = machMsgOolPortsDescriptor)
    (hNone : d.portsLength = 0 → d.address = 0) :
    Costs buffers (cleanCost cfg buffers d)
      (cleanPorts env d) := by
  unfold cleanCost cleanPorts
  rw [heldBy_ports hType]
  by_cases hCount : d.count = 0
  · have hLength : d.portsLength = 0 := by
      unfold Descriptor.portsLength
      rw [hCount, Nat.zero_mul, Nat.zero_mod]
    rw [if_pos hCount, if_pos hLength,
      if_neg (fun h => h.2.1 hCount)]
    exact spends_pure
  rw [if_neg hCount]
  by_cases hLength : d.portsLength = 0
  · apply Spends.require
    intro hAddress
    exact absurd (hNone hLength) hAddress
  rw [if_neg hLength, if_neg (fun h => hLength h.2.2),
    Nat.add_zero, length_append]
  apply Spends.require
  intro _
  apply Spends.read
  intro s hBuffers
  rw [hBuffers]
  exact (destroyObjects_costs env _ _).bind fun _ =>
    Spends.require fun _ => releaseHeld_costs _

/- Also where nothing is known of the array. -/
theorem cleanPorts_zero
    (d : Descriptor) :
    Costs buffers 0 (cleanPorts env d) := by
  apply spends_ite
  · exact fun _ => spends_pure
  · intro _
    apply Spends.require
    intro _
    apply Spends.read
    intro s _
    exact ((destroyObjects_costs env _ _).bind fun _ =>
      Spends.require fun _ => releaseHeld_costs _).mono
        (Nat.zero_le _)

theorem cleanCost_other
    (hType : d.type ≠ machMsgOolPortsDescriptor) :
    cleanCost cfg buffers d =
      (heldBy cfg buffers d).length := by
  unfold cleanCost
  rw [if_neg (fun h => hType h.1), Nat.add_zero]

theorem cleanDescriptor_costs
    (hNone : d.type = machMsgOolPortsDescriptor →
      d.portsLength = 0 → d.address = 0) :
    Costs buffers (cleanCost cfg buffers d)
      (cleanDescriptor cfg env d) := by
  unfold cleanDescriptor
  split
  · rename_i hType
    rw [cleanCost_other (by rw [hType]; decide),
      heldBy_port hType]
    exact destroyValid_costs env _ _
  · rename_i hType
    rw [cleanCost_other (by rw [hType]; decide)]
    exact cleanOol_costs (Or.inl hType)
  · rename_i hType
    rw [cleanCost_other (by rw [hType]; decide)]
    exact cleanOol_costs (Or.inr hType)
  · rename_i hType
    exact cleanPorts_costs env hType (hNone hType)
  · rename_i hPort hVolatile hOol hPorts
    have hEmpty : heldBy cfg buffers d = [] := by
      unfold heldBy
      split
      · exact absurd ‹_› hPort
      · exact absurd ‹_› hVolatile
      · exact absurd ‹_› hOol
      · exact absurd ‹_› hPorts
      · rfl
    rw [cleanCost_other hPorts, hEmpty]
    exact spends_pure

theorem cleanDescriptor_holds
    (d : Descriptor) :
    Costs buffers (heldBy cfg buffers d).length
      (cleanDescriptor cfg env d) := by
  by_cases hNone : d.type = machMsgOolPortsDescriptor ∧
      d.portsLength = 0
  · rw [cleanDescriptor_ports hNone.1, heldBy_ports hNone.1,
      if_pos hNone.2]
    exact cleanPorts_zero env d
  · exact (cleanDescriptor_costs env fun hType hLength =>
      absurd ⟨hType, hLength⟩ hNone).mono (Nat.le_add_right _ _)

/- What each descriptor holds is taken off. -/
theorem ipcKmsgCleanBody_holds
    (ds : List Descriptor) :
    Costs buffers (ds.flatMap (heldBy cfg buffers)).length
      (ipcKmsgCleanBody cfg env ds) := by
  induction ds with
  | nil => exact spends_pure
  | cons d ds ih =>
      rw [flatMap_cons, length_append]
      exact (cleanDescriptor_holds env d).bind fun _ => ih

theorem ipcKmsgCleanBody_costs
    (ds : List Descriptor)
    (hNone : ∀ d, d ∈ ds →
      d.type = machMsgOolPortsDescriptor →
        d.portsLength = 0 → d.address = 0) :
    Costs buffers (ds.map (cleanCost cfg buffers)).sum
      (ipcKmsgCleanBody cfg env ds) := by
  induction ds with
  | nil => exact spends_pure
  | cons d ds ih =>
      exact (cleanDescriptor_costs env
        (hNone d mem_cons_self)).bind fun _ =>
          ih fun x hx => hNone x (mem_cons_of_mem _ hx)

end Clean

------
-- Copying out
------

/- A part of the copying out that takes as much off. -/
abbrev CostsOut
    {α : Type}
    (buffers : Nat → List Nat)
    (n : Nat)
    (x : CopyoutProg α) : Prop :=
  Spends (fun r : Receiver => r.message.buffers = buffers)
    (fun r => r.message.held.length) n x

section Copyout

variable {buffers : Nat → List Nat} {cfg : KmsgConfig}

theorem Costs.onMessage
    {α : Type}
    {n : Nat}
    {x : KmsgProg α}
    (h : Costs buffers n x) :
    CostsOut buffers n (onMessage x) :=
  Spends.onPart h fun _ _ => rfl

theorem change_costsOut
    {f : Receiver → Receiver}
    (h : ∀ r, (f r).message = r.message) :
    CostsOut buffers 0 (change f) :=
  spends_change fun r hI => by
    rw [h]
    exact ⟨hI, Nat.le_refl _⟩

theorem writeOver_costs
    (w : Overwrite) :
    CostsOut buffers 0 (writeOver w) :=
  change_costsOut fun _ => rfl

theorem install_costs
    (object type : Nat) :
    CostsOut buffers 1 (install object type) := by
  have hGive : Costs buffers 1 (giveRight object type) :=
    (releaseHeld_costs _).last fun _ =>
      change_costs (fun _ => rfl) fun _ => rfl
  exact (Costs.onMessage hGive).last fun _ =>
    change_costsOut fun _ => rfl

theorem mapCopy_costs
    (copy : Nat) :
    CostsOut buffers 1 (mapCopy copy) :=
  (Costs.onMessage (releaseHeld_costs _)).last fun _ =>
    change_costsOut fun _ => rfl

theorem freeBuffer_costs
    (d : Descriptor)
    (length : Nat) :
    CostsOut buffers 1 (freeBuffer d length) :=
  Costs.onMessage (releaseHeld_costs _)

variable (env : KmsgAnswers) in
theorem copyoutObject_costs
    (answer : CopyoutAnswer)
    (object type : Nat) :
    CostsOut buffers (heldObjects type [object]).length
      (ipcKmsgCopyoutObject env answer object type) := by
  have hDestroy : ∀ out, CostsOut buffers 1 (do
        onMessage (ipcObjectDestroy env object type)
        pure out : CopyoutProg (Nat × Nat)) :=
    fun out => (Costs.onMessage
      (ipcObjectDestroy_costs env object type)).last
        fun _ => spends_pure
  unfold ipcKmsgCopyoutObject
  by_cases hValid : ioValid object = true
  · rw [if_neg (by simp [hValid]), heldObjects_valid hValid]
    cases answer with
    | success name =>
        exact (install_costs object type).last fun _ =>
          spends_pure
    | invalidCapability | resourceShortage | noSpace => exact hDestroy _
  · rw [if_pos (by simp [hValid]), heldObjects_not hValid]
    exact spends_pure

variable (env : KmsgAnswers) in
theorem copyoutObjects_costs
    (answers : Nat → CopyoutAnswer)
    (type j : Nat)
    (objects : List Nat) :
    CostsOut buffers (heldObjects type objects).length
      (copyoutObjects env answers type j objects) := by
  induction objects generalizing j with
  | nil => exact spends_pure
  | cons object objects ih =>
      rw [heldObjects_cons, length_append]
      exact (copyoutObject_costs env _ object type).bind
        fun _ => (ih (j + 1)).last fun _ => spends_pure

section Memory

variable {answer : MapAnswer} {region : Option Descriptor}
variable {d : Descriptor}

theorem copyoutSmall_costs :
    CostsOut buffers 1 (copyoutSmall cfg answer d region) := by
  have hFree : ∀ out, CostsOut buffers 1 (do
        freeBuffer d d.size
        pure out : CopyoutProg (Nat × Descriptor)) :=
    fun out => (freeBuffer_costs d d.size).last fun _ =>
      spends_pure
  cases region with
  | some s =>
      exact (writeOver_costs _).after fun _ => hFree _
  | none =>
      apply spends_ite
      · exact fun _ => hFree _
      · intro _
        cases answer with
        | success addr | resourceShortage | noSpace => exact hFree _

theorem copyoutCopy_costs
    (hAddress : d.address ≠ 0) :
    CostsOut buffers 1 (copyoutCopy answer d region) := by
  have hMap : ∀ out, CostsOut buffers 1 (do
        mapCopy d.address
        pure out : CopyoutProg (Nat × Descriptor)) :=
    fun out => (mapCopy_costs d.address).last fun _ =>
      spends_pure
  have hDiscard : ∀ out, CostsOut buffers 1 (do
        onMessage (vmMapCopyDiscard d.address)
        pure out : CopyoutProg (Nat × Descriptor)) := by
    intro out
    have hOne : Costs buffers 1 (vmMapCopyDiscard d.address) := by
      unfold vmMapCopyDiscard
      rw [if_neg hAddress]
      exact releaseHeld_costs _
    exact (Costs.onMessage hOne).last fun _ => spends_pure
  cases region with
  | some s =>
      apply (writeOver_costs _).after
      intro _
      cases answer with
      | success addr => exact hMap _
      | resourceShortage => exact hDiscard _
      | noSpace => exact hDiscard _
  | none =>
      cases answer with
      | success addr => exact hMap _
      | resourceShortage => exact hDiscard _
      | noSpace => exact hDiscard _

theorem copyoutOol_costs
    (h : Queued nextAddr buffers d)
    (hOol : IsOol d) :
    CostsOut buffers (heldBy cfg buffers d).length
      (copyoutOol cfg answer d region) := by
  rw [heldBy_ool hOol]
  apply spends_require.after
  intro _
  apply spends_require.after
  intro _
  by_cases hSize : d.size = 0
  · rw [if_pos (h.ool hOol hSize), if_pos hSize]
    exact spends_pure
  have hAddress := h.memory hOol hSize
  rw [if_neg hAddress, if_neg hSize]
  by_cases hSmall : d.copy = machMsgPhysicalCopy ∧
      d.size < cfg.msgOolSizeSmall
  · rw [if_pos hSmall, if_pos hSmall]
    exact copyoutSmall_costs
  · rw [if_neg hSmall, if_neg hSmall, heldCopy_of hAddress]
    exact copyoutCopy_costs hAddress

variable (env : KmsgAnswers) in
theorem copyoutArray_costs
    (answers : Nat → CopyoutAnswer)
    (addr : Nat)
    (hLength : (buffers d.address).length ≤ d.count) :
    CostsOut buffers
      (heldObjects d.disposition (buffers d.address) ++
        [Held.buffer d.address d.portsLength]).length
      (copyoutArray env answers d addr) := by
  unfold copyoutArray
  apply spends_require.after
  intro _
  apply Spends.read
  intro r hBuffers
  dsimp only
  rw [hBuffers, take_of_length_le hLength, length_append]
  apply spends_require.after
  intro _
  exact (copyoutObjects_costs env answers _ 0 _).bind fun _ =>
    (freeBuffer_costs d _).last fun _ => spends_pure

variable {env : CopyoutAnswers}

/- Cleaning the body takes off what the descriptors hold. -/
theorem cleanBody_costs
    {done rest : List Descriptor}
    (hDone : ∀ x, x ∈ done →
      x.type = machMsgOolPortsDescriptor →
        x.portsLength = 0 → x.address = 0)
    (hRest : ∀ x, x ∈ rest → Queued nextAddr buffers x)
    (h : Queued nextAddr buffers d)
    (hType : d.type = machMsgOolPortsDescriptor)
    (hLength : d.portsLength ≠ 0)
    (copy : Nat) :
    Costs buffers
      ((done.map (cleanCost cfg buffers)).sum +
        ((heldBy cfg buffers d).length +
          (rest.map (cleanCost cfg buffers)).sum))
      (ipcKmsgCleanBody cfg env.memory
        (done ++ { d with copy := copy } :: rest)) := by
  have hSame : cleanCost cfg buffers { d with copy := copy } =
      (heldBy cfg buffers d).length := by
    have hHeld : heldBy cfg buffers { d with copy := copy } =
        heldBy cfg buffers d := by
      rw [heldBy_ports hType]
      exact heldBy_ports hType
    unfold cleanCost
    rw [if_neg (fun hWrapped => hLength hWrapped.2.2), hHeld]
    rfl
  have hAll : ∀ x, x ∈ done ++ { d with copy := copy } :: rest →
      x.type = machMsgOolPortsDescriptor →
        x.portsLength = 0 → x.address = 0 := by
    intro x hIn
    rcases mem_append.mp hIn with hFirst | hSecond
    · exact hDone x hFirst
    · rcases mem_cons.mp hSecond with hEq | hLast
      · rw [hEq]
        exact fun hIs hZero => h.none hIs hZero
      · exact (hRest x hLast).none
  have hSum : (done.map (cleanCost cfg buffers)).sum +
      ((heldBy cfg buffers d).length +
        (rest.map (cleanCost cfg buffers)).sum) =
      ((done ++ { d with copy := copy } :: rest).map
        (cleanCost cfg buffers)).sum := by
    rw [map_append, sum_append, map_cons, sum_cons, hSame]
  rw [hSum]
  exact ipcKmsgCleanBody_costs env.memory _ hAll

theorem copyoutPorts_costs
    (done rest : List Descriptor)
    (h : Queued nextAddr buffers d)
    (hType : d.type = machMsgOolPortsDescriptor) :
    CostsOut buffers (heldBy cfg buffers d).length
      (copyoutPorts cfg env done rest d region) := by
  by_cases hNone : NoSpace cfg (env.map done.length) d region
  · rcases copyoutPorts_noSpace done rest hNone with
      ⟨mr, copy, hRun⟩
    rw [hRun]
    have hLess : (heldBy cfg buffers d).length ≤
        ((done ++ { d with copy := copy } :: rest).flatMap
          (heldBy cfg buffers)).length := by
      have hSame : heldBy cfg buffers { d with copy := copy } =
          heldBy cfg buffers d := by
        rw [heldBy_ports hType]
        exact heldBy_ports hType
      rw [flatMap_append, flatMap_cons, hSame,
        length_append, length_append]
      omega
    exact ((Costs.onMessage
      (ipcKmsgCleanBody_holds env.memory _)).mono hLess).last
        fun _ => spends_pure
  rw [heldBy_ports hType]
  unfold copyoutPorts
  by_cases hLength : d.portsLength = 0
  · rw [if_pos hLength, if_pos hLength]
    exact spends_pure
  rw [if_neg hLength, if_neg hLength]
  have hArray : ∀ copy addr,
      CostsOut buffers
        (heldObjects d.disposition (buffers d.address) ++
          [Held.buffer d.address d.portsLength]).length
        (copyoutArray env.memory (env.object done.length)
          { d with copy := copy } addr) :=
    fun copy addr => copyoutArray_costs
      (d := { d with copy := copy }) env.memory _ addr
      (h.length_le hType hLength)
  cases region with
  | some s =>
      exact (writeOver_costs _).after fun _ => hArray _ _
  | none =>
      by_cases hRt : cfg.rt = true
      · exact absurd ⟨hType, hLength, rfl, Or.inl hRt⟩ hNone
      rw [if_neg hRt]
      cases hAnswer : env.map done.length with
      | success addr => exact hArray _ addr
      | resourceShortage | noSpace =>
          refine absurd ⟨hType, hLength, rfl, Or.inr ?_⟩ hNone
          intro addr hEq
          rw [hAnswer] at hEq
          cases hEq

theorem takeScatter_costs
    (hPort : d.isPort = false) :
    CostsOut buffers 0 (takeScatter d ss) := by
  intro r out r' hI hRun
  rcases takeScatter_run hPort ss r with ⟨reads, hEq, _⟩
  rw [hEq] at hRun
  injection hRun with _ hState
  rw [← hState]
  exact ⟨hI, Nat.le_refl _⟩

/- Without space the others' holdings are taken off too. -/
theorem copyoutDescriptor_noSpace
    {done rest : List Descriptor}
    (hDone : ∀ x, x ∈ done →
      x.type = machMsgOolPortsDescriptor →
        x.portsLength = 0 → x.address = 0)
    (hRest : ∀ x, x ∈ rest → Queued nextAddr buffers x)
    (h : Queued nextAddr buffers d)
    (hNone : NoSpace cfg (env.map done.length) d
      (scatterNext ss).1) :
    CostsOut buffers
      ((done.map (cleanCost cfg buffers)).sum +
        ((heldBy cfg buffers d).length +
          (rest.map (cleanCost cfg buffers)).sum))
      (copyoutDescriptor cfg env done rest d ss) := by
  have hPort : d.isPort = false :=
    isPort_of_type hNone.1 (by decide)
  rcases copyoutPorts_noSpace done rest hNone with
    ⟨mr, copy, hRun⟩
  have hClean : Costs buffers
      ((done.map (cleanCost cfg buffers)).sum +
        ((heldBy cfg buffers d).length +
          (rest.map (cleanCost cfg buffers)).sum))
      (ipcKmsgCleanBody cfg env.memory
        (done ++ { d with copy := copy } :: rest)) :=
    cleanBody_costs hDone hRest h hNone.1 hNone.2.1 copy
  rw [copyoutDescriptor_ports hNone.1]
  apply ((takeScatter_costs hPort).bind_returns
    (takeScatter_returns hPort) fun out hOut => ?_).mono
    (Nat.le_of_eq (Nat.zero_add _).symm)
  rw [hOut]
  dsimp only
  rw [hRun]
  exact ((Costs.onMessage hClean).last fun _ =>
    spends_pure).last fun _ => spends_pure

theorem copyoutDescriptor_costs
    (done rest : List Descriptor)
    (h : Queued nextAddr buffers d) :
    CostsOut buffers (heldBy cfg buffers d).length
      (copyoutDescriptor cfg env done rest d ss) := by
  unfold copyoutDescriptor
  split
  · rename_i hType
    rw [heldBy_port hType]
    exact (copyoutObject_costs env.memory _ _ _).last fun _ =>
      spends_pure
  · rename_i hType
    exact (takeScatter_costs
      (isPort_of_type hType (by decide))).after fun _ =>
        (copyoutOol_costs h (Or.inl hType)).last fun _ =>
          spends_pure
  · rename_i hType
    exact (takeScatter_costs
      (isPort_of_type hType (by decide))).after fun _ =>
        (copyoutOol_costs h (Or.inr hType)).last fun _ =>
          spends_pure
  · rename_i hType
    exact (takeScatter_costs
      (isPort_of_type hType (by decide))).after fun _ =>
        (copyoutPorts_costs done rest h hType).last fun _ =>
          spends_pure
  · exact spends_stop

/- Copying out takes off what the descriptors held. -/
theorem copyoutLoop_costs
    (done ds : List Descriptor)
    (ss : ScatterList)
    (mr : Nat)
    (h : ∀ d, d ∈ ds → Queued nextAddr buffers d) :
    CostsOut buffers
      (ds.flatMap (heldBy cfg buffers)).length
      (copyoutLoop cfg env done ds ss mr) := by
  induction ds generalizing done ss mr with
  | nil => exact spends_pure
  | cons d ds ih =>
      rw [flatMap_cons, length_append]
      exact (copyoutDescriptor_costs done ds
        (h d mem_cons_self)).bind fun _ =>
          ih _ _ _ fun x hx => h x (mem_cons_of_mem _ hx)

end Memory

end Copyout

end Ipc

end OsfMach
