import OsfMach.Ipc.KmsgInv

/-
  Cleaning up a message whose copying in failed.

  Main declarations:
    * `heldBy`, `HeaderPorts.held`
    * `Converted`, `Wrapped`
    * `ipcKmsgCleanPartial_releases`
-/

------
-- What Descriptors Hold
------

namespace OsfMach

namespace Ipc

open Lib
open Lib.Checked

variable {s : Sender} {d : Descriptor}
variable {nextAddr paddr length : Nat} {header : HeaderPorts}
variable {ds : List Descriptor}
variable {copy : Nat} {t : Sender}

/- The rights to the valid objects of an array. -/
def heldObjects
    (type : Nat)
    (objects : List Nat) : List Held :=
  (objects.filter ioValid).map (.right · type)

/- A copy object, if there is one. -/
def heldCopy (copy : Nat) : List Held :=
  if copy = 0 then [] else [.copy copy]

theorem heldCopy_of
    (h : copy ≠ 0) :
    heldCopy copy = [.copy copy] := if_neg h

/- What a descriptor holds that was converted. -/
def heldBy
    (cfg : KmsgConfig)
    (buffers : Nat → List Nat)
    (d : Descriptor) : List Held :=
  match d.type with
  | machMsgPortDescriptor =>
      heldObjects d.disposition [d.name]
  | machMsgOolVolatileDescriptor | machMsgOolDescriptor =>
      if d.size = 0 then []
      else if d.copy = machMsgPhysicalCopy ∧
          d.size < cfg.msgOolSizeSmall then
        [.buffer d.address d.size]
      else heldCopy d.address
  | machMsgOolPortsDescriptor =>
      if d.portsLength = 0 then []
      else
        heldObjects d.disposition (buffers d.address) ++
          [.buffer d.address d.portsLength]
  | _ => []

def HeaderPorts.held (header : HeaderPorts) : List Held :=
  .right header.remotePort header.remoteType ::
    heldObjects header.localType [header.localPort]

/- The space in the copy map that is not used yet. -/
def heldRegion (paddr length : Nat) : List Held :=
  if paddr ≠ 0 ∧ length ≠ 0 then [.region paddr length]
  else []

/- A length in bytes that wrapped around to nothing. -/
def Wrapped (d : Descriptor) : Prop :=
  d.type = machMsgOolPortsDescriptor ∧ d.count ≠ 0 ∧
    d.portsLength = 0

/- A descriptor that was converted. -/
structure Converted
    (nextAddr : Nat)
    (buffers : Nat → List Nat)
    (d : Descriptor) : Prop where
  ool :
    d.type = machMsgOolVolatileDescriptor ∨
        d.type = machMsgOolDescriptor →
      d.size = 0 → d.address = 0
  none :
    d.type = machMsgOolPortsDescriptor →
      d.portsLength = 0 → d.address = 0
  ports :
    d.type = machMsgOolPortsDescriptor →
      d.portsLength ≠ 0 →
      d.address ≠ 0 ∧ d.address < nextAddr ∧
        d.count ≤ (buffers d.address).length

theorem Converted.mono
    (h : Converted s.nextAddr s.buffers d)
    (hFrame : Frame s t) :
    Converted t.nextAddr t.buffers d := by
  refine ⟨h.ool, h.none, ?_⟩
  intro hType hLength
  rcases h.ports hType hLength with ⟨hNull, hLt, hCount⟩
  refine ⟨hNull, Nat.lt_of_lt_of_le hLt hFrame.nextAddr, ?_⟩
  rw [hFrame.buffers _ hLt]
  exact hCount

theorem heldBy_mono
    (h : Converted s.nextAddr s.buffers d)
    (hFrame : Frame s t) :
    heldBy cfg t.buffers d = heldBy cfg s.buffers d := by
  unfold heldBy
  split
  · rfl
  · rfl
  · rfl
  · rename_i hType
    split_ifs with hLength
    · rfl
    · rw [hFrame.buffers _ (h.ports hType hLength).2.1]
  · rfl

------
-- Cleaning Descriptors
------

variable {cfg : KmsgConfig} {env : KmsgAnswers}
variable {buffers : Nat → List Nat}

theorem destroyValid_releases
    {type object : Nat} :
    Releases buffers (destroyValid env type object)
      (heldObjects type [object]) := by
  unfold destroyValid heldObjects
  by_cases hValid : ioValid object = true
  · rw [if_pos hValid, List.filter_cons_of_pos hValid]
    exact ipcObjectDestroy_releases env
  · rw [if_neg hValid, List.filter_cons_of_neg hValid]
    exact releases_pure

theorem destroyObjects_releases
    {type : Nat}
    (objects : List Nat) :
    Releases buffers (destroyObjects env type objects)
      (heldObjects type objects) := by
  induction objects with
  | nil => exact releases_pure
  | cons object objects ih =>
      have hSplit : heldObjects type (object :: objects) =
          heldObjects type [object] ++
            heldObjects type objects := by
        unfold heldObjects
        rw [← List.map_append, ← List.filter_append]
        rfl
      rw [hSplit]
      exact destroyValid_releases.bind ih

theorem vmMapCopyDiscard_releases :
    Releases buffers (vmMapCopyDiscard copy)
      (heldCopy copy) := by
  unfold vmMapCopyDiscard heldCopy
  by_cases hNone : copy = 0
  · rw [if_pos hNone, if_pos hNone]
    exact releases_pure
  · rw [if_neg hNone, if_neg hNone]
    exact releaseHeld_releases (by simp)

/- The out-of-line memory of a descriptor is released. -/
theorem cleanOol_releases
    (h : d.size = 0 → d.address = 0) :
    Releases buffers (cleanOol cfg d)
      (if d.size = 0 then []
      else if d.copy = machMsgPhysicalCopy ∧
          d.size < cfg.msgOolSizeSmall then
        [.buffer d.address d.size]
      else heldCopy d.address) := by
  unfold cleanOol
  by_cases hSize : d.size = 0
  · rw [if_pos hSize, if_pos hSize]
    intro s rest hInv hBuffers hHeld
    exact ⟨s, require_run (h hSize), hInv,
      ⟨Frame.refl s, rfl⟩, hBuffers, hHeld⟩
  · rw [if_neg hSize, if_neg hSize]
    by_cases hSmall : d.copy = machMsgPhysicalCopy ∧
        d.size < cfg.msgOolSizeSmall
    · rw [if_pos hSmall, if_pos hSmall]
      exact releaseHeld_releases (by simp)
    · rw [if_neg hSmall, if_neg hSmall]
      exact vmMapCopyDiscard_releases

/- The rights and the memory of an array are released. -/
theorem cleanPorts_releases
    (h : Converted nextAddr buffers d)
    (hType : d.type = machMsgOolPortsDescriptor)
    (hWrapped : ¬ Wrapped d) :
    Releases buffers (cleanPorts env d)
      (if d.portsLength = 0 then []
      else
        heldObjects d.disposition (buffers d.address) ++
          [.buffer d.address d.portsLength]) := by
  unfold cleanPorts
  by_cases hLength : d.portsLength = 0
  · have hCount : d.count = 0 := by
      by_contra hSome
      exact hWrapped ⟨hType, hSome, hLength⟩
    rw [if_pos hCount, if_pos hLength]
    exact releases_pure
  · have hCount : d.count ≠ 0 := by
      intro hZero
      unfold Descriptor.portsLength at hLength
      rw [hZero] at hLength
      exact hLength rfl
    rcases h.ports hType hLength with ⟨hNull, _, hLe⟩
    rw [if_neg hCount, if_neg hLength]
    apply Releases.require hNull
    apply Releases.read
    intro s hBuffers
    rw [hBuffers]
    exact (destroyObjects_releases _).bind
      (Releases.require hLe (releaseHeld_releases (by simp)))

variable (cfg env) in
theorem cleanDescriptor_releases
    (h : Converted nextAddr buffers d)
    (hWrapped : ¬ Wrapped d) :
    Releases buffers (cleanDescriptor cfg env d)
      (heldBy cfg buffers d) := by
  rcases d with ⟨address, size, deallocate, copy, disposition,
    type⟩
  match type with
  | machMsgPortDescriptor => exact destroyValid_releases
  | machMsgOolVolatileDescriptor =>
      exact cleanOol_releases (h.ool (Or.inl rfl))
  | machMsgOolDescriptor =>
      exact cleanOol_releases (h.ool (Or.inr rfl))
  | machMsgOolPortsDescriptor =>
      exact cleanPorts_releases h rfl hWrapped
  | _ + 4 => exact releases_pure

theorem cleanDescriptor_ports
    (hType : d.type = machMsgOolPortsDescriptor) :
    cleanDescriptor cfg env d = cleanPorts env d := by
  cases d
  subst hType
  rfl

theorem cleanDescriptor_wild
    (h : Converted nextAddr buffers d)
    (hWrapped : Wrapped d)
    (s : Sender) :
    cleanDescriptor cfg env d s =
      (.error (.trap .wild), s) := by
  rcases hWrapped with ⟨hType, hCount, hLength⟩
  rw [cleanDescriptor_ports hType]
  unfold cleanPorts
  rw [if_neg hCount, bind_stop (require_stop
    (not_not_intro (h.none hType hLength)))]

/- The first descriptors of a message are cleaned up. -/
theorem ipcKmsgCleanBody_releases
    (ds : List Descriptor)
    (h : ∀ d, d ∈ ds → Converted nextAddr buffers d)
    (hWrapped : ∀ d, d ∈ ds → ¬ Wrapped d) :
    Releases buffers (ipcKmsgCleanBody cfg env ds)
      (ds.flatMap (heldBy cfg buffers)) := by
  induction ds with
  | nil => exact releases_pure
  | cons d ds ih =>
      exact (cleanDescriptor_releases cfg env
        (h d List.mem_cons_self)
        (hWrapped d List.mem_cons_self)).bind
          (ih (fun d' hIn => h d' (List.mem_cons_of_mem _ hIn))
            (fun d' hIn =>
              hWrapped d' (List.mem_cons_of_mem _ hIn)))

/- A wrapped length leads the cleaning to address 0. -/
theorem ipcKmsgCleanBody_wild
    (ds : List Descriptor)
    (h : ∀ d, d ∈ ds → Converted nextAddr buffers d)
    (hWrapped : ∃ d, d ∈ ds ∧ Wrapped d)
    {rest : List Held}
    (hInv : SenderInv s)
    (hBuffers : s.buffers = buffers)
    (hHeld : s.held.Perm
      (ds.flatMap (heldBy cfg buffers) ++ rest)) :
    ∃ t, ipcKmsgCleanBody cfg env ds s =
      (.error (.trap .wild), t) := by
  induction ds generalizing s with
  | nil =>
      rcases hWrapped with ⟨d, hIn, _⟩
      simp at hIn
  | cons d ds ih =>
      unfold ipcKmsgCleanBody
      by_cases hHere : Wrapped d
      · exact ⟨s, bind_stop (cleanDescriptor_wild
          (h d List.mem_cons_self) hHere s) _⟩
      · rw [List.flatMap_cons, List.append_assoc] at hHeld
        rcases cleanDescriptor_releases cfg env
            (h d List.mem_cons_self) hHere s _
            hInv hBuffers hHeld with
          ⟨t, hRun, hInv', _, hBuffers', hHeld'⟩
        rw [bind_run hRun]
        apply ih (fun d' hIn =>
          h d' (List.mem_cons_of_mem _ hIn)) ?_ hInv' hBuffers'
          hHeld'
        rcases hWrapped with ⟨d', hIn, hIs⟩
        rcases List.mem_cons.mp hIn with hEq | hTail
        · rw [hEq] at hIs
          exact absurd hIs hHere
        · exact ⟨d', hTail, hIs⟩

------
-- Failing
------

theorem releaseRegion_releases :
    Releases buffers (releaseRegion paddr length)
      (heldRegion paddr length) := by
  unfold releaseRegion heldRegion
  split_ifs
  · exact releaseHeld_releases (by simp)
  · exact releases_pure

variable (env) in
theorem cleanHeader_releases :
    Releases buffers (cleanHeader env header paddr length)
      (header.held ++ heldRegion paddr length) := by
  have hSplit : header.held ++ heldRegion paddr length =
      [.right header.remotePort header.remoteType] ++
        (heldObjects header.localType [header.localPort] ++
          heldRegion paddr length) := rfl
  rw [hSplit]
  exact (ipcObjectDestroy_releases env).bind
    (destroyValid_releases.bind releaseRegion_releases)

theorem ipcKmsgCleanPartial_releases
    (h : ∀ d, d ∈ ds → Converted nextAddr buffers d)
    (hWrapped : ∀ d, d ∈ ds → ¬ Wrapped d) :
    Releases buffers
      (ipcKmsgCleanPartial cfg env header ds paddr length)
      (header.held ++ heldRegion paddr length ++
        ds.flatMap (heldBy cfg buffers)) :=
  (cleanHeader_releases env).bind
    (ipcKmsgCleanBody_releases ds h hWrapped)

variable (env) in
theorem ipcKmsgCleanPartial_wild
    (h : ∀ d, d ∈ ds → Converted nextAddr buffers d)
    (hWrapped : ∃ d, d ∈ ds ∧ Wrapped d)
    (hInv : SenderInv s)
    (hBuffers : s.buffers = buffers)
    (hHeld : s.held.Perm
      (header.held ++ heldRegion paddr length ++
        ds.flatMap (heldBy cfg buffers))) :
    ∃ t, ipcKmsgCleanPartial cfg env header ds paddr length s =
      (.error (.trap .wild), t) := by
  rcases cleanHeader_releases env s _ hInv hBuffers
      hHeld with
    ⟨t, hRun, hInv', _, hBuffers', hHeld'⟩
  have hRest : t.held.Perm
      (ds.flatMap (heldBy cfg buffers) ++ []) := by
    rw [List.append_nil]
    exact hHeld'
  unfold ipcKmsgCleanPartial
  rw [bind_run hRun]
  exact ipcKmsgCleanBody_wild ds h hWrapped hInv' hBuffers'
    hRest

section

variable (α : Type) (env : KmsgAnswers) (mr : MachMsgReturn)
variable (h : ∀ d, d ∈ ds → Converted nextAddr s.buffers d)
include h

/-
  A failure releases all that is held, unless a length that
  wrapped around leads it astray.
-/
theorem failBody_run
    (hWrapped : ∀ d, d ∈ ds → ¬ Wrapped d)
    (hInv : SenderInv s)
    (hHeld : s.held.Perm
      (header.held ++ heldRegion paddr length ++
        ds.flatMap (heldBy cfg s.buffers))) :
    ∃ t, (failBody cfg env header ds paddr length mr :
        KmsgProg α) s = (.error (.ret mr), t) ∧
      SenderInv t ∧ (Frame s t ∧ t.entries = s.entries) ∧
      t.held = [] := by
  rcases ipcKmsgCleanPartial_releases h hWrapped s [] hInv rfl
      (by rw [List.append_nil]; exact hHeld) with
    ⟨t, hRun, hInv', hFrame, _, hEmpty⟩
  refine ⟨t, ?_, hInv', hFrame, hEmpty.eq_nil⟩
  unfold failBody
  rw [bind_run hRun]
  rfl

theorem failBody_wild
    (hWrapped : ∃ d, d ∈ ds ∧ Wrapped d)
    (hInv : SenderInv s)
    (hHeld : s.held.Perm
      (header.held ++ heldRegion paddr length ++
        ds.flatMap (heldBy cfg s.buffers))) :
    ∃ t, (failBody cfg env header ds paddr length mr :
        KmsgProg α) s = (.error (.trap .wild), t) := by
  rcases ipcKmsgCleanPartial_wild env h hWrapped hInv
      rfl hHeld with ⟨t, hRun⟩
  refine ⟨t, ?_⟩
  unfold failBody
  rw [bind_stop hRun]

end

end Ipc

end OsfMach
