import OsfMach.Ipc.KmsgClean

/-
  Converting the names in a message.

  What goes wrong in the copying in has two kinds: the kernel
  stops on a panic or an assertion, or it goes on with what
  is not its own. Each part is told from its start by a
  condition of either kind, and otherwise accounts for all
  that it takes.

  Main declarations:
    * `Judged`
    * `AtNames`, `TameName`, `PoliteName`
    * `ipcObjectCopyin_cases`
    * `convertNames_judged`
-/

------
-- How a Part Ends
------

namespace OsfMach

namespace Ipc

open Lib
open Lib.Checked

variable {s t : Sender}
variable {msgtName type disposition : Nat} {rest : List Held}
variable {port : Nat}

/-
  A part that is not tame goes on with what is not its own,
  and one that is not polite stops the kernel.
-/
def Judged
    {α : Type}
    (tame polite : Prop)
    (good : α → Sender → Prop)
    (back : Sender → Prop) : Except Stop α → Sender → Prop
| .ok a, t => tame ∧ polite ∧ good a t
| .error (.ret _), t => tame ∧ polite ∧ back t
| .error (.trap .panic), _ => tame ∧ ¬ polite
| .error (.trap .assertion), _ => tame ∧ ¬ polite
| .error (.trap .wild), _ => ¬ tame
| .error (.trap .release), _ => ¬ tame

section Judged

variable {α β : Type} {tame polite tame' polite' : Prop}
variable {good : α → Sender → Prop} {back : Sender → Prop}
variable {r : Except Stop α}
variable {x : KmsgProg α}

theorem Judged.imp
    {good' : α → Sender → Prop}
    {back' : Sender → Prop}
    (h : Judged tame polite good back r t)
    (hTame : tame ↔ tame')
    (hPolite : polite ↔ polite')
    (hGood : ∀ a u, good a u → good' a u)
    (hBack : ∀ u, back u → back' u) :
    Judged tame' polite' good' back' r t := by
  rw [← propext hTame, ← propext hPolite]
  cases r with
  | ok a => exact ⟨h.1, h.2.1, hGood a t h.2.2⟩
  | error e =>
      cases e with
      | ret mr => exact ⟨h.1, h.2.1, hBack t h.2.2⟩
      | trap trap =>
          cases trap with
          | panic | assertion | wild | release => exact h

/- A part that never returns an error. -/
theorem Judged.noBack
    (h : Judged tame polite good (fun _ => False) r t)
    (back : Sender → Prop) :
    Judged tame polite good back r t :=
  h.imp Iff.rfl Iff.rfl (fun _ _ h => h)
    fun _ h => False.elim h

/- One part after another. -/
theorem judged_bind
    {f : α → KmsgProg β}
    {tames polites : α → Sender → Prop}
    {good' : β → Sender → Prop}
    (hx : Ends x s (Judged tame polite good back))
    (hf : ∀ a t, good a t →
      Ends (f a) t
        (Judged (tames a t) (polites a t) good' back)) :
    Ends (x >>= f) s
      (Judged (tame ∧ After x s tames)
        (polite ∧ After x s polites) good' back) := by
  unfold Ends at hx
  rcases hRun : x s with ⟨r, t⟩
  rw [hRun] at hx
  cases r with
  | ok a =>
      rcases hx with ⟨hTame, hPolite, hGood⟩
      unfold Ends
      rw [bind_run hRun, after_run hRun, after_run hRun]
      exact (hf a t hGood).imp (and_iff_right hTame).symm
        (and_iff_right hPolite).symm (fun _ _ h => h)
        fun _ h => h
  | error e =>
      unfold Ends
      rw [bind_stop hRun]
      have hAfter : ∀ P : α → Sender → Prop, After x s P :=
        fun P => after_stop hRun P
      cases e with
      | ret mr =>
          exact ⟨⟨hx.1, hAfter _⟩, ⟨hx.2.1, hAfter _⟩, hx.2.2⟩
      | trap trap =>
          cases trap with
          | panic | assertion =>
              exact ⟨⟨hx.1, hAfter _⟩, fun h => hx.2 h.1⟩
          | wild | release => exact fun h => hx h.1

/- A part whose end is known. -/
theorem judged_run
    (hRun : x s = (r, t))
    (h : Judged tame polite good back r t) :
    Ends x s (Judged tame polite good back) := by
  unfold Ends
  rw [hRun]
  exact h

theorem judged_pure
    {a : α}
    (hTame : tame)
    (hPolite : polite)
    (hGood : good a s) :
    Ends (pure a) s (Judged tame polite good back) :=
  ⟨hTame, hPolite, hGood⟩

end Judged

/- After a part that goes on, the next one is judged. -/
theorem ends_after
    {α β : Type}
    {x : KmsgProg α}
    {f : α → KmsgProg β}
    {a : α}
    {Q : Except Stop β → Sender → Prop}
    (hRun : x s = (.ok a, t))
    (h : Ends (f a) t Q) :
    Ends (x >>= f) s Q := by
  unfold Ends
  rw [bind_run hRun]
  exact h

------
-- One Name
------

/- A type of a right that a user may give. -/
def KnownType (msgtName : Nat) : Prop :=
  msgtName = 0 ∨
    machMsgTypeMoveReceive ≤ msgtName ∧
      msgtName ≤ machMsgTypeMakeSendOnce

theorem ipcObjectCopyinType_known :
    (∃ type, ipcObjectCopyinType msgtName = .ok type) ↔
      KnownType msgtName := by
  constructor
  · rintro ⟨type, hType⟩
    unfold ipcObjectCopyinType at hType
    split at hType
    · exact Or.inl rfl
    · exact Or.inr (by decide)
    · exact Or.inr (by decide)
    · exact Or.inr (by decide)
    · exact Or.inr (by decide)
    · exact Or.inr (by decide)
    · exact Or.inr (by decide)
    · exact absurd hType (by simp)
  · intro h
    rcases h with hZero | ⟨hLow, hHigh⟩
    · subst hZero
      exact ⟨0, rfl⟩
    · interval_cases msgtName
      · exact ⟨_, rfl⟩
      · exact ⟨_, rfl⟩
      · exact ⟨_, rfl⟩
      · exact ⟨_, rfl⟩
      · exact ⟨_, rfl⟩
      · exact ⟨_, rfl⟩

theorem ipcObjectCopyinType_unknown
    (h : ¬ KnownType msgtName) :
    ipcObjectCopyinType msgtName = .error .panic := by
  cases hType : ipcObjectCopyinType msgtName with
  | ok type =>
      exact absurd
        (ipcObjectCopyinType_known.mp ⟨type, hType⟩) h
  | error t =>
      unfold ipcObjectCopyinType at hType
      split at hType
      all_goals cases hType
      rfl

/- A right of no type is asked for of no name in use. -/
def PoliteName
    (disposition name : Nat)
    (s : Sender) : Prop :=
  disposition = 0 → s.isActive = true →
    s.entries name = none

/- What a copyin that succeeded takes. -/
def heldIf
    (kr : KernReturn)
    (type object : Nat) : List Held :=
  if kr = .success then heldObjects type [object] else []

/- What is taken is in the account and in the message. -/
structure CopiedIn
    (s : Sender)
    (type : Nat)
    (kr : KernReturn)
    (object : Nat)
    (t : Sender) : Prop where
  inv : SenderInv t
  frame : Frame s t
  held : t.held = heldIf kr type object ++ s.held

theorem takenRights_eq
    {name type : Nat}
    {e : EntryFields}
    {out : RightOut}
    (hOk : CopyinOk s.isAddr name e (s.ports e.ieObject) type
      out) :
    takenRights type out = heldIf out.kr type out.object := by
  unfold takenRights heldIf heldObjects
  by_cases hSuccess : out.kr = .success
  · rw [if_pos hSuccess]
    by_cases hDead : out.object = ioDead
    · have hNot : ¬ ioValid out.object = true := by
        rw [hDead]
        decide
      rw [if_neg (fun h => h.2 hDead),
        List.filter_cons_of_neg hNot]
      rfl
    · have hGot := hOk.got hSuccess hDead
      have hValid : ioValid out.object = true := by
        rw [hGot.1]
        exact hGot.2
      rw [if_pos ⟨hSuccess, hDead⟩,
        List.filter_cons_of_pos hValid]
      rfl
  · rw [if_neg hSuccess, if_neg (fun h => hSuccess h.1)]

/-
  A name is copied in or refused; a right of no type that the
  space has is a panic.
-/
theorem ipcObjectCopyin_cases
    (name : Nat)
    (hInv : SenderInv s)
    (hType : ipcObjectCopyinType disposition = .ok type) :
    PoliteName disposition name s ∧
        (∃ kr object t,
          ipcObjectCopyin name disposition s =
            (.ok (kr, object), t) ∧
          CopiedIn s type kr object t) ∨
      ¬ PoliteName disposition name s ∧
        ipcObjectCopyin name disposition s =
          (.error (.trap .panic), s) := by
  unfold ipcObjectCopyin
  rw [read_bind]
  have hNone : ∀ kr : KernReturn, kr ≠ .success →
      CopiedIn s type kr ioNull s := by
    intro kr hKr
    refine ⟨hInv, Frame.refl s, ?_⟩
    unfold heldIf
    rw [if_neg hKr]
    rfl
  by_cases hActive : s.isActive = true
  · rw [if_neg (by simp [hActive])]
    cases hEntry : s.entries name with
    | none =>
        exact Or.inl ⟨fun _ _ => hEntry, _, _, _, rfl,
          hNone .invalidName (by simp)⟩
    | some e =>
        by_cases hZero : disposition = 0
        · right
          subst hZero
          refine ⟨fun h => ?_, ?_⟩
          · rw [h rfl hActive] at hEntry
            simp at hEntry
          · rfl
        · left
          have hOnce : Bearing machPortTypeSendOnce e = true →
              0 < (s.ports e.ieObject).ipSorights := by
            intro hBear
            have hPos := Counting.finCount_pos
              (p := bearsTo machPortTypeSendOnce e.ieObject)
              (g := s.entries) (k := name)
              (hInv.finite _ _)
              (by rw [hEntry]; simp [bearsTo, hBear])
            have hLe := hInv.onces e.ieObject
            omega
          have hSend : (s.ports e.ieObject).ipActive = true →
              Bearing machPortTypeSend e = true →
              0 < (s.ports e.ieObject).ipSrights := by
            intro hLive hBear
            have hPos := Counting.finCount_pos
              (p := bearsTo machPortTypeSend e.ieObject)
              (g := s.entries) (k := name)
              (hInv.finite _ _)
              (by rw [hEntry]; simp [bearsTo, hBear])
            have hEq := hInv.sends e.ieObject hLive
            omega
          have hRight : ∃ out,
              ipcRightCopyin s.isAddr name e
                (s.ports e.ieObject) true disposition =
                  .ok out ∧
              CopyinOk s.isAddr name e (s.ports e.ieObject)
                type out :=
            ipcRightCopyin_ok (hInv.entries name e hEntry)
              ⟨hSend, hOnce⟩ hType hZero
          rcases hRight with ⟨out, hRun, hOk⟩
          refine ⟨fun h => absurd h hZero, out.kr, out.object,
            s.stored name e.ieObject type out, ?_, ?_⟩
          · dsimp only
            rw [hRun]
            have hLift : (liftTrap (.ok out) :
                KmsgProg RightOut) s = (.ok out, s) := rfl
            rw [bind_run hLift,
              bind_run (storeRight_run hType s)]
            rfl
          · refine ⟨hInv.stored hEntry
              (ipcObjectCopyinType_some hType hZero) hOk,
              .of_eq rfl rfl rfl (Nat.le_refl _) rfl, ?_⟩
            rw [← takenRights_eq hOk]
            rfl
  · rw [if_pos (by simp [hActive])]
    exact Or.inl ⟨fun _ h => absurd h hActive, _, _, _, rfl,
      hNone .invalidTask (by simp)⟩

------
-- The Names of an Array
------

/- What holds at each name that the conversion reaches. -/
def AtNames
    (env : KmsgAnswers)
    (disposition type : Nat)
    (P : Nat → List Nat → Sender → Prop) :
    List Nat → List Nat → Bool → Sender → Prop
| [], _, _, _ => True
| port :: ports, objects, circular, s =>
    if ioValid port then
      P port objects s ∧
        After (ipcObjectCopyin port disposition) s fun r t =>
          r.1 = .success →
            After (checkCircular env type circular) t
              fun circular u =>
                AtNames env disposition type P ports
                  (objects ++ [r.2]) circular u
    else
      AtNames env disposition type P ports
        (objects ++ [port]) circular s

/- Where a name is refused, all the earlier ones are valid. -/
def TameName
    (disposition port : Nat)
    (objects : List Nat)
    (s : Sender) : Prop :=
  After (ipcObjectCopyin port disposition) s fun r _ =>
    r.1 ≠ .success → ∀ o, o ∈ objects → ioValid o = true

/- What the conversion of an array leaves. -/
structure NamesDone
    (s : Sender)
    (type length : Nat)
    (rest : List Held)
    (r : Option (List Nat × Bool))
    (t : Sender) : Prop where
  inv : SenderInv t
  frame : Frame s t
  refused : r = none → t.held.Perm rest
  accepted : ∀ objects circular,
    r = some (objects, circular) →
    t.held.Perm (heldObjects type objects ++ rest) ∧
      objects.length = length

theorem NamesDone.frame_trans
    {s s' t : Sender}
    {type length : Nat}
    {r : Option (List Nat × Bool)}
    (h : NamesDone s' type length rest r t)
    (hFrame : Frame s s') :
    NamesDone s type length rest r t :=
  ⟨h.inv, hFrame.trans h.frame, h.refused, h.accepted⟩

theorem heldObjects_append
    {objects objects' : List Nat} :
    heldObjects type (objects ++ objects') =
      heldObjects type objects ++ heldObjects type objects' := by
  unfold heldObjects
  rw [List.filter_append, List.map_append]

theorem heldObjects_invalid
    {type object : Nat}
    (h : ioValid object = false) :
    heldObjects type [object] = [] := by
  unfold heldObjects
  rw [List.filter_cons_of_neg (by simp [h])]
  rfl

section Names

variable {env : KmsgAnswers} {s : Sender} {type : Nat}

/- The objects before a refused name are all valid. -/
variable (env) in
theorem destroyBefore_releases
    {buffers : Nat → List Nat}
    (hPort : ioValid port = true)
    (objects : List Nat)
    (hAll : ∀ o, o ∈ objects → ioValid o = true) :
    Releases buffers (destroyBefore env port type objects)
      (heldObjects type objects) := by
  induction objects with
  | nil => exact releases_pure
  | cons object objects ih =>
      unfold destroyBefore heldObjects
      rw [if_pos hPort, List.filter_cons_of_pos
        (hAll object List.mem_cons_self)]
      exact (ipcObjectDestroy_releases env).bind
        (ih fun o hIn => hAll o (List.mem_cons_of_mem _ hIn))

/- An object that is not valid is destroyed. -/
variable (env) in
theorem destroyBefore_release
    (hPort : ioValid port = true)
    (objects : List Nat)
    (hNot : ¬ ∀ o, o ∈ objects → ioValid o = true)
    (hInv : SenderInv s)
    (hHeld : s.held.Perm (heldObjects type objects ++ rest)) :
    ∃ t, destroyBefore env port type objects s =
      (.error (.trap .release), t) := by
  induction objects generalizing s with
  | nil => exact absurd (fun o hIn => by simp at hIn) hNot
  | cons object objects ih =>
      unfold destroyBefore
      rw [if_pos hPort]
      by_cases hValid : ioValid object = true
      · have hSplit : heldObjects type (object :: objects) =
            [.right object type] ++
              heldObjects type objects := by
          unfold heldObjects
          rw [List.filter_cons_of_pos hValid]
          rfl
        rw [hSplit, List.append_assoc] at hHeld
        rcases ipcObjectDestroy_releases env s _ hInv
            rfl hHeld with ⟨t, hRun, hInv', _, _, hHeld'⟩
        rw [bind_run hRun]
        refine ih (fun hAll => hNot ?_) hInv' hHeld'
        intro o hIn
        rcases List.mem_cons.mp hIn with hEq | hTail
        · rw [hEq]
          exact hValid
        · exact hAll o hTail
      · refine ⟨s, bind_stop ?_ _⟩
        unfold ipcObjectDestroy
        rw [bind_stop (require_stop hValid)]

theorem checkCircular_run
    (env : KmsgAnswers)
    (type : Nat)
    (circular : Bool)
    (hInv : SenderInv s) :
    ∃ found t, checkCircular env type circular s =
        (.ok found, t) ∧
      SenderInv t ∧ Frame s t ∧ t.held = s.held ∧
      t.buffers = s.buffers := by
  unfold checkCircular
  split_ifs
  · exact ⟨circular || env.grant s.asked, _, rfl,
      hInv.other s.isActive s.buffers (s.asked + 1)
        s.timestamp s.touched,
      .of_eq rfl rfl rfl (Nat.le_refl _) rfl, rfl, rfl⟩
  · exact ⟨circular, s, rfl, hInv, Frame.refl s, rfl, rfl⟩

/- A step of the loop over the names, and the rest of it. -/
theorem convertNames_judged
    (hType : ipcObjectCopyinType disposition = .ok type)
    (names : List Nat)
    (objects : List Nat)
    (circular : Bool)
    (rest : List Held)
    (hInv : SenderInv s)
    (hHeld : s.held.Perm (heldObjects type objects ++ rest)) :
    Ends
      (convertNames env disposition type objects circular
        names) s
      (Judged
        (AtNames env disposition type (TameName disposition)
          names objects circular s)
        (AtNames env disposition type
          (fun port _ => PoliteName disposition port)
          names objects circular s)
        (NamesDone s type (objects.length + names.length) rest)
        fun _ => False) := by
  induction names generalizing objects circular s with
  | nil =>
      refine ⟨trivial, trivial, hInv, Frame.refl s,
        fun h => absurd h (by simp), ?_⟩
      intro objects' circular' hEq
      injection hEq with hPair
      injection hPair with hSame
      rw [← hSame]
      exact ⟨hHeld, rfl⟩
  | cons port ports ih =>
      unfold convertNames AtNames
      cases hPort : ioValid port with
      | false =>
          have hHeld' : s.held.Perm
              (heldObjects type (objects ++ [port]) ++
                rest) := by
            rw [heldObjects_append, heldObjects_invalid hPort,
              List.append_nil]
            exact hHeld
          have hRest := ih (objects ++ [port]) circular hInv
            hHeld'
          have hLength : (objects ++ [port]).length +
              ports.length =
                objects.length + (port :: ports).length := by
            simp
            omega
          rw [hLength] at hRest
          exact hRest
      | true =>
          rcases ipcObjectCopyin_cases port hInv hType with
            ⟨hPolite, kr, object, t, hRun, hIn⟩ |
            ⟨hRude, hRun⟩
          · refine ends_after hRun ?_
            by_cases hSuccess : kr = .success
            · have hTaken : heldIf kr type object =
                  heldObjects type [object] := if_pos hSuccess
              have hHeld' : t.held.Perm
                  (heldObjects type (objects ++ [object]) ++
                    rest) := by
                rw [hIn.held, hTaken, heldObjects_append]
                have hFront := hHeld.append_left
                  (heldObjects type [object])
                rw [← List.append_assoc] at hFront
                exact hFront.trans
                  (List.perm_append_comm.append_right rest)
              rcases checkCircular_run env type
                  circular hIn.inv with
                ⟨found, u, hCheck, hInv', hFrame', hSame, _⟩
              rw [← hSame] at hHeld'
              have hRest := ih (objects ++ [object]) found
                hInv' hHeld'
              have hLength : (objects ++ [object]).length +
                  ports.length =
                    objects.length + (port :: ports).length := by
                simp
                omega
              rw [hLength] at hRest
              dsimp only
              rw [if_neg (not_not_intro hSuccess)]
              refine ends_after hCheck ?_
              refine hRest.mono fun r w h => h.imp ?_ ?_ ?_
                fun _ h => h
              · rw [after_run hRun, after_run hCheck]
                constructor
                · intro hTame
                  refine ⟨?_, fun _ => hTame⟩
                  exact (after_run hRun _).mpr
                    fun h => absurd hSuccess h
                · rintro ⟨_, hTame⟩
                  exact hTame hSuccess
              · rw [after_run hRun, after_run hCheck]
                constructor
                · intro hPoliteRest
                  exact ⟨hPolite, fun _ => hPoliteRest⟩
                · rintro ⟨_, hPoliteRest⟩
                  exact hPoliteRest hSuccess
              · intro r' w' hDone
                exact hDone.frame_trans
                  (hIn.frame.trans hFrame')
            · have hTaken : heldIf kr type object = [] :=
                if_neg hSuccess
              have hHeld' : t.held.Perm
                  (heldObjects type objects ++ rest) := by
                rw [hIn.held, hTaken]
                exact hHeld
              dsimp only
              rw [if_pos hSuccess]
              by_cases hAll : ∀ o, o ∈ objects →
                  ioValid o = true
              · rcases destroyBefore_releases env
                    hPort objects hAll t rest hIn.inv rfl
                    hHeld' with
                  ⟨u, hDestroy, hInv', hFrame', _, hRest⟩
                refine judged_run (bind_run hDestroy _) ?_
                refine ⟨⟨?_, ?_⟩, ⟨hPolite, ?_⟩, hInv',
                  hIn.frame.trans hFrame'.1, fun _ => hRest, ?_⟩
                · exact (after_run hRun _).mpr fun _ => hAll
                · exact (after_run hRun _).mpr
                    fun h => absurd h hSuccess
                · exact (after_run hRun _).mpr
                    fun h => absurd h hSuccess
                · intro objects' circular' hEq
                  simp at hEq
              · rcases destroyBefore_release env
                    hPort objects hAll hIn.inv hHeld' with
                  ⟨u, hDestroy⟩
                refine judged_run (bind_stop hDestroy _) ?_
                intro hTame
                exact hAll ((after_run hRun _).mp hTame.1
                  hSuccess)
          · refine judged_run (bind_stop hRun _) ?_
            exact ⟨⟨after_stop hRun _, after_stop hRun _⟩,
              fun h => hRude h.1⟩

end Names

end Ipc

end OsfMach
