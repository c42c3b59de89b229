import OsfMach.Ipc.KmsgBody
import OsfMach.Ipc.Scatter

/-
  What copying out does to what a message holds.

  A part that consumes something has the space or the map get
  it, or destroys it, and keeps the account of the rights.

  Main declarations:
    * `Consumes`, `PassedOn`
    * `Queued`, `NoSpace`
    * `copiedName`, `outOol`
    * `SenderInv.given`
    * `copyoutObject_consumes`, `copyoutOol_consumes`
    * `copyoutPorts_consumes`
-/

------
-- Giving Rights
------

namespace OsfMach

namespace Ipc

open Function
open Lib
open Lib.Checked
open Lib.Counting

variable {type : Nat} {listed : List Held} {object : Nat}
variable {cfg : KmsgConfig}
variable {s : Sender} {p : Nat} {first second : List Held}
variable {nextAddr : Nat} {region : Option Descriptor}

/- One more of a count, where the type is the right one. -/
def bump
    (kind type p : Nat)
    (count : Nat → Nat) : Nat → Nat :=
  if type = kind then update count p (count p + 1)
  else count

theorem bump_eq
    (kind type p : Nat)
    (count : Nat → Nat)
    (q : Nat) :
    bump kind type p count q =
      count q + if q = p ∧ type = kind then 1 else 0 := by
  unfold bump
  by_cases hKind : type = kind
  · rw [if_pos hKind]
    by_cases hPort : q = p
    · rw [hPort, if_pos ⟨rfl, hKind⟩]
      exact update_self _ _ _
    · rw [if_neg (fun h => hPort h.1)]
      exact update_of_ne hPort _ _
  · rw [if_neg hKind, if_neg (fun h => hKind h.2)]
    rfl

/- The state after a right was given to the space. -/
def Sender.given (s : Sender) (p type : Nat) : Sender :=
  { s with
    held := s.held.erase (.right p type)
    sends := bump machMsgTypePortSend type p s.sends
    onces := bump machMsgTypePortSendOnce type p s.onces }

/- A right moves from the message to another owner. -/
theorem SenderInv.given
    (hInv : SenderInv s)
    (hMem : .right p type ∈ s.held) :
    SenderInv (s.given p type) := by
  have hCount := count_released (s.ports p) s.notified hMem
  have hHeld : (s.given p type).held =
      (s.released p type (s.ports p) s.notified).held := rfl
  have hSends : (s.given p type).sends =
      bump machMsgTypePortSend type p s.sends := rfl
  have hOnces : (s.given p type).onces =
      bump machMsgTypePortSendOnce type p s.onces := rfl
  have hPorts : (s.given p type).ports = s.ports := rfl
  have hEntries : (s.given p type).entries = s.entries := rfl
  have hNotified : (s.given p type).notified = s.notified := rfl
  have hOld : ∀ h, h ∈ (s.given p type).held → h ∈ s.held :=
    fun h hIn => List.mem_of_mem_erase hIn
  refine ⟨hInv.names, hInv.entries, hInv.finite,
    fun q kind hIn => hInv.heldType q kind (hOld _ hIn),
    fun q hIn => hInv.heldReceive q (hOld _ hIn), ?_, ?_, ?_,
    ?_, hInv.nextAddr⟩
  · intro q
    have hOnce := hInv.heldOnce q
    have hLess := hCount q machMsgTypePortReceive
    rw [hHeld]
    omega
  · intro q hActive
    have hSum := hInv.sends q hActive
    have hLess := hCount q machMsgTypePortSend
    rw [hHeld, hSends, hPorts, hEntries, bump_eq]
    omega
  · intro q
    have hSum := hInv.onces q
    have hLess := hCount q machMsgTypePortSendOnce
    rw [hHeld, hOnces, hPorts, hEntries, hNotified, bump_eq]
    omega
  · intro q hActive
    have hSum := hInv.oncesActive q hActive
    have hLess := hCount q machMsgTypePortSendOnce
    rw [hHeld, hOnces, hPorts, hEntries, hNotified, bump_eq]
    omega

theorem giveRight_run
    (hMem : .right p type ∈ s.held) :
    giveRight p type s = (.ok (), s.given p type) := by
  unfold giveRight
  rw [bind_run (releaseHeld_run hMem)]
  rfl

------
-- Consuming
------

/-
  The space and the map got some of what is listed, and the
  rest is gone.
-/
def PassedOn
    (listed : List Held)
    (r r' : Receiver) : Prop :=
  ∃ installed mapped gone,
    r'.installed = installed ++ r.installed ∧
      r'.mapped = mapped ++ r.mapped ∧
      listed.Perm (gone ++ installed ++ mapped)

theorem PassedOn.trans
    {r r' r'' : Receiver}
    (h : PassedOn first r r')
    (h' : PassedOn second r' r'') :
    PassedOn (first ++ second) r r'' := by
  rcases h with ⟨i, m, g, hI, hM, hPerm⟩
  rcases h' with ⟨i', m', g', hI', hM', hPerm'⟩
  refine ⟨i' ++ i, m' ++ m, g ++ g', ?_, ?_, ?_⟩
  · rw [hI', hI, List.append_assoc]
  · rw [hM', hM, List.append_assoc]
  · rw [List.perm_iff_count] at hPerm hPerm' ⊢
    intro x
    have hCount := hPerm x
    have hCount' := hPerm' x
    simp only [List.count_append] at hCount hCount' ⊢
    omega

/- Nothing is given to anyone. -/
theorem PassedOn.of_eq
    {r r' : Receiver}
    (hInstalled : r'.installed = r.installed)
    (hMapped : r'.mapped = r.mapped) :
    PassedOn listed r r' := by
  refine ⟨[], [], listed, hInstalled, hMapped, ?_⟩
  rw [List.append_nil, List.append_nil]

/-
  A part that consumes what is listed, keeps the rest, and has
  a result like this.
-/
def Consumes
    {α : Type}
    (buffers : Nat → List Nat)
    (x : CopyoutProg α)
    (listed : List Held)
    (Q : α → Prop) : Prop :=
  ∀ r rest, SenderInv r.message → r.message.buffers = buffers →
    r.message.held.Perm (listed ++ rest) →
    ∃ a r', x r = (.ok a, r') ∧ SenderInv r'.message ∧
      r'.message.buffers = buffers ∧
      r'.message.held.Perm rest ∧ PassedOn listed r r' ∧ Q a

section Consumes

variable {α β : Type} {buffers : Nat → List Nat} {Q : α → Prop}
variable {x : CopyoutProg α}
variable {f : α → CopyoutProg β} {R : β → Prop}

theorem consumes_pure
    {a : α}
    (h : Q a) :
    Consumes buffers (pure a) [] Q := by
  intro r rest hInv hBuffers hHeld
  exact ⟨a, r, rfl, hInv, hBuffers, hHeld,
    PassedOn.of_eq rfl rfl, h⟩

theorem Consumes.bind
    (hFirst : Consumes buffers x first Q)
    (hSecond : ∀ a, Q a → Consumes buffers (f a) second R) :
    Consumes buffers (x >>= f) (first ++ second) R := by
  intro r rest hInv hBuffers hHeld
  rw [List.append_assoc] at hHeld
  rcases hFirst r _ hInv hBuffers hHeld with
    ⟨a, r', hRun, hInv', hBuffers', hHeld', hPassed, hQ⟩
  rcases hSecond a hQ r' rest hInv' hBuffers' hHeld' with
    ⟨b, r'', hRun', hInv'', hBuffers'', hHeld'', hPassed', hR⟩
  refine ⟨b, r'', ?_, hInv'', hBuffers'', hHeld'',
    hPassed.trans hPassed', hR⟩
  rw [bind_run hRun]
  exact hRun'

/- A last part that consumes nothing more. -/
theorem Consumes.last
    (h : Consumes buffers x listed Q)
    (hf : ∀ a, Q a → Consumes buffers (f a) [] R) :
    Consumes buffers (x >>= f) listed R := by
  have hBoth := h.bind hf
  rw [List.append_nil] at hBoth
  exact hBoth

theorem Consumes.require
    {c : Prop}
    [Decidable c]
    {e : Stop}
    {f : Unit → CopyoutProg α}
    (hc : c)
    (h : Consumes buffers (f ()) listed Q) :
    Consumes buffers (require c e >>= f) listed Q := by
  intro r rest hInv hBuffers hHeld
  rw [bind_run (require_run hc)]
  exact h r rest hInv hBuffers hHeld

theorem Consumes.read
    {f : Receiver → CopyoutProg α}
    (h : ∀ r, r.message.buffers = buffers →
      Consumes buffers (f r) listed Q) :
    Consumes buffers (Checked.read >>= f) listed Q := by
  intro r rest hInv hBuffers hHeld
  exact h r hBuffers r rest hInv hBuffers hHeld

theorem Consumes.mono
    {Q R : α → Prop}
    (h : Consumes buffers x listed Q)
    (hQR : ∀ a, Q a → R a) :
    Consumes buffers x listed R := by
  intro r rest hInv hBuffers hHeld
  rcases h r rest hInv hBuffers hHeld with
    ⟨a, r', hRun, hInv', hBuffers', hHeld', hPassed, hQ⟩
  exact ⟨a, r', hRun, hInv', hBuffers', hHeld', hPassed,
    hQR a hQ⟩

/- What is done to the message is not passed on. -/
theorem Releases.consumes
    {x : KmsgProg Unit}
    (h : Releases buffers x listed) :
    Consumes buffers (onMessage x) listed (fun _ => True) := by
  intro r rest hInv hBuffers hHeld
  rcases h r.message rest hInv hBuffers hHeld with
    ⟨t, hRun, hInv', _, hBuffers', hHeld'⟩
  exact ⟨(), { r with message := t }, onPart_run hRun, hInv',
    hBuffers', hHeld', PassedOn.of_eq rfl rfl, trivial⟩

theorem install_consumes :
    Consumes buffers (install object type)
      [.right object type] (fun _ => True) := by
  intro r rest hInv hBuffers hHeld
  have hMem : .right object type ∈ r.message.held :=
    hHeld.symm.subset (List.mem_append_left _
      (List.mem_singleton.mpr rfl))
  have hGive : onMessage (giveRight object type) r =
      (.ok (), { r with
        message := r.message.given object type }) :=
    onPart_run (giveRight_run hMem)
  refine ⟨(), { r with
      message := r.message.given object type
      installed := .right object type :: r.installed },
    ?_, hInv.given hMem, hBuffers, ?_,
    ⟨[.right object type], [], [], rfl, rfl, List.Perm.refl _⟩,
    trivial⟩
  · unfold install
    rw [bind_run hGive]
    rfl
  · have hErase := hHeld.erase (.right object type)
    rw [List.singleton_append, List.erase_cons_head] at hErase
    exact hErase

theorem mapCopy_consumes
    {copy : Nat} :
    Consumes buffers (mapCopy copy) [.copy copy]
      (fun _ => True) := by
  intro r rest hInv hBuffers hHeld
  have hReleases : Releases buffers (releaseHeld (.copy copy))
      [.copy copy] := releaseHeld_releases (by simp)
  rcases hReleases r.message rest hInv hBuffers hHeld with
    ⟨t, hRun, hInv', _, hBuffers', hHeld'⟩
  have hRelease : onMessage (releaseHeld (.copy copy)) r =
      (.ok (), { r with message := t }) := onPart_run hRun
  refine ⟨(), { r with
      message := t
      mapped := .copy copy :: r.mapped },
    ?_, hInv', hBuffers', hHeld',
    ⟨[], [.copy copy], [], rfl, rfl, List.Perm.refl _⟩, trivial⟩
  unfold mapCopy
  rw [bind_run hRelease]
  rfl

theorem writeOver_consumes
    (w : Overwrite) :
    Consumes buffers (writeOver w) [] (fun _ => True) := by
  intro r rest hInv hBuffers hHeld
  exact ⟨(), _, rfl, hInv, hBuffers, hHeld,
    PassedOn.of_eq rfl rfl, trivial⟩

theorem freeBuffer_consumes
    {d : Descriptor}
    {length : Nat} :
    Consumes buffers (freeBuffer d length)
      [.buffer d.address length] (fun _ => True) :=
  (releaseHeld_releases (by simp)).consumes

------
-- Objects
------

/- The name that an object is copied out to. -/
def copiedName (answer : CopyoutAnswer) (object : Nat) : Nat :=
  if ioValid object then
    match answer with
    | .success name => name
    | .invalidCapability => ioDead
    | _ => ioNull
  else object

theorem heldObjects_valid
    (h : ioValid object = true) :
    heldObjects type [object] = [.right object type] := by
  unfold heldObjects
  rw [List.filter_cons_of_pos h]
  rfl

theorem heldObjects_not
    (h : ¬ ioValid object = true) :
    heldObjects type [object] = [] := by
  unfold heldObjects
  rw [List.filter_cons_of_neg h]
  rfl

theorem heldObjects_cons
    (type object : Nat)
    (objects : List Nat) :
    heldObjects type (object :: objects) =
      heldObjects type [object] ++ heldObjects type objects := by
  unfold heldObjects
  rw [← List.map_append, ← List.filter_append]
  rfl

variable (env : KmsgAnswers) in
theorem copyoutObject_consumes
    (answer : CopyoutAnswer)
    (object type : Nat) :
    Consumes buffers
      (ipcKmsgCopyoutObject env answer object type)
      (heldObjects type [object])
      (fun out => out.2 = copiedName answer object) := by
  have hDestroy : ∀ mr name, Consumes buffers (do
        onMessage (ipcObjectDestroy env object type)
        pure (mr, name) : CopyoutProg (Nat × Nat))
      [.right object type] (fun out => out.2 = name) :=
    fun mr name => (ipcObjectDestroy_releases env).consumes.last
      fun _ _ => consumes_pure rfl
  unfold ipcKmsgCopyoutObject copiedName
  by_cases hValid : ioValid object = true
  · rw [if_neg (by simp [hValid]), if_pos hValid,
      heldObjects_valid hValid]
    cases answer with
    | success name =>
        exact install_consumes.last fun _ _ => consumes_pure rfl
    | invalidCapability | resourceShortage | noSpace => exact hDestroy _ _
  · rw [if_pos (by simp [hValid]), if_neg hValid,
      heldObjects_not hValid]
    exact consumes_pure rfl

variable (env : KmsgAnswers) in
theorem copyoutObjects_consumes
    (answers : Nat → CopyoutAnswer)
    (type j : Nat)
    (objects : List Nat) :
    Consumes buffers
      (copyoutObjects env answers type j objects)
      (heldObjects type objects) (fun _ => True) := by
  induction objects generalizing j with
  | nil => exact consumes_pure trivial
  | cons object objects ih =>
      rw [heldObjects_cons]
      apply (copyoutObject_consumes env _ object type).bind
      intro out _
      exact (ih (j + 1)).last fun _ _ => consumes_pure trivial

------
-- Out-of-Line Memory
------

/- A descriptor of a message for a user, in a queue. -/
structure Queued
    (nextAddr : Nat)
    (buffers : Nat → List Nat)
    (d : Descriptor) : Prop
    extends Converted nextAddr buffers d where
  type :
    d.type = machMsgPortDescriptor ∨ IsOol d ∨
      d.type = machMsgOolPortsDescriptor
  copy :
    IsOol d →
      d.copy ≠ machMsgKallocCopyT ∧
        d.copy ≠ machMsgPageListCopyT
  memory : IsOol d → d.size ≠ 0 → d.address ≠ 0
  length_le :
    d.type = machMsgOolPortsDescriptor → d.portsLength ≠ 0 →
      (buffers d.address).length ≤ d.count

/- The address that the map gave, or none. -/
def MapAnswer.addr : MapAnswer → Nat
| .success addr => addr
| _ => 0

/- Where small data is copied to. -/
def smallAddress
    (rt : Bool)
    (answer : MapAnswer) : Option Descriptor → Nat
| some s => s.address
| none => if rt then 0 else answer.addr

/- Where a copy is mapped, or written over a region. -/
def copyAddress
    (answer : MapAnswer) : Option Descriptor → Nat
| some s =>
    match answer with
    | .success _ => s.address
    | _ => 0
| none => answer.addr

/- What is left of a descriptor of some memory. -/
def outOol
    (cfg : KmsgConfig)
    (answer : MapAnswer)
    (d : Descriptor)
    (region : Option Descriptor) : Descriptor :=
  { d with
    address :=
      if d.copy = machMsgPhysicalCopy ∧
          d.size < cfg.msgOolSizeSmall then
        smallAddress cfg.rt answer region
      else copyAddress answer region
    copy :=
      if region.isSome then machMsgOverwrite
      else machMsgAllocate }

section Ool

variable {cfg : KmsgConfig} {answer : MapAnswer}
variable {d : Descriptor} {region : Option Descriptor}

theorem copyoutSmall_consumes
    (hSmall : d.copy = machMsgPhysicalCopy ∧
      d.size < cfg.msgOolSizeSmall) :
    Consumes buffers (copyoutSmall cfg answer d region)
      [.buffer d.address d.size]
      (fun out => out.2 = outOol cfg answer d region) := by
  unfold copyoutSmall outOol
  rw [if_pos hSmall]
  cases region with
  | some s =>
      exact (writeOver_consumes _).bind fun _ _ =>
        freeBuffer_consumes.last fun _ _ => consumes_pure rfl
  | none =>
      unfold smallAddress
      by_cases hRt : cfg.rt = true
      · rw [if_pos hRt, if_pos hRt]
        exact freeBuffer_consumes.last fun _ _ =>
          consumes_pure rfl
      rw [if_neg hRt, if_neg hRt]
      cases answer with
      | success addr | resourceShortage | noSpace =>
          exact freeBuffer_consumes.last fun _ _ =>
            consumes_pure rfl

theorem copyoutCopy_consumes
    (hSmall : ¬ (d.copy = machMsgPhysicalCopy ∧
      d.size < cfg.msgOolSizeSmall))
    (hAddress : d.address ≠ 0) :
    Consumes buffers (copyoutCopy answer d region)
      [.copy d.address]
      (fun out => out.2 = outOol cfg answer d region) := by
  have hDiscard : Consumes buffers
      (onMessage (vmMapCopyDiscard d.address))
      [.copy d.address] (fun _ => True) := by
    rw [← heldCopy_of hAddress]
    exact vmMapCopyDiscard_releases.consumes
  unfold copyoutCopy outOol
  rw [if_neg hSmall]
  cases region with
  | some s =>
      apply (writeOver_consumes _).bind
      intro _ _
      cases answer with
      | success addr =>
          exact mapCopy_consumes.last fun _ _ =>
            consumes_pure rfl
      | resourceShortage | noSpace =>
          exact hDiscard.last fun _ _ => consumes_pure rfl
  | none =>
      cases answer with
      | success addr =>
          exact mapCopy_consumes.last fun _ _ =>
            consumes_pure rfl
      | resourceShortage | noSpace =>
          exact hDiscard.last fun _ _ => consumes_pure rfl

/- Memory is mapped or discarded, whatever is answered. -/
theorem copyoutOol_consumes
    (h : Queued nextAddr buffers d)
    (hOol : IsOol d) :
    Consumes buffers (copyoutOol cfg answer d region)
      (heldBy cfg buffers d)
      (fun out => out.2 =
        if d.size = 0 then d
        else outOol cfg answer d region) := by
  rw [heldBy_ool hOol]
  apply Consumes.require (h.copy hOol).1
  apply Consumes.require (h.copy hOol).2
  by_cases hSize : d.size = 0
  · rw [if_pos (h.ool hOol hSize), if_pos hSize, if_pos hSize]
    exact consumes_pure rfl
  have hAddress := h.memory hOol hSize
  rw [if_neg hAddress, if_neg hSize, if_neg hSize]
  by_cases hSmall : d.copy = machMsgPhysicalCopy ∧
      d.size < cfg.msgOolSizeSmall
  · rw [if_pos hSmall, if_pos hSmall]
    exact copyoutSmall_consumes hSmall
  · rw [if_neg hSmall, if_neg hSmall, heldCopy_of hAddress]
    exact copyoutCopy_consumes hSmall hAddress

end Ool

------
-- Arrays of Ports
------

section Ports

variable {d : Descriptor}

variable (env : KmsgAnswers) in
theorem copyoutArray_consumes
    (answers : Nat → CopyoutAnswer)
    (addr : Nat)
    (hAddress : d.address ≠ 0)
    (hLength : (buffers d.address).length = d.count) :
    Consumes buffers (copyoutArray env answers d addr)
      (heldObjects d.disposition (buffers d.address) ++
        [.buffer d.address d.portsLength])
      (fun out => out.2 = { d with address := addr }) := by
  unfold copyoutArray
  apply Consumes.require hAddress
  apply Consumes.read
  intro r hBuffers
  dsimp only
  rw [hBuffers]
  apply Consumes.require (Nat.le_of_eq hLength.symm)
  rw [← hLength, List.take_length]
  exact (copyoutObjects_consumes env answers _ 0 _).bind
    fun _ _ => freeBuffer_consumes.last fun _ _ =>
      consumes_pure rfl

/-
  There is no space for an array: no region is given, and the
  message is a real-time message or the map refuses.
-/
def NoSpace
    (cfg : KmsgConfig)
    (answer : MapAnswer)
    (d : Descriptor)
    (region : Option Descriptor) : Prop :=
  d.type = machMsgOolPortsDescriptor ∧ d.portsLength ≠ 0 ∧
    region = none ∧
    (cfg.rt = true ∨ ∀ addr, answer ≠ .success addr)

/- An array with space is copied out and its memory freed. -/
theorem copyoutPorts_consumes
    {env : CopyoutAnswers}
    (done rest : List Descriptor)
    (h : Queued nextAddr buffers d)
    (hType : d.type = machMsgOolPortsDescriptor)
    (hSpace :
      ¬ NoSpace cfg (env.map done.length) d region) :
    Consumes buffers (copyoutPorts cfg env done rest d region)
      (heldBy cfg buffers d)
      (fun out => if d.portsLength = 0 then out.2 = d
        else out.2.type = d.type ∧ out.2.size = d.size) := by
  rw [heldBy_ports hType]
  unfold copyoutPorts
  by_cases hLength : d.portsLength = 0
  · simp only [if_pos hLength]
    exact consumes_pure rfl
  simp only [if_neg hLength]
  rcases h.ports hType hLength with ⟨hAddress, _, hLe⟩
  have hExact : (buffers d.address).length = d.count :=
    Nat.le_antisymm (h.length_le hType hLength) hLe
  have hArray : ∀ copy addr,
      Consumes buffers
        (copyoutArray env.memory (env.object done.length)
          { d with copy := copy } addr)
        (heldObjects d.disposition (buffers d.address) ++
          [.buffer d.address d.portsLength])
        (fun out =>
          out.2.type = d.type ∧ out.2.size = d.size) := by
    intro copy addr
    apply (copyoutArray_consumes env.memory _ addr
      (d := { d with copy := copy }) hAddress hExact).mono
    intro out hOut
    rw [hOut]
    exact ⟨rfl, rfl⟩
  cases region with
  | some s =>
      exact (writeOver_consumes _).bind fun _ _ =>
        hArray machMsgOverwrite s.address
  | none =>
      have hOk : cfg.rt ≠ true ∧
          ∃ addr, env.map done.length = .success addr := by
        by_contra hNot
        refine hSpace ⟨hType, hLength, rfl, ?_⟩
        by_cases hRt : cfg.rt = true
        · exact Or.inl hRt
        · exact Or.inr fun addr hEq => hNot ⟨hRt, addr, hEq⟩
      rcases hOk with ⟨hRt, addr, hAnswer⟩
      rw [if_neg hRt, hAnswer]
      exact hArray machMsgAllocate addr

theorem copyoutDescriptor_ports
    {env : CopyoutAnswers}
    {done rest : List Descriptor}
    {ss : ScatterList}
    (hType : d.type = machMsgOolPortsDescriptor) :
    copyoutDescriptor cfg env done rest d ss = (do
      let (region, ss) ← takeScatter d ss
      let (mr, d) ← copyoutPorts cfg env done rest d region
      pure (mr, d, ss)) := by
  cases d
  subst hType
  rfl

/- Without space the body is cleaned. -/
theorem copyoutPorts_noSpace
    {env : CopyoutAnswers}
    (done rest : List Descriptor)
    (h : NoSpace cfg (env.map done.length) d region) :
    ∃ mr copy,
      copyoutPorts cfg env done rest d region = (do
        onMessage (ipcKmsgCleanBody cfg env.memory
          (done ++ { d with copy := copy } :: rest))
        pure (mr, { d with
          address := 0
          copy := copy })) := by
  rcases h with ⟨_, hLength, hRegion, hNone⟩
  rw [hRegion]
  unfold copyoutPorts
  rw [if_neg hLength]
  by_cases hRt : cfg.rt = true
  · rw [if_pos hRt]
    exact ⟨_, d.copy, rfl⟩
  rw [if_neg hRt]
  refine ⟨(env.map done.length).bits, machMsgAllocate, ?_⟩
  cases hAnswer : env.map done.length with
  | success addr =>
      rcases hNone with hIs | hNot
      · exact absurd hIs hRt
      · exact absurd hAnswer (hNot addr)
  | resourceShortage => rfl
  | noSpace => rfl

end Ports

end Consumes

end Ipc

end OsfMach
