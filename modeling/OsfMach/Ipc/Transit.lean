import OsfMach.Ipc.Circularity

/-
  Receive rights moving through messages, from
  `ipc/ipc_kmsg.c`, `ipc/ipc_right.c`, `ipc/ipc_object.c`,
  `ipc/ipc_port.c` and `ipc/ipc_notify.c`.

  A step is what one thread does to one receive right or to
  one message. Taking a right out of its space and checking
  it are two steps, and any others come between them.

  Main declarations:
    * `TransitKmsg`, `TransitSystem`, `TransitOp`
    * `TransitSystem.step`, `TransitReachable`
    * `TransitInv`
    * `TransitInv.step`, `TransitReachable.inv`
    * `transitReachable_acyclic`
-/

------
-- Messages and Rights
------

namespace OsfMach

namespace Ipc

open Function
open Lib

/-
  What a thread is doing with a message: filling it, making
  a port-destroyed notification of it, or taking it apart.
  A sent message is on the queue of its port.
-/
inductive KmsgStage where
| copyin
| notify
| queued
| copyout
| destroy
deriving DecidableEq, Repr

/-
  A message with the receive rights in it. `checking` is a
  right taken from its holder and not yet checked.
-/
structure TransitKmsg where
  msghRemotePort : Nat
  circular : Bool
  checking : Option Nat
  rights : List Nat
  stage : KmsgStage
deriving DecidableEq, Repr

/- All ports and messages. -/
structure TransitSystem where
  allocated : Nat → Bool
  ports : Nat → TransitPort
  kmsgs : Nat → Option TransitKmsg

/- The space of the kernel. -/
def ipcSpaceKernel : Nat := 0

/- The receive rights that a message holds. -/
def TransitKmsg.held (m : TransitKmsg) : List Nat :=
  m.checking.toList ++ m.rights

/-
  Operations on receive rights. The arguments `k` and `j`
  are messages, and `j` is the one that `ipc_port_destroy`
  makes for a port with a backup.
-/
inductive TransitOp where
| portInit (p space name : Nat)
| portPdrequest (p : Nat) (notify : Option Nat)
| portDestroy (p j : Nat)
| kmsgGet (k dest : Nat)
| copyinReceive (k p : Nat)
| checkCircularity (k fuel : Nat) (tried : Bool)
| cleanPartial (k : Nat)
| mqueueSend (k : Nat)
| copyoutPseudo (k : Nat)
| mqueueReceive (k : Nat)
| destroyQueued (k : Nat)
| copyoutReceive (k space name : Nat)
| releaseReceive (k j : Nat)
| kmsgFree (k : Nat)
deriving DecidableEq, Repr

namespace TransitSystem

/- No port and no message. -/
def init : TransitSystem :=
  { allocated := fun _ => false
    ports := fun _ =>
      ⟨false, machPortNull, .destination none, none⟩
    kmsgs := fun _ => none }

section

variable (s : TransitSystem)

def setPort
    (p : Nat)
    (q : TransitPort) : TransitSystem :=
  { s with ports := update s.ports p q }

def setKmsg
    (k : Nat)
    (m : Option TransitKmsg) : TransitSystem :=
  { s with kmsgs := update s.kmsgs k m }

/-
  A port with a backup goes to limbo, to be sent to it in a
  notification. Any other port dies.
-/
def ipcPortDestroy
    (p j : Nat) : TransitSystem :=
  match (s.ports p).ipPdrequest with
  | some pdrequest =>
      (s.setPort p
        { (s.ports p).limbo with ipPdrequest := none
          }).setKmsg j
        (some ⟨pdrequest, false, some p, [], .notify⟩)
  | none => s.setPort p { s.ports p with ipActive := false }

/-
  What becomes of a message in `ipc_mqueue_send`: the kernel
  serves it, it is destroyed, or it is queued.
-/
def sendStage
    (m : TransitKmsg) : KmsgStage :=
  let port := s.ports m.msghRemotePort
  if port.data = .receiver ipcSpaceKernel then .copyout
  else if m.circular then .destroy
  else if !port.ipActive then .destroy
  else .queued

/-
  Check the right taken last. A notification whose port is
  in a circle is not sent, and its port is destroyed.
-/
def checkRight
    (k fuel : Nat)
    (tried : Bool)
    (m : TransitKmsg)
    (p : Nat) : Option TransitSystem :=
  match ipcPortCheckCircularity fuel tried s.ports p
      m.msghRemotePort with
  | none => none
  | some (circular, ports, _) =>
      some ({ s with ports := ports }.setKmsg k
        (some
          { m with
            circular := m.circular || circular
            checking := none
            rights := m.rights ++ [p]
            stage :=
              if circular && m.stage == KmsgStage.notify
              then .destroy else m.stage }))

/- Move a message to another stage. -/
def restage
    (k : Nat)
    (m : TransitKmsg)
    (stage : KmsgStage) : TransitSystem :=
  s.setKmsg k (some { m with stage := stage })

/- One step on a message that is there. -/
def kmsgStep
    (k : Nat)
    (m : TransitKmsg) : TransitOp → Option TransitSystem
| .copyinReceive _ p =>
    if m.stage = .copyin ∧ m.checking = none ∧
        (s.ports p).ipActive = true ∧
        (s.ports p).ipReceiverName ≠ machPortNull then
      some ((s.setPort p (s.ports p).limbo).setKmsg k
        (some { m with checking := some p }))
    else none
| .checkCircularity _ fuel tried =>
    match m.checking with
    | none => none
    | some p => s.checkRight k fuel tried m p
| .cleanPartial _ =>
    if (m.stage = .copyin ∨ m.stage = .notify) ∧
        m.checking = none then
      some (s.restage k m .destroy)
    else none
| .mqueueSend _ =>
    if (m.stage = .copyin ∨ m.stage = .notify) ∧
        m.checking = none then
      some (s.restage k m (s.sendStage m))
    else none
| .copyoutPseudo _ =>
    if m.stage = .copyin ∧ m.checking = none then
      some (s.restage k m .copyout)
    else none
| .mqueueReceive _ =>
    if m.stage = .queued ∧
        (s.ports m.msghRemotePort).ipActive = true ∧
        (s.ports m.msghRemotePort).ipReceiverName ≠
          machPortNull then
      some (s.restage k m .copyout)
    else none
| .destroyQueued _ =>
    if m.stage = .queued ∧
        (s.ports m.msghRemotePort).ipActive = false then
      some (s.restage k m .destroy)
    else none
| .copyoutReceive _ space name =>
    match m.rights with
    | [] => none
    | p :: rights =>
        if m.stage = .copyout ∧ name ≠ machPortNull then
          some ((s.setKmsg k
            (some { m with rights := rights })).setPort p
              { s.ports p with
                ipReceiverName := name
                data := .receiver space })
        else none
| .releaseReceive _ j =>
    match m.rights with
    | [] => none
    | p :: rights =>
        if (m.stage = .copyout ∨ m.stage = .destroy) ∧
            s.kmsgs j = none then
          some (ipcPortDestroy (s.setKmsg k
            (some { m with rights := rights })) p j)
        else none
| .kmsgFree _ =>
    if (m.stage = .copyout ∨ m.stage = .destroy) ∧
        m.held = [] then
      some (s.setKmsg k none)
    else none
| _ => none

end

/- The message that an operation is about. -/
def opKmsg : TransitOp → Nat
| .portInit .. => 0
| .portPdrequest .. => 0
| .portDestroy .. => 0
| .kmsgGet k _ => k
| .copyinReceive k _ => k
| .checkCircularity k _ _ => k
| .cleanPartial k => k
| .mqueueSend k => k
| .copyoutPseudo k => k
| .mqueueReceive k => k
| .destroyQueued k => k
| .copyoutReceive k _ _ => k
| .releaseReceive k _ => k
| .kmsgFree k => k

/-
  The ports that `ipc_port_dealloc_special` destroys are
  taken out of the space of the kernel first.
-/
def clearSpecial (q : TransitPort) : TransitPort :=
  if q.data = .receiver ipcSpaceKernel then q.limbo else q

def step
    (s : TransitSystem) : TransitOp → Option TransitSystem
| .portInit p space name =>
    if s.allocated p = false ∧ name ≠ machPortNull then
      some
        ({ s with
          allocated := update s.allocated p true }.setPort p
          ⟨true, name, .receiver space, none⟩)
    else none
| .portPdrequest p notify =>
    if (s.ports p).ipActive = true ∧
        (s.ports p).ipReceiverName ≠ machPortNull ∧
        ∀ n ∈ notify, s.allocated n = true then
      some (s.setPort p
        { s.ports p with ipPdrequest := notify })
    else none
| .portDestroy p j =>
    if (s.ports p).ipActive = true ∧
        (s.ports p).ipReceiverName ≠ machPortNull ∧
        s.kmsgs j = none then
      some (ipcPortDestroy
        (s.setPort p (clearSpecial (s.ports p))) p j)
    else none
| .kmsgGet k dest =>
    if s.kmsgs k = none ∧ s.allocated dest = true then
      some (s.setKmsg k
        (some ⟨dest, false, none, [], .copyin⟩))
    else none
| op =>
    match s.kmsgs (opKmsg op) with
    | none => none
    | some m => s.kmsgStep (opKmsg op) m op

end TransitSystem

/- Run a list of operations. -/
def TransitSystem.runOps
    (s : TransitSystem) :
    List TransitOp → Option TransitSystem
| [] => some s
| op :: ops => (s.step op).bind fun s' => s'.runOps ops

/- The states that operations in any order lead to. -/
inductive TransitReachable : TransitSystem → Prop where
| init :
    TransitReachable TransitSystem.init
| step {s s' : TransitSystem} {op : TransitOp} :
    TransitReachable s →
    s.step op = some s' →
    TransitReachable s'

------
-- Invariant
------

/- A right that is in no message. -/
def TransitSystem.Unheld
    (s : TransitSystem)
    (p : Nat) : Prop :=
  ∀ k m, s.kmsgs k = some m → p ∉ m.held

/-
  Chains of ports in transit end, and every nameless right
  in a message is there once and in that message alone.
-/
structure TransitInv (s : TransitSystem) : Prop where
  forest : Forest (transitNext s.ports)
  nameless :
    ∀ k m p, s.kmsgs k = some m → p ∈ m.held →
      (s.ports p).ipActive = true ∧
        (s.ports p).ipReceiverName = machPortNull
  nodup : ∀ k m, s.kmsgs k = some m → m.held.Nodup
  apart :
    ∀ k m k' m' p, s.kmsgs k = some m →
      s.kmsgs k' = some m' → p ∈ m.held → p ∈ m'.held →
        k = k'
  limbo :
    ∀ k m p, s.kmsgs k = some m → m.checking = some p →
      (s.ports p).inLimbo = true
  active :
    ∀ p, (s.ports p).ipActive = true → s.allocated p = true

theorem transitNext_update
    (ports : Nat → TransitPort)
    (p : Nat)
    (q : TransitPort) :
    transitNext (update ports p q) =
      update (transitNext ports) p q.transitTo := by
  funext x
  by_cases hx : x = p
  · subst hx
    simp [transitNext]
  · simp [transitNext, hx]

namespace TransitInv

variable {s : TransitSystem} {p : Nat}

theorem init : TransitInv TransitSystem.init where
  forest := by
    intro i
    exact ⟨i, [i], Chain.root rfl⟩
  nameless := by
    intro k m p hm
    cases hm
  nodup := by
    intro k m hm
    cases hm
  apart := by
    intro k m k' m' p hm
    cases hm
  limbo := by
    intro k m p hm
    cases hm
  active := by
    intro p hp
    cases hp

/- A named port is in no message. -/
theorem unheld_of_named
    (h : TransitInv s)
    (hName : (s.ports p).ipReceiverName ≠ machPortNull) :
    s.Unheld p := by
  intro k m hm hp
  exact hName (h.nameless k m p hm hp).2

/- Neither is a port that is not there yet. -/
theorem unheld_of_fresh
    (h : TransitInv s)
    (hFresh : s.allocated p = false) :
    s.Unheld p := by
  intro k m hm hp
  have hAlloc := h.active p (h.nameless k m p hm hp).1
  rw [hFresh] at hAlloc
  cases hAlloc

/- Change a port that is in no message. -/
theorem setPort
    {p : Nat}
    {q : TransitPort}
    (h : TransitInv s)
    (hUnheld : s.Unheld p)
    (hAlloc : q.ipActive = true → s.allocated p = true)
    (hForest :
      Forest (update (transitNext s.ports) p q.transitTo)) :
    TransitInv (s.setPort p q) := by
  have hOther :
      ∀ k m x, s.kmsgs k = some m → x ∈ m.held →
        (s.setPort p q).ports x = s.ports x := by
    intro k m x hm hx
    apply update_of_ne
    intro hEq
    subst hEq
    exact hUnheld k m hm hx
  refine ⟨?_, ?_, h.nodup, h.apart, ?_, ?_⟩
  · change Forest (transitNext (update _ _ _))
    rw [transitNext_update]
    exact hForest
  · intro k m x hm hx
    rw [hOther k m x hm hx]
    exact h.nameless k m x hm hx
  · intro k m x hm hx
    rw [hOther k m x hm (by simp [TransitKmsg.held, hx])]
    exact h.limbo k m x hm hx
  · intro x hx
    by_cases hEq : x = p
    · subst hEq
      simp only [TransitSystem.setPort, update_self] at hx
      exact hAlloc hx
    · simp only [TransitSystem.setPort, update_of_ne hEq] at hx
      exact h.active x hx

/- Change a port so that it is not in transit. -/
theorem setPort_cut
    {q : TransitPort}
    (h : TransitInv s)
    (hUnheld : s.Unheld p)
    (hAlloc : q.ipActive = true → s.allocated p = true)
    (hCut : q.transitTo = none) :
    TransitInv (s.setPort p q) := by
  apply h.setPort hUnheld hAlloc
  rw [hCut]
  exact h.forest.cut p

/-
  Change a message: the rights it holds are nameless and in
  no other message.
-/
theorem setKmsg
    {k : Nat}
    {m : TransitKmsg}
    (h : TransitInv s)
    (hNameless :
      ∀ p ∈ m.held, (s.ports p).ipActive = true ∧
        (s.ports p).ipReceiverName = machPortNull)
    (hNodup : m.held.Nodup)
    (hApart :
      ∀ p ∈ m.held, ∀ k' m', k' ≠ k →
        s.kmsgs k' = some m' → p ∉ m'.held)
    (hLimbo :
      ∀ p, m.checking = some p →
        (s.ports p).inLimbo = true) :
    TransitInv (s.setKmsg k (some m)) := by
  have hCases :
      ∀ {k' m'}, (s.setKmsg k (some m)).kmsgs k' = some m' →
        k' = k ∧ m' = m ∨
          k' ≠ k ∧ s.kmsgs k' = some m' := by
    intro k' m' hm'
    by_cases hEq : k' = k
    · subst hEq
      simp only [TransitSystem.setKmsg,
        update_self, Option.some.injEq] at hm'
      exact Or.inl ⟨rfl, hm'.symm⟩
    · simp only [TransitSystem.setKmsg, update_of_ne hEq] at hm'
      exact Or.inr ⟨hEq, hm'⟩
  refine ⟨h.forest, ?_, ?_, ?_, ?_, h.active⟩
  · intro k' m' p hm' hp
    rcases hCases hm' with ⟨_, rfl⟩ | ⟨_, hOld⟩
    · exact hNameless p hp
    · exact h.nameless k' m' p hOld hp
  · intro k' m' hm'
    rcases hCases hm' with ⟨_, rfl⟩ | ⟨_, hOld⟩
    · exact hNodup
    · exact h.nodup k' m' hOld
  · intro k₁ m₁ k₂ m₂ p hm₁ hm₂ hp₁ hp₂
    rcases hCases hm₁ with ⟨rfl, rfl⟩ | ⟨hNe₁, hOld₁⟩
    · rcases hCases hm₂ with ⟨rfl, _⟩ | ⟨hNe₂, hOld₂⟩
      · rfl
      · exact absurd hp₂ (hApart p hp₁ _ _ hNe₂ hOld₂)
    · rcases hCases hm₂ with ⟨rfl, rfl⟩ | ⟨hNe₂, hOld₂⟩
      · exact absurd hp₁ (hApart p hp₂ _ _ hNe₁ hOld₁)
      · exact h.apart _ _ _ _ p hOld₁ hOld₂ hp₁ hp₂
  · intro k' m' p hm' hp
    rcases hCases hm' with ⟨_, rfl⟩ | ⟨_, hOld⟩
    · exact hLimbo p hp
    · exact h.limbo k' m' p hOld hp

/- A message keeps or loses rights. -/
theorem setKmsg_sublist
    {k : Nat}
    {m m' : TransitKmsg}
    (h : TransitInv s)
    (hm : s.kmsgs k = some m)
    (hSub : m'.held.Sublist m.held)
    (hChecking :
      m'.checking = none ∨ m'.checking = m.checking) :
    TransitInv (s.setKmsg k (some m')) := by
  apply h.setKmsg
  · intro p hp
    exact h.nameless k m p hm (hSub.subset hp)
  · exact (h.nodup k m hm).sublist hSub
  · intro p hp k' m'' hNe hm'' hp''
    exact hNe (h.apart k' m'' k m p hm'' hm hp''
      (hSub.subset hp))
  · intro p hp
    rcases hChecking with hNone | hSame
    · rw [hNone] at hp
      cases hp
    · exact h.limbo k m p hm (by rw [← hSame, hp])

/- A message gets a right that is in no other. -/
theorem setKmsg_gain
    {k p : Nat}
    {m' : TransitKmsg}
    (h : TransitInv s)
    (hUnheld : s.Unheld p)
    (hNameless :
      (s.ports p).ipActive = true ∧
        (s.ports p).ipReceiverName = machPortNull)
    (hHeld :
      m'.held = [p] ∨ ∃ m, s.kmsgs k = some m ∧
        m'.held.Perm (p :: m.held))
    (hLimbo :
      m'.checking = none ∨ m'.checking = some p ∧
        (s.ports p).inLimbo = true) :
    TransitInv (s.setKmsg k (some m')) := by
  have hMem :
      ∀ x ∈ m'.held, x = p ∨
        ∃ m, s.kmsgs k = some m ∧ x ∈ m.held := by
    intro x hx
    rcases hHeld with hOne | ⟨m, hm, hPerm⟩
    · rw [hOne, List.mem_singleton] at hx
      exact Or.inl hx
    · rcases List.mem_cons.mp (hPerm.mem_iff.mp hx) with
        hEq | hOld
      · exact Or.inl hEq
      · exact Or.inr ⟨m, hm, hOld⟩
  apply h.setKmsg
  · intro x hx
    rcases hMem x hx with rfl | ⟨m, hm, hOld⟩
    · exact hNameless
    · exact h.nameless k m x hm hOld
  · rcases hHeld with hOne | ⟨m, hm, hPerm⟩
    · rw [hOne]
      exact List.nodup_singleton p
    · rw [hPerm.nodup_iff]
      exact List.nodup_cons.mpr
        ⟨hUnheld k m hm, h.nodup k m hm⟩
  · intro x hx k' m'' hNe hm'' hx''
    rcases hMem x hx with rfl | ⟨m, hm, hOld⟩
    · exact hUnheld k' m'' hm'' hx''
    · exact hNe (h.apart k' m'' k m x hm'' hm hx'' hOld)
  · intro x hx
    rcases hLimbo with hNone | ⟨hSome, hIn⟩
    · rw [hNone] at hx
      cases hx
    · rw [hSome, Option.some.injEq] at hx
      rw [← hx]
      exact hIn

theorem dropKmsg
    (h : TransitInv s)
    (k : Nat) :
    TransitInv (s.setKmsg k none) := by
  have hOld :
      ∀ {k' m'}, (s.setKmsg k none).kmsgs k' = some m' →
        s.kmsgs k' = some m' := by
    intro k' m' hm'
    by_cases hEq : k' = k
    · subst hEq
      simp [TransitSystem.setKmsg] at hm'
    · simpa [TransitSystem.setKmsg, hEq] using hm'
  exact {
    forest := h.forest
    nameless := fun k' m' p hm' =>
      h.nameless k' m' p (hOld hm')
    nodup := fun k' m' hm' => h.nodup k' m' (hOld hm')
    apart := fun k₁ m₁ k₂ m₂ p hm₁ hm₂ =>
      h.apart k₁ m₁ k₂ m₂ p (hOld hm₁) (hOld hm₂)
    limbo := fun k' m' p hm' => h.limbo k' m' p (hOld hm')
    active := h.active }

------
-- Steps
------

open TransitSystem

variable {q : TransitPort} {m : TransitKmsg}
variable {s' : TransitSystem} {k : Nat}

/- A right taken out of a message is in none. -/
theorem unheld_of_dropped
    {k p : Nat}
    {m m' : TransitKmsg}
    (h : TransitInv s)
    (hm : s.kmsgs k = some m)
    (hp : p ∈ m.held)
    (hGone : p ∉ m'.held) :
    (s.setKmsg k (some m')).Unheld p := by
  intro k' m'' hm'' hp''
  by_cases hEq : k' = k
  · subst hEq
    simp only [TransitSystem.setKmsg, update_self,
      Option.some.injEq] at hm''
    subst hm''
    exact hGone hp''
  · simp only [TransitSystem.setKmsg, update_of_ne hEq] at hm''
    exact hEq (h.apart k' m'' k m p hm'' hm hp'' hp)

theorem transitTo_of_dead
    (h : q.ipActive = false) :
    q.transitTo = none := by
  rw [TransitPort.transitTo_eq_none_iff]
  simp [TransitPort.notInTransit, h]

theorem transitTo_of_named
    (h : q.ipReceiverName ≠ machPortNull) :
    q.transitTo = none := by
  rw [TransitPort.transitTo_eq_none_iff]
  simp [TransitPort.notInTransit, h]

theorem inLimbo_limbo
    (h : q.ipActive = true) :
    q.limbo.inLimbo = true := by
  rw [TransitPort.inLimbo_iff]
  exact ⟨h, rfl, rfl⟩

section TransitInv

variable (h : TransitInv s)

include h

theorem ipcPortDestroy
    (hUnheld : s.Unheld p)
    (hActive : (s.ports p).ipActive = true)
    (j : Nat) :
    TransitInv (TransitSystem.ipcPortDestroy s p j) := by
  unfold TransitSystem.ipcPortDestroy
  cases (s.ports p).ipPdrequest with
  | none =>
      apply h.setPort_cut hUnheld
      · intro hAbsurd
        cases hAbsurd
      · exact transitTo_of_dead rfl
  | some pdrequest =>
      have hIn :
          ({ (s.ports p).limbo with ipPdrequest := none
            } : TransitPort).inLimbo = true :=
        TransitPort.inLimbo_iff.mpr ⟨hActive, rfl, rfl⟩
      have hSet := h.setPort_cut hUnheld
        (fun _ => h.active p hActive)
        (TransitPort.transitTo_of_inLimbo hIn)
      have hPort :
          ((s.setPort p
            { (s.ports p).limbo with ipPdrequest := none
              }).ports p).inLimbo = true := by
        simpa [TransitSystem.setPort] using hIn
      rcases TransitPort.inLimbo_iff.mp hPort with
        ⟨hAct, hName, _⟩
      exact hSet.setKmsg_gain hUnheld ⟨hAct, hName⟩
        (Or.inl rfl) (Or.inr ⟨rfl, hPort⟩)

/- Point an unheld port in limbo, if that makes no circle. -/
theorem setDestination
    {p dest base : Nat}
    {l : List Nat}
    (hUnheld : s.Unheld p)
    (hLimbo : (s.ports p).inLimbo = true)
    (hChain : Chain (transitNext s.ports) dest base l)
    (hNe : base ≠ p) :
    TransitInv (s.setPort p
      { s.ports p with
        data := .destination (some dest) }) := by
  have hRoot : transitNext s.ports p = none :=
    TransitPort.transitTo_of_inLimbo hLimbo
  rcases TransitPort.inLimbo_iff.mp hLimbo with
    ⟨hActive, hName, _⟩
  apply h.setPort hUnheld
  · intro _
    exact h.active p hActive
  · have hTo :
        ({ s.ports p with
          data := .destination (some dest) } :
            TransitPort).transitTo = some dest := by
      simp [TransitPort.transitTo, TransitPort.notInTransit,
        TransitPort.ipDestination, hActive, hName]
    rw [hTo]
    exact h.forest.link hChain hRoot hNe

theorem checkRight
    {k fuel p : Nat}
    {tried : Bool}
    (hm : s.kmsgs k = some m)
    (hChecking : m.checking = some p)
    (hStep : s.checkRight k fuel tried m p = some s') :
    TransitInv s' := by
  have hHeld : m.held = p :: m.rights := by
    simp [TransitKmsg.held, hChecking]
  have hNodup := h.nodup k m hm
  rw [hHeld, List.nodup_cons] at hNodup
  have hLimbo := h.limbo k m p hm hChecking
  -- the right is first taken out of the message
  have hOut := @setKmsg_sublist s k m
    { m with checking := none } h hm
    (by simp [TransitKmsg.held]) (Or.inl rfl)
  have hUnheld := @unheld_of_dropped s k p m
    { m with checking := none } h hm
    (by rw [hHeld]; exact List.mem_cons_self)
    (by simpa [TransitKmsg.held] using hNodup.1)
  rcases h.forest m.msghRemotePort with ⟨base, l, hChain⟩
  unfold TransitSystem.checkRight at hStep
  split at hStep
  · cases hStep
  · rename_i circular ports locked hCheck
    have hResult := ipcPortCheckCircularity_result hLimbo
      hChain hCheck
    -- and goes back into it with its new destination
    have hBack :
        ∀ q, TransitInv ((s.setKmsg k
            (some { m with checking := none })).setPort p
              q) →
          (q.ipActive = true ∧
            q.ipReceiverName = machPortNull) →
          ports = update s.ports p q →
          TransitInv s' := by
      intro q hq hNameless hPorts
      have hGain := @setKmsg_gain _ k p
        { m with
          circular := m.circular || circular
          checking := none
          rights := m.rights ++ [p]
          stage :=
            if circular && m.stage == KmsgStage.notify
            then .destroy else m.stage } hq hUnheld
        (by simpa [TransitSystem.setPort] using hNameless)
        (Or.inr ⟨{ m with checking := none },
          by simp [TransitSystem.setKmsg,
            TransitSystem.setPort],
          by
            simp [TransitKmsg.held]⟩)
        (Or.inl rfl)
      rw [← Option.some.inj hStep, hPorts]
      simpa [TransitSystem.setKmsg, TransitSystem.setPort]
        using hGain
    rcases TransitPort.inLimbo_iff.mp hLimbo with
      ⟨hActive, hName, _⟩
    split_ifs at hResult with hEq
    · cases hResult
      apply hBack (s.ports p) _ ⟨hActive, hName⟩
      · simp
      · apply hOut.setPort_cut hUnheld
        · intro hAct
          exact h.active p hAct
        · exact TransitPort.transitTo_of_inLimbo hLimbo
    · cases hResult
      refine hBack
        { s.ports p with
          data := .destination (some m.msghRemotePort) }
        ?_ ⟨hActive, hName⟩ rfl
      exact hOut.setDestination hUnheld hLimbo hChain hEq

theorem restage
    (hm : s.kmsgs k = some m)
    (stage : KmsgStage) :
    TransitInv (s.restage k m stage) :=
  h.setKmsg_sublist hm (List.Sublist.refl _) (Or.inr rfl)

/- A right leaves the front of a message. -/
theorem dropRight
    {rights : List Nat}
    (hm : s.kmsgs k = some m)
    (hRights : m.rights = p :: rights) :
    TransitInv (s.setKmsg k
        (some { m with rights := rights })) ∧
      (s.setKmsg k
        (some { m with rights := rights })).Unheld p ∧
      (s.ports p).ipActive = true := by
  have hSub :
      List.Sublist
        ({ m with rights := rights } : TransitKmsg).held
        m.held := by
    unfold TransitKmsg.held
    rw [hRights]
    exact List.Sublist.append_left
      (List.sublist_cons_self p rights) _
  have hp : p ∈ m.held := by
    simp [TransitKmsg.held, hRights]
  have hNodup := h.nodup k m hm
  simp only [TransitKmsg.held, hRights,
    List.nodup_middle, List.nodup_cons] at hNodup
  refine ⟨h.setKmsg_sublist hm hSub (Or.inr rfl), ?_,
    (h.nameless k m p hm hp).1⟩
  exact h.unheld_of_dropped hm hp hNodup.1

theorem kmsgStep
    {op : TransitOp}
    (hm : s.kmsgs k = some m)
    (hStep : s.kmsgStep k m op = some s') :
    TransitInv s' := by
  cases op with
  | portInit p space name | portPdrequest p notify
  | portDestroy p j | kmsgGet k' dest =>
      cases hStep
  | copyinReceive k' p =>
      dsimp only [TransitSystem.kmsgStep] at hStep
      split_ifs at hStep with hGuard
      rcases hGuard with ⟨_, hNone, hActive, hName⟩
      rw [← Option.some.inj hStep]
      have hUnheld := h.unheld_of_named hName
      have hIn := inLimbo_limbo hActive
      have hSet := h.setPort_cut hUnheld
        (fun _ => h.active p hActive)
        (TransitPort.transitTo_of_inLimbo hIn)
      have hPort :
          ((s.setPort p (s.ports p).limbo).ports
            p).inLimbo = true := by
        simpa [TransitSystem.setPort] using hIn
      rcases TransitPort.inLimbo_iff.mp hPort with
        ⟨hAct, hNull, _⟩
      apply hSet.setKmsg_gain hUnheld ⟨hAct, hNull⟩
      · refine Or.inr ⟨m, hm, ?_⟩
        simp [TransitKmsg.held, hNone]
      · exact Or.inr ⟨rfl, hPort⟩
  | checkCircularity k' fuel tried =>
      dsimp only [TransitSystem.kmsgStep] at hStep
      cases hChecking : m.checking with
      | none =>
          rw [hChecking] at hStep
          cases hStep
      | some p =>
          rw [hChecking] at hStep
          exact h.checkRight hm hChecking hStep
  | cleanPartial k' | mqueueSend k' | copyoutPseudo k'
  | mqueueReceive k' | destroyQueued k' =>
      dsimp only [TransitSystem.kmsgStep] at hStep
      split_ifs at hStep
      rw [← Option.some.inj hStep]
      exact h.restage hm _
  | copyoutReceive k' space name =>
      dsimp only [TransitSystem.kmsgStep] at hStep
      cases hRights : m.rights with
      | nil =>
          rw [hRights] at hStep
          cases hStep
      | cons p rights =>
          rw [hRights] at hStep
          split_ifs at hStep with hGuard
          rw [← Option.some.inj hStep]
          rcases h.dropRight hm hRights with
            ⟨hDrop, hUnheld, hActive⟩
          apply hDrop.setPort_cut hUnheld
          · intro _
            exact h.active p hActive
          · exact transitTo_of_named hGuard.2
  | releaseReceive k' j =>
      dsimp only [TransitSystem.kmsgStep] at hStep
      cases hRights : m.rights with
      | nil =>
          rw [hRights] at hStep
          cases hStep
      | cons p rights =>
          rw [hRights] at hStep
          split_ifs at hStep with hGuard
          rw [← Option.some.inj hStep]
          rcases h.dropRight hm hRights with
            ⟨hDrop, hUnheld, hActive⟩
          exact hDrop.ipcPortDestroy hUnheld hActive j
  | kmsgFree k' =>
      dsimp only [TransitSystem.kmsgStep] at hStep
      split_ifs at hStep
      rw [← Option.some.inj hStep]
      exact h.dropKmsg k

/- A new port, in a space. -/
theorem portInit
    {p space name : Nat}
    (hFresh : s.allocated p = false)
    (hName : name ≠ machPortNull) :
    TransitInv
      ({ s with
        allocated := update s.allocated p true }.setPort p
        ⟨true, name, .receiver space, none⟩) := by
  have hMore :
      TransitInv
        { s with
          allocated := update s.allocated p true } := by
    refine ⟨h.forest, h.nameless, h.nodup, h.apart, h.limbo, ?_⟩
    intro x hx
    by_cases hEq : x = p
    · subst hEq
      simp
    · simpa [hEq] using h.active x hx
  apply hMore.setPort_cut (h.unheld_of_fresh hFresh)
  · intro _
    simp
  · exact transitTo_of_named hName

end TransitInv

theorem step
    {s' : TransitSystem}
    {op : TransitOp}
    (h : TransitInv s)
    (hStep : s.step op = some s') :
    TransitInv s' := by
  have hKmsg :
      (match s.kmsgs (opKmsg op) with
        | none => none
        | some m => s.kmsgStep (opKmsg op) m op) =
          some s' → TransitInv s' := by
    intro hMatch
    split at hMatch
    · cases hMatch
    · rename_i m hm
      exact h.kmsgStep hm hMatch
  cases op with
  | portInit p space name =>
      dsimp only [TransitSystem.step] at hStep
      split_ifs at hStep with hGuard
      rw [← Option.some.inj hStep]
      exact h.portInit hGuard.1 hGuard.2
  | portPdrequest p notify =>
      dsimp only [TransitSystem.step] at hStep
      split_ifs at hStep with hGuard
      rw [← Option.some.inj hStep]
      apply h.setPort_cut (h.unheld_of_named hGuard.2.1)
      · intro _
        exact h.active p hGuard.1
      · exact transitTo_of_named hGuard.2.1
  | portDestroy p j =>
      dsimp only [TransitSystem.step] at hStep
      split_ifs at hStep with hGuard
      rcases hGuard with ⟨hActive, hName, _⟩
      rw [← Option.some.inj hStep]
      have hUnheld := h.unheld_of_named hName
      have hAct :
          (clearSpecial (s.ports p)).ipActive = true := by
        unfold clearSpecial
        split_ifs
        · exact hActive
        · exact hActive
      have hCut :
          (clearSpecial (s.ports p)).transitTo = none := by
        unfold clearSpecial
        split_ifs
        · exact TransitPort.transitTo_of_inLimbo
            (inLimbo_limbo hActive)
        · exact transitTo_of_named hName
      have hSet := h.setPort_cut hUnheld
        (fun _ => h.active p hActive) hCut
      apply hSet.ipcPortDestroy hUnheld
      simpa [TransitSystem.setPort] using hAct
  | kmsgGet k dest =>
      dsimp only [TransitSystem.step] at hStep
      split_ifs at hStep with hGuard
      rw [← Option.some.inj hStep]
      apply h.setKmsg
      · intro p hp
        cases hp
      · exact List.nodup_nil
      · intro p hp
        cases hp
      · intro p hp
        cases hp
  | _ =>
      exact hKmsg hStep

end TransitInv

theorem TransitReachable.inv
    {s : TransitSystem}
    (h : TransitReachable s) :
    TransitInv s := by
  induction h with
  | init =>
      exact TransitInv.init
  | step _ hStep ih =>
      exact ih.step hStep

theorem transitReachable_runOps
    {s s' : TransitSystem}
    {ops : List TransitOp}
    (h : TransitReachable s)
    (hRun : s.runOps ops = some s') :
    TransitReachable s' := by
  induction ops generalizing s with
  | nil =>
      cases hRun
      exact h
  | cons op ops ih =>
      rcases Option.bind_eq_some_iff.mp hRun with
        ⟨t, hStep, hRest⟩
      exact ih (TransitReachable.step h hStep) hRest

------
-- No Circles
------

/-
  From every port in transit the destinations lead to a port
  that is not in transit. Every right that waits for its
  check is in limbo. For a port in limbo and any destination
  the check returns, with every lock dropped. It says whether
  the chain of the destination leads to the port, and makes
  it the port's destination if not.
-/
theorem transitReachable_acyclic
    (s : TransitSystem)
    (h : TransitReachable s) :
    (∀ i, InTransit s.ports i →
      ∃ j, Leads (transitNext s.ports) i j ∧
        ¬ InTransit s.ports j) ∧
    (∀ k m p, s.kmsgs k = some m → m.checking = some p →
      (s.ports p).inLimbo = true) ∧
    ∀ port dest, (s.ports port).inLimbo = true →
      ∃ enough, ∀ fuel tried, enough ≤ fuel →
        ∃ circular ports,
          ipcPortCheckCircularity fuel tried s.ports port
              dest = some (circular, ports, []) ∧
            (circular = true ↔
              Leads (transitNext s.ports) dest port) ∧
            (circular = true → ports = s.ports) ∧
            (circular = false →
              ports = setDestination s.ports port dest) := by
  have hInv := h.inv
  refine ⟨?_, hInv.limbo, ?_⟩
  · intro i _
    rcases hInv.forest i with ⟨b, l, hChain⟩
    refine ⟨b, hChain.leads, ?_⟩
    have hStop :=
      TransitPort.transitTo_eq_none_iff.mp hChain.next_end
    simp [InTransit, hStop]
  · intro port dest hLimbo
    rcases hInv.forest dest with ⟨base, l, hChain⟩
    refine ⟨l.length + 1, ?_⟩
    intro fuel tried hFuel
    have hRoot : transitNext s.ports port = none :=
      TransitPort.transitTo_of_inLimbo hLimbo
    have hIff := leads_root_iff hChain hRoot
    have hSpec := @ipcPortCheckCircularity_spec _ _ _ _
      fuel _ hLimbo hChain tried (by omega)
    split_ifs at hSpec with hEq
    · refine ⟨true, _, hSpec, ?_, fun _ => rfl, ?_⟩
      · exact iff_of_true rfl (hIff.mpr hEq)
      · intro hAbsurd
        cases hAbsurd
    · refine ⟨false, _, hSpec, ?_, ?_, fun _ => rfl⟩
      · apply iff_of_false
        · exact Bool.false_ne_true
        · intro hLeads
          exact hEq (hIff.mp hLeads)
      · intro hAbsurd
        cases hAbsurd

/-
  Port 1 on its way to port 2, whose right is in a message
  for port 1.
-/
def crossedOps : List TransitOp :=
  [.portInit 1 7 3, .portInit 2 7 4, .kmsgGet 0 2,
    .copyinReceive 0 1, .checkCircularity 0 3 true,
    .mqueueSend 0, .kmsgGet 1 1, .copyinReceive 1 2]

theorem crossedOps_isSome :
    (TransitSystem.init.runOps crossedOps).isSome =
      true := by
  rfl

def crossed : TransitSystem :=
  (TransitSystem.init.runOps crossedOps).get
    crossedOps_isSome

theorem transitReachable_acyclic_crossed :
    (crossed.ports 2).inLimbo = true ∧
      ∃ enough, ∀ fuel tried, enough ≤ fuel →
        ∃ ports,
          ipcPortCheckCircularity fuel tried crossed.ports 2
            1 = some (true, ports, []) := by
  have hLimbo : (crossed.ports 2).inLimbo = true := by
    rfl
  have hNext : transitNext crossed.ports 1 = some 2 := by
    rfl
  have hReach : TransitReachable crossed :=
    transitReachable_runOps TransitReachable.init
      (Option.some_get crossedOps_isSome).symm
  rcases (transitReachable_acyclic crossed hReach).2.2 2 1
    hLimbo with ⟨enough, hEnough⟩
  refine ⟨hLimbo, enough, ?_⟩
  intro fuel tried hFuel
  rcases hEnough fuel tried hFuel with
    ⟨circular, ports, hRun, hIff, _, _⟩
  have hTrue := hIff.mpr
    (Relation.ReflTransGen.single hNext)
  rw [hTrue] at hRun
  exact ⟨ports, hRun⟩

end Ipc

end OsfMach
