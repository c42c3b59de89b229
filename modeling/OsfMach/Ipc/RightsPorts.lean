import OsfMach.Ipc.RightsSteps

/-
  The steps of ports and of new entries are turns too, and
  each step on rights keeps the invariant and the log.

  Main declarations:
    * `Registers`, `LogStep`
    * `portStep_stepOk`
    * `rightStep_ok`
-/

------
-- Steps of Ports
------

namespace OsfMach

namespace Ipc

open Function
open Lib
open Lib.Checked
open RightState

variable {c : BitsChanges} {bits : EntryBits} {space name : Nat}
variable {port : SenderPort}

/- `ipc_port_nsrequest`, with what is logged of it. -/
structure Registers
    (sync : Nat)
    (notify : Option Nat)
    (port port' : SenderPort)
    (log log' : RequestLog) : Prop where
  active : port.ipActive = true
  right : port'.toRightPort = port.toRightPort
  request : port'.ipNsrequest =
    if port.ipSrights = 0 ∧ sync ≤ port.ipMscount then none
    else notify
  made : log'.made = log.made ++ notify.toList
  sent : log'.sent = log.sent ++
    (if port.ipSrights = 0 ∧ sync ≤ port.ipMscount then
      notify.map fun r => (r, port.ipMscount)
    else none).toList
  returned :
    log'.returned = log.returned ++ port.ipNsrequest.toList
  thrown : log'.thrown = log.thrown

/- What a step does to the request of a port and to its log. -/
inductive LogStep
    (a : RightAction)
    (q : Nat)
    (s t : RightState) : Prop where
| kept
    (other : ∀ sync notify, a ≠ .nsrequest q sync notify)
    (other' : ∀ space name bits, a ≠ .alloc space name q bits)
    (kept : LogKept (s.ports q) (t.ports q) (s.log q)
      (t.log q))
| requested
    (sync : Nat)
    (notify : Option Nat)
    (is : a = .nsrequest q sync notify)
    (registers : Registers sync notify (s.ports q) (t.ports q)
      (s.log q) (t.log q))
| started
    (space name : Nat)
    (bits : EntryBits)
    (is : a = .alloc space name q bits)
    (port : t.ports q = .ipcPortInit space name)
    (log : t.log q = .empty)
    (dead : (s.ports q).ipActive = false)

section Ports

variable {s t : RightState} {p : Nat}

/- A step at one port that leaves the entries. -/
theorem portTurn_stepOk
    (hInv : RightsInv s)
    (hEntries : t.entries = s.entries)
    (hFrame : ∀ q, q ≠ p → t.ports q = s.ports q ∧
      t.sends q = s.sends q ∧ t.onces q = s.onces q ∧
      t.limbo q = s.limbo q)
    (hReceiver : SameReceiver (s.ports p) (t.ports p) ∨
      (s.ports p).ipReceiverName = machPortNull)
    (hLimbo : t.limbo p = true →
      (t.ports p).ipActive = true ∧
        (t.ports p).ipReceiverName = machPortNull)
    (hActive : (t.ports p).ipActive = true →
      (s.ports p).ipActive = true)
    (hSends : (t.ports p).ipActive = true →
      (t.ports p).ipSrights + s.sends p =
        (s.ports p).ipSrights + t.sends p)
    (hOnces : t.onces p + (s.ports p).ipSorights =
      s.onces p + (t.ports p).ipSorights) :
    RightStepOk c s t (fun _ => 0) := by
  have hTurn : Turn s t p 0 0 none none 0 := by
    refine ⟨⟨s.entries, [], ?_, ?_⟩, fun q hNe =>
        (hFrame q hNe).1, fun q hNe => (hFrame q hNe).2, ?_,
      ?_, ?_, ?_, ?_, hLimbo, hActive, ?_, ?_, ?_⟩
    · exact (List.append_nil _).symm
    · rw [hEntries]
      exact (List.append_nil _).symm
    · intro hSome
      cases hSome
    · intro e hEq
      cases hEq
    · intro e hEq
      cases hEq
    · intro e hEq
      cases hEq
    · rcases hReceiver with hSame | hNull
      · exact Or.inl hSame
      · exact Or.inr (Or.inr hNull)
    · intro hLive
      have hLaw := hSends hLive
      omega
    · omega
    · intro _
      omega
  refine (RightStepOk.ofTurn hTurn hInv (Or.inr rfl) ?_).exact
  intro e e' hOld
  cases hOld

/- A new entry of a space. -/
theorem add_stepOk
    {space name : Nat}
    {e : EntryFields}
    (hInv : RightsInv s)
    (hUnnamed : s.Unnamed space name)
    (hHolds : HoldsOk s ⟨space, name, e⟩)
    (hSend : Bearing machPortTypeSend e = false)
    (hOnce : Bearing machPortTypeSendOnce e = false) :
    RightStepOk c s (s.add space name e) (fun _ => 0) := by
  have hTurn : Turn s (s.add space name e) e.ieObject space
      name none (some e) 0 := by
    refine ⟨⟨s.entries, [], (List.append_nil _).symm, rfl⟩,
      fun _ _ => rfl, fun _ _ => ⟨rfl, rfl, rfl⟩,
      fun _ => Or.inr hUnnamed, ?_, ?_, ?_, Or.inl (.refl _),
      hInv.limbo _, id, ?_, ?_, ?_⟩
    · intro x hEq
      cases hEq
    · intro x hEq
      cases hEq
      exact Or.inl rfl
    · intro x hEq
      cases hEq
      exact hHolds
    · intro _
      rw [bears_some, hSend]
      rfl
    · rw [bears_some, hOnce]
      exact Nat.le_refl _
    · intro _
      rw [bears_some, hOnce]
      rfl
  refine (RightStepOk.ofTurn hTurn hInv (Or.inl hUnnamed.1)
    ?_).exact
  intro x x' hOld
  cases hOld

/- Bits without a right, of a new entry. -/
theorem blank_of_mask
    (p : Nat)
    (hBits : bits &&& ieBitsRightMask = 0) :
    Blank ⟨bits, p, 0⟩ := by
  have hPart : ∀ m, m &&& ieBitsRightMask = m →
      bits &&& m = 0 := by
    intro m hm
    rw [← hm, BitVec.and_comm m, ← BitVec.and_assoc, hBits]
    simp
  exact ⟨hPart _ (by decide), hPart _ (by decide), rfl⟩

theorem bearing_become
    {bits v kind : EntryBits}
    {p q : Nat}
    (hBits : bits &&& ieBitsRightMask = 0)
    (hv : v &&& ieBitsRightMask = v)
    (hKind : ieBitsType v &&& kind = 0) :
    Bearing kind ⟨bits ||| v, q, 0⟩ = false := by
  have hType := ((blank_of_mask p hBits).become hv).1
  rw [bearing_of_type hType]
  simp [hKind]

theorem allocSet_stepOk
    {space name pset : Nat}
    (hInv : RightsInv s)
    (hUnnamed : s.Unnamed space name)
    (hObject : ioValid pset = true)
    (hBits : bits &&& ieBitsRightMask = 0) :
    RightStepOk c s
      (s.add space name ⟨bits ||| machPortTypePortSet, pset, 0⟩)
      (fun _ => 0) := by
  rcases (blank_of_mask pset hBits).become
    (v := machPortTypePortSet) (by decide) with
    ⟨hType, hUrefs, _⟩
  refine add_stepOk hInv hUnnamed (Or.inr ⟨?_, fun _ => rfl⟩)
    (bearing_become (p := 0) hBits (by decide) (by decide))
    (bearing_become (p := 0) hBits (by decide) (by decide))
  refine .portSet (hType.trans ?_) (hUrefs.trans ?_) hObject
  · decide
  · decide

theorem allocDead_stepOk
    (hInv : RightsInv s)
    (hUnnamed : s.Unnamed space name)
    (hBits : bits &&& ieBitsRightMask = 0) :
    RightStepOk c s
      (s.add space name
        ⟨bits ||| (machPortTypeDeadName ||| 1), ioNull, 0⟩)
      (fun _ => 0) := by
  rcases (blank_of_mask ioNull hBits).become
    (v := machPortTypeDeadName ||| 1) (by decide) with
    ⟨hType, hUrefs, _⟩
  refine add_stepOk hInv hUnnamed (Or.inr ⟨?_, fun _ => rfl⟩)
    (bearing_become (p := 0) hBits (by decide) (by decide))
    (bearing_become (p := 0) hBits (by decide) (by decide))
  refine .deadName (hType.trans ?_) ?_ rfl rfl
  · decide
  · rw [hUrefs]
    decide

theorem getEntry_stepOk
    (hInv : RightsInv s)
    (hUnnamed : s.Unnamed space name)
    (hBits : bits &&& ieBitsRightMask = 0) :
    RightStepOk c s (s.add space name ⟨bits, p, 0⟩)
      (fun _ => 0) := by
  have hBlank := blank_of_mask p hBits
  exact add_stepOk hInv hUnnamed (Or.inl ⟨hBlank.type, rfl⟩)
    (hBlank.bearing _) (hBlank.bearing _)

/- The address of a new port is nobody's. -/
theorem unused_owed
    (hUnused : s.Unused p)
    (kind : EntryBits) :
    owed s kind p = 0 := by
  unfold owed
  rw [List.countP_eq_zero]
  intro h hMem
  have hNe := hUnused.2.2.2.2.2 h hMem
  unfold bearsRight
  simp [hNe]

/- The state with the new port, before it has an entry. -/
theorem init_inv
    {space name : Nat}
    {log : Nat → RequestLog}
    (hInv : RightsInv s)
    (hUnused : s.Unused p) :
    RightsInv
      { s.setPort p (.ipcPortInit space name) with
        log := log } := by
  have hPort : update s.ports p
      (SenderPort.ipcPortInit space name) p =
        .ipcPortInit space name := update_self ..
  have hOther : ∀ q, q ≠ p → update s.ports p
      (SenderPort.ipcPortInit space name) q = s.ports q :=
    fun q hNe => update_of_ne hNe ..
  have hSame : ∀ kind q, owed
      { s.setPort p (.ipcPortInit space name) with
        log := log } kind q = owed s kind q := fun _ _ => rfl
  rcases hUnused with ⟨_, _, hNoSends, hNoOnces, hNoLimbo, hAll⟩
  have hUnused : s.Unused p :=
    ⟨‹_›, ‹_›, hNoSends, hNoOnces, hNoLimbo, hAll⟩
  refine ⟨hInv.keys, hInv.names, ?_, ?_, ?_, ?_, ?_⟩
  · intro h hMem
    rcases hInv.entries h hMem with hNone | ⟨hOk, hQuiet⟩
    · exact Or.inl hNone
    · refine Or.inr ⟨?_, hQuiet⟩
      dsimp only [setPort]
      rw [hOther _ (hAll h hMem)]
      exact hOk
  · intro q hLimbo
    dsimp only [setPort] at hLimbo ⊢
    by_cases hIs : q = p
    · rw [hIs, hNoLimbo] at hLimbo
      cases hLimbo
    · rw [hOther q hIs]
      exact hInv.limbo q hLimbo
  · intro q hActive
    rw [hSame]
    dsimp only [setPort] at hActive ⊢
    by_cases hIs : q = p
    · rw [hIs, unused_owed hUnused, hNoSends]
      exact Nat.zero_le _
    · rw [hOther q hIs] at hActive ⊢
      exact hInv.sends q hActive
  · intro q
    rw [hSame]
    dsimp only [setPort]
    by_cases hIs : q = p
    · rw [hIs, unused_owed hUnused, hNoOnces]
      exact Nat.zero_le _
    · rw [hOther q hIs]
      exact hInv.onces q
  · intro q hActive
    rw [hSame]
    dsimp only [setPort] at hActive ⊢
    by_cases hIs : q = p
    · rw [hIs, unused_owed hUnused, hNoOnces, hPort]
      rfl
    · rw [hOther q hIs] at hActive ⊢
      exact hInv.oncesActive q hActive

theorem alloc_stepOk
    {log : Nat → RequestLog}
    (hInv : RightsInv s)
    (hUnnamed : s.Unnamed space name)
    (hUnused : s.Unused p)
    (hBits : bits &&& ieBitsRightMask = 0) :
    RightStepOk c s
      { (s.setPort p (.ipcPortInit space name)).add space name
          ⟨bits ||| machPortTypeReceive, p, 0⟩ with
        log := log }
      (fun _ => 0) := by
  rcases (blank_of_mask p hBits).become
    (v := machPortTypeReceive) (by decide) with
    ⟨hType, hUrefs, _⟩
  have hPort : update s.ports p
      (SenderPort.ipcPortInit space name) p =
        .ipcPortInit space name := update_self ..
  have hInit := @init_inv s p space name log hInv hUnused
  have hAdd := @add_stepOk c _ space name
    ⟨bits ||| machPortTypeReceive, p, 0⟩ hInit
    hUnnamed (Or.inr ⟨?_, fun _ => rfl⟩)
    (bearing_become (p := 0) hBits (by decide) (by decide))
    (bearing_become (p := 0) hBits (by decide) (by decide))
  · refine ⟨hAdd.inv, ?_, ?_⟩
    · intro q hActive
      rcases hAdd.excess q hActive with ⟨hOld, hLaw⟩ | hNew
      · by_cases hIs : q = p
        · subst hIs
          right
          have hNone := unused_owed hUnused machPortTypeSend
          have hSends := hUnused.2.2.1
          have hCount : (update s.ports q
              (SenderPort.ipcPortInit space name)
                q).ipSrights = 0 := by
            rw [hPort]
            rfl
          dsimp only [setPort, add] at hLaw hCount ⊢
          change _ + owed s machPortTypeSend q + s.sends q =
            _ at hLaw
          refine ⟨?_, hSends, hCount, rfl⟩
          omega
        · left
          have hSame : update s.ports p
              (SenderPort.ipcPortInit space name) q =
                s.ports q := update_of_ne hIs ..
          dsimp only [setPort, add] at hOld hLaw ⊢
          rw [hSame] at hOld hLaw ⊢
          exact ⟨hOld, hLaw⟩
      · exact Or.inr hNew
    · exact hAdd.bits
  · dsimp only [setPort]
    rw [hPort]
    refine .receive (hType.trans ?_) (hUrefs.trans ?_)
      hUnused.1 rfl rfl rfl
    · decide
    · decide

end Ports

------
-- Every Step of a Port
------

section PortSteps

variable {s t : RightState} {p : Nat} {a : RightAction}

/- A port whose counts change, and its naked rights with them. -/
theorem countTurn_stepOk
    (hInv : RightsInv s)
    (hPorts : t.ports = update s.ports p port)
    (hEntries : t.entries = s.entries)
    (hLimbo : t.limbo = s.limbo)
    (hFrame : ∀ q, q ≠ p →
      t.sends q = s.sends q ∧ t.onces q = s.onces q)
    (hSame : SameReceiver (s.ports p) port)
    (hSends : port.ipActive = true →
      port.ipSrights + s.sends p =
        (s.ports p).ipSrights + t.sends p)
    (hOnces : t.onces p + (s.ports p).ipSorights =
      s.onces p + port.ipSorights) :
    RightStepOk c s t (fun _ => 0) := by
  have hPort : t.ports p = port := by
    rw [hPorts]
    exact update_self ..
  refine portTurn_stepOk hInv hEntries (p := p) ?_ (Or.inl ?_)
    ?_ ?_ ?_ ?_
  · intro q hNe
    rcases hFrame q hNe with ⟨hSendsAt, hOncesAt⟩
    rw [hPorts, hLimbo]
    exact ⟨update_of_ne hNe .., hSendsAt, hOncesAt, rfl⟩
  · rw [hPort]
    exact hSame
  · rw [hPort, hLimbo, hSame.active, hSame.receiverName]
    exact hInv.limbo p
  · rw [hPort, hSame.active]
    exact id
  · rw [hPort]
    exact hSends
  · rw [hPort]
    exact hOnces

/- An action that neither asks for a notice nor makes a port. -/
def NoRequest : RightAction → Prop
  | .nsrequest .. => False
  | .alloc .. => False
  | _ => True

/- The log of a step at one port. -/
theorem logStep_port
    {log : RequestLog}
    (hPorts : t.ports = update s.ports p port)
    (hLogs : t.log = update s.log p log)
    (hNone : NoRequest a)
    (hKept : LogKept (s.ports p) port (s.log p) log) :
    ∀ q, LogStep a q s t := by
  intro q
  refine .kept (fun _ _ => ?_) (fun _ _ _ => ?_) ?_
  · rintro rfl
    exact hNone
  · rintro rfl
    exact hNone
  rw [hPorts, hLogs]
  by_cases hIs : q = p
  · rw [hIs, update_self, update_self]
    exact hKept
  · rw [update_of_ne hIs, update_of_ne hIs]
    exact .refl _ _

/- A step that leaves all requests. -/
theorem logStep_quiet
    (hPorts : t.ports = update s.ports p port)
    (hLogs : t.log = s.log)
    (hNone : NoRequest a)
    (hActive : port.ipActive = (s.ports p).ipActive)
    (hRequest : port.ipNsrequest = (s.ports p).ipNsrequest)
    (hCount : (s.ports p).ipSrights ≤ port.ipSrights) :
    ∀ q, LogStep a q s t := by
  have hNot : ¬ LastSend (s.ports p) port := by
    rintro ⟨hPos, hZero⟩
    omega
  have hSame : t.log = update s.log p (s.log p) := by
    rw [hLogs, update_eq_self]
  exact logStep_port hPorts hSame hNone
    (.quiet hActive hRequest hNot rfl)

/- What dropping a naked send right of a live port leaves. -/
theorem dropSend_same
    (port : SenderPort) :
    SameReceiver port port.dropSend.1 ∧
      port.dropSend.1.ipSrights = port.ipSrights - 1 ∧
      port.dropSend.1.ipSorights = port.ipSorights := by
  refine ⟨⟨?_, ?_, ?_⟩, ?_, ?_⟩
  · rw [dropSend_right]
  · rw [dropSend_right]
  · rw [dropSend_right]
  · rw [dropSend_right]
  · rw [dropSend_right]

section RightsInv

variable (hInv : RightsInv s)

include hInv

/- The kernel makes a send right. -/
theorem makeSend_step
    (hStep : portStep s (.makeSend p) = some t) :
    RightStepOk c s t (fun _ => 0) ∧
      ∀ q, LogStep (.makeSend p) q s t := by
  rcases Option.bind_eq_some_iff.mp hStep with
    ⟨port, hRun, hEnd⟩
  rcases assert_ok (toOption_some hRun) with ⟨_, hPort⟩
  cases hPort
  cases hEnd
  constructor
  · refine countTurn_stepOk hInv rfl rfl rfl ?_ ⟨rfl, rfl, rfl⟩
      ?_ rfl
    · intro q hNe
      exact ⟨update_of_ne hNe .., rfl⟩
    · intro _
      dsimp only
      rw [update_self]
      omega
  · exact logStep_quiet rfl rfl trivial rfl rfl
      (Nat.le_succ _)

/- A naked send right is copied. -/
theorem copySend_step
    (hStep : portStep s (.copySend p) = some t) :
    RightStepOk c s t (fun _ => 0) ∧
      ∀ q, LogStep (.copySend p) q s t := by
  unfold portStep at hStep
  dsimp only at hStep
  split_ifs at hStep with hHas
  rcases Option.bind_eq_some_iff.mp hStep with
    ⟨⟨port, got⟩, hRun, hEnd⟩
  have hCopied := toOption_some hRun
  unfold SenderPort.ipcPortCopySend at hCopied
  have hFacts : SameReceiver (s.ports p) port ∧
      port.ipNsrequest = (s.ports p).ipNsrequest ∧
      port.ipSrights = (s.ports p).ipSrights + got.toNat ∧
      port.ipSorights = (s.ports p).ipSorights := by
    split_ifs at hCopied
    · rcases assert_ok hCopied with ⟨_, hPort⟩
      cases hPort
      exact ⟨⟨rfl, rfl, rfl⟩, rfl, rfl, rfl⟩
    · cases hCopied
      exact ⟨.refl _, rfl, rfl, rfl⟩
  rcases hFacts with ⟨hSame, hRequest, hSrights, hSorights⟩
  have hLe : (s.ports p).ipSrights ≤ port.ipSrights := by
    omega
  cases hEnd
  constructor
  · refine countTurn_stepOk hInv rfl rfl rfl ?_ hSame ?_ ?_
    · intro q hNe
      exact ⟨update_of_ne hNe .., rfl⟩
    · intro _
      dsimp only
      rw [update_self, hSrights]
      omega
    · dsimp only [setPort]
      rw [hSorights]
  · exact logStep_quiet rfl rfl trivial hSame.active
      hRequest hLe

/- A naked send right is released. -/
theorem releaseSend_step
    (hStep : portStep s (.releaseSend p) = some t) :
    RightStepOk c s t (fun _ => 0) ∧
      ∀ q, LogStep (.releaseSend p) q s t := by
  unfold portStep at hStep
  dsimp only at hStep
  split_ifs at hStep with hHas
  rcases Option.bind_eq_some_iff.mp hStep with
    ⟨⟨port, notified⟩, hRun, hEnd⟩
  have hReleased := toOption_some hRun
  unfold SenderPort.ipcPortReleaseSend at hReleased
  have hFacts : SameReceiver (s.ports p) port ∧
      (port.ipActive = true →
        port.ipSrights + 1 = (s.ports p).ipSrights) ∧
      port.ipSorights = (s.ports p).ipSorights ∧
      TakesRequest (s.ports p) port notified none ∧
      ((s.ports p).ipActive = false → port = s.ports p) := by
    split_ifs at hReleased with hActive
    · rcases assert_ok hReleased with ⟨hPos, hPort⟩
      injection hPort with hPair
      have hIs : port = (s.ports p).dropSend.1 :=
        congrArg Prod.fst hPair.symm
      have hSent : notified = (s.ports p).dropSend.2 :=
        congrArg Prod.snd hPair.symm
      rcases dropSend_same (s.ports p) with
        ⟨hSame, hSrights, hSorights⟩
      rw [hIs, hSent]
      refine ⟨hSame, fun _ => ?_, hSorights,
        dropSend_takes hPos, fun hDead => ?_⟩
      · omega
      · rw [hActive] at hDead
        cases hDead
    · cases hReleased
      refine ⟨.refl _, fun hLive => absurd hLive hActive, rfl,
        .refl _, fun _ => rfl⟩
  rcases hFacts with
    ⟨hSame, hSrights, hSorights, hTakes, hDied⟩
  cases hEnd
  constructor
  · refine countTurn_stepOk hInv rfl rfl rfl ?_ hSame ?_ ?_
    · intro q hNe
      exact ⟨update_of_ne hNe .., rfl⟩
    · intro hLive
      have hLaw := hSrights hLive
      dsimp only
      rw [update_self]
      omega
    · dsimp only [setPort, record]
      rw [hSorights]
  · refine logStep_port rfl rfl trivial
      ⟨fun hDead => ?_, rfl, rfl, notified, none, hTakes, rfl,
        rfl⟩
    · have hPort := hDied hDead
      rw [hPort]
      exact ⟨hDead, not_lastSend rfl⟩

/- The kernel makes a send-once right. -/
theorem makeSonce_step
    (hStep : portStep s (.makeSonce p) = some t) :
    RightStepOk c s t (fun _ => 0) ∧
      ∀ q, LogStep (.makeSonce p) q s t := by
  rcases Option.bind_eq_some_iff.mp hStep with
    ⟨port, hRun, hEnd⟩
  rcases assert_ok (toOption_some hRun) with ⟨_, hPort⟩
  cases hPort
  cases hEnd
  constructor
  · refine countTurn_stepOk hInv rfl rfl rfl ?_ ⟨rfl, rfl, rfl⟩
      (fun _ => rfl) ?_
    · intro q hNe
      exact ⟨rfl, update_of_ne hNe ..⟩
    · dsimp only
      rw [update_self]
      omega
  · exact logStep_quiet rfl rfl trivial rfl rfl
      (Nat.le_refl _)

/- A naked send-once right is released. -/
theorem releaseSonce_step
    (hStep : portStep s (.releaseSonce p) = some t) :
    RightStepOk c s t (fun _ => 0) ∧
      ∀ q, LogStep (.releaseSonce p) q s t := by
  unfold portStep at hStep
  dsimp only at hStep
  split_ifs at hStep with hHas
  rcases Option.bind_eq_some_iff.mp hStep with
    ⟨port, hRun, hEnd⟩
  rcases assert_ok (toOption_some hRun) with ⟨hPos, hPort⟩
  cases hPort
  cases hEnd
  constructor
  · refine countTurn_stepOk hInv rfl rfl rfl ?_ ⟨rfl, rfl, rfl⟩
      (fun _ => rfl) ?_
    · intro q hNe
      exact ⟨rfl, update_of_ne hNe ..⟩
    · dsimp only
      rw [update_self]
      omega
  · exact logStep_quiet rfl rfl trivial rfl rfl
      (Nat.le_refl _)

/- A request for the backup of a port. -/
theorem pdrequest_step
    {notify : Bool}
    (hStep : portStep s (.pdrequest p notify) = some t) :
    RightStepOk c s t (fun _ => 0) ∧
      ∀ q, LogStep (.pdrequest p notify) q s t := by
  rcases Option.bind_eq_some_iff.mp hStep with
    ⟨port, hRun, hEnd⟩
  rcases assert_ok (toOption_some hRun) with ⟨_, hPort⟩
  cases hPort
  cases hEnd
  constructor
  · exact countTurn_stepOk hInv rfl rfl rfl
      (fun _ _ => ⟨rfl, rfl⟩) ⟨rfl, rfl, rfl⟩ (fun _ => rfl) rfl
  · exact logStep_quiet rfl rfl trivial rfl rfl
      (Nat.le_refl _)

/- A request for a no-senders notification. -/
theorem nsrequest_step
    {sync : Nat}
    {notify : Option Nat}
    (hStep : portStep s (.nsrequest p sync notify) = some t) :
    RightStepOk c s t (fun _ => 0) ∧
      ∀ q, LogStep (.nsrequest p sync notify) q s t := by
  rcases Option.bind_eq_some_iff.mp hStep with
    ⟨⟨port, notified, previous⟩, hRun, hEnd⟩
  rcases assert_ok (toOption_some hRun) with ⟨hActive, hBody⟩
  have hFacts : port.toRightPort = (s.ports p).toRightPort ∧
      previous = (s.ports p).ipNsrequest ∧
      port.ipNsrequest =
        (if (s.ports p).ipSrights = 0 ∧
            sync ≤ (s.ports p).ipMscount then none
          else notify) ∧
      notified =
        (if (s.ports p).ipSrights = 0 ∧
            sync ≤ (s.ports p).ipMscount then
          notify.map fun r => (r, (s.ports p).ipMscount)
        else none) := by
    by_cases hNow : (s.ports p).ipSrights = 0 ∧
        sync ≤ (s.ports p).ipMscount
    · rw [if_pos hNow, if_pos hNow]
      cases notify with
      | none =>
          simp only [Option.isSome_none, Bool.false_eq_true,
            and_false, if_false] at hBody
          cases hBody
          exact ⟨rfl, rfl, rfl, rfl⟩
      | some r =>
          rw [if_pos ⟨hNow.1, hNow.2, rfl⟩] at hBody
          cases hBody
          exact ⟨rfl, rfl, rfl, rfl⟩
    · rw [if_neg hNow, if_neg hNow]
      rw [if_neg (fun hAll => hNow ⟨hAll.1, hAll.2.1⟩)] at hBody
      cases hBody
      exact ⟨rfl, rfl, rfl, rfl⟩
  rcases hFacts with ⟨hRight, hPrevious, hRequest, hNotified⟩
  cases hEnd
  constructor
  · refine countTurn_stepOk hInv rfl rfl rfl
      (fun _ _ => ⟨rfl, rfl⟩) ⟨?_, ?_, ?_⟩ (fun _ => ?_) ?_
    · rw [hRight]
    · rw [hRight]
    · rw [hRight]
    · dsimp only [setPort]
      rw [hRight]
    · dsimp only [setPort]
      rw [hRight]
  · intro q
    by_cases hIs : q = p
    · subst hIs
      refine .requested sync notify rfl ?_
      dsimp only [setPort]
      rw [update_self, update_self]
      refine ⟨hActive, hRight, hRequest, rfl, ?_, ?_, rfl⟩
      · rw [hNotified]
      · rw [hPrevious]
    · refine .kept ?_ ?_ ?_
      · intro _ _ hEq
        cases hEq
        exact hIs rfl
      · intro _ _ _ hEq
        cases hEq
      · dsimp only [setPort]
        rw [update_of_ne hIs, update_of_ne hIs]
        exact .refl _ _

/- A naked receive right is released. -/
theorem releaseReceive_step
    {circular : Bool}
    {timestamp : Nat}
    (hStep : portStep s (.releaseReceive p circular timestamp) =
      some t) :
    RightStepOk c s t (fun _ => 0) ∧
      ∀ q, LogStep (.releaseReceive p circular timestamp) q s
        t := by
  unfold portStep at hStep
  dsimp only at hStep
  split_ifs at hStep with hHas
  rcases Option.bind_eq_some_iff.mp hStep with
    ⟨ended, hRun, hEnd⟩
  rcases assert_ok (toOption_some hRun) with ⟨hActive, hRest⟩
  rcases assert_ok hRest with ⟨hNull, hRest⟩
  have hMscount : (s.ports p).ipMscount = 0 := by
    rcases assert_ok hRest with ⟨_, hTail⟩
    exact (assert_ok hTail).1
  rcases @ipcPortDestroy_ok (s.ports p) circular timestamp
    hActive hMscount with ⟨ended', hRun', hOk⟩
  have hIs : ended' = ended := by
    rw [hRest] at hRun'
    cases hRun'
    rfl
  subst hIs
  have hPort : update s.ports p ended'.port p =
      ended'.port := update_self ..
  have hLimbo : update s.limbo p ended'.backup p =
      ended'.backup := update_self ..
  cases hEnd
  constructor
  · refine portTurn_stepOk hInv rfl (p := p) ?_ (Or.inr hNull)
      ?_ (fun _ => hActive) ?_ ?_
    · intro q hNe
      exact ⟨update_of_ne hNe .., rfl, rfl, update_of_ne hNe ..⟩
    · dsimp only [setPort, record]
      rw [hPort, hLimbo]
      intro hBackup
      rcases hOk.receiver with ⟨_, hNone⟩ | ⟨hLive, hName, _⟩
      · rw [hBackup] at hNone
        cases hNone
      · exact ⟨hLive, hName⟩
    · dsimp only [setPort, record]
      rw [hPort, hOk.srights]
      exact fun _ => rfl
    · dsimp only [setPort, record]
      rw [hPort, hOk.sorights]
  · exact logStep_port rfl rfl trivial
      ⟨fun hDead => absurd hActive (by rw [hDead]; decide),
        rfl, rfl, none, ended'.thrown, hOk.takes_refl hActive,
        rfl, rfl⟩

end RightsInv

/- What is taken of the port of a message's destination. -/
theorem copyoutDest_facts
    {space msgtName : Nat}
    {out : DestOut}
    (hRun : port.ipcObjectCopyoutDest space msgtName =
      .ok out) :
    SameReceiver port out.port ∧
      TakesRequest port out.port out.notified none ∧
      out.port.ipSrights +
          (if msgtName = machMsgTypePortSend then 1 else 0) =
        port.ipSrights ∧
      out.port.ipSorights +
          (if msgtName = machMsgTypePortSendOnce ∧
            out.sendOnce = false then 1 else 0) =
        port.ipSorights ∧
      (out.sendOnce = true →
        msgtName = machMsgTypePortSendOnce) ∧
      port.ipActive = true := by
  rcases assert_ok hRun with ⟨hActive, hBody⟩
  split at hBody
  · rcases assert_ok hBody with ⟨hPos, hPort⟩
    injection hPort with hOut
    subst hOut
    rcases dropSend_same port with ⟨hSame, hSrights, hSorights⟩
    refine ⟨hSame, dropSend_takes hPos, ?_, hSorights, ?_,
      hActive⟩
    · rw [if_pos rfl]
      dsimp only
      omega
    · intro hOnce
      cases hOnce
  · rcases assert_ok hBody with ⟨hPos, hPort⟩
    split_ifs at hPort
    · cases hPort
      refine ⟨⟨rfl, rfl, rfl⟩,
        .quiet rfl rfl (not_lastSend rfl), rfl, ?_,
        fun _ => rfl, hActive⟩
      rw [if_pos ⟨rfl, rfl⟩]
      dsimp only
      omega
    · cases hPort
      exact ⟨.refl _, .refl _, rfl, by rfl,
        fun _ => rfl, hActive⟩
  · cases hBody

/- The destination of a message is consumed. -/
theorem copyoutDest_step
    {space msgtName : Nat}
    (hInv : RightsInv s)
    (hStep : portStep s (.copyoutDest space p msgtName) =
      some t) :
    RightStepOk c s t (fun _ => 0) ∧
      ∀ q, LogStep (.copyoutDest space p msgtName) q s t := by
  unfold portStep at hStep
  dsimp only at hStep
  split_ifs at hStep with hHas
  rcases Option.bind_eq_some_iff.mp hStep with
    ⟨out, hRun, hEnd⟩
  rcases copyoutDest_facts (toOption_some hRun) with
    ⟨hSame, hTakes, hSrights, hSorights, hOnce, hLive⟩
  have hDied : (s.ports p).ipActive = false →
      out.port.ipActive = false ∧
        ¬ LastSend (s.ports p) out.port := by
    intro hDead
    rw [hLive] at hDead
    cases hDead
  by_cases hNaked : out.sendOnce = true
  · simp only [hNaked, if_true, Option.some.injEq] at hEnd
    subst hEnd
    have hType := hOnce hNaked
    subst hType
    rw [if_neg (by decide)] at hSrights
    rw [hNaked, if_neg (by simp)] at hSorights
    refine ⟨countTurn_stepOk hInv rfl rfl rfl
      (fun _ _ => ⟨rfl, rfl⟩) hSame (fun _ => ?_) ?_,
      logStep_port rfl rfl trivial
        ⟨hDied, rfl, rfl, out.notified, none, hTakes, rfl,
          rfl⟩⟩
    · dsimp only [setPort, record]
      omega
    · dsimp only [setPort, record]
      omega
  · simp only [hNaked, if_false, Bool.false_eq_true,
      Option.some.injEq] at hEnd
    rcases @takeNaked_same
      ((s.setPort p out.port).record p out.notified none)
      p msgtName with ⟨hPorts, hEntries, hLog⟩
    rcases @takeNaked_counts
      ((s.setPort p out.port).record p out.notified none)
      p msgtName hHas with ⟨hSends, hOnces, hLimbo⟩
    rw [hEnd] at hPorts hEntries hLog hSends hOnces hLimbo
    have hTaken := fun q hNe => @takeNaked_frame
      ((s.setPort p out.port).record p out.notified none)
      p msgtName q hNe
    rw [hEnd] at hTaken
    have hPort : t.ports p = out.port := by
      rw [hPorts]
      exact update_self ..
    have hBefore : ((s.setPort p out.port).record p
        out.notified none).sends p = s.sends p := rfl
    have hBefore' : ((s.setPort p out.port).record p
        out.notified none).onces p = s.onces p := rfl
    simp only [hNaked, and_true] at hSorights
    constructor
    · refine portTurn_stepOk hInv hEntries (p := p) ?_
        (Or.inl ?_) ?_ ?_ ?_ ?_
      · intro q hNe
        rcases hTaken q hNe with ⟨hS, hO, hL⟩
        rw [hPorts]
        exact ⟨update_of_ne hNe .., hS, hO, hL⟩
      · rw [hPort]
        exact hSame
      · intro hIn
        rw [hPort, hSame.active, hSame.receiverName]
        exact hInv.limbo p (hLimbo hIn).1
      · rw [hPort, hSame.active]
        exact id
      · intro _
        rw [hPort]
        omega
      · rw [hPort]
        omega
    · exact logStep_port hPorts hLog trivial
        ⟨hDied, rfl, rfl, out.notified, none, hTakes, rfl,
          rfl⟩

/- A step of an entry, and of nobody's request. -/
theorem portStep_stepOk
    (hInv : RightsInv s)
    (hStep : portStep s a = some t) :
    RightStepOk c s t (fun _ => 0) ∧ ∀ q, LogStep a q s t := by
  -- A new entry leaves all ports and their logs.
  have hAdded : ∀ space name e,
      RightStepOk c s (s.add space name e) (fun _ => 0) →
      (∀ q sync notify, a ≠ .nsrequest q sync notify) →
      (∀ q space name bits, a ≠ .alloc space name q bits) →
      RightStepOk c s (s.add space name e) (fun _ => 0) ∧
        ∀ q, LogStep a q s (s.add space name e) :=
    fun _ _ _ hOk hNot hNot' => ⟨hOk, fun q =>
      .kept (hNot q) (hNot' q) (.refl _ _)⟩
  cases a with
  | alloc space name p bits =>
      unfold portStep at hStep
      dsimp only at hStep
      split_ifs at hStep with hMay
      rcases hMay with ⟨hUnnamed, hUnused, hBits⟩
      cases hStep
      refine ⟨alloc_stepOk hInv hUnnamed hUnused hBits, ?_⟩
      intro q
      by_cases hIs : q = p
      · subst hIs
        exact .started space name bits rfl
          (update_self ..) (update_self ..)
          hUnused.2.1
      · refine .kept ?_ ?_ ?_
        · intro _ _ hEq
          cases hEq
        · intro _ _ _ hEq
          cases hEq
          exact hIs rfl
        · dsimp only [setPort, add]
          rw [update_of_ne hIs, update_of_ne hIs]
          exact .refl _ _
  | allocSet space name pset bits =>
      unfold portStep at hStep
      dsimp only at hStep
      split_ifs at hStep with hMay
      rcases hMay with ⟨hUnnamed, hObject, hBits⟩
      cases hStep
      refine hAdded _ _ _
        (allocSet_stepOk hInv hUnnamed hObject hBits) ?_ ?_
      · intro _ _ _ hEq
        cases hEq
      · intro _ _ _ _ hEq
        cases hEq
  | allocDead space name bits =>
      unfold portStep at hStep
      dsimp only at hStep
      split_ifs at hStep with hMay
      rcases hMay with ⟨hUnnamed, hBits⟩
      cases hStep
      refine hAdded _ _ _
        (allocDead_stepOk hInv hUnnamed hBits) ?_ ?_
      · intro _ _ _ hEq
        cases hEq
      · intro _ _ _ _ hEq
        cases hEq
  | getEntry space name p bits =>
      unfold portStep at hStep
      dsimp only at hStep
      split_ifs at hStep with hMay
      rcases hMay with ⟨hUnnamed, _, hBits⟩
      cases hStep
      refine hAdded _ _ _
        (getEntry_stepOk hInv hUnnamed hBits) ?_ ?_
      · intro _ _ _ hEq
        cases hEq
      · intro _ _ _ _ hEq
        cases hEq
  | makeSend p => exact makeSend_step hInv hStep
  | copySend p => exact copySend_step hInv hStep
  | releaseSend p => exact releaseSend_step hInv hStep
  | makeSonce p => exact makeSonce_step hInv hStep
  | releaseSonce p => exact releaseSonce_step hInv hStep
  | releaseReceive p circular timestamp =>
      exact releaseReceive_step hInv hStep
  | nsrequest p sync notify => exact nsrequest_step hInv hStep
  | pdrequest p notify => exact pdrequest_step hInv hStep
  | copyoutDest space p msgtName =>
      exact copyoutDest_step hInv hStep
  | _ => cases hStep

/-
  Every step on rights keeps the invariant, by how much the
  counts are then too high, and what becomes of requests.
-/
theorem rightStep_ok
    (hInv : RightsInv s)
    (hStep : rightStep s a = some t) :
    RightStepOk a.changes s t (stepLeak s a) ∧
      ∀ q, LogStep a q s t := by
  unfold rightStep at hStep
  cases hPosition : a.position with
  | none =>
      rw [hPosition] at hStep
      have hNone : stepLeak s a = fun _ => 0 := by
        funext q
        unfold stepLeak
        rw [hPosition]
        rfl
      rw [hNone]
      exact portStep_stepOk hInv hStep
  | some i =>
      rw [hPosition] at hStep
      rcases Option.bind_eq_some_iff.mp hStep with
        ⟨h, hAt, hEntry⟩
      rcases entryStep_stepOk hInv hPosition hAt hEntry with
        ⟨hOk, hLog⟩
      refine ⟨hOk, fun q => .kept ?_ ?_ (hLog q)⟩
      · intro _ _ hEq
        rw [hEq] at hPosition
        cases hPosition
      · intro _ _ _ hEq
        rw [hEq] at hPosition
        cases hPosition

end PortSteps

end Ipc

end OsfMach
