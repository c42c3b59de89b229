import OsfMach.Ipc.Kmsg
import OsfMach.Ipc.RightInv
import OsfMach.Lib.Counting

/-
  The rights of a sender and of its message, accounted for.

  Every right of a port is a name's, the message's or someone
  else's. What a message holds can be released once, and that
  takes it from the account.

  Main declarations:
    * `SenderInv`, `Frame`
    * `Releases`
    * `ipcObjectDestroy_releases`
-/

------
-- Accounts
------

namespace OsfMach

namespace Ipc

open Function
open List
open Lib
open Lib.Checked
open Lib.Counting

variable {s : Sender} {p : Nat}
variable {kind : EntryBits} {listed : List Held} {h : Held}

/- Whether a name bears a right of a kind to a port. -/
def bearsTo
    (kind : EntryBits)
    (p : Nat) : Option EntryFields → Bool
| some e => Bearing kind e && e.ieObject = p
| none => false

structure SenderInv (s : Sender) : Prop where
  names : ∀ name e, s.entries name = some e →
    name ≠ machPortNull
  entries : ∀ name e, s.entries name = some e →
    EntryOk s.isAddr name (s.ports e.ieObject) e
  finite : ∀ kind p,
    {name | bearsTo kind p (s.entries name) = true}.Finite
  heldType : ∀ p type, .right p type ∈ s.held →
    ioValid p = true ∧
      (type = machMsgTypePortReceive ∨
        type = machMsgTypePortSend ∨
        type = machMsgTypePortSendOnce)
  heldReceive : ∀ p,
    .right p machMsgTypePortReceive ∈ s.held →
      (s.ports p).ipActive = true ∧
        (s.ports p).ipReceiverName = machPortNull ∧
        (s.ports p).ipMscount = 0
  heldOnce : ∀ p,
    s.held.count (.right p machMsgTypePortReceive) ≤ 1
  sends : ∀ p, (s.ports p).ipActive = true →
    (s.ports p).ipSrights =
      finCount (bearsTo machPortTypeSend p) s.entries +
        s.held.count (.right p machMsgTypePortSend) +
        s.sends p
  onces : ∀ p,
    finCount (bearsTo machPortTypeSendOnce p) s.entries +
        s.held.count (.right p machMsgTypePortSendOnce) +
        s.onces p + s.notified.count p ≤
      (s.ports p).ipSorights
  oncesActive : ∀ p, (s.ports p).ipActive = true →
    finCount (bearsTo machPortTypeSendOnce p) s.entries +
        s.held.count (.right p machMsgTypePortSendOnce) +
        s.onces p + s.notified.count p =
      (s.ports p).ipSorights
  nextAddr : 0 < s.nextAddr

/- What no part of the copying in changes. -/
structure Frame (s t : Sender) : Prop where
  sends : t.sends = s.sends
  onces : t.onces = s.onces
  notified : s.notified <:+ t.notified
  nextAddr : s.nextAddr ≤ t.nextAddr
  buffers : ∀ addr, addr < s.nextAddr →
    t.buffers addr = s.buffers addr

theorem Frame.of_eq
    {s t : Sender}
    (hSends : t.sends = s.sends)
    (hOnces : t.onces = s.onces)
    (hNotified : t.notified = s.notified)
    (hAddr : s.nextAddr ≤ t.nextAddr)
    (hBuffers : t.buffers = s.buffers) :
    Frame s t := by
  refine ⟨hSends, hOnces, ?_, hAddr, fun _ _ => ?_⟩
  · rw [hNotified]
  · rw [hBuffers]

theorem Frame.refl
    (s : Sender) :
    Frame s s :=
  .of_eq rfl rfl rfl (Nat.le_refl _) rfl

theorem Frame.trans
    {s t u : Sender}
    (h : Frame s t)
    (h' : Frame t u) :
    Frame s u := by
  refine ⟨h'.sends.trans h.sends, h'.onces.trans h.onces,
    h.notified.trans h'.notified, Nat.le_trans h.nextAddr h'.nextAddr, ?_⟩
  intro addr hLt
  exact (h'.buffers addr
    (Nat.lt_of_lt_of_le hLt h.nextAddr)).trans
      (h.buffers addr hLt)

theorem ipcObjectCopyinType_some
    {msgtName type : Nat}
    (hType : ipcObjectCopyinType msgtName = .ok type)
    (hSome : msgtName ≠ 0) :
    type = machMsgTypePortReceive ∨
      type = machMsgTypePortSend ∨
      type = machMsgTypePortSendOnce := by
  unfold ipcObjectCopyinType at hType
  split at hType
  · exact absurd rfl hSome
  · exact Or.inl (by injection hType with hEq; exact hEq.symm)
  · exact Or.inr (Or.inr
      (by injection hType with hEq; exact hEq.symm))
  · exact Or.inr (Or.inr
      (by injection hType with hEq; exact hEq.symm))
  · exact Or.inr (Or.inl
      (by injection hType with hEq; exact hEq.symm))
  · exact Or.inr (Or.inl
      (by injection hType with hEq; exact hEq.symm))
  · exact Or.inr (Or.inl
      (by injection hType with hEq; exact hEq.symm))
  · exact absurd hType (by simp)

------
-- Copying in
------

/- The entry that is stored after an operation. -/
def storedEntry (out : RightOut) : Option EntryFields :=
  if ieBitsType out.entry.ieBits = machPortTypeNone then none
  else some out.entry

/- What the message acquires. -/
def takenRights (type : Nat) (out : RightOut) : List Held :=
  if out.kr = .success ∧ out.object ≠ ioDead then
    [.right out.object type]
  else []

/- The state after an operation on a right. -/
def Sender.stored
    (s : Sender)
    (name object type : Nat)
    (out : RightOut) : Sender :=
  { (s.setPort object out.port).setEntry name
      (storedEntry out) with
    held := takenRights type out ++ s.held }

theorem storeRight_run
    {name object msgtName type : Nat}
    {out : RightOut}
    (hType : ipcObjectCopyinType msgtName = .ok type)
    (s : Sender) :
    storeRight name object msgtName out s =
      (.ok (), s.stored name object type out) := by
  have hRun : storeRight name object msgtName out s =
      (if out.kr = .success ∧ out.object ≠ ioDead then
        acquire (.right out.object type)
      else pure ())
        ((s.setPort object out.port).setEntry name
          (storedEntry out)) := by
    unfold storeRight liftTrap
    rw [hType]
    rfl
  rw [hRun]
  unfold Sender.stored takenRights
  by_cases hTaken : out.kr = .success ∧ out.object ≠ ioDead
  · rw [if_pos hTaken, if_pos hTaken]
    rfl
  · rw [if_neg hTaken, if_neg hTaken]
    rfl

section Stored

variable {s : Sender} {name type : Nat} {e : EntryFields}
variable {out : RightOut}

theorem bearsTo_stored
    (p : Nat)
    (hObject : out.entry.ieObject = e.ieObject ∨
      Bearing kind out.entry = false) :
    bearsTo kind p (storedEntry out) =
      (Bearing kind out.entry && e.ieObject = p) := by
  unfold storedEntry
  by_cases hNone :
      ieBitsType out.entry.ieBits = machPortTypeNone
  · have hBear : Bearing kind out.entry = false := by
      rw [bearing_of_type hNone]
      simp [machPortTypeNone]
    rw [if_pos hNone, hBear]
    rfl
  · have hSome : bearsTo kind p (some out.entry) =
        (Bearing kind out.entry && out.entry.ieObject = p) :=
      rfl
    rw [if_neg hNone, hSome]
    rcases hObject with hEq | hBear
    · rw [hEq]
    · rw [hBear]
      rfl

theorem count_takenRights
    (hOk : CopyinOk s.isAddr name e (s.ports e.ieObject) type
      out)
    (p kind : Nat) :
    (takenRights type out ++ s.held).count (.right p kind) =
      s.held.count (.right p kind) +
        if e.ieObject = p then gotRight type out kind
        else 0 := by
  rw [count_append]
  unfold takenRights gotRight
  by_cases hTaken : out.kr = .success ∧ out.object ≠ ioDead
  · have hObject := (hOk.got hTaken.1 hTaken.2).1
    rw [if_pos hTaken, hObject]
    simp only [count_singleton, hTaken.1, true_and]
    rw [hObject] at hTaken
    by_cases hPort : e.ieObject = p
    · by_cases hKind : type = kind
      · simp [hPort, hKind, hPort ▸ hTaken.2]
        omega
      · simp [hPort, hKind]
    · simp [hPort]
  · have hNot : ¬ (out.kr = .success ∧ out.object ≠ ioDead ∧
        type = kind) := fun h => hTaken ⟨h.1, h.2.1⟩
    rw [if_neg hTaken, if_neg hNot]
    simp

/- The ledger of a kind of rights, of one port. -/
theorem stored_count
    (hInv : SenderInv s)
    (hEntry : s.entries name = some e)
    (hObject : out.entry.ieObject = e.ieObject ∨
      Bearing kind out.entry = false)
    (p : Nat) :
    finCount (bearsTo kind p)
          (update s.entries name (storedEntry out)) +
        (if e.ieObject = p then (Bearing kind e).toNat
        else 0) =
      finCount (bearsTo kind p) s.entries +
        if e.ieObject = p then (Bearing kind out.entry).toNat
        else 0 := by
  have hCount := finCount_update (hInv.finite kind p) name
    (storedEntry out)
  rw [hEntry, bearsTo_stored p hObject] at hCount
  unfold bearsTo at hCount ⊢
  by_cases hPort : e.ieObject = p
  · simp only [hPort, decide_true, Bool.and_true] at hCount
    rw [if_pos hPort, if_pos hPort]
    exact hCount
  · simp only [hPort, decide_false, Bool.and_false,
      Bool.toNat_false] at hCount
    rw [if_neg hPort, if_neg hPort]
    exact hCount

theorem stored_ports
    (p : Nat) :
    (s.stored name e.ieObject type out).ports p =
      if e.ieObject = p then out.port else s.ports p := by
  split_ifs with hPort
  · subst hPort
    exact update_self _ _ _
  · exact update_of_ne (Ne.symm hPort) _ _

/- A right that is moved out is accounted for. -/
theorem SenderInv.stored
    (hInv : SenderInv s)
    (hEntry : s.entries name = some e)
    (hType : type = machMsgTypePortReceive ∨
      type = machMsgTypePortSend ∨
      type = machMsgTypePortSendOnce)
    (hOk : CopyinOk s.isAddr name e (s.ports e.ieObject) type
      out) :
    SenderInv (s.stored name e.ieObject type out) := by
  have hSendObject : out.entry.ieObject = e.ieObject ∨
      Bearing machPortTypeSend out.entry = false :=
    hOk.object.imp_right fun h => h.1
  have hOnceObject : out.entry.ieObject = e.ieObject ∨
      Bearing machPortTypeSendOnce out.entry = false :=
    hOk.object.imp_right fun h => h.2.1
  have hOld := hInv.entries name e hEntry
  have hName := hInv.names name e hEntry
  have hHeld : (s.stored name e.ieObject type out).held =
    takenRights type out ++ s.held := rfl
  have hEntries : (s.stored name e.ieObject type out).entries =
    update s.entries name (storedEntry out) := rfl
  have hOther : ∀ name', name' ≠ name →
      (s.stored name e.ieObject type out).entries name' =
        s.entries name' :=
    fun _ hNe => update_of_ne hNe _ _
  have hOnces : (s.stored name e.ieObject type out).onces =
    s.onces := rfl
  have hNotified : (s.stored name e.ieObject type
    out).notified = s.notified := rfl
  -- the port's receiver has one name
  have hReceiver : Bearing machPortTypeReceive e = true →
      (s.ports e.ieObject).ipReceiverName = name :=
    fun hBear => (hOld.receiver_facts hBear).2.2.2
  have hNotHeld : Bearing machPortTypeReceive e = true →
      .right e.ieObject machMsgTypePortReceive ∉ s.held := by
    intro hBear hMem
    have hNull := (hInv.heldReceive _ hMem).2.1
    rw [hReceiver hBear] at hNull
    exact hName hNull
  constructor
  case names =>
    intro name' e' hEntry'
    by_cases hEq : name' = name
    · rw [hEq]
      exact hName
    · apply hInv.names name' e'
      rw [← hOther _ hEq]
      exact hEntry'
  case entries =>
    intro name' e' hEntry'
    by_cases hEq : name' = name
    · subst hEq
      have hSelf : (s.stored name' e.ieObject type
          out).entries name' = storedEntry out :=
        update_self _ _ _
      rw [hSelf] at hEntry'
      unfold storedEntry at hEntry'
      split_ifs at hEntry' with hNone
      injection hEntry' with hEq
      subst hEq
      have hNew := hOk.entry.resolve_left hNone
      rcases hOk.object with hSame | ⟨_, _, hRecv⟩
      · rw [hSame, stored_ports, if_pos rfl]
        exact hNew
      · exact hNew.of_not_receive hRecv
    · rw [hOther _ hEq] at hEntry'
      have hOk' := hInv.entries name' e' hEntry'
      rw [stored_ports]
      split_ifs with hPort
      · rw [← hPort] at hOk'
        cases hRecv' : Bearing machPortTypeReceive e' with
        | false => exact hOk'.of_not_receive hRecv'
        | true =>
            rcases hOk.kept with
              ⟨_, hSpace, hSameName, _⟩ | ⟨hRecv, _⟩
            · exact hOk'.congr hOk.active hSpace hSameName
            · have hName' :=
                (hOk'.receiver_facts hRecv').2.2.2
              exact absurd
                (hName'.symm.trans (hReceiver hRecv)) hEq
      · exact hOk'
  case finite =>
    intro kind p
    exact finite_update (hInv.finite kind p) name _
  case heldType =>
    intro p type' hMem
    rcases mem_append.mp hMem with hNew | hOldMem
    · unfold takenRights at hNew
      split_ifs at hNew with hTaken
      · have hEq := mem_singleton.mp hNew
        injection hEq with hp ht
        have hGot := hOk.got hTaken.1 hTaken.2
        rw [hp, ht, hGot.1]
        exact ⟨hGot.2, hType⟩
      · simp at hNew
    · exact hInv.heldType p type' hOldMem
  case heldReceive =>
    intro p hMem
    rw [stored_ports]
    rcases mem_append.mp hMem with hNew | hOldMem
    · unfold takenRights at hNew
      split_ifs at hNew with hTaken
      · have hEq := mem_singleton.mp hNew
        injection hEq with hp ht
        have hGot := hOk.got hTaken.1 hTaken.2
        rw [hp, hGot.1, if_pos rfl, hOk.active]
        rcases hOk.kept with ⟨_, _, _, hNone⟩ |
          ⟨_, _, hActive, hNull, hCount⟩
        · unfold gotRight at hNone
          rw [if_pos ⟨hTaken.1, hTaken.2, ht.symm⟩] at hNone
          simp at hNone
        · exact ⟨hActive, hNull, hCount⟩
      · simp at hNew
    · have hFacts := hInv.heldReceive p hOldMem
      split_ifs with hPort
      · rw [← hPort] at hFacts hOldMem
        cases hRecv : Bearing machPortTypeReceive e with
        | true => exact absurd hOldMem (hNotHeld hRecv)
        | false =>
            rcases hOk.kept with ⟨_, _, hSameName, _⟩ |
              ⟨hBear, _⟩
            · rw [hOk.active, hSameName, hOk.mscount hRecv]
              exact hFacts
            · rw [hBear] at hRecv
              simp at hRecv
      · exact hFacts
  case heldOnce =>
    intro p
    have hCount := count_takenRights hOk p
      machMsgTypePortReceive
    have hLe := hInv.heldOnce p
    have hGot : gotRight type out machMsgTypePortReceive ≤ 1 := by
      unfold gotRight
      split_ifs <;> omega
    rw [hHeld, hCount]
    split_ifs with hPort
    · rcases hOk.kept with ⟨_, _, _, hNone⟩ | ⟨hBear, _⟩
      · rw [hNone]
        exact hLe
      · have hZero := count_eq_zero.mpr (hNotHeld hBear)
        rw [hPort] at hZero
        omega
    · exact hLe
  case sends =>
    intro p hActive
    have hCount := count_takenRights hOk p
      machMsgTypePortSend
    have hLedger := stored_count hInv hEntry hSendObject p
    have hSends : (s.stored name e.ieObject type out).sends =
      s.sends := rfl
    rw [stored_ports] at hActive ⊢
    rw [hEntries, hHeld, hCount, hSends]
    split_ifs at hActive hLedger ⊢ with hPort
    · rw [hOk.active] at hActive
      have hSum := hOk.sends hActive
      have hInvSum := hInv.sends e.ieObject hActive
      rw [hPort] at hInvSum hSum
      omega
    · have hInvSum := hInv.sends p hActive
      omega
  case onces =>
    intro p
    have hCount := count_takenRights hOk p
      machMsgTypePortSendOnce
    have hLedger := stored_count hInv hEntry hOnceObject p
    rw [stored_ports, hEntries, hHeld, hCount, hOnces,
      hNotified]
    split_ifs at hLedger ⊢ with hPort
    · have hSum := hOk.onces
      have hInvSum := hInv.onces e.ieObject
      rw [hPort] at hInvSum hSum
      omega
    · have hInvSum := hInv.onces p
      omega
  case oncesActive =>
    intro p hActive
    have hCount := count_takenRights hOk p
      machMsgTypePortSendOnce
    have hLedger := stored_count hInv hEntry hOnceObject p
    rw [stored_ports] at hActive ⊢
    rw [hEntries, hHeld, hCount, hOnces, hNotified]
    split_ifs at hActive hLedger ⊢ with hPort
    · rw [hOk.active] at hActive
      have hSum := hOk.oncesActive hActive
      have hInvSum := hInv.oncesActive e.ieObject hActive
      rw [hPort] at hInvSum hSum
      omega
    · have hInvSum := hInv.oncesActive p hActive
      omega
  case nextAddr => exact hInv.nextAddr

end Stored

------
-- Releasing
------

/- What the accounts do not mention may differ. -/
theorem SenderInv.other
    (h : SenderInv s)
    (isActive : Bool)
    (buffers : Nat → List Nat)
    (asked timestamp : Nat)
    (touched : List Nat) :
    SenderInv { s with
      isActive := isActive
      buffers := buffers
      asked := asked
      timestamp := timestamp
      touched := touched } :=
  ⟨h.names, h.entries, h.finite, h.heldType, h.heldReceive,
    h.heldOnce, h.sends, h.onces, h.oncesActive, h.nextAddr⟩

/- The state after a right of the message is released. -/
def Sender.released
    (s : Sender)
    (p type : Nat)
    (port : RightPort)
    (sent : List Nat) : Sender :=
  { s with
    ports := update s.ports p port
    held := s.held.erase (.right p type)
    notified := sent }

section Released

variable {s : Sender} {p type : Nat} {port : RightPort}
variable {sent : List Nat}

/- The right is taken from the account, and nothing else. -/
structure ReleaseOk
    (s : Sender)
    (p type : Nat)
    (port : RightPort)
    (sent : List Nat) : Prop where
  receiver :
    type = machMsgTypePortReceive ∨
      port.ipActive = (s.ports p).ipActive ∧
        port.ipReceiver = (s.ports p).ipReceiver ∧
        port.ipReceiverName = (s.ports p).ipReceiverName ∧
        port.ipMscount = (s.ports p).ipMscount
  active :
    port.ipActive = true → (s.ports p).ipActive = true
  sends :
    port.ipActive = true →
      port.ipSrights +
          (if type = machMsgTypePortSend then 1 else 0) =
        (s.ports p).ipSrights
  onces :
    sent.count p + (s.ports p).ipSorights =
      s.notified.count p + port.ipSorights +
        if type = machMsgTypePortSendOnce then 1 else 0
  others : ∀ q, q ≠ p → sent.count q = s.notified.count q

theorem released_ports
    (q : Nat) :
    (s.released p type port sent).ports q =
      if q = p then port else s.ports q := by
  by_cases hEq : q = p
  · subst hEq
    rw [if_pos rfl]
    exact update_self _ _ _
  · rw [if_neg hEq]
    exact update_of_ne hEq _ _

theorem count_released
    (port : RightPort)
    (sent : List Nat)
    (hMem : .right p type ∈ s.held)
    (q kind : Nat) :
    (s.released p type port sent).held.count
          (.right q kind) +
        (if q = p ∧ type = kind then 1 else 0) =
      s.held.count (.right q kind) := by
  have hHeld : (s.released p type port sent).held =
      s.held.erase (.right p type) := rfl
  rw [hHeld]
  by_cases hEq : q = p ∧ type = kind
  · rcases hEq with ⟨hPort, hKind⟩
    subst hPort hKind
    have hPos := count_pos_iff.mpr hMem
    rw [if_pos ⟨rfl, rfl⟩, count_erase_self]
    omega
  · have hNe : (.right q kind : Held) ≠ .right p type := by
      intro h
      injection h with hPort hKind
      exact hEq ⟨hPort, hKind.symm⟩
    rw [if_neg hEq, count_erase_of_ne hNe]
    rfl

theorem SenderInv.released
    (hInv : SenderInv s)
    (hMem : .right p type ∈ s.held)
    (hOk : ReleaseOk s p type port sent) :
    SenderInv (s.released p type port sent) := by
  have hEntries : (s.released p type port sent).entries =
      s.entries := rfl
  have hOld : ∀ h, h ∈ (s.released p type port sent).held →
      h ∈ s.held := fun h hIn => mem_of_mem_erase hIn
  have hCount := count_released port sent hMem
  constructor
  case names => exact hInv.names
  case entries =>
    intro name e hEntry
    have hEntryOk := hInv.entries name e hEntry
    rw [released_ports]
    split_ifs with hPort
    · rw [hPort] at hEntryOk
      rcases hOk.receiver with hType | ⟨hActive, hSpace, hName, _⟩
      · subst hType
        cases hRecv : Bearing machPortTypeReceive e with
        | false => exact hEntryOk.of_not_receive hRecv
        | true =>
            have hName := (hEntryOk.receiver_facts hRecv).2.2.2
            have hNull := (hInv.heldReceive p hMem).2.1
            exact absurd (hName.symm.trans hNull)
              (hInv.names name e hEntry)
      · exact hEntryOk.congr hActive hSpace hName
    · exact hEntryOk
  case finite => exact hInv.finite
  case heldType =>
    intro q kind hIn
    exact hInv.heldType q kind (hOld _ hIn)
  case heldReceive =>
    intro q hIn
    have hFacts := hInv.heldReceive q (hOld _ hIn)
    rw [released_ports]
    split_ifs with hPort
    · rw [hPort] at hFacts hIn
      rcases hOk.receiver with hType | ⟨hActive, _, hName, hMs⟩
      · have hOnce := hInv.heldOnce p
        have hLess := hCount p machMsgTypePortReceive
        have hPos := count_pos_iff.mpr hIn
        rw [if_pos ⟨rfl, hType⟩] at hLess
        omega
      · rw [hActive, hName, hMs]
        exact hFacts
    · exact hFacts
  case heldOnce =>
    intro q
    have hOnce := hInv.heldOnce q
    have hLess := hCount q machMsgTypePortReceive
    omega
  case sends =>
    intro q hActive
    have hLess := hCount q machMsgTypePortSend
    have hSends : (s.released p type port sent).sends =
      s.sends := rfl
    rw [released_ports] at hActive ⊢
    rw [hEntries, hSends]
    split_ifs at hActive ⊢ with hPort
    · subst hPort
      have hSum := hInv.sends q (hOk.active hActive)
      have hNew := hOk.sends hActive
      simp only [true_and] at hLess
      omega
    · have hSum := hInv.sends q hActive
      rw [if_neg (fun h => hPort h.1)] at hLess
      omega
  case onces =>
    intro q
    have hLess := hCount q machMsgTypePortSendOnce
    have hOnces : (s.released p type port sent).onces =
      s.onces := rfl
    have hNotified : (s.released p type port sent).notified =
      sent := rfl
    rw [released_ports, hEntries, hOnces, hNotified]
    have hSum := hInv.onces q
    split_ifs with hPort
    · subst hPort
      have hNew := hOk.onces
      simp only [true_and] at hLess
      omega
    · rw [hOk.others q hPort]
      omega
  case oncesActive =>
    intro q hActive
    have hLess := hCount q machMsgTypePortSendOnce
    have hOnces : (s.released p type port sent).onces =
      s.onces := rfl
    have hNotified : (s.released p type port sent).notified =
      sent := rfl
    rw [released_ports] at hActive ⊢
    rw [hEntries, hOnces, hNotified]
    split_ifs at hActive ⊢ with hPort
    · subst hPort
      have hSum := hInv.oncesActive q (hOk.active hActive)
      have hNew := hOk.onces
      simp only [true_and] at hLess
      omega
    · have hSum := hInv.oncesActive q hActive
      rw [hOk.others q hPort]
      rw [if_neg (fun h => hPort h.1)] at hLess
      omega
  case nextAddr => exact hInv.nextAddr

end Released

/- A part that releases what is listed and keeps the rest. -/
def Releases
    (buffers : Nat → List Nat)
    (x : KmsgProg Unit)
    (listed : List Held) : Prop :=
  ∀ s rest, SenderInv s → s.buffers = buffers →
    s.held.Perm (listed ++ rest) →
    ∃ t, x s = (.ok (), t) ∧ SenderInv t ∧
      (Frame s t ∧ t.entries = s.entries) ∧
      t.buffers = buffers ∧ t.held.Perm rest

section Releases

variable {buffers : Nat → List Nat}

theorem releases_pure :
    Releases buffers (pure ()) [] := by
  intro s rest hInv hBuffers hHeld
  exact ⟨s, rfl, hInv, ⟨Frame.refl s, rfl⟩, hBuffers, hHeld⟩

theorem Releases.bind
    {x y : KmsgProg Unit}
    {first second : List Held}
    (hFirst : Releases buffers x first)
    (hSecond : Releases buffers y second) :
    Releases buffers (x >>= fun _ => y) (first ++ second) := by
  intro s rest hInv hBuffers hHeld
  rw [append_assoc] at hHeld
  rcases hFirst s _ hInv hBuffers hHeld with
    ⟨t, hRun, hInv', hFrame, hBuffers', hHeld'⟩
  rcases hSecond t rest hInv' hBuffers' hHeld' with
    ⟨u, hRun', hInv'', hFrame', hBuffers'', hHeld''⟩
  refine ⟨u, ?_, hInv'',
    ⟨hFrame.1.trans hFrame'.1, hFrame'.2.trans hFrame.2⟩,
    hBuffers'', hHeld''⟩
  rw [bind_run hRun]
  exact hRun'

theorem Releases.require
    {c : Prop}
    [Decidable c]
    {e : Stop}
    {x : KmsgProg Unit}
    (hc : c)
    (h : Releases buffers x listed) :
    Releases buffers (require c e >>= fun _ => x) listed := by
  intro s rest hInv hBuffers hHeld
  rw [bind_run (require_run hc)]
  exact h s rest hInv hBuffers hHeld

theorem Releases.read
    {f : Sender → KmsgProg Unit}
    (h : ∀ s, s.buffers = buffers →
      Releases buffers (f s) listed) :
    Releases buffers (read >>= f) listed := by
  intro s rest hInv hBuffers hHeld
  exact h s hBuffers s rest hInv hBuffers hHeld

theorem ask_run
    (env : KmsgAnswers)
    (s : Sender) :
    ask env s =
      (.ok (env.grant s.asked),
        { s with asked := s.asked + 1 }) := rfl

theorem releaseHeld_run
    (hMem : h ∈ s.held) :
    releaseHeld h s =
      (.ok (), { s with held := s.held.erase h }) := by
  unfold releaseHeld
  rw [read_bind, bind_run (require_run hMem)]
  rfl

/- Memory is not in the accounts of rights. -/
theorem SenderInv.heldMemory
    {held : List Held}
    (hInv : SenderInv s)
    (hSame : ∀ p type,
      held.count (.right p type) =
        s.held.count (.right p type)) :
    SenderInv { s with held := held } := by
  have hOld : ∀ p type, .right p type ∈ held →
      .right p type ∈ s.held := by
    intro p type hIn
    have hPos := count_pos_iff.mpr hIn
    rw [hSame] at hPos
    exact count_pos_iff.mp hPos
  refine ⟨hInv.names, hInv.entries, hInv.finite,
    fun p type hIn => hInv.heldType p type (hOld p type hIn),
    fun p hIn => hInv.heldReceive p (hOld p _ hIn), ?_, ?_, ?_,
    ?_, hInv.nextAddr⟩
  · intro p
    rw [hSame]
    exact hInv.heldOnce p
  · intro p hActive
    rw [hSame]
    exact hInv.sends p hActive
  · intro p
    rw [hSame]
    exact hInv.onces p
  · intro p hActive
    rw [hSame]
    exact hInv.oncesActive p hActive

/- More addresses are in use, and more was asked. -/
theorem SenderInv.grown
    {s : Sender}
    (h : SenderInv s)
    (asked : Nat)
    {nextAddr : Nat}
    (hAddr : s.nextAddr ≤ nextAddr) :
    SenderInv { s with
      asked := asked
      nextAddr := nextAddr } :=
  ⟨h.names, h.entries, h.finite, h.heldType, h.heldReceive,
    h.heldOnce, h.sends, h.onces, h.oncesActive,
    Nat.lt_of_lt_of_le h.nextAddr hAddr⟩

theorem releaseHeld_releases
    (hMemory : ∀ p type, h ≠ .right p type) :
    Releases buffers (releaseHeld h) [h] := by
  intro s rest hInv hBuffers hHeld
  have hMem : h ∈ s.held :=
    hHeld.symm.subset (mem_append_left _
      (mem_singleton.mpr rfl))
  refine ⟨_, releaseHeld_run hMem, hInv.heldMemory ?_,
    ⟨.of_eq rfl rfl rfl (Nat.le_refl _) rfl, rfl⟩, hBuffers, ?_⟩
  · intro p type
    exact count_erase_of_ne
      (fun hEq => hMemory p type hEq.symm)
  · have hErase := hHeld.erase h
    simpa using hErase

theorem update_here
    (p : Nat) :
    update s.ports p (s.ports p) = s.ports :=
  update_eq_self _ _

theorem releaseSend_run
    (hInv : SenderInv s)
    (hMem : .right p machMsgTypePortSend ∈ s.held) :
    ∃ port,
      ReleaseOk s p machMsgTypePortSend port s.notified ∧
      ipcPortReleaseSend p
          { s with
            held :=
              s.held.erase (.right p machMsgTypePortSend) } =
        (.ok (),
          s.released p machMsgTypePortSend port s.notified) := by
  have hPos := count_pos_iff.mpr hMem
  unfold ipcPortReleaseSend
  cases hActive : (s.ports p).ipActive with
  | true =>
      have hSum := hInv.sends p hActive
      have hSome : 0 < (s.ports p).ipSrights := by omega
      refine ⟨{ s.ports p with
          ipSrights := (s.ports p).ipSrights - 1 },
        ⟨Or.inr ⟨rfl, rfl, rfl, rfl⟩, fun h => h, ?_, ?_,
          fun _ _ => rfl⟩, ?_⟩
      · intro _
        exact Nat.sub_add_cancel hSome
      · rfl
      · rw [read_bind]
        rw [if_pos hActive, bind_run (require_run hSome)]
        rfl
  | false =>
      refine ⟨s.ports p, ⟨Or.inr ⟨rfl, rfl, rfl, rfl⟩,
        fun h => h, ?_, rfl, fun _ _ => rfl⟩, ?_⟩
      · intro h
        rw [hActive] at h
        simp at h
      · unfold Sender.released
        rw [update_here, read_bind]
        rw [if_neg (by simp [hActive])]
        rfl

theorem notifySendOnce_run
    (env : KmsgAnswers)
    (hInv : SenderInv s)
    (hMem : .right p machMsgTypePortSendOnce ∈ s.held) :
    ∃ port sent,
      ReleaseOk s p machMsgTypePortSendOnce port sent ∧
      s.notified <:+ sent ∧
      ipcNotifySendOnce env p
          { s with
            held :=
              s.held.erase
                (.right p machMsgTypePortSendOnce) } =
        (.ok (),
          { s.released p machMsgTypePortSendOnce port
              sent with
            asked := s.asked + 1 }) := by
  have hPos := count_pos_iff.mpr hMem
  have hSum := hInv.onces p
  have hSome : 0 < (s.ports p).ipSorights := by omega
  unfold ipcNotifySendOnce
  rw [bind_run (ask_run env _)]
  cases hGrant : env.grant s.asked with
  | true =>
      refine ⟨s.ports p,
        p :: s.notified,
        ⟨Or.inr ⟨rfl, rfl, rfl, rfl⟩, fun h => h,
          fun _ => rfl, ?_, ?_⟩, ?_, ?_⟩
      · rw [count_cons_self, if_pos rfl]
        omega
      · intro q hNe
        exact count_cons_of_ne hNe.symm
      · exact suffix_cons _ _
      · unfold Sender.released
        rw [update_here]
        rfl
  | false =>
      refine ⟨{ s.ports p with
          ipSorights := (s.ports p).ipSorights - 1 }, s.notified,
        ⟨Or.inr ⟨rfl, rfl, rfl, rfl⟩, fun h => h,
          fun _ => rfl, ?_, fun _ _ => rfl⟩,
        suffix_refl _, ?_⟩
      · rw [if_pos rfl]
        dsimp only
        omega
      · rw [if_neg (by simp)]
        unfold ipcPortReleaseSonce
        rw [read_bind, bind_run (require_run hSome)]
        rfl

theorem releaseReceive_run
    (env : KmsgAnswers)
    (hInv : SenderInv s)
    (hMem : .right p machMsgTypePortReceive ∈ s.held) :
    ∃ port asked timestamp,
      ReleaseOk s p machMsgTypePortReceive port s.notified ∧
      ipcPortReleaseReceive env p
          { s with
            held :=
              s.held.erase
                (.right p machMsgTypePortReceive) } =
        (.ok (),
          { s.released p machMsgTypePortReceive port
              s.notified with
            asked := asked
            timestamp := timestamp }) := by
  rcases hInv.heldReceive p hMem with ⟨hActive, hNull, hMs⟩
  have hOk : ∀ port : RightPort,
      (port.ipActive = true →
        port.ipSrights = (s.ports p).ipSrights) →
      port.ipSorights = (s.ports p).ipSorights →
      ReleaseOk s p machMsgTypePortReceive port s.notified := by
    intro port hSends hOnces
    refine ⟨Or.inl rfl, fun _ => hActive, hSends, ?_,
      fun _ _ => rfl⟩
    rw [hOnces]
    rfl
  unfold ipcPortReleaseReceive
  rw [read_bind, bind_run (require_run hActive),
    bind_run (require_run hNull), bind_run (require_run hMs)]
  cases hPd : (s.ports p).ipPdrequest with
  | true =>
      rw [if_pos rfl, bind_run (ask_run env _)]
      cases hGrant : env.grant s.asked with
      | true =>
          refine ⟨{ s.ports p with ipPdrequest := false },
            s.asked + 1, s.timestamp,
            hOk _ (fun _ => rfl) rfl, ?_⟩
          rfl
      | false =>
          refine ⟨{ s.ports p with
              ipPdrequest := false
              ipActive := false
              ipTimestamp := s.timestamp },
            s.asked + 1, s.timestamp + 1,
            hOk _ (fun h => absurd h (by simp)) rfl, ?_⟩
          rfl
  | false =>
      refine ⟨{ s.ports p with
          ipPdrequest := false
          ipActive := false
          ipTimestamp := s.timestamp },
        s.asked, s.timestamp + 1,
        hOk _ (fun h => absurd h (by simp)) rfl, ?_⟩
      rfl

/- A destroyed right is released, whatever is answered. -/
theorem ipcObjectDestroy_releases
    (env : KmsgAnswers)
    {p type : Nat} :
    Releases buffers (ipcObjectDestroy env p type)
      [.right p type] := by
  intro s rest hInv hBuffers hHeld
  have hMem : .right p type ∈ s.held :=
    hHeld.symm.subset (mem_append_left _
      (mem_singleton.mpr rfl))
  have hErase : (s.held.erase (.right p type)).Perm rest := by
    simpa using hHeld.erase (.right p type)
  rcases hInv.heldType p type hMem with ⟨hValid, hTypes⟩
  unfold ipcObjectDestroy
  rw [bind_run (require_run hValid),
    bind_run (releaseHeld_run hMem)]
  rcases hTypes with hType | hType | hType
  · subst hType
    rcases releaseReceive_run env hInv hMem with
      ⟨port, asked, timestamp, hOk, hRun⟩
    exact ⟨_, hRun,
      (hInv.released hMem hOk).other _ _ asked timestamp _,
      ⟨.of_eq rfl rfl rfl (Nat.le_refl _) rfl, rfl⟩, hBuffers,
      hErase⟩
  · subst hType
    rcases releaseSend_run hInv hMem with ⟨port, hOk, hRun⟩
    exact ⟨_, hRun, hInv.released hMem hOk,
      ⟨.of_eq rfl rfl rfl (Nat.le_refl _) rfl, rfl⟩, hBuffers,
      hErase⟩
  · subst hType
    rcases notifySendOnce_run env hInv hMem with
      ⟨port, sent, hOk, hSent, hRun⟩
    exact ⟨_, hRun,
      (hInv.released hMem hOk).other _ _ (s.asked + 1) _ _,
      ⟨⟨rfl, rfl, hSent, Nat.le_refl _, fun _ _ => rfl⟩, rfl⟩,
      hBuffers, hErase⟩

end Releases

end Ipc

end OsfMach
