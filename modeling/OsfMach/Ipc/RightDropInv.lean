import OsfMach.Ipc.CopyinTwo
import OsfMach.Ipc.Rights

/-
  What dropping a right does to an entry and to its port:
  references come and go without a carry, the counts of the
  port go with the rights, and the no-senders request goes
  with the last send right.

  Main declarations:
    * `Kept`, `LastSend`, `TakesRequest`
    * `DropOk`
    * `add_shift`, `urefs_add_of`
    * `dropSend_takes`, `dropLastSend_ok`
    * `ipcPortDestroy_ok`, `dropReceive_ok`
-/

------
-- References in the Bits
------

namespace OsfMach

namespace Ipc

open Lib

variable {b : EntryBits} {ended : PortEnd} {n : Int}
variable {c : BitsChanges} {urefs : EntryBits} {o : Option EntryFields}

section References

variable {bits delta : EntryBits}

/- A sum that fits the references carries into no other bit. -/
theorem add_shift
    (h : (ieBitsUrefs bits + delta).toNat < 65536) :
    (bits + delta) >>> 16 = bits >>> 16 ∧
      ieBitsUrefs (bits + delta) = ieBitsUrefs bits + delta ∧
      ((ieBitsUrefs (bits + delta)).toNat : Int) =
        (ieBitsUrefs bits).toNat + delta.toInt := by
  have hUrefs := @ieBitsUrefs_toNat bits
  have hSum : (ieBitsUrefs bits + delta).toNat =
      (bits.toNat % 65536 + delta.toNat) % 4294967296 := by
    rw [BitVec.toNat_add, hUrefs]
  have hAdd : (bits + delta).toNat =
      (bits.toNat + delta.toNat) % 4294967296 := by
    rw [BitVec.toNat_add]
  refine ⟨?_, ?_, ?_⟩
  · apply BitVec.eq_of_toNat_eq
    rw [BitVec.toNat_ushiftRight, BitVec.toNat_ushiftRight,
      hAdd, Nat.shiftRight_eq_div_pow,
      Nat.shiftRight_eq_div_pow]
    omega
  · apply BitVec.eq_of_toNat_eq
    rw [ieBitsUrefs_toNat, hAdd, hSum]
    omega
  · rw [ieBitsUrefs_toNat, hAdd, hUrefs,
      BitVec.toInt_eq_toNat_cond]
    omega

theorem urefs_lt : (ieBitsUrefs bits).toNat < 65536 := by
  rw [ieBitsUrefs_toNat]
  omega

/- A change that neither macro refuses. -/
theorem urefs_add_of
    (hLt : urefs.toNat < 65536)
    (hUnder : machPortUrefsUnderflow urefs delta = false)
    (hOver : machPortUrefsOverflow urefs delta = false) :
    (urefs + delta).toNat < 65536 := by
  have hMax : (BitVec.ofNat 32 machPortUrefsMax).toNat =
      65535 := rfl
  unfold machPortUrefsUnderflow at hUnder
  unfold machPortUrefsOverflow at hOver
  simp only [Bool.and_eq_false_iff, Bool.or_eq_false_iff,
    BitVec.slt_eq_decide, BitVec.ule_eq_decide,
    BitVec.ult_eq_decide, decide_eq_false_iff_not, hMax,
    BitVec.toInt_eq_toNat_cond, BitVec.toNat_neg,
    BitVec.toNat_add] at hUnder hOver ⊢
  simp only [BitVec.toNat_ofNat] at hUnder hOver ⊢
  omega

/- The same where one more reference has to fit. -/
theorem urefs_add_send
    (hLt : urefs.toNat < machPortUrefsMax)
    (hUnder : machPortUrefsUnderflow urefs delta = false)
    (hOver : machPortUrefsOverflow (urefs + 1) delta = false) :
    (urefs + delta).toNat < machPortUrefsMax := by
  have hMax : (BitVec.ofNat 32 machPortUrefsMax).toNat =
      65535 := rfl
  have hOne : (1 : EntryBits).toNat = 1 := rfl
  unfold machPortUrefsUnderflow at hUnder
  unfold machPortUrefsOverflow at hOver
  unfold machPortUrefsMax at hLt ⊢
  simp only [Bool.and_eq_false_iff, Bool.or_eq_false_iff,
    BitVec.slt_eq_decide, BitVec.ule_eq_decide,
    BitVec.ult_eq_decide, decide_eq_false_iff_not, hMax,
    BitVec.toInt_eq_toNat_cond, BitVec.toNat_neg,
    BitVec.toNat_add, hOne] at hUnder hOver ⊢
  simp only [BitVec.toNat_ofNat] at hUnder hOver ⊢
  omega

end References

------
-- Changes
------

/- The bits of an entry that say nothing of the right. -/
def ieBitsHigh (bits : EntryBits) : EntryBits :=
  bits &&& ~~~ieBitsRightMask

/- Whether an entry that may be gone bears a right. -/
def bears (kind : EntryBits) (e : Option EntryFields) : Bool :=
  match e with
  | none => false
  | some e => Bearing kind e

/-
  How an operation may change the bits of an entry: amounts
  that it adds to the references, types that it turns into
  others with such an amount, and rights that it writes into
  an entry without one, with their references.
-/
structure BitsChanges where
  adds : List Int
  turns : List (EntryBits × EntryBits × Int)
  news : List (EntryBits × Nat)

def copyinChanges : BitsChanges :=
  { adds := [-1]
    turns :=
      [(machPortTypeSendReceive, machPortTypeReceive, -1),
        (machPortTypeSend, machPortTypeNone, -1),
        (machPortTypeSendReceive, machPortTypeSend, 0),
        (machPortTypeReceive, machPortTypeNone, 0),
        (machPortTypeSend, machPortTypeNone, 0),
        (machPortTypeSendOnce, machPortTypeNone, 0),
        (machPortTypeDeadName, machPortTypeNone, 0)]
    news := [] }

def copyinUndoChanges : BitsChanges :=
  { adds := [1]
    turns := []
    news := [(machPortTypeDeadName, 1),
      (machPortTypeDeadName, 2)] }

def copyoutChanges : BitsChanges :=
  { adds := [1]
    turns :=
      [(machPortTypeReceive, machPortTypeSendReceive, 1),
        (machPortTypeSend, machPortTypeSendReceive, 0)]
    news := [(machPortTypeSend, 1), (machPortTypeReceive, 0),
      (machPortTypeSendOnce, 1)] }

/- What each operation is to do to the bits of its entry. -/
def RightAction.changes : RightAction → BitsChanges
| .dnrequest _ _ _ _ => ⟨[1], [], []⟩
| .dealloc _ =>
    ⟨[-1], [(machPortTypeSendReceive, machPortTypeReceive, -1)],
      []⟩
| .delta _ _ n _ _ =>
    ⟨[n.toInt],
      (machPortTypeSendReceive, machPortTypeReceive, n.toInt) ::
        if n = -1 then
          [(machPortTypeSendReceive, machPortTypeDeadName, 0),
            (machPortTypeSendReceive, machPortTypeDeadName, 1)]
        else [],
      []⟩
| .copyin _ _ _ => copyinChanges
| .copyinTwo _ =>
    ⟨[-2],
      [(machPortTypeSendReceive, machPortTypeReceive, -2),
        (machPortTypeSend, machPortTypeNone, -2)],
      []⟩
| .copyinUndo _ _ _ _ => copyinUndoChanges
| .copyout _ _ _ => copyoutChanges
| _ => ⟨[], [], []⟩

/- The references of an entry after an addition, as integers. -/
def UrefsBy (e e' : EntryFields) (n : Int) : Prop :=
  ((ieBitsUrefs e'.ieBits).toNat : Int) =
    (ieBitsUrefs e.ieBits).toNat + n

/-
  The references change by a given amount exactly, so that
  nothing is carried or borrowed: with the type as it was, as
  the right dies with its port, which leaves no object, or as
  one type turns into another.
-/
inductive BitsChanged
    (c : BitsChanges)
    (e e' : EntryFields) : Prop
| adds
    {n : Int}
    (type : ieBitsType e'.ieBits = ieBitsType e.ieBits)
    (mem : n ∈ 0 :: c.adds)
    (urefs : UrefsBy e e' n)
| dies
    {n : Int}
    (type : ieBitsType e.ieBits = machPortTypeSend ∨
      ieBitsType e.ieBits = machPortTypeSendOnce)
    (isDead : IsDead e')
    (mem : n ∈ 0 :: c.adds)
    (urefs : UrefsBy e e' n ∨ UrefsBy e e' (n + 1))
| turns
    {n : Int}
    (mem : (ieBitsType e.ieBits, ieBitsType e'.ieBits, n) ∈
      c.turns)
    (kind : ieBitsType e'.ieBits &&&
      (machPortTypeSendOnce ||| machPortTypePortSet) = 0)
    (urefs : UrefsBy e e' n)
| news
    (type : ieBitsType e.ieBits = machPortTypeNone)
    (mem : (ieBitsType e'.ieBits,
      (ieBitsUrefs e'.ieBits).toNat) ∈ c.news)

theorem BitsChanged.refl
    (c : BitsChanges)
    (e : EntryFields) :
    BitsChanged c e e :=
  .adds rfl (List.mem_cons_self ..) (Int.add_zero _).symm

/- No other type becomes one of a kind that no right turns into. -/
theorem BitsChanged.same
    {c : BitsChanges}
    {e e' : EntryFields}
    {kind : EntryBits}
    (h : BitsChanged c e e')
    (hSome : ieBitsType e.ieBits ≠ machPortTypeNone)
    (hDead : machPortTypeDeadName &&& kind = 0)
    (hKind : kind &&&
      (machPortTypeSendOnce ||| machPortTypePortSet) = kind)
    (hBit : ieBitsType e'.ieBits &&& kind ≠ 0) :
    ieBitsType e'.ieBits = ieBitsType e.ieBits := by
  cases h with
  | adds type => exact type
  | dies _ isDead =>
      rw [isDead.1] at hBit
      exact absurd hDead hBit
  | turns _ hNone =>
      rw [← hKind, BitVec.and_comm kind, ← BitVec.and_assoc,
        hNone] at hBit
      simp at hBit
  | news type => exact absurd type hSome

/-
  The bits of an entry change as an operation means them to,
  and the others stay.
-/
structure NoCarry
    (c : BitsChanges)
    (e e' : EntryFields) : Prop where
  high : ieBitsHigh e'.ieBits = ieBitsHigh e.ieBits
  change : BitsChanged c e e'

theorem NoCarry.refl
    (c : BitsChanges)
    (e : EntryFields) :
    NoCarry c e e :=
  ⟨rfl, .refl c e⟩

/-
  What stays of an entry whose right is dropped in part. An
  entry that changed its object bears nothing.
-/
structure Kept
    (c : BitsChanges)
    (e e' : EntryFields) : Prop where
  bits : NoCarry c e e'
  object : e'.ieObject = e.ieObject ∨ IsDead e'
  request : ieBitsType e'.ieBits = machPortTypePortSet →
    e'.ieRequest = e.ieRequest ∨ e'.ieRequest = 0

/- The last send right of a port goes. -/
def LastSend (port port' : SenderPort) : Prop :=
  0 < port.ipSrights ∧ port'.ipSrights = 0

instance
    (port port' : SenderPort) :
    Decidable (LastSend port port') :=
  inferInstanceAs (Decidable (_ ∧ _))

/-
  The request of a port is notified of the count when the
  last send right goes, and only then. A port that dies
  throws it away.
-/
structure TakesRequest
    (port port' : SenderPort)
    (notified : Option NoSenders)
    (thrown : Option Nat) : Prop where
  notified : notified =
    if LastSend port port' then
      port.ipNsrequest.map fun r => (r, port.ipMscount)
    else none
  request : port'.ipNsrequest =
    if LastSend port port' then none else port.ipNsrequest
  thrown : thrown =
    if port.ipActive = true ∧ port'.ipActive = false then
      port'.ipNsrequest
    else none

/- Two ports with one receiver. -/
structure SameReceiver (port port' : SenderPort) : Prop where
  active : port'.ipActive = port.ipActive
  receiver : port'.ipReceiver = port.ipReceiver
  receiverName : port'.ipReceiverName = port.ipReceiverName

/-
  What dropping a right leaves: `leak` says by how much the
  count of the send rights is then too high.
-/
structure DropOk
    (c : BitsChanges)
    (space name : Nat)
    (e : EntryFields)
    (port : SenderPort)
    (leak : Nat)
    (out : RightDrop) : Prop where
  entry : ∀ e', out.entry = some e' →
    EntryOk space name out.port.toRightPort e' ∧ Kept c e e'
  receiver :
    Bearing machPortTypeReceive e =
        bears machPortTypeReceive out.entry ∧
      SameReceiver port out.port ∧ out.backup = false ∨
    Bearing machPortTypeReceive e = true ∧
      bears machPortTypeReceive out.entry = false ∧
      (out.port.ipActive = false ∧ out.backup = false ∨
        out.port.ipActive = true ∧
          out.port.ipReceiverName = machPortNull ∧
          out.port.ipMscount = 0 ∧ out.backup = true)
  sends : out.port.ipActive = true →
    out.port.ipSrights + (Bearing machPortTypeSend e).toNat =
      port.ipSrights +
        (bears machPortTypeSend out.entry).toNat + leak
  onces : port.ipActive = true →
    out.port.ipSorights = port.ipSorights ∧
      (Bearing machPortTypeSendOnce e).toNat =
        (bears machPortTypeSendOnce out.entry).toNat +
          out.sendOnce.toNat
  died : port.ipActive = false →
    out.port = port ∧ out.sendOnce = false
  request :
    TakesRequest port out.port out.notified out.thrown

section Change

variable {space name : Nat} {e x : EntryFields}
variable {port : SenderPort} {kr : KernReturn}
variable {hash : HashUpdate}

theorem Kept.refl (e : EntryFields) : Kept c e e :=
  ⟨.refl c e, Or.inl rfl, fun _ => Or.inl rfl⟩

/- A change of the references alone. -/
theorem Kept.of_shift
    (h : b >>> 16 = e.ieBits >>> 16)
    (hMem : n ∈ 0 :: c.adds)
    (hUrefs : UrefsBy e { e with ieBits := b } n) :
    Kept c e { e with ieBits := b } :=
  ⟨⟨and_eq_of_shift (by decide) h,
      .adds (and_eq_of_shift (by decide) h) hMem hUrefs⟩,
    Or.inl rfl, fun _ => Or.inl rfl⟩

theorem SameReceiver.refl (port : SenderPort) :
    SameReceiver port port := ⟨rfl, rfl, rfl⟩

theorem TakesRequest.refl (port : SenderPort) :
    TakesRequest port port none none := by
  have hNot : ¬ LastSend port port := by
    rintro ⟨hPos, hZero⟩
    omega
  refine ⟨?_, ?_, ?_⟩
  · rw [if_neg hNot]
  · rw [if_neg hNot]
  · rw [if_neg]
    rintro ⟨hActive, hDead⟩
    rw [hActive] at hDead
    cases hDead

/- An operation that sends nothing and keeps the port. -/
theorem DropOk.quiet
    (hEntry : ∀ e', o = some e' →
      EntryOk space name port.toRightPort e' ∧ Kept c e e')
    (hReceive : Bearing machPortTypeReceive e =
      bears machPortTypeReceive o)
    (hSend : port.ipActive = true →
      Bearing machPortTypeSend e = bears machPortTypeSend o)
    (hOnce : port.ipActive = true →
      Bearing machPortTypeSendOnce e =
        bears machPortTypeSendOnce o) :
    DropOk c space name e port 0 (quietly kr o port hash) := by
  refine ⟨hEntry, Or.inl ⟨hReceive, .refl port, rfl⟩, ?_, ?_,
    fun _ => ⟨rfl, rfl⟩, .refl port⟩
  · intro hActive
    rw [hSend hActive]
    rfl
  · intro hActive
    rw [hOnce hActive]
    exact ⟨rfl, rfl⟩

/- An operation that changes nothing. -/
theorem DropOk.same
    (h : EntryOk space name port.toRightPort e) :
    DropOk c space name e port 0
      (quietly kr (some e) port hash) := by
  refine .quiet ?_ rfl (fun _ => rfl) (fun _ => rfl)
  intro e' hEq
  cases hEq
  exact ⟨h, .refl e⟩

/- What a right bears that may become a dead name. -/
theorem not_bearing_of_dead
    {kind : EntryBits}
    (h : IsDead x)
    (hKind : machPortTypeDeadName &&& kind = 0) :
    Bearing kind x = false := by
  rw [bearing_of_type h.1]
  simp [hKind]

/- The dead name that an entry is, or becomes with its port. -/
def Dies (e x : EntryFields) : Prop :=
  IsDead e ∧ x = e ∨ MayDie e ∧ x = diedEntry e

theorem Dies.isDead
    (h : Dies e x) :
    IsDead x := by
  rcases h with ⟨hDead, rfl⟩ | ⟨hMay, rfl⟩
  · exact hDead
  · exact hMay.isDead

theorem Dies.receive
    (h : Dies e x) :
    Bearing machPortTypeReceive e = false := by
  rcases h with ⟨hDead, _⟩ | ⟨⟨hType, _⟩ | ⟨hType, _⟩, _⟩
  · exact not_bearing_of_dead hDead (by decide)
  · rw [bearing_of_type hType]
    decide
  · rw [bearing_of_type hType]
    decide

theorem deadBits_high
    (bits : EntryBits) :
    ieBitsHigh (deadBits bits) = ieBitsHigh bits := by
  unfold deadBits ieBitsHigh
  rw [BitVec.and_or_distrib_right, and_clear (by decide)]
  have hNone : machPortTypeDeadName &&& ~~~ieBitsRightMask = 0 :=
    by decide
  rw [hNone]
  simp

/- A dead name has the references of the right, or one more. -/
theorem diedEntry_facts
    (hUrefs : ieBitsUrefs e.ieBits ≠ 0)
    (hRoom : (ieBitsUrefs e.ieBits).toNat < machPortUrefsMax) :
    IsDead (diedEntry e) ∧
      ieBitsHigh (diedEntry e).ieBits = ieBitsHigh e.ieBits ∧
      (UrefsBy e (diedEntry e) 0 ∨
        UrefsBy e (diedEntry e) 1) := by
  have hOld := deadBits_urefs e.ieBits
  rw [← hOld] at hUrefs hRoom
  unfold diedEntry UrefsBy
  rw [← hOld]
  split_ifs
  · exact ⟨⟨deadBits_type _, hUrefs, rfl, rfl⟩,
      deadBits_high _, Or.inl (Int.add_zero _).symm⟩
  · have hShift := succ_shift hRoom
    have hSucc := ieBitsUrefs_succ hRoom
    refine ⟨⟨?_, ?_, rfl, rfl⟩, ?_, Or.inr ?_⟩
    · exact (and_eq_of_shift (by decide) hShift).trans
        (deadBits_type _)
    · exact ne_zero_of_pos (by rw [hSucc]; omega)
    · exact (and_eq_of_shift (by decide) hShift).trans
        (deadBits_high _)
    · rw [hSucc]
      rfl

/- A dead name after an addition to its references. -/
structure DeadBy
    (c : BitsChanges)
    (x e' : EntryFields) : Prop where
  isDead : IsDead e'
  high : ieBitsHigh e'.ieBits = ieBitsHigh x.ieBits
  urefs : ∃ n ∈ 0 :: c.adds, UrefsBy x e' n

theorem DeadBy.refl
    (c : BitsChanges)
    (h : IsDead x) :
    DeadBy c x x :=
  ⟨h, rfl, 0, List.mem_cons_self .., (Int.add_zero _).symm⟩

theorem Dies.noCarry
    {e' : EntryFields}
    (h : Dies e x)
    (hBy : DeadBy c x e') :
    NoCarry c e e' := by
  rcases hBy with ⟨hDead, hHigh, n, hMem, hUrefs⟩
  rcases h with ⟨hOld, rfl⟩ | ⟨hMay, rfl⟩
  · exact ⟨hHigh, .adds (hDead.1.trans hOld.1.symm) hMem
      hUrefs⟩
  · have hRoom := hMay.room
    rw [deadBits_urefs] at hRoom
    rcases diedEntry_facts hMay.urefs hRoom with
      ⟨_, hSame, hDied⟩
    refine ⟨hHigh.trans hSame,
      .dies (hMay.imp And.left And.left) hDead hMem ?_⟩
    unfold UrefsBy at hDied hUrefs ⊢
    omega

/- A dead name, or a right whose port died, and what is left. -/
theorem DropOk.ofDead
    (hEntry : ∀ e', o = some e' → DeadBy c x e')
    (hDies : Dies e x)
    (hLive : port.ipActive = true → IsDead e) :
    DropOk c space name e port 0
      (quietly kr o port hash) := by
  have hNone : ∀ kind, machPortTypeDeadName &&& kind = 0 →
      bears kind o = false := by
    intro kind hKind
    cases o with
    | none => rfl
    | some x =>
        exact not_bearing_of_dead (hEntry x rfl).isDead hKind
  refine .quiet ?_ ?_ ?_ ?_
  · intro e' hEq
    have hBy := hEntry e' hEq
    have hDead := hBy.isDead
    exact ⟨.deadName hDead.1 hDead.2.1 hDead.2.2.1
      hDead.2.2.2, hDies.noCarry hBy,
      Or.inr hDead, fun _ => Or.inr hDead.2.2.2⟩
  · rw [hDies.receive, hNone _ (by decide)]
  · intro hActive
    rw [hNone _ (by decide),
      not_bearing_of_dead (hLive hActive) (by decide)]
  · intro hActive
    rw [hNone _ (by decide),
      not_bearing_of_dead (hLive hActive) (by decide)]

end Change

------
-- Dead Names
------

section Dead

variable {space name : Nat} {e x : EntryFields}
variable {port : SenderPort} {hash : HashUpdate}

theorem MayDie.receive
    (h : MayDie e) :
    Bearing machPortTypeReceive e = false := by
  rcases h with ⟨hType, _⟩ | ⟨hType, _⟩
  · rw [bearing_of_type hType]
    decide
  · rw [bearing_of_type hType]
    decide

/- What is left when the references of a dead name change. -/
theorem IsDead.of_bits
    (h : IsDead x)
    (hShift : b >>> 16 = x.ieBits >>> 16)
    (hUrefs : ieBitsUrefs b ≠ 0)
    (hMem : n ∈ 0 :: c.adds)
    (hBy : UrefsBy x { x with ieBits := b } n) :
    DeadBy c x { x with ieBits := b } :=
  ⟨⟨(and_eq_of_shift (by decide) hShift).trans h.1, hUrefs,
      h.2.2.1, h.2.2.2⟩,
    and_eq_of_shift (by decide) hShift, n, hMem, hBy⟩

section

variable (hDies : Dies e x)
variable (hLive : port.ipActive = true → IsDead e)
include hDies hLive

theorem dropDeadName_ok
    (hMem : -1 ∈ 0 :: c.adds) :
    ∃ out, dropDeadName x port hash = .ok out ∧
      DropOk c space name e port 0 out := by
  have h := hDies.isDead
  have hUrefs := h.2.1
  unfold dropDeadName
  dsimp only
  rw [ipcAssert_of hUrefs, ipcAssert_of h.2.2.2,
    ipcAssert_of h.2.2.1]
  by_cases hLast : ieBitsUrefs x.ieBits = 1
  · rw [if_pos hLast]
    refine ⟨_, rfl, .ofDead ?_ hDies hLive⟩
    intro e' hEq
    cases hEq
  · rw [if_neg hLast]
    refine ⟨_, rfl, .ofDead ?_ hDies hLive⟩
    intro e' hEq
    cases hEq
    have hPred := ieBitsUrefs_pred hUrefs
    have hPos : (ieBitsUrefs x.ieBits).toNat ≠ 0 := fun hEq =>
      hUrefs (BitVec.eq_of_toNat_eq hEq)
    have hMore : (ieBitsUrefs x.ieBits).toNat ≠ 1 := fun hEq =>
      hLast (BitVec.eq_of_toNat_eq hEq)
    refine h.of_bits (pred_shift hUrefs) ?_ hMem ?_
    · exact ne_zero_of_pos (by omega)
    · unfold UrefsBy
      dsimp only
      omega

theorem changeDeadName_ok
    {delta : EntryBits}
    (hMem : delta.toInt ∈ 0 :: c.adds) :
    ∃ out, changeDeadName port x hash delta = .ok out ∧
      DropOk c space name e port 0 out := by
  have h := hDies.isDead
  have hSame : ∀ kr, DropOk c space name e port 0
      (quietly kr (some x) port hash) := by
    intro kr
    refine .ofDead ?_ hDies hLive
    intro e' hEq
    cases hEq
    exact .refl c h
  unfold changeDeadName
  dsimp only
  rw [ipcAssert_of h.1, ipcAssert_of h.2.1,
    ipcAssert_of h.2.2.1, ipcAssert_of h.2.2.2]
  split_ifs with hUnder hOver hZero
  · exact ⟨_, rfl, hSame _⟩
  · exact ⟨_, rfl, hSame _⟩
  · refine ⟨_, rfl, .ofDead ?_ hDies hLive⟩
    intro e' hEq
    cases hEq
  · refine ⟨_, rfl, .ofDead ?_ hDies hLive⟩
    intro e' hEq
    cases hEq
    have hFits := urefs_add_of urefs_lt
      ((Bool.not_eq_true _).mp hUnder)
      ((Bool.not_eq_true _).mp hOver)
    rcases add_shift hFits with ⟨hShift, hUrefs, hBy⟩
    rw [← hUrefs] at hZero
    exact h.of_bits hShift hZero hMem hBy

end

end Dead

------
-- Send Rights
------

section Send

variable {space name : Nat} {e : EntryFields}
variable {port : SenderPort}

theorem dropSend_right
    (port : SenderPort) :
    port.dropSend.1.toRightPort =
      { port.toRightPort with
        ipSrights := port.ipSrights - 1 } := by
  unfold SenderPort.dropSend
  split_ifs <;> rfl

/- Dropping a send right takes the request with the last. -/
theorem dropSend_takes
    (hPos : 0 < port.ipSrights) :
    TakesRequest port port.dropSend.1 port.dropSend.2 none := by
  unfold SenderPort.dropSend
  by_cases hZero : port.ipSrights - 1 = 0
  · rw [if_pos hZero]
    have hLast : LastSend port
        { port with
          ipSrights := port.ipSrights - 1
          ipNsrequest := none } := ⟨hPos, hZero⟩
    refine ⟨?_, ?_, ?_⟩
    · rw [if_pos hLast]
    · rw [if_pos hLast]
    · split_ifs <;> rfl
  · rw [if_neg hZero]
    have hNot : ¬ LastSend port
        { port with ipSrights := port.ipSrights - 1 } :=
      fun hLast => hZero hLast.2
    refine ⟨?_, ?_, ?_⟩
    · rw [if_neg hNot]
    · rw [if_neg hNot]
    · rw [if_neg]
      rintro ⟨hActive, hDead⟩
      rw [hActive] at hDead
      cases hDead

/- The references of a send right change, and not its type. -/
theorem EntryOk.references
    {right : RightPort}
    (h : EntryOk space name right e)
    (hSend : Bearing machPortTypeSend e = true)
    (hShift : b >>> 16 = e.ieBits >>> 16)
    (hUrefs : ieBitsUrefs b ≠ 0)
    (hRoom : (ieBitsUrefs b).toNat < machPortUrefsMax) :
    EntryOk space name right { e with ieBits := b } := by
  have hSame : ieBitsType b = ieBitsType e.ieBits :=
    and_eq_of_shift (by decide) hShift
  cases h with
  | send type urefs object room =>
      exact .send (hSame.trans type) hUrefs object hRoom
  | sendReceive type urefs object room active receiver
      receiverName =>
      exact .sendReceive (hSame.trans type) hUrefs object hRoom
        active receiver receiverName
  | receive type | sendOnce type | portSet type
  | deadName type =>
      rw [bearing_of_type type] at hSend
      exact absurd hSend (by decide)

theorem bearing_of_shift
    {kind b : EntryBits}
    (h : b >>> 16 = e.ieBits >>> 16) :
    Bearing kind { e with ieBits := b } = Bearing kind e := by
  unfold Bearing ieBitsType
  rw [and_eq_of_shift (by decide) h]

theorem DropOk.references
    {kr : KernReturn}
    (h : EntryOk space name port.toRightPort e)
    (hSend : Bearing machPortTypeSend e = true)
    (hShift : b >>> 16 = e.ieBits >>> 16)
    (hUrefs : ieBitsUrefs b ≠ 0)
    (hRoom : (ieBitsUrefs b).toNat < machPortUrefsMax)
    (hMem : n ∈ 0 :: c.adds)
    (hBy : UrefsBy e { e with ieBits := b } n) :
    DropOk c space name e port 0
      (quietly kr (some { e with ieBits := b }) port .keep) := by
  refine .quiet ?_ (bearing_of_shift hShift).symm
    (fun _ => (bearing_of_shift hShift).symm)
    (fun _ => (bearing_of_shift hShift).symm)
  intro e' hEq
  cases hEq
  exact ⟨h.references hSend hShift hUrefs hRoom,
    .of_shift hShift hMem hBy⟩

section

variable (h : EntryOk space name port.toRightPort e)
variable (hSend : Bearing machPortTypeSend e = true)
include h hSend

/- One reference less of a send right that has more. -/
theorem DropOk.pred
    (hUrefs : ieBitsUrefs e.ieBits ≠ 0)
    (hRoom : (ieBitsUrefs e.ieBits).toNat < machPortUrefsMax)
    (hMore : ieBitsUrefs e.ieBits ≠ 1)
    (hMem : -1 ∈ 0 :: c.adds) :
    DropOk c space name e port 0
      (quietly .success
        (some { e with ieBits := e.ieBits - 1 }) port
        .keep) := by
  have hPred := ieBitsUrefs_pred hUrefs
  have hNat : (ieBitsUrefs e.ieBits).toNat ≠ 1 := by
    intro hOne
    exact hMore (BitVec.eq_of_toNat_eq hOne)
  have hPos : (ieBitsUrefs e.ieBits).toNat ≠ 0 := by
    intro hZero
    exact hUrefs (BitVec.eq_of_toNat_eq hZero)
  refine .references h hSend (pred_shift hUrefs) ?_ ?_ hMem ?_
  · exact ne_zero_of_pos (by omega)
  · omega
  · unfold UrefsBy
    dsimp only
    omega

theorem dropLastSend_ok
    (hActive : port.ipActive = true)
    (hPos : 0 < port.ipSrights)
    (hTurn : (machPortTypeSendReceive, machPortTypeReceive, n) ∈
      c.turns)
    (hAll : ((ieBitsUrefs e.ieBits).toNat : Int) + n = 0) :
    DropOk c space name e port 0 (dropLastSend e port) := by
  have hRight := dropSend_right port
  have hTakes := dropSend_takes hPos
  have hSame : SameReceiver port port.dropSend.1 := by
    refine ⟨?_, ?_, ?_⟩ <;> rw [hRight]
  have hCount : port.dropSend.1.ipSrights =
      port.ipSrights - 1 := by
    rw [hRight]
  have hOnces : port.dropSend.1.ipSorights =
      port.ipSorights := by
    rw [hRight]
  have hDied : port.ipActive = false →
      port.dropSend.1 = port ∧ false = false := by
    intro hDead
    rw [hActive] at hDead
    cases hDead
  cases h with
  | send type urefs object room =>
      have hBit : e.ieBits &&& machPortTypeReceive = 0 := by
        rw [and_of_type type _ (by decide)]
        decide
      unfold dropLastSend
      rw [if_neg (not_not_intro hBit)]
      refine ⟨?_, Or.inl ⟨?_, hSame, rfl⟩, ?_, ?_, hDied,
        hTakes⟩
      · intro e' hEq
        cases hEq
      · rw [bearing_of_type type]
        rfl
      · intro _
        dsimp only [quietly, bears]
        rw [hSend, hCount]
        simp only [Bool.toNat_true, Bool.toNat_false]
        omega
      · intro _
        refine ⟨hOnces, ?_⟩
        rw [bearing_of_type type]
        rfl
  | sendReceive type urefs object room active receiver
      receiverName =>
      have hBit : e.ieBits &&& machPortTypeReceive ≠ 0 := by
        rw [and_of_type type _ (by decide)]
        decide
      rcases dropSend_bits type with ⟨hType, hUrefs⟩
      have hHigh : ieBitsHigh (e.ieBits &&&
          ~~~(ieBitsUrefsMask ||| machPortTypeSend)) =
            ieBitsHigh e.ieBits :=
        and_clear (by decide)
      unfold dropLastSend
      rw [if_pos hBit]
      refine ⟨?_, Or.inl ⟨?_, hSame, rfl⟩, ?_, ?_, hDied,
        hTakes⟩
      · intro e' hEq
        cases hEq
        refine ⟨.receive hType hUrefs object ?_ ?_ ?_,
          ⟨hHigh, .turns (n := n) ?_ ?_ ?_⟩, Or.inl rfl,
          fun _ => Or.inl rfl⟩
        · exact hSame.active.trans active
        · exact hSame.receiver.trans receiver
        · exact hSame.receiverName.trans receiverName
        · rw [type, hType]
          exact hTurn
        · rw [hType]
          decide
        · unfold UrefsBy
          rw [hUrefs, hAll]
          rfl
      · dsimp only [quietly, bears]
        rw [bearing_of_type type, bearing_of_type hType]
        decide
      · intro _
        dsimp only [quietly, bears]
        rw [hSend, hCount, bearing_of_type hType]
        have hBear : decide (machPortTypeReceive &&&
            machPortTypeSend ≠ 0) = false := by decide
        rw [hBear]
        simp only [Bool.toNat_true, Bool.toNat_false]
        omega
      · intro _
        refine ⟨hOnces, ?_⟩
        dsimp only [quietly, bears]
        rw [bearing_of_type type, bearing_of_type hType]
        decide
  | receive type | sendOnce type | portSet type
  | deadName type =>
      rw [bearing_of_type type] at hSend
      exact absurd hSend (by decide)

end

theorem dropSendOnce_ok
    (hType : ieBitsType e.ieBits = machPortTypeSendOnce)
    (hActive : port.ipActive = true) :
    DropOk c space name e port 0 (dropSendOnce e port) := by
  refine ⟨?_, Or.inl ⟨?_, .refl port, rfl⟩, ?_, ?_, ?_,
    .refl port⟩
  · intro e' hEq
    cases hEq
  · rw [bearing_of_type hType]
    rfl
  · intro _
    rw [bearing_of_type hType]
    rfl
  · intro _
    refine ⟨rfl, ?_⟩
    rw [bearing_of_type hType]
    rfl
  · intro hDead
    rw [hActive] at hDead
    cases hDead

end Send

------
-- Ends of Ports
------

section Destroy

variable {space name : Nat} {e : EntryFields}
variable {port : SenderPort} {circular : Bool} {timestamp : Nat}

/- Whether a port goes to its backup instead of dying. -/
def GoesToBackup
    (port : SenderPort)
    (circular : Bool) : Prop :=
  port.ipPdrequest = true ∧ circular = false

instance
    (port : SenderPort)
    (circular : Bool) :
    Decidable (GoesToBackup port circular) :=
  inferInstanceAs (Decidable (_ ∧ _))

/- What is left of a port that was to be destroyed. -/
structure EndOk
    (port : SenderPort)
    (circular : Bool)
    (ended : PortEnd) : Prop where
  srights : ended.port.ipSrights = port.ipSrights
  sorights : ended.port.ipSorights = port.ipSorights
  nsrequest : ended.port.ipNsrequest = port.ipNsrequest
  fate :
    GoesToBackup port circular ∧ ended.backup = true ∧
        ended.port.ipActive = true ∧
        ended.port.ipReceiverName = machPortNull ∧
        ended.port.ipMscount = 0 ∧ ended.thrown = none ∨
      ¬ GoesToBackup port circular ∧ ended.backup = false ∧
        ended.port.ipActive = false ∧
        ended.thrown = port.ipNsrequest

theorem ipcPortDestroy_ok
    (hActive : port.ipActive = true)
    (hMscount : port.ipMscount = 0) :
    ∃ ended,
      port.ipcPortDestroy circular timestamp = .ok ended ∧
        EndOk port circular ended := by
  unfold SenderPort.ipcPortDestroy
  rw [ipcAssert_of hActive, ipcAssert_of hMscount]
  by_cases hBackup : GoesToBackup port circular
  · refine ⟨_, if_pos hBackup, rfl, rfl, rfl, Or.inl ?_⟩
    exact ⟨hBackup, rfl, hActive, rfl, hMscount, rfl⟩
  · refine ⟨_, if_neg hBackup, ?_, ?_, ?_, Or.inr ?_⟩
    · split_ifs <;> rfl
    · split_ifs <;> rfl
    · split_ifs <;> rfl
    · refine ⟨hBackup, rfl, rfl, ?_⟩
      split_ifs <;> rfl

/- Clearing the receiver comes before the port is destroyed. -/
theorem clear_destroy_ok
    (circular : Bool)
    (timestamp : Nat)
    (hActive : port.ipActive = true) :
    ∃ cleared ended,
      port.ipcPortClearReceiver = .ok cleared ∧
        cleared.ipcPortDestroy circular timestamp =
          .ok ended ∧
        EndOk port circular ended := by
  rcases @ipcPortDestroy_ok
    { port with ipMscount := 0 } circular timestamp hActive rfl
    with ⟨ended, hRun, hEnd⟩
  refine ⟨_, ended, ?_, hRun, hEnd.srights, hEnd.sorights,
    hEnd.nsrequest, hEnd.fate⟩
  unfold SenderPort.ipcPortClearReceiver
  rw [ipcAssert_of hActive]
  rfl

/- The request of a port after the receive right went. -/
theorem EndOk.takes
    {port' : SenderPort}
    {notified : Option NoSenders}
    (h : EndOk port' circular ended)
    (hTakes : TakesRequest port port' notified none)
    (hActive : port.ipActive = true)
    (hLast : LastSend port port' ↔ LastSend port ended.port) :
    TakesRequest port ended.port notified ended.thrown := by
  refine ⟨?_, ?_, ?_⟩
  · rw [hTakes.notified]
    exact if_congr hLast rfl rfl
  · rw [h.nsrequest, hTakes.request]
    exact if_congr hLast rfl rfl
  · rcases h.fate with
      ⟨_, _, hLive, _, _, hNone⟩ | ⟨_, _, hDead, hThrown⟩
    · rw [hNone, if_neg]
      rintro ⟨_, hDead⟩
      rw [hLive] at hDead
      cases hDead
    · rw [hThrown, if_pos ⟨hActive, hDead⟩, h.nsrequest]

/- How much too high a lost receive right leaves the count. -/
def leakOf
    (e : EntryFields)
    (port : SenderPort)
    (circular : Bool) : Nat :=
  if Bearing machPortTypeSend e = true ∧
      GoesToBackup port circular then 1
  else 0

/- Where a port goes that lost its receive right. -/
theorem EndOk.receiver
    (h : EndOk port circular ended) :
    ended.port.ipActive = false ∧ ended.backup = false ∨
      ended.port.ipActive = true ∧
        ended.port.ipReceiverName = machPortNull ∧
        ended.port.ipMscount = 0 ∧ ended.backup = true := by
  rcases h.fate with
    ⟨_, hBackup, hLive, hName, hMscount, _⟩ |
    ⟨_, hBackup, hDead, _⟩
  · exact Or.inr ⟨hLive, hName, hMscount, hBackup⟩
  · exact Or.inl ⟨hDead, hBackup⟩

theorem EndOk.takes_refl
    (h : EndOk port circular ended)
    (hActive : port.ipActive = true) :
    TakesRequest port ended.port none ended.thrown := by
  refine h.takes (.refl port) hActive ?_
  unfold LastSend
  rw [h.srights]

theorem dropReceive_ok
    (h : EntryOk space name port.toRightPort e)
    (hReceive : Bearing machPortTypeReceive e = true)
    (hPos : Bearing machPortTypeSend e = true →
      0 < port.ipSrights)
    (hTurns : ∀ n, n = 0 ∨ n = 1 →
      (machPortTypeSendReceive, machPortTypeDeadName, n) ∈
        c.turns) :
    ∃ out,
      dropReceive space name e port circular timestamp =
          .ok out ∧
        DropOk c space name e port (leakOf e port circular)
          out := by
  rcases h.receiver_facts hReceive with
    ⟨hObject, hActive, hSpace, hName⟩
  rcases clear_destroy_ok circular timestamp hActive with
    ⟨cleared, ended, hClear, hDestroy, hEnd⟩
  have hTakes := hEnd.takes_refl hActive
  have hDied : port.ipActive = false →
      ended.port = port ∧ false = false := by
    intro hDead
    rw [hActive] at hDead
    cases hDead
  have hLive : ended.port.ipActive = true →
      GoesToBackup port circular := by
    intro hLive
    rcases hEnd.fate with ⟨hGoes, _⟩ | ⟨_, _, hDead, _⟩
    · exact hGoes
    · rw [hLive] at hDead
      cases hDead
  have hStart : ∀ run : Except Trap RightDrop,
      (do
        ipcAssert (e.ieObject ≠ ioNull)
        ipcAssert (port.ipActive = true)
        assertReceiver space name port.toRightPort
        run) = run := by
    intro run
    rw [ipcAssert_of (object_ne_null hObject).1,
      ipcAssert_of hActive, assertReceiver_of hName hSpace]
    rfl
  unfold dropReceive
  rw [hStart]
  cases h with
  | receive type urefs object active receiver receiverName =>
      have hBit : e.ieBits &&& machPortTypeSend = 0 := by
        rw [and_of_type type _ (by decide)]
        decide
      have hNone : Bearing machPortTypeSend e = false := by
        rw [bearing_of_type type]
        decide
      have hLeak : leakOf e port circular = 0 := by
        unfold leakOf
        rw [if_neg]
        rintro ⟨hSend, _⟩
        rw [hNone] at hSend
        cases hSend
      rw [if_neg (not_not_intro hBit), ipcAssert_of type,
        ipcAssert_of urefs, hClear, hLeak]
      simp only [bind, Except.bind, hDestroy]
      refine ⟨_, rfl, ?_, Or.inr ⟨hReceive, rfl,
        hEnd.receiver⟩, ?_, ?_, hDied, hTakes⟩
      · intro e' hEq
        cases hEq
      · intro _
        dsimp only [quietly, bears]
        rw [hEnd.srights, hNone]
        rfl
      · intro _
        rw [bearing_of_type type]
        exact ⟨hEnd.sorights, rfl⟩
  | sendReceive type urefs object room active receiver
      receiverName =>
      have hBit : e.ieBits &&& machPortTypeSend ≠ 0 := by
        rw [and_of_type type _ (by decide)]
        decide
      have hSend : Bearing machPortTypeSend e = true :=
        bears_of_type type (by decide)
      rcases diedEntry_facts urefs room with
        ⟨hIsDead, hHigh, hBy⟩
      unfold diedEntry at hIsDead hHigh hBy
      rw [← ite_not] at hIsDead hHigh hBy
      rw [if_pos hBit, ipcAssert_of type, ipcAssert_of urefs,
        ipcAssert_of room, ipcAssert_of (hPos hSend), hClear]
      simp only [bind, Except.bind, hDestroy]
      refine ⟨_, rfl, ?_, Or.inr ⟨hReceive, ?_,
        hEnd.receiver⟩, ?_, ?_, hDied, hTakes⟩
      · intro e' hEq
        cases hEq
        have hTurned : ∀ n, n = 0 ∨ n = 1 →
            UrefsBy e _ n → NoCarry c e _ := fun n hn hIs =>
          ⟨hHigh, .turns (by
            rw [hIsDead.1, type]
            exact hTurns n hn) (by
            rw [hIsDead.1]
            decide) hIs⟩
        refine ⟨.deadName hIsDead.1 hIsDead.2.1 rfl rfl,
          hBy.elim (hTurned 0 (Or.inl rfl))
            (hTurned 1 (Or.inr rfl)),
          Or.inr hIsDead, fun _ => Or.inr rfl⟩
      · exact not_bearing_of_dead hIsDead (by decide)
      · intro hActive'
        have hLeak : leakOf e port circular = 1 :=
          if_pos ⟨hSend, hLive hActive'⟩
        have hNone := @not_bearing_of_dead _ machPortTypeSend
          hIsDead (by decide)
        dsimp only [bears, quietly]
        rw [hEnd.srights, hSend, hLeak, hNone]
        rfl
      · intro _
        have hNone := @not_bearing_of_dead _
          machPortTypeSendOnce hIsDead (by decide)
        dsimp only [bears, quietly]
        rw [bearing_of_type type, hNone]
        exact ⟨hEnd.sorights, rfl⟩
  | send type | sendOnce type | portSet type | deadName type =>
      rw [bearing_of_type type] at hReceive
      exact absurd hReceive (by decide)

end Destroy

end Ipc

end OsfMach
