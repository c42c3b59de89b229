import OsfMach.Vm.Copyin
import OsfMach.Vm.MapCopyInv

/-
  What holds of a copy of a range while it is made.

  The references that the call holds are those of the entries
  that were linked, and one of the source while it is copied
  without the lock. The entries that were linked are a chain
  up to where the next one starts.

  Main declarations:
    * `CopyinState.Balanced`, `CopyinState.Covers`
    * `VmMap.startEntry_spec`
    * `CopyinState.Covers.step`
    * `CopyinState.Balanced.step_iff`
-/

------
-- Ledgers
------

namespace OsfMach

namespace Vm

open Function
open Lib

namespace RefLedger

variable {h h' k : RefLedger} {o x : MapObject}

/- Two ledgers of the objects there are. -/
def Agrees (h h' : RefLedger) : Prop :=
  ∀ o, o ≠ .vmObject none → h o = h' o

/- The references of some entries. -/
def ofEntries (l : List VmMapEntry) : RefLedger :=
  fun o => entryRefs l o

theorem take_apply
    (h : RefLedger)
    (hx : x ≠ .vmObject none) :
    (h.take o) x = h x + if o = x then 1 else 0 := by
  refine (count_apply h _ hx).trans ?_
  split_ifs with hEq
  · rw [hEq]
  · rw [Int.add_zero]

theorem drop_apply
    (h : RefLedger)
    (hx : x ≠ .vmObject none) :
    (h.drop o) x = h x - if o = x then 1 else 0 := by
  refine (count_apply h _ hx).trans ?_
  split_ifs with hEq
  · rw [hEq]
  · rw [Int.sub_zero]

theorem discard_apply
    (l : List VmMapEntry)
    (h : RefLedger)
    (hx : x ≠ .vmObject none) :
    (h.discard l) x = h x - ofEntries l x := by
  induction l generalizing h with
  | nil => simp [discard, ofEntries, entryRefs]
  | cons e l ih =>
      have hTail := ih (h.drop e.object)
      have hCons : ofEntries (e :: l) x =
          ofEntries l x + if e.object = x then 1 else 0 := by
        unfold ofEntries
        rw [entryRefs_cons]
        split_ifs
        · omega
        · omega
      have hFold : h.discard (e :: l) =
          (h.drop e.object).discard l := rfl
      rw [hFold, hTail, drop_apply h hx, hCons]
      omega

/- Another entry of the same object. -/
theorem ofEntries_snoc
    (l : List VmMapEntry)
    (e : VmMapEntry)
    (hx : x ≠ .vmObject none) :
    ofEntries (l ++ [e]) x =
      ((ofEntries l).take e.object) x := by
  rw [take_apply _ hx]
  have hNil : entryRefs [] x = 0 := rfl
  unfold ofEntries
  rw [entryRefs_append, entryRefs_cons, hNil]
  split_ifs
  · omega
  · omega

theorem Agrees.trans
    (hk : h.Agrees k)
    (hk' : k.Agrees h') :
    h.Agrees h' :=
  fun x hx => (hk x hx).trans (hk' x hx)

theorem Agrees.take
    (hh : h.Agrees h')
    (o : MapObject) :
    (h.take o).Agrees (h'.take o) := by
  intro x hx
  rw [take_apply h hx, take_apply h' hx, hh x hx]

theorem Agrees.drop
    (hh : h.Agrees h')
    (o : MapObject) :
    (h.drop o).Agrees (h'.drop o) := by
  intro x hx
  rw [drop_apply h hx, drop_apply h' hx, hh x hx]

theorem agrees_drop_take (h : RefLedger) (o : MapObject) :
    ((h.take o).drop o).Agrees h := by
  intro x hx
  rw [drop_apply _ hx, take_apply h hx]
  omega

theorem agrees_take_comm
    (h : RefLedger)
    (o o' : MapObject) :
    ((h.take o).take o').Agrees ((h.take o').take o) := by
  intro x hx
  rw [take_apply _ hx, take_apply h hx, take_apply _ hx,
    take_apply h hx]
  omega

theorem agrees_take_iff :
    (h.take o).Agrees h ↔ o = .vmObject none := by
  constructor
  · intro hSame
    by_contra hNone
    have hOne := hSame o hNone
    rw [take_apply h hNone, if_pos rfl] at hOne
    omega
  · intro hNone x hx
    unfold RefLedger.take
    rw [if_pos hNone]

theorem agrees_drop_iff :
    (h.drop o).Agrees h ↔ o = .vmObject none := by
  constructor
  · intro hSame
    by_contra hNone
    have hOne := hSame o hNone
    rw [drop_apply h hNone, if_pos rfl] at hOne
    omega
  · intro hNone x hx
    unfold RefLedger.drop
    rw [if_pos hNone]

/- What is left when some entries are discarded. -/
theorem agrees_discard_iff
    {l : List VmMapEntry} :
    (h.discard l).Agrees zero ↔ h.Agrees (ofEntries l) := by
  constructor
  · intro hNone x hx
    have hLeft := hNone x hx
    rw [discard_apply l h hx] at hLeft
    unfold RefLedger.zero at hLeft
    omega
  · intro hSame x hx
    rw [discard_apply l h hx, hSame x hx]
    unfold RefLedger.zero
    omega

end RefLedger

------
-- The Source Map
------

/- A map that was clipped, or in which an address was found. -/
structure Recut (m m' : VmMap) : Prop extends
    Steady m m' where
  view : ∀ a, m'.view a = m.view a

theorem Recut.trans
    {m m' m'' : VmMap}
    (h : Recut m m')
    (h' : Recut m' m'') :
    Recut m m'' :=
  ⟨h.toSteady.trans h'.toSteady,
    fun a => (h'.view a).trans (h.view a)⟩

namespace VmMap

variable {m : VmMap} {e : VmMapEntry} {start stop : Nat}

theorem clipStartAt_spec
    (h : MapOk m)
    (he : e ∈ m.entries)
    (hLo : e.vmeStart ≤ start)
    (hHi : start < e.vmeEnd)
    (hAt : Aligned start) :
    ∃ m' e', m.clipStartAt e.entryId start = some m' ∧
      Recut m m' ∧ e' ∈ m'.entries ∧
      e'.entryId = e.entryId ∧ e'.vmeStart = start := by
  rcases List.append_of_mem he with ⟨l, r, hSplit⟩
  rcases @MapInv.clipStart ⟨m, fun _ => 0⟩ l r e start
    (fun _ => 0) h.toMapInv hSplit hLo hHi hAt with
    ⟨s', l', back, hClip, hClipped, hEntries, hId, hStart,
      _⟩
  refine ⟨s'.map, back, ?_, ?_, ?_, hId, hStart⟩
  · unfold clipStartAt
    rw [hClip, Option.map_some]
  · exact ⟨h.steady hClipped.inv hClipped.sizes.1
      hClipped.sizes.2, hClipped.view⟩
  · rw [hEntries]
    simp

theorem clipEndAt_spec
    (h : MapOk m)
    (he : e ∈ m.entries)
    (hLo : e.vmeStart < stop)
    (hAt : Aligned stop) :
    ∃ m' e', m.clipEndAt e.entryId stop = some m' ∧
      Recut m m' ∧ e' ∈ m'.entries ∧
      e'.entryId = e.entryId ∧
      e'.vmeStart = e.vmeStart ∧
      e'.vmeEnd = min e.vmeEnd stop := by
  rcases List.append_of_mem he with ⟨l, r, hSplit⟩
  rcases @MapInv.clipEnd ⟨m, fun _ => 0⟩ l r e stop
    (fun _ => 0) h.toMapInv hSplit hLo hAt with
    ⟨s', front, r', hClip, hClipped, hEntries, hId, hStart,
      hEnd⟩
  refine ⟨s'.map, front, ?_, ?_, ?_, hId, hStart, ?_⟩
  · unfold clipEndAt
    rw [hClip, Option.map_some]
  · exact ⟨h.steady hClipped.inv hClipped.sizes.1
      hClipped.sizes.2, hClipped.view⟩
  · rw [hEntries]
    simp
  · rcases hEnd with ⟨hLe, hEnd, _⟩ | ⟨hLt, hEnd, _⟩
    · omega
    · omega

/- Nothing is there, or an entry that starts there. -/
theorem startEntry_spec
    (h : MapOk m)
    (hAt : Aligned start) :
    m.startEntry start = some none ∨
      ∃ m' e, m.startEntry start =
          some (some (e.entryId, m')) ∧
        Recut m m' ∧ e ∈ m'.entries ∧
        e.vmeStart = start := by
  have hLook := h.toMapCore.lookupEntry start
  rcases hLook.inv h.toMapInv with ⟨hInv, hEntries⟩
  rcases hLook.same with ⟨hint, hSame, _⟩
  unfold startEntry
  rcases hRun : m.lookupEntry start with ⟨found, i, m₁⟩
  rw [hRun] at hLook hInv hEntries hSame
  dsimp only at hLook hInv hEntries hSame
  have hMoved : Recut m m₁ := by
    refine ⟨h.steady hInv ?_ ?_, ?_⟩
    · rw [hSame]
      rfl
    · rw [hSame]
      rfl
    · intro a
      unfold VmMap.view
      rw [hEntries]
  cases found with
  | false => exact Or.inl rfl
  | true =>
      rcases hLook.inside rfl with
        ⟨l, e, r, hSplit, hi, hLo, hHi⟩
      have he : e ∈ m₁.entries := by
        rw [hEntries, hSplit]
        simp
      rcases clipStartAt_spec hMoved.ok he hLo hHi hAt with
        ⟨m₂, e₂, hClip, hCut, he₂, hId, hStart⟩
      right
      refine ⟨m₂, e₂, ?_, hMoved.trans hCut, he₂, hStart⟩
      rw [hi]
      dsimp only
      rw [hClip, hId, Option.map_some]

end VmMap

------
-- The Chain
------

/- Where the loop is, when its end is not the top. -/
structure CopyinPlace
    (args : CopyinArgs)
    (s : CopyinState) : Prop where
  ok : MapOk s.map
  aligned : Aligned s.srcStart
  less : s.srcStart < args.srcEnd
  chain : CopyChain s.copy args.srcStart s.srcStart

/- The map was clipped, or changed without moving entries. -/
theorem CopyinPlace.onMap
    {args : CopyinArgs}
    {s q : CopyinState}
    (h : CopyinPlace args s)
    (hMap : MapOk q.map)
    (hCopy : q.copy = s.copy)
    (hStart : q.srcStart = s.srcStart) :
    CopyinPlace args q := by
  refine ⟨hMap, ?_, ?_, ?_⟩
  · rw [hStart]
    exact h.aligned
  · rw [hStart]
    exact h.less
  · rw [hCopy, hStart]
    exact h.chain

/- The entry that is to be linked comes next. -/
structure CopyinNext
    (args : CopyinArgs)
    (s : CopyinState)
    (w : CopyinWork) : Prop where
  start : w.new.vmeStart = s.srcStart
  pos : w.new.vmeStart < w.new.vmeEnd
  stop : w.new.vmeEnd ≤ args.srcEnd
  aligned : Aligned w.new.vmeStart ∧ Aligned w.new.vmeEnd

/- So it does in another state, as long as it is the same. -/
theorem CopyinNext.of_new
    {args : CopyinArgs}
    {s q : CopyinState}
    {w w' : CopyinWork}
    (h : CopyinNext args s w)
    (hAt : q.srcStart = s.srcStart)
    (hStart : w'.new.vmeStart = w.new.vmeStart)
    (hEnd : w'.new.vmeEnd = w.new.vmeEnd) :
    CopyinNext args q w' := by
  constructor
  · rw [hStart, hAt]
    exact h.start
  · rw [hStart, hEnd]
    exact h.pos
  · rw [hEnd]
    exact h.stop
  · rw [hStart, hEnd]
    exact h.aligned

namespace CopyinState

variable {r : Relock} {result : CopyResult}
variable {kr : KernReturn} {internal : Bool} {i : Nat}
variable {symmetric : Bool} {object : MapObject}
variable {offset : Nat} {needsCopy : Bool}

/- What was linked is a chain. -/
def Covers (args : CopyinArgs) (s : CopyinState) : Prop :=
  match s.phase with
  | .top tmp _ =>
      CopyinPlace args s ∧ PtrAt s.map tmp s.srcStart
  | .restart w => CopyinPlace args s ∧ CopyinNext args s w
  | .blocked w => CopyinPlace args s ∧ CopyinNext args s w
  | .deleting => CopyChain s.copy args.srcStart args.srcEnd
  | .done .success (some copy) =>
      CopyChain copy args.srcStart args.srcEnd
  | .done _ _ => True

/-
  When the time stamp is as it was, an entry that the loop
  points to starts where it did.
-/
def StampTells (s : CopyinState) : CopyinInput → Prop
| .alloc r =>
    ∀ tmp hasNew, s.phase = .top tmp hasNew →
      r.sameStamp = true → PtrAt r.found tmp s.srcStart
| _ => True

variable {args : CopyinArgs} {s q : CopyinState}
variable {w : CopyinWork}

theorem covers_fail :
    (s.fail kr).Covers args := by
  cases kr <;> exact trivial

/- The entry that the loop takes from its source. -/
def entered
    (s : CopyinState)
    (i : Nat)
    (e : VmMapEntry) : CopyinWork :=
  { src := i
    new := entryCopy e
    srcObject := e.object
    srcOffset := e.offset
    srcSize := e.vmeEnd - s.srcStart
    wasWired := e.wiredCount != 0 }

/- The state after an entry is linked. -/
def added (s : CopyinState) (w : CopyinWork) : CopyinState :=
  { s with
    copy := s.copy.link w.new
    srcStart := w.new.vmeEnd
    linked := s.linked ++
      [⟨w.new, w.srcObject, w.srcOffset, s.locked⟩] }

/- It was the last one, or another comes next, or a gap. -/
theorem link_cases
    (hLink : s.link args w = some q) :
    (args.srcEnd ≤ w.new.vmeEnd ∧ args.srcEnd ≠ 0) ∧
        (q = { s.added w with phase := .deleting } ∨
          q = { s.added w with
            phase := .done .success
              (some (s.copy.link w.new)) }) ∨
      ¬ (args.srcEnd ≤ w.new.vmeEnd ∧ args.srcEnd ≠ 0) ∧
        ∃ b, s.map.bounds (s.map.vmeNext (some w.src)) =
            some b ∧
          (q = (s.added w).fail .invalidAddress ∨
            b.1 = w.new.vmeEnd ∧
            q = { s.added w with
              phase := .top (s.map.vmeNext (some w.src))
                false }) := by
  unfold link at hLink
  by_cases hLast : args.srcEnd ≤ w.new.vmeEnd ∧
      args.srcEnd ≠ 0
  · rw [if_pos hLast] at hLink
    cases hLink
    cases args.srcDestroy with
    | true => exact Or.inl ⟨hLast, Or.inl rfl⟩
    | false => exact Or.inl ⟨hLast, Or.inr rfl⟩
  · rw [if_neg hLast] at hLink
    rcases Option.map_eq_some_iff.mp hLink with
      ⟨b, hBounds, hEq⟩
    refine Or.inr ⟨hLast, b, hBounds, ?_⟩
    split_ifs at hEq with hGap
    · exact Or.inl hEq.symm
    · exact Or.inr ⟨not_not.mp hGap, hEq.symm⟩

section

variable (hPlace : CopyinPlace args s)
include hPlace

/- Linking the next entry. -/
theorem covers_link
    (hNext : CopyinNext args s w)
    (hLink : s.link args w = some q) :
    q.Covers args := by
  have hChain : CopyChain (s.copy.link w.new) args.srcStart
      w.new.vmeEnd :=
    hPlace.chain.link hNext.start hNext.pos hNext.aligned
  have hStop := hNext.stop
  have hLess := hPlace.less
  rcases link_cases hLink with
    ⟨hLast, rfl | rfl⟩ | ⟨hLast, b, hBounds, rfl | ⟨hAt, rfl⟩⟩
  · rw [show w.new.vmeEnd = args.srcEnd by omega] at hChain
    exact hChain
  · rw [show w.new.vmeEnd = args.srcEnd by omega] at hChain
    exact hChain
  · exact covers_fail
  · refine ⟨⟨hPlace.ok, hNext.aligned.2, ?_, hChain⟩, ?_⟩
    · unfold added
      dsimp only
      omega
    · intro e he hPtr
      rw [hPtr, hPlace.ok.toMapOrder.bounds_eq he] at hBounds
      cases hBounds
      exact hAt

theorem covers_lookAgain
    (hFound : MapOk r.found)
    (hLook : s.lookAgain r = some q) :
    q.Covers args := by
  unfold lookAgain at hLook
  rcases VmMap.startEntry_spec hFound hPlace.aligned with
    hNone | ⟨m, e, hFound, hCut, he, hStart⟩
  · rw [hNone] at hLook
    cases hLook
    exact covers_fail
  · rw [hFound] at hLook
    cases hLook
    refine ⟨hPlace.onMap hCut.ok rfl rfl, ?_⟩
    intro x hx hPtr
    rw [← hStart]
    have hSame : x = e :=
      hCut.ok.toMapOrder.eq_of_id hx he
        (Option.some.inj hPtr).symm
    rw [hSame]

/- The entry is clipped, and linked or copied. -/
theorem enter_cases
    (hPtr : PtrAt s.map (some i) s.srcStart)
    (hEnter : s.enter args internal i = some q) :
    q = s.fail .protectionFailure ∨
      ∃ e m e',
        e ∈ s.map.entries ∧ e.vmeStart = s.srcStart ∧
        ¬ args.unreadable e = true ∧
        s.map.clipEndAt e.entryId args.srcEnd = some m ∧
        Recut s.map m ∧ e' ∈ m.entries ∧ e'.entryId = i ∧
        e'.vmeStart = s.srcStart ∧ e'.vmeEnd ≤ e.vmeEnd ∧
        CopyinNext args s (s.entered i e') ∧
        ((∃ held,
            link args { s with map := m, held := held }
              (s.entered i e') = some q) ∨
          q = { s with
            map := m
            phase := .restart (s.entered i e') }) := by
  have hEndAt : Aligned args.srcEnd := roundPage_aligned _
  rcases Option.bind_eq_some_iff.mp hEnter with
    ⟨e, hFind, hEnter⟩
  rcases mem_of_find hFind with ⟨he, hId⟩
  have hStart := hPtr e he (hId ▸ rfl)
  by_cases hProt : args.unreadable e = true
  · rw [if_pos hProt] at hEnter
    cases hEnter
    exact Or.inl rfl
  have hLess := hPlace.less
  rcases VmMap.clipEndAt_spec hPlace.ok he (by omega) hEndAt
    with ⟨m, e', hClip, hCut, he', hId', hStart', hEnd'⟩
  rw [if_neg hProt, ← hId, hClip, Option.bind_some, ← hId',
    hCut.ok.toMapOrder.find_eq he', Option.bind_some]
    at hEnter
  have hIn := hCut.ok.toMapOrder.place he'
  have hNext : CopyinNext args s (s.entered i e') := by
    refine ⟨hStart'.trans hStart, hIn.2.1, ?_,
      hCut.ok.aligned e' he'⟩
    have hNewEnd : (s.entered i e').new.vmeEnd =
        e'.vmeEnd := rfl
    omega
  refine Or.inr ⟨e, m, e', he, hStart, hProt, hClip, hCut,
    he', hId'.trans hId, hStart'.trans hStart, by omega, hNext,
    ?_⟩
  rw [hId', hId] at hEnter
  dsimp only at hEnter
  split_ifs at hEnter
  · exact Or.inl ⟨_, hEnter⟩
  · cases hEnter
    exact Or.inr rfl

theorem covers_enter
    (hPtr : PtrAt s.map (some i) s.srcStart)
    (hEnter : s.enter args internal i = some q) :
    q.Covers args := by
  rcases enter_cases hPlace hPtr hEnter with
    hEq | ⟨_, m, e, _, _, _, _, hCut, _, _, _, _, hNext, hRest⟩
  · rw [hEq]
    exact covers_fail
  · rcases hRest with ⟨held, hLink⟩ | hEq
    · refine covers_link ?_ ?_ hLink
      · exact hPlace.onMap hCut.ok rfl rfl
      · exact hNext.of_new rfl rfl rfl
    · rw [hEq]
      exact ⟨hPlace.onMap hCut.ok rfl rfl,
        hNext.of_new rfl rfl rfl⟩

theorem covers_quickly
    (hNext : CopyinNext args s w)
    (hQuickly : s.quickly args symmetric w = some q) :
    q.Covers args := by
  unfold quickly at hQuickly
  split_ifs at hQuickly
  · refine covers_link hPlace ?_ hQuickly
    exact hNext.of_new rfl rfl rfl
  · have hMap : MapOk (obliges w.src s.map) :=
      (hPlace.ok.modify keepsRange_needsCopy w.src).ok
    refine covers_link ?_ ?_ hQuickly
    · exact hPlace.onMap hMap rfl rfl
    · exact hNext.of_new rfl rfl rfl
  · cases hQuickly
    exact ⟨hPlace.onMap hPlace.ok rfl rfl,
        hNext.of_new rfl rfl rfl⟩

end

theorem copiedEntry_place
    (w : CopyinWork)
    (result : CopyResult) :
    (copiedEntry w result).vmeStart = w.new.vmeStart ∧
      (copiedEntry w result).vmeEnd = w.new.vmeEnd := by
  cases result with
  | success object offset needsCopy =>
      unfold copiedEntry
      split_ifs
      · exact ⟨rfl, rfl⟩
      · exact ⟨rfl, rfl⟩
  | restart => exact ⟨rfl, rfl⟩
  | failed kr => exact ⟨rfl, rfl⟩

theorem covers_verified
    (hPlace : CopyinPlace args s)
    (hNext : CopyinNext args s w)
    (hVerified : s.verified args w result = some q) :
    q.Covers args := by
  cases result with
  | restart =>
      cases hVerified
      exact ⟨hPlace.onMap hPlace.ok rfl rfl,
        hNext.of_new rfl rfl rfl⟩
  | success object offset needsCopy =>
      exact covers_link hPlace hNext hVerified
  | failed kr => exact covers_link hPlace hNext hVerified

/- The test of the protection never fails. -/
theorem readable_again
    (args : CopyinArgs)
    (e : VmMapEntry) :
    ¬ args.unreadableAgain e = true := by
  simp [CopyinArgs.unreadableAgain, CopyinArgs.readIsNone,
    protRead]

/- The entry that is linked after the second lookup. -/
def reverified
    (s : CopyinState)
    (w : CopyinWork)
    (i : Nat)
    (e : VmMapEntry) : CopyinWork :=
  { w with
    src := i
    srcSize :=
      if e.vmeEnd < w.new.vmeEnd then e.vmeEnd - s.srcStart
      else w.srcSize
    new := { w.new with vmeEnd := min w.new.vmeEnd e.vmeEnd } }

/-
  After the second lookup the call fails when nothing is
  mapped, starts over when something else is, and goes on
  otherwise, whatever the protection is.
-/
theorem verify_cases
    (hVerify : s.verify args r w result = some q) :
    r.found.startEntry s.srcStart = some none ∧
        q = { s with map := r.found }.fail .invalidAddress ∨
      ∃ i m e,
        r.found.startEntry s.srcStart = some (some (i, m)) ∧
        m.find i = some e ∧
        ((e.object ≠ w.srcObject ∨ e.offset ≠ w.srcOffset) ∧
            q = { s with
              map := m
              phase := .top (some i) true
              held := s.held.drop w.new.object } ∨
          (e.object = w.srcObject ∧ e.offset = w.srcOffset) ∧
            verified args { s with map := m }
              (s.reverified w i e) result = some q) := by
  rcases Option.bind_eq_some_iff.mp hVerify with
    ⟨look, hStart, hVerify⟩
  cases look with
  | none =>
      cases hVerify
      exact Or.inl ⟨hStart, rfl⟩
  | some found =>
      rcases found with ⟨i, m⟩
      rcases Option.bind_eq_some_iff.mp hVerify with
        ⟨e, hFind, hVerify⟩
      refine Or.inr ⟨i, m, e, hStart, hFind, ?_⟩
      rw [if_neg (readable_again args e)] at hVerify
      by_cases hOther : e.object ≠ w.srcObject ∨
          e.offset ≠ w.srcOffset
      · rw [if_pos hOther] at hVerify
        cases hVerify
        exact Or.inl ⟨hOther, rfl⟩
      · rw [if_neg hOther] at hVerify
        refine Or.inr ⟨?_, hVerify⟩
        exact ⟨not_not.mp (not_or.mp hOther).1,
          not_not.mp (not_or.mp hOther).2⟩

/- The entry of the second lookup, which may be shorter. -/
theorem reverified_next
    {m : VmMap}
    {e : VmMapEntry}
    (hPlace : CopyinPlace args s)
    (hNext : CopyinNext args s w)
    (hFound : MapOk r.found)
    (hLook : r.found.startEntry s.srcStart =
      some (some (i, m)))
    (hFind : m.find i = some e) :
    Recut r.found m ∧ e ∈ m.entries ∧ e.entryId = i ∧
      e.vmeStart = s.srcStart ∧
      CopyinNext args s (s.reverified w i e) := by
  rcases VmMap.startEntry_spec hFound hPlace.aligned with
    hNone | ⟨m', e', hSome, hCut, he, hStart⟩
  · rw [hNone] at hLook
    cases hLook
  rw [hSome] at hLook
  cases hLook
  rw [hCut.ok.toMapOrder.find_eq he] at hFind
  cases hFind
  have hIn := hCut.ok.toMapOrder.place he
  have hAligned := hCut.ok.aligned e he
  have hEnds : (s.reverified w e.entryId e).new.vmeStart =
        w.new.vmeStart ∧
      (s.reverified w e.entryId e).new.vmeEnd =
        min w.new.vmeEnd e.vmeEnd := ⟨rfl, rfl⟩
  have hWas := hNext.start
  have hPos := hNext.pos
  have hStop := hNext.stop
  refine ⟨hCut, he, rfl, hStart, hWas, by omega, by omega, ?_⟩
  rw [hEnds.1, hEnds.2]
  refine ⟨hNext.aligned.1, ?_⟩
  rcases Nat.le_total w.new.vmeEnd e.vmeEnd with hLe | hLe
  · rw [Nat.min_eq_left hLe]
    exact hNext.aligned.2
  · rw [Nat.min_eq_right hLe]
    exact hAligned.2

theorem covers_verify
    (hPlace : CopyinPlace args s)
    (hNext : CopyinNext args s w)
    (hFound : MapOk r.found)
    (hVerify : s.verify args r w result = some q) :
    q.Covers args := by
  rcases verify_cases hVerify with
    ⟨_, hEq⟩ | ⟨i, m, e, hLook, hFind, hRest⟩
  · rw [hEq]
    exact covers_fail
  rcases reverified_next hPlace hNext hFound hLook hFind with
    ⟨hCut, he, hId, hStart, hAgain⟩
  rcases hRest with ⟨_, hEq⟩ | ⟨_, hVerified⟩
  · rw [hEq]
    refine ⟨hPlace.onMap hCut.ok rfl rfl, ?_⟩
    intro x hx hSame
    rw [hCut.ok.toMapOrder.eq_of_id hx he
      ((Option.some.inj hSame).symm.trans hId.symm)]
    exact hStart
  · refine covers_verified ?_ ?_ hVerified
    · exact hPlace.onMap hCut.ok rfl rfl
    · exact hAgain.of_new rfl rfl rfl

/-
  A copy that failed ends the call. Another is verified, by
  the time stamp or by a second lookup.
-/
theorem copied_cases
    (hCopied : s.copied args w result r = some q) :
    (∃ kr, result = .failed kr ∧ kr ≠ .success ∧
        q = { s with
          map := r.found, locked := r.found }.fail kr) ∨
      (∀ kr, result ≠ .failed kr) ∧ ∃ held,
        (r.sameStamp = true ∧
            verified args
              { s with map := r.found, locked := r.found
                       held := held }
              { w with new := copiedEntry w result } result =
                some q ∨
          r.sameStamp = false ∧
            verify args
              { s with map := r.found, locked := r.found
                       held := held } r
              { w with new := copiedEntry w result } result =
                some q) := by
  cases result with
  | failed kr =>
      left
      unfold copied at hCopied
      dsimp only at hCopied
      split_ifs at hCopied with hNot
      cases hCopied
      exact ⟨kr, rfl, fun hEq => hNot (Or.inl hEq), rfl⟩
  | success object offset needsCopy | restart =>
      right
      unfold copied at hCopied
      dsimp only at hCopied
      by_cases hStamp : r.sameStamp = true
      · rw [if_pos hStamp] at hCopied
        exact ⟨by simp, _, Or.inl ⟨hStamp, hCopied⟩⟩
      · rw [if_neg hStamp] at hCopied
        exact ⟨by simp, _, Or.inr
          ⟨Bool.eq_false_iff.mpr hStamp, hCopied⟩⟩

/- The entry is where it was after a copy. -/
theorem copiedEntry_next
    (hNext : CopyinNext args s w)
    (hSame : q.srcStart = s.srcStart)
    (result : CopyResult) :
    CopyinNext args q
      { w with new := copiedEntry w result } :=
  hNext.of_new hSame (copiedEntry_place w result).1
    (copiedEntry_place w result).2

theorem covers_copied
    (hPlace : CopyinPlace args s)
    (hNext : CopyinNext args s w)
    (hFound : MapOk r.found)
    (hCopied : s.copied args w result r = some q) :
    q.Covers args := by
  rcases copied_cases hCopied with
    ⟨kr, _, _, hEq⟩ | ⟨_, held, ⟨_, hRun⟩ | ⟨_, hRun⟩⟩
  · rw [hEq]
    exact covers_fail
  · refine covers_verified ?_ ?_ hRun
    · exact hPlace.onMap hFound rfl rfl
    · apply copiedEntry_next hNext
      rfl
  · refine covers_verify ?_ ?_ hFound hRun
    · exact hPlace.onMap hFound rfl rfl
    · apply copiedEntry_next hNext
      rfl

/- A step keeps the chain, if the time stamp tells changes. -/
theorem Covers.step
    {a : CopyinInput}
    (h : s.Covers args)
    (hTells : s.StampTells a)
    (hStep : copyinStep args s a = some q) :
    q.Covers args := by
  unfold copyinStep at hStep
  split at hStep
  case h_1 tmp r hPhase =>
    unfold Covers at h
    rw [hPhase] at h
    rcases h with ⟨hPlace, _⟩
    split_ifs at hStep with hFollows hStamp
    · cases hStep
      exact ⟨hPlace.onMap (hFollows.mapOk hPlace.ok) rfl rfl,
        hTells tmp false hPhase hStamp⟩
    · exact covers_lookAgain
        (hPlace.onMap (q := { s with locked := r.found })
          hPlace.ok rfl rfl) (hFollows.mapOk hPlace.ok) hStep
  case h_2 i internal hPhase =>
    unfold Covers at h
    rw [hPhase] at h
    exact covers_enter h.1 h.2 hStep
  case h_3 w symmetric hPhase =>
    unfold Covers at h
    rw [hPhase] at h
    exact covers_quickly h.1 h.2 hStep
  case h_4 w result r hPhase =>
    unfold Covers at h
    rw [hPhase] at h
    split_ifs at hStep with hFollows
    exact covers_copied h.1 h.2
      (hFollows.1.mapOk h.1.ok) hStep
  case h_5 r hPhase =>
    unfold Covers at h
    rw [hPhase] at h
    cases hStep
    exact h
  case h_6 => cases hStep

/- The call when it comes to its loop. -/
def atLoop
    (args : CopyinArgs)
    (m m' : VmMap)
    (i : Nat) : CopyinState :=
  { map := m'
    phase := .top (some i) true
    copy := ⟨.entryList, args.srcAddr, args.len, [], 0⟩
    srcStart := args.srcStart
    held := .zero
    locked := m
    linked := [] }

/- A call returns at once, or comes to its loop. -/
theorem copyinStart_cases
    {m : VmMap}
    (hMap : MapOk m)
    (hStart : copyinStart args m = some s) :
    (∃ kr, s = copyinReturn m kr ∧
        (kr = .success ∧ args.len = 0 ∨
          kr = .invalidAddress)) ∨
      ∃ m' e,
        (args.srcStart < args.srcEnd ∨
          args.srcStart = 0 ∧ args.srcEnd = 0) ∧
        m.startEntry args.srcStart =
          some (some (e.entryId, m')) ∧
        Recut m m' ∧ e ∈ m'.entries ∧
        e.vmeStart = args.srcStart ∧
        s = atLoop args m m' e.entryId := by
  unfold copyinStart at hStart
  split_ifs at hStart with hLen hRange
  · cases hStart
    exact Or.inl ⟨_, rfl, Or.inl ⟨rfl, hLen⟩⟩
  · cases hStart
    exact Or.inl ⟨_, rfl, Or.inr rfl⟩
  have hAligned : Aligned args.srcStart :=
    truncPage_aligned _
  rcases VmMap.startEntry_spec hMap hAligned with
    hNone | ⟨m', e, hFound, hCut, he, hAt⟩
  · rw [hNone] at hStart
    cases hStart
    exact Or.inl ⟨_, rfl, Or.inr rfl⟩
  · rw [hFound] at hStart
    cases hStart
    exact Or.inr ⟨m', e, by omega, hFound, hCut, he, hAt, rfl⟩

------
-- The References
------

open RefLedger

/-
  The references that the call holds are those of its copy,
  and one of the source while that is copied. None are left
  when it fails.
-/
def Balanced (s : CopyinState) : Prop :=
  match s.phase with
  | .restart w =>
      w.new.object = w.srcObject ∧
        s.held.Agrees (ofEntries s.copy.entries)
  | .blocked w =>
      w.new.object = w.srcObject ∧
        w.srcObject ≠ .vmObject none ∧
        s.held.Agrees
          ((ofEntries s.copy.entries).take w.srcObject)
  | .done .success (some copy) =>
      s.held.Agrees (ofEntries copy.entries)
  | .done _ _ => s.held.Agrees zero
  | _ => s.held.Agrees (ofEntries s.copy.entries)

/-
  What the other threads and the object layer have to answer
  for the references to be given back. A copy that is made
  without the lock does not fail, and when it is made the
  source is still mapped. One that is to be made again finds
  the object and the offset as they were.
-/
def GivesBack (s : CopyinState) : CopyinInput → Prop
| .copied (.failed _) _ => False
| .copied (.success object _ _) r =>
    r.sameStamp = false →
      r.found.startEntry s.srcStart = some none →
      object = .vmObject none
| .copied .restart r =>
    ∀ w,
      s.phase = .blocked w →
      r.sameStamp = false →
      ∀ i m e,
        r.found.startEntry s.srcStart = some (some (i, m)) →
        m.find i = some e →
        e.object = w.srcObject ∧ e.offset = w.srcOffset
| _ => True

theorem balanced_fail_iff :
    (s.fail kr).Balanced ↔
      s.held.Agrees (ofEntries s.copy.entries) := by
  rw [← agrees_discard_iff]
  cases kr <;> exact Iff.rfl

theorem balanced_link
    (hHeld : s.held.Agrees
      ((ofEntries s.copy.entries).take w.new.object))
    (hLink : s.link args w = some q) :
    q.Balanced := by
  have hSnoc : s.held.Agrees
      (ofEntries (s.copy.entries ++ [w.new])) := by
    intro x hx
    rw [hHeld x hx, ofEntries_snoc _ _ hx]
  rcases link_cases hLink with
    ⟨_, rfl | rfl⟩ | ⟨_, b, _, rfl | ⟨_, rfl⟩⟩
  · exact hSnoc
  · exact hSnoc
  · exact balanced_fail_iff.mpr hSnoc
  · exact hSnoc

theorem balanced_verified
    (hHeld : s.held.Agrees
      ((ofEntries s.copy.entries).take w.new.object))
    (hVerified : s.verified args w
      (.success object offset needsCopy) = some q) :
    q.Balanced := by
  unfold verified at hVerified
  exact balanced_link hHeld hVerified

theorem balanced_lookAgain
    (hHeld : s.held.Agrees (ofEntries s.copy.entries))
    (hLook : s.lookAgain r = some q) :
    q.Balanced := by
  rcases Option.map_eq_some_iff.mp hLook with
    ⟨look, hStart, hEq⟩
  subst hEq
  cases look with
  | none => exact balanced_fail_iff.mpr hHeld
  | some found => exact hHeld

theorem balanced_enter
    (hHeld : s.held.Agrees (ofEntries s.copy.entries))
    (hEnter : s.enter args internal i = some q) :
    q.Balanced := by
  rcases Option.bind_eq_some_iff.mp hEnter with
    ⟨e, _, hEnter⟩
  split_ifs at hEnter
  · cases hEnter
    exact balanced_fail_iff.mpr hHeld
  rcases Option.bind_eq_some_iff.mp hEnter with
    ⟨m, _, hEnter⟩
  rcases Option.bind_eq_some_iff.mp hEnter with
    ⟨e', _, hEnter⟩
  split_ifs at hEnter
  · refine balanced_link ?_ hEnter
    exact hHeld.take e'.object
  · cases hEnter
    exact ⟨rfl, hHeld⟩

theorem balanced_quickly
    (hSame : w.new.object = w.srcObject)
    (hHeld : s.held.Agrees (ofEntries s.copy.entries))
    (hQuickly : s.quickly args symmetric w = some q) :
    q.Balanced := by
  unfold quickly at hQuickly
  split_ifs at hQuickly with hNone hSym hNull
  · refine balanced_link ?_ hQuickly
    unfold RefLedger.take
    rw [if_pos hNone.2]
    exact hHeld
  · refine balanced_link ?_ hQuickly
    exact hHeld.take w.new.object
  · cases hQuickly
    exact ⟨hSame, hNull, hHeld.take w.srcObject⟩

theorem copiedEntry_object
    (w : CopyinWork)
    (object : MapObject)
    (offset : Nat)
    (needsCopy : Bool) :
    (copiedEntry w
      (.success object offset needsCopy)).object = object := by
  unfold copiedEntry
  split_ifs
  · rfl
  · rfl

/-
  After a copy that succeeded the call holds the new object
  for the entry, and lets go of it if the source is another.
-/
theorem balanced_success_iff
    (hHeld : s.held.Agrees
      ((ofEntries s.copy.entries).take w.srcObject))
    (hCopied : s.copied args w
      (.success object offset needsCopy) r = some q) :
    q.Balanced ↔
      s.GivesBack
        (.copied (.success object offset needsCopy) r) := by
  have hNew := copiedEntry_object w object offset needsCopy
  have hTaken : (copiedHeld s.held w
      (.success object offset needsCopy)).Agrees
        ((ofEntries s.copy.entries).take object) := by
    have hSwap := ((hHeld.take object).trans
      (agrees_take_comm _ w.srcObject object)).drop w.srcObject
    exact hSwap.trans (agrees_drop_take _ w.srcObject)
  unfold copied at hCopied
  dsimp only at hCopied
  by_cases hStamp : r.sameStamp = true
  · rw [if_pos hStamp] at hCopied
    refine iff_of_true ?_ ?_
    · refine balanced_verified ?_ hCopied
      rw [hNew]
      exact hTaken
    · intro hNot
      rw [hStamp] at hNot
      cases hNot
  rw [if_neg hStamp] at hCopied
  have hChanged := Bool.eq_false_iff.mpr hStamp
  rcases verify_cases hCopied with
    ⟨hStart, hEq⟩ | ⟨i, m, e, hStart, _, hRest⟩
  · rw [hEq, balanced_fail_iff]
    constructor
    · intro hSame _ _
      have hNone : ((ofEntries s.copy.entries).take
          object).Agrees (ofEntries s.copy.entries) :=
        fun x hx => (hTaken x hx).symm.trans (hSame x hx)
      exact agrees_take_iff.mp hNone
    · intro hGives
      exact hTaken.trans
        (agrees_take_iff.mpr (hGives hChanged hStart))
  · refine iff_of_true ?_ ?_
    · rcases hRest with ⟨_, hEq⟩ | ⟨_, hVerified⟩
      · have hLetGo : q.held.Agrees
            (ofEntries s.copy.entries) := by
          rw [hEq]
          rw [hNew]
          exact (hTaken.drop object).trans
            (agrees_drop_take _ object)
        rw [hEq] at hLetGo ⊢
        exact hLetGo
      · refine balanced_verified ?_ hVerified
        unfold reverified
        rw [hNew]
        exact hTaken
    · intro _ hNone
      rw [hStart] at hNone
      cases hNone

/-
  After a copy that is to be made again the call holds
  nothing for the entry, and yet it lets go of the object if
  the source is another one.
-/
theorem balanced_restart_iff
    (hPhase : s.phase = .blocked w)
    (hSame : w.new.object = w.srcObject)
    (hSome : w.srcObject ≠ .vmObject none)
    (hHeld : s.held.Agrees
      ((ofEntries s.copy.entries).take w.srcObject))
    (hCopied : s.copied args w .restart r = some q) :
    q.Balanced ↔ s.GivesBack (.copied .restart r) := by
  have hDropped : (copiedHeld s.held w .restart).Agrees
      (ofEntries s.copy.entries) :=
    (hHeld.drop w.srcObject).trans
      (agrees_drop_take _ w.srcObject)
  unfold copied at hCopied
  dsimp only at hCopied
  by_cases hStamp : r.sameStamp = true
  · rw [if_pos hStamp] at hCopied
    cases hCopied
    refine iff_of_true ⟨hSame, hDropped⟩ ?_
    intro w' _ hNot
    rw [hStamp] at hNot
    cases hNot
  have hChanged := Bool.eq_false_iff.mpr hStamp
  rw [if_neg hStamp] at hCopied
  rcases verify_cases hCopied with
    ⟨hStart, hEq⟩ | ⟨i, m, e, hStart, hFind, hRest⟩
  · rw [hEq]
    refine iff_of_true (balanced_fail_iff.mpr hDropped) ?_
    intro w' _ _ i m e hFound
    rw [hStart] at hFound
    cases hFound
  have hOnly : s.GivesBack (.copied .restart r) ↔
      e.object = w.srcObject ∧ e.offset = w.srcOffset := by
    constructor
    · intro hAll
      exact hAll w hPhase hChanged i m e hStart hFind
    · intro hOne w' hPhase' _ i' m' e' hStart' hFind'
      rw [hPhase] at hPhase'
      cases hPhase'
      rw [hStart] at hStart'
      cases hStart'
      rw [hFind] at hFind'
      cases hFind'
      exact hOne
  rw [hOnly]
  rcases hRest with ⟨hOther, hEq⟩ | ⟨hAsWas, hVerified⟩
  · refine iff_of_false ?_ ?_
    · intro hBalanced
      have hNone : ((copiedHeld s.held w .restart).drop
          w.srcObject).Agrees
            (copiedHeld s.held w .restart) := by
        intro x hx
        rw [hEq] at hBalanced
        have hLeft : ((copiedHeld s.held w .restart).drop
            w.new.object) x =
              ofEntries s.copy.entries x := hBalanced x hx
        rw [hSame] at hLeft
        exact hLeft.trans (hDropped x hx).symm
      exact hSome (agrees_drop_iff.mp hNone)
    · rintro ⟨hObject, hOffset⟩
      rcases hOther with hNot | hNot
      · exact hNot hObject
      · exact hNot hOffset
  · cases hVerified
    exact iff_of_true ⟨hSame, hDropped⟩ hAsWas

/- Exactly the steps that give back keep the balance. -/
theorem Balanced.step_iff
    {a : CopyinInput}
    (h : s.Balanced)
    (hStep : copyinStep args s a = some q) :
    q.Balanced ↔ s.GivesBack a := by
  unfold copyinStep at hStep
  split at hStep
  case h_1 tmp r hPhase =>
    refine iff_of_true ?_ trivial
    unfold Balanced at h
    rw [hPhase] at h
    split_ifs at hStep
    · cases hStep
      exact h
    · refine balanced_lookAgain ?_ hStep
      exact h
  case h_2 i internal hPhase =>
    refine iff_of_true ?_ trivial
    unfold Balanced at h
    rw [hPhase] at h
    exact balanced_enter h hStep
  case h_3 w symmetric hPhase =>
    refine iff_of_true ?_ trivial
    unfold Balanced at h
    rw [hPhase] at h
    exact balanced_quickly h.1 h.2 hStep
  case h_4 w result r hPhase =>
    unfold Balanced at h
    rw [hPhase] at h
    rcases h with ⟨hSame, hSome, hHeld⟩
    split_ifs at hStep
    cases result with
    | failed kr =>
        unfold copied at hStep
        dsimp only at hStep
        split_ifs at hStep
        cases hStep
        rw [balanced_fail_iff]
        refine iff_of_false ?_ id
        intro hNone
        have hLeft : ((ofEntries s.copy.entries).take
            w.srcObject).Agrees (ofEntries s.copy.entries) :=
          fun x hx => (hHeld x hx).symm.trans (hNone x hx)
        exact hSome (agrees_take_iff.mp hLeft)
    | success object offset needsCopy =>
        exact balanced_success_iff hHeld hStep
    | restart =>
        exact balanced_restart_iff hPhase hSame hSome hHeld
          hStep
  case h_5 r hPhase =>
    refine iff_of_true ?_ trivial
    unfold Balanced at h
    rw [hPhase] at h
    cases hStep
    exact h
  case h_6 => cases hStep

end CopyinState

end Vm

end OsfMach
