import OsfMach.Vm.CopyinRuns

/-
  Where the entries of a copy of a range were taken from.

  When an entry is linked, the map that the call locked last
  maps the object and the offset that were copied, and they
  can be read there. It is not so after another thread took
  the permission away while the lock was given up: the test
  of the protection after the second lookup compares before
  it takes the conjunction of bits, and never fails.

  Main declarations:
    * `PartOf`, `VmMap.Sources`
    * `CopyinState.Refinds`, `CopyinState.Rechecks`
    * `CopyinState.Sourced.step`
    * `vmMapCopyinCommon_taken_iff`
-/

------
-- Parts of Entries
------

namespace OsfMach

namespace Vm

open Lib

/- An entry that clipping leaves of another. -/
structure PartOf (x e : VmMapEntry) : Prop where
  start : e.vmeStart ≤ x.vmeStart
  stop : x.vmeEnd ≤ e.vmeEnd
  object : x.object = e.object
  offset : x.offset % offsetModulus = e.offsetAt x.vmeStart
  protection : x.protection = e.protection
  maxProtection : x.maxProtection = e.maxProtection

theorem partOf_refl (e : VmMapEntry) : PartOf e e := by
  refine ⟨Nat.le_refl _, Nat.le_refl _, rfl, ?_, rfl, rfl⟩
  unfold VmMapEntry.offsetAt
  rw [Nat.sub_self, Nat.add_zero]

namespace PartOf

variable {x y e : VmMapEntry}

/- Offsets in a part are those in the whole. -/
theorem offsetAt
    (h : PartOf x e)
    {a : Nat}
    (ha : x.vmeStart ≤ a) :
    x.offsetAt a = e.offsetAt a := by
  have hStart := h.start
  have hOffset := h.offset
  unfold VmMapEntry.offsetAt at *
  rw [Nat.add_mod, hOffset, Nat.mod_add_mod, Nat.add_mod_mod]
  congr 1
  omega

theorem trans
    (h : PartOf x y)
    (h' : PartOf y e) :
    PartOf x e :=
  ⟨Nat.le_trans h'.start h.start,
    Nat.le_trans h.stop h'.stop,
    h.object.trans h'.object,
    h.offset.trans (h'.offsetAt h.start),
    h.protection.trans h'.protection,
    h.maxProtection.trans h'.maxProtection⟩

end PartOf

namespace Cut

variable {e front back : VmMapEntry} {at_ : Nat}

theorem partOf_front
    (h : Cut e front back at_) :
    PartOf front e := by
  have hHi := h.inside.2
  rw [h.front]
  refine ⟨Nat.le_refl _, ?_, rfl, ?_, rfl, rfl⟩
  · dsimp only
    omega
  · exact (partOf_refl e).offset

theorem partOf_back
    (h : Cut e front back at_) :
    PartOf back e := by
  have hLo := h.inside.1
  rw [h.back]
  refine ⟨?_, Nat.le_refl _, rfl, ?_, rfl, rfl⟩
  · dsimp only
    omega
  · exact Nat.mod_mod _ _

end Cut

/- Each entry of the one map is a part of one of the other. -/
def VmMap.Parts (m m' : VmMap) : Prop :=
  ∀ x ∈ m'.entries, ∃ e ∈ m.entries, PartOf x e

namespace VmMap

variable {m m' m'' : VmMap} {e : VmMapEntry}

theorem parts_refl (m : VmMap) : m.Parts m :=
  fun x hx => ⟨x, hx, partOf_refl x⟩

theorem Parts.trans
    (h : m.Parts m')
    (h' : m'.Parts m'') :
    m.Parts m'' := by
  intro x hx
  rcases h' x hx with ⟨y, hy, hxy⟩
  rcases h y hy with ⟨e, he, hye⟩
  exact ⟨e, he, hxy.trans hye⟩

theorem parts_of_entries
    (h : m'.entries = m.entries) :
    m.Parts m' := by
  intro x hx
  rw [h] at hx
  exact ⟨x, hx, partOf_refl x⟩

theorem parts_cut
    {l r : List VmMapEntry}
    {front back : VmMapEntry}
    {at_ : Nat}
    (h : CutMap m m' l r e front back at_) :
    m.Parts m' := by
  have he : e ∈ m.entries := by
    rw [h.split]
    simp
  intro x hx
  rcases h.mem_cases hx with hEq | hEq | hIn
  · rw [hEq]
    exact ⟨e, he, h.cut.partOf_front⟩
  · rw [hEq]
    exact ⟨e, he, h.cut.partOf_back⟩
  · exact ⟨x, hIn, partOf_refl x⟩

/- A change of the fields that a copy does not look at. -/
theorem parts_modify
    {f : VmMapEntry → VmMapEntry}
    (hf : ∀ e, PartOf (f e) e)
    (m : VmMap)
    (i : Nat) :
    m.Parts (m.modify i f) := by
  intro x hx
  rcases List.mem_map.mp hx with ⟨e, he, hEq⟩
  subst hEq
  refine ⟨e, he, ?_⟩
  split_ifs
  · exact hf e
  · exact partOf_refl e

theorem clipStartAt_parts
    {start : Nat}
    (h : MapOk m)
    (he : e ∈ m.entries)
    (hHi : start < e.vmeEnd)
    (hClip : m.clipStartAt e.entryId start = some m') :
    m.Parts m' := by
  rcases List.append_of_mem he with ⟨l, r, hSplit⟩
  unfold clipStartAt MapState.clipStart at hClip
  rw [h.toMapOrder.find_eq he] at hClip
  cases hClip
  by_cases hLo : e.vmeStart < start
  · rw [if_pos hLo]
    have hCut := cutMap_clipStartHdr h.toMapCore hSplit
      ⟨hLo, hHi⟩
    exact (parts_cut hCut).trans
      (parts_of_entries (updateFirstFree_entries _ _))
  · rw [if_neg hLo]
    exact parts_of_entries (updateFirstFree_entries _ _)

theorem clipEndAt_parts
    {stop : Nat}
    (h : MapOk m)
    (he : e ∈ m.entries)
    (hLo : e.vmeStart < stop)
    (hClip : m.clipEndAt e.entryId stop = some m') :
    m.Parts m' := by
  rcases List.append_of_mem he with ⟨l, r, hSplit⟩
  unfold clipEndAt MapState.clipEnd at hClip
  rw [h.toMapOrder.find_eq he] at hClip
  cases hClip
  by_cases hHi : stop < e.vmeEnd
  · rw [if_pos hHi]
    have hCut := cutMap_clipEndHdr h.toMapCore hSplit
      ⟨hLo, hHi⟩
    exact (parts_cut hCut).trans
      (parts_of_entries (updateFirstFree_entries _ _))
  · rw [if_neg hHi]
    exact parts_of_entries (updateFirstFree_entries _ _)

theorem startEntry_parts
    {start i : Nat}
    (h : MapOk m)
    (hLook : m.startEntry start = some (some (i, m'))) :
    m.Parts m' := by
  have hLooked := h.toMapCore.lookupEntry start
  rcases hLooked.inv h.toMapInv with ⟨hInv, hEntries⟩
  rcases hLooked.same with ⟨hint, hSame, _⟩
  unfold startEntry at hLook
  rcases hRun : m.lookupEntry start with ⟨found, j, m₁⟩
  rw [hRun] at hLook hLooked hInv hEntries hSame
  dsimp only at hLook hLooked hInv hEntries hSame
  have hOk : MapOk m₁ := by
    refine (h.steady hInv ?_ ?_).ok
    · rw [hSame]
      rfl
    · rw [hSame]
      rfl
  cases found with
  | false => cases hLook
  | true =>
      rcases hLooked.inside rfl with
        ⟨l, e, r, hSplit, hj, _, hHi⟩
      have he : e ∈ m₁.entries := by
        rw [hEntries, hSplit]
        simp
      rw [hj] at hLook
      rcases Option.map_eq_some_iff.mp hLook with
        ⟨m₂, hClip, hEq⟩
      cases hEq
      exact (parts_of_entries hEntries).trans
        (clipStartAt_parts hOk he hHi hClip)

end VmMap

------
-- Sources
------

/- The permission that the caller has to have. -/
def CopyinArgs.canRead
    (args : CopyinArgs)
    (e : VmMapEntry) : Bool :=
  if args.useMaxprot then
    e.maxProtection &&& protRead != 0
  else e.protection &&& protRead != 0

/-
  One entry maps a range to an object from an offset on, and
  it can be read.
-/
def VmMap.Sources
    (args : CopyinArgs)
    (m : VmMap)
    (start stop : Nat)
    (object : MapObject)
    (offset : Nat) : Prop :=
  ∃ e ∈ m.entries,
    e.vmeStart ≤ start ∧ stop ≤ e.vmeEnd ∧
      e.object = object ∧
      e.offsetAt start = offset % offsetModulus ∧
      args.canRead e = true

instance
    (args : CopyinArgs)
    (m : VmMap)
    (start stop : Nat)
    (object : MapObject)
    (offset : Nat) :
    Decidable (m.Sources args start stop object offset) := by
  unfold VmMap.Sources
  infer_instance

/-
  A linked entry was taken from one that the map had when it
  was last locked.
-/
def CopyinLink.Taken
    (args : CopyinArgs)
    (l : CopyinLink) : Prop :=
  l.locked.Sources args l.new.vmeStart l.new.vmeEnd l.object
    l.offset

instance
    (args : CopyinArgs)
    (l : CopyinLink) :
    Decidable (l.Taken args) := by
  unfold CopyinLink.Taken
  infer_instance

section

variable {args : CopyinArgs} {m m' : VmMap} {x e : VmMapEntry}
variable {start stop offset : Nat} {object : MapObject}

theorem PartOf.canRead
    (h : PartOf x e) :
    args.canRead x = args.canRead e := by
  unfold CopyinArgs.canRead
  rw [h.protection, h.maxProtection]

/- The test at the top of the loop. -/
theorem canRead_of_not_unreadable
    (h : ¬ args.unreadable e = true) :
    args.canRead e = true := by
  unfold CopyinArgs.unreadable at h
  unfold CopyinArgs.canRead
  cases hMax : args.useMaxprot with
  | true =>
      rw [hMax] at h
      simpa using h
  | false =>
      rw [hMax] at h
      simp only [Bool.not_false, Bool.and_true,
        Bool.or_eq_true, not_or] at h
      simpa using h.1

theorem VmMap.Parts.sources
    (h : m.Parts m')
    (hSources : m'.Sources args start stop object offset) :
    m.Sources args start stop object offset := by
  rcases hSources with
    ⟨x, hx, hStart, hStop, hObject, hOffset, hRead⟩
  rcases h x hx with ⟨e, he, hPart⟩
  refine ⟨e, he, Nat.le_trans hPart.start hStart,
    Nat.le_trans hStop hPart.stop, ?_, ?_, ?_⟩
  · exact hPart.object.symm.trans hObject
  · exact (hPart.offsetAt hStart).symm.trans hOffset
  · exact hPart.canRead.symm.trans hRead

/- A part of a range has the same source. -/
theorem VmMap.Sources.shorter
    {stop' : Nat}
    (h : m.Sources args start stop object offset)
    (hLe : stop' ≤ stop) :
    m.Sources args start stop' object offset := by
  rcases h with ⟨e, he, hStart, hStop, hRest⟩
  exact ⟨e, he, hStart, Nat.le_trans hLe hStop, hRest⟩

/- An entry is the source of its range if it can be read. -/
theorem sources_entry
    (he : e ∈ m.entries)
    (hRead : args.canRead e = true) :
    m.Sources args e.vmeStart e.vmeEnd e.object e.offset :=
  ⟨e, he, Nat.le_refl _, Nat.le_refl _, rfl,
    (partOf_refl e).offset.symm, hRead⟩

/-
  A part of an entry is the only source of its range, and
  whether it can be read tells whether there is one.
-/
theorem sources_part_iff
    (h : MapOrder m)
    (hParts : m.Parts m')
    (hx : x ∈ m'.entries)
    (hPos : x.vmeStart < stop)
    (hStop : stop ≤ x.vmeEnd) :
    m.Sources args x.vmeStart stop x.object x.offset ↔
      args.canRead x = true := by
  constructor
  · rintro ⟨e, he, hLo, hHi, _, _, hRead⟩
    rcases hParts x hx with ⟨y, hy, hPart⟩
    have hStart := hPart.start
    have hEnd := hPart.stop
    have hSame : e = y :=
      h.eq_of_inside he hy ⟨hLo, by omega⟩
        ⟨hStart, by omega⟩
    rw [hPart.canRead, ← hSame]
    exact hRead
  · intro hRead
    exact hParts.sources ((sources_entry hx hRead).shorter hStop)

end

------
-- What Is Linked
------

namespace CopyinState

variable {result : CopyResult} {r : Relock}
variable {s' : CopyinState}

/- What is on its way into the copy has its source. -/
def WorkSourced
    (args : CopyinArgs)
    (s : CopyinState)
    (w : CopyinWork) : Prop :=
  s.map.Sources args w.new.vmeStart w.new.vmeEnd w.srcObject
    w.srcOffset

/-
  All entries that were linked had their source, and so has
  the next one. Since it was locked the map was only clipped.
-/
structure Sourced
    (args : CopyinArgs)
    (s : CopyinState) : Prop where
  taken : ∀ l ∈ s.linked, l.Taken args
  entries : s.copy.entries = s.linked.map CopyinLink.new
  parts : s.isDone = false → s.locked.Parts s.map
  restart : ∀ w, s.phase = .restart w → s.WorkSourced args w
  blocked : ∀ w, s.phase = .blocked w → s.WorkSourced args w

/-
  A lookup finds, up to the end of the range, the object and
  the offset that were copied, and they can be read.
-/
def Refinds
    (args : CopyinArgs)
    (w : CopyinWork)
    (m : VmMap) : Prop :=
  let look := m.lookupEntry w.new.vmeStart
  look.1 = true ∧ ∃ e, look.2.1.bind look.2.2.find = some e ∧
    w.new.vmeEnd ≤ e.vmeEnd ∧
    e.object = w.srcObject ∧
    e.offsetAt w.new.vmeStart = w.srcOffset % offsetModulus ∧
    args.canRead e = true

/-
  What the other threads have to leave when the map is locked
  again after a copy. If they locked it so often that the
  time stamp is as it was, the second lookup, which is then
  left out, would find what was copied. If it finds the object
  and the offset as they were, they can still be read.
-/
def Rechecks
    (args : CopyinArgs)
    (s : CopyinState) : CopyinInput → Prop
| .copied (.failed _) _ => True
| .copied _ r =>
    ∀ w,
      s.phase = .blocked w →
      (r.others ≠ 0 →
        r.sameStamp = true → Refinds args w r.found) ∧
      (r.sameStamp = false →
        ∀ i m e,
          r.found.startEntry s.srcStart =
            some (some (i, m)) →
          m.find i = some e →
          e.object = w.srcObject →
          e.offset = w.srcOffset →
          args.canRead e = true)
| _ => True

variable {args : CopyinArgs} {s q : CopyinState}
variable {w : CopyinWork}

/- A step that links nothing and has nothing to link next. -/
theorem Sourced.onMap
    (h : s.Sourced args)
    (hLinked : q.linked = s.linked)
    (hCopy : q.copy = s.copy)
    (hParts : q.isDone = false → q.locked.Parts q.map)
    (hRestart : ∀ w, q.phase ≠ .restart w)
    (hBlocked : ∀ w, q.phase ≠ .blocked w) :
    q.Sourced args := by
  refine ⟨?_, ?_, hParts, ?_, ?_⟩
  · rw [hLinked]
    exact h.taken
  · rw [hCopy, hLinked]
    exact h.entries
  · intro w hPhase
    exact absurd hPhase (hRestart w)
  · intro w hPhase
    exact absurd hPhase (hBlocked w)

/- What linking an entry leaves of a state. -/
theorem link_spec
    (hLink : s.link args w = some q) :
    q.map = s.map ∧ q.locked = s.locked ∧
      q.linked = s.linked ++
        [⟨w.new, w.srcObject, w.srcOffset, s.locked⟩] ∧
      q.copy.entries = s.copy.entries ++ [w.new] ∧
      (∀ w, q.phase ≠ .restart w) ∧
      ∀ w, q.phase ≠ .blocked w := by
  rcases link_cases hLink with
    ⟨_, rfl | rfl⟩ | ⟨_, b, _, rfl | ⟨_, rfl⟩⟩
  all_goals
    refine ⟨rfl, rfl, rfl, rfl, ?_, ?_⟩
    · intro w hPhase
      cases hPhase
    · intro w hPhase
      cases hPhase

/-
  What a step does: it links an entry, whose source there is
  exactly under a condition, or it links nothing, and the
  next one has its source exactly under that condition.
-/
def Turn
    (args : CopyinArgs)
    (s q : CopyinState)
    (condition : Prop) : Prop :=
  q.linked = s.linked ∧ (q.Sourced args ↔ condition) ∨
    ∃ (s' : CopyinState) (w : CopyinWork),
      s'.link args w = some q ∧ s'.linked = s.linked ∧
        s'.copy = s.copy ∧ s'.locked.Parts s'.map ∧
        (s'.locked.Sources args w.new.vmeStart w.new.vmeEnd
          w.srcObject w.srcOffset ↔ condition)

namespace Turn

variable {condition : Prop}

theorem last_taken_iff
    (h : s.Sourced args)
    (hLinked : s'.linked = s.linked)
    (hLink : s'.link args w = some q) :
    (∀ l ∈ q.linked, l.Taken args) ↔
      s'.locked.Sources args w.new.vmeStart w.new.vmeEnd
        w.srcObject w.srcOffset := by
  rcases link_spec hLink with ⟨_, _, hSnoc, _⟩
  rw [hSnoc, hLinked]
  constructor
  · intro hAll
    exact hAll
      ⟨w.new, w.srcObject, w.srcOffset, s'.locked⟩ (by simp)
  · intro hSources l hl
    rw [List.mem_append, List.mem_singleton] at hl
    rcases hl with hOld | hNew
    · exact h.taken l hOld
    · rw [hNew]
      exact hSources

/- An entry that is linked is right if it has its source. -/
theorem taken_iff
    (h : s.Sourced args)
    (hTurn : Turn args s q condition)
    (hNew : q.linked ≠ s.linked) :
    (∀ l ∈ q.linked, l.Taken args) ↔ condition := by
  rcases hTurn with
    ⟨hSame, _⟩ | ⟨s', w, hLink, hLinked, _, _, hSources⟩
  · exact absurd hSame hNew
  · exact (last_taken_iff h hLinked hLink).trans hSources

theorem sourced_iff
    (h : s.Sourced args)
    (hTurn : Turn args s q condition) :
    q.Sourced args ↔ condition := by
  rcases hTurn with
    ⟨_, hIff⟩ | ⟨s', w, hLink, hLinked, hCopy, hParts, hSources⟩
  · exact hIff
  rcases link_spec hLink with
    ⟨hMap, hLocked, hSnoc, hEntries, hRestart, hBlocked⟩
  rw [← hSources, ← last_taken_iff h hLinked hLink]
  constructor
  · intro hSourced
    exact hSourced.taken
  · intro hTaken
    refine ⟨hTaken, ?_, ?_, ?_, ?_⟩
    · rw [hEntries, hCopy, h.entries, hSnoc, hLinked,
        List.map_append]
      rfl
    · intro _
      rw [hLocked, hMap]
      exact hParts
    · intro w' hPhase
      exact absurd hPhase (hRestart w')
    · intro w' hPhase
      exact absurd hPhase (hBlocked w')

end Turn

/- A step that links nothing and has nothing to link next. -/
theorem turn_onMap
    (h : s.Sourced args)
    (hLinked : q.linked = s.linked)
    (hCopy : q.copy = s.copy)
    (hParts : q.isDone = false → q.locked.Parts q.map)
    (hRestart : ∀ w, q.phase ≠ .restart w)
    (hBlocked : ∀ w, q.phase ≠ .blocked w) :
    Turn args s q True :=
  Or.inl ⟨hLinked, iff_of_true
    (h.onMap hLinked hCopy hParts hRestart hBlocked) trivial⟩

theorem turn_fail
    {kr : KernReturn}
    {m : VmMap}
    (h : s.Sourced args)
    (hEq : q = { s with map := m, locked := q.locked }.fail kr) :
    Turn args s q True := by
  rw [hEq]
  refine turn_onMap h rfl rfl ?_ (by simp [fail])
    (by simp [fail])
  intro hDone
  cases hDone

theorem turn_enter
    {internal : Bool}
    {i : Nat}
    (h : s.Sourced args)
    (hPlace : CopyinPlace args s)
    (hPtr : PtrAt s.map (some i) s.srcStart)
    (hParts : s.locked.Parts s.map)
    (hEnter : s.enter args internal i = some q) :
    Turn args s q True := by
  have hLess := hPlace.less
  rcases enter_cases hPlace hPtr hEnter with
    hEq | ⟨e, m, e', he, hStart, hProt, hClip, hCut, he', _,
      hStart', hEnd', _, hRest⟩
  · rw [hEq]
    exact turn_fail h rfl
  have hCutParts := VmMap.clipEndAt_parts hPlace.ok he
    (by omega) hClip
  have hRead : args.canRead e' = true := by
    rcases hCutParts e' he' with ⟨y, hy, hPart⟩
    have hIn := hCut.ok.toMapOrder.place he'
    have hLo := hPart.start
    have hHi := hPart.stop
    have hSame : y = e :=
      hPlace.ok.toMapOrder.eq_of_inside hy he
        (a := e'.vmeStart) ⟨hLo, by omega⟩ (by omega)
    rw [hPart.canRead, hSame]
    exact canRead_of_not_unreadable hProt
  have hSources := sources_entry he' hRead
  rcases hRest with ⟨held, hLink⟩ | hEq
  · refine Or.inr ⟨_, _, hLink, rfl, rfl, ?_, ?_⟩
    · exact hParts.trans hCutParts
    · exact iff_of_true
        ((hParts.trans hCutParts).sources hSources) trivial
  · subst hEq
    refine Or.inl ⟨rfl, iff_of_true ?_ trivial⟩
    refine ⟨h.taken, h.entries, ?_, ?_, ?_⟩
    · intro _
      exact hParts.trans hCutParts
    · intro w hPhase
      cases hPhase
      exact hSources
    · intro w hPhase
      cases hPhase

theorem parts_obliges
    (m : VmMap)
    (src : Nat) :
    m.Parts (obliges src m) := by
  apply VmMap.parts_modify
  intro e
  exact ⟨Nat.le_refl _, Nat.le_refl _, rfl,
    (partOf_refl e).offset, rfl, rfl⟩

theorem turn_quickly
    {symmetric : Bool}
    (h : s.Sourced args)
    (hParts : s.locked.Parts s.map)
    (hSources : s.WorkSourced args w)
    (hQuickly : s.quickly args symmetric w = some q) :
    Turn args s q True := by
  have hLocked := hParts.sources hSources
  unfold quickly at hQuickly
  split_ifs at hQuickly
  · exact Or.inr ⟨_, _, hQuickly, rfl, rfl, hParts,
      iff_of_true hLocked trivial⟩
  · exact Or.inr ⟨_, _, hQuickly, rfl, rfl,
      hParts.trans (parts_obliges _ _),
      iff_of_true hLocked trivial⟩
  · cases hQuickly
    refine Or.inl ⟨rfl, iff_of_true ?_ trivial⟩
    refine ⟨h.taken, h.entries, fun _ => hParts, ?_, ?_⟩
    · intro w' hPhase
      cases hPhase
    · intro w' hPhase
      cases hPhase
      exact hSources

theorem Turn.of_iff
    {condition condition' : Prop}
    (hIff : condition ↔ condition')
    (hTurn : Turn args s q condition) :
    Turn args s q condition' := by
  rw [← propext hIff]
  exact hTurn

theorem turn_verified
    {condition : Prop}
    (h : s.Sourced args)
    (hLinked : s'.linked = s.linked)
    (hCopy : s'.copy = s.copy)
    (hParts : s'.locked.Parts s'.map)
    (hLocked : s'.locked.Sources args w.new.vmeStart
      w.new.vmeEnd w.srcObject w.srcOffset ↔ condition)
    (hMap : s'.WorkSourced args w ↔ condition)
    (hVerified : s'.verified args w result = some q) :
    Turn args s q condition := by
  cases result with
  | restart =>
      cases hVerified
      refine Or.inl ⟨hLinked, ?_⟩
      rw [← hMap]
      constructor
      · intro hSourced
        exact hSourced.restart w rfl
      · intro hSources
        refine ⟨?_, ?_, fun _ => hParts, ?_, ?_⟩
        · rw [hLinked]
          exact h.taken
        · rw [hCopy, hLinked]
          exact h.entries
        · intro w' hPhase
          cases hPhase
          exact hSources
        · intro w' hPhase
          cases hPhase
  | success object offset needsCopy | failed kr =>
      exact Or.inr ⟨s', w, hVerified, hLinked, hCopy, hParts,
        hLocked⟩

/- What a lookup finds is the source of the range. -/
theorem sources_iff_refinds
    {m : VmMap}
    (h : MapOk m)
    (hPos : w.new.vmeStart < w.new.vmeEnd) :
    m.Sources args w.new.vmeStart w.new.vmeEnd w.srcObject
        w.srcOffset ↔
      Refinds args w m := by
  have hLook := h.toMapCore.lookupEntry w.new.vmeStart
  rcases hLook.inv h.toMapInv with ⟨hInv, hEntries⟩
  unfold Refinds
  rcases hRun : m.lookupEntry w.new.vmeStart with ⟨found, i, m'⟩
  rw [hRun] at hLook hInv hEntries
  dsimp only at hLook hInv hEntries ⊢
  have hFind : ∀ x ∈ m.entries, m'.find x.entryId = some x := by
    intro x hx
    apply hInv.toMapOrder.find_eq
    rw [hEntries]
    exact hx
  constructor
  · rintro ⟨e, he, hLo, hHi, hRest⟩
    cases found with
    | false =>
        rcases hLook.outside rfl with
          ⟨l, r, hSplit, _, hBelow, hAbove⟩
        rw [hSplit] at he
        rcases List.mem_append.mp he with hl | hr
        · have hEnd := hBelow e hl
          omega
        · have hStart := hAbove e hr
          omega
    | true =>
        rcases hLook.inside rfl with
          ⟨l, x, r, hSplit, hi, hxLo, hxHi⟩
        have hx : x ∈ m.entries := by
          rw [hSplit]
          simp
        have hSame : e = x :=
          h.toMapOrder.eq_of_inside he hx ⟨hLo, by omega⟩
            ⟨hxLo, hxHi⟩
        subst hSame
        refine ⟨rfl, e, ?_, hHi, hRest⟩
        rw [hi]
        exact hFind e hx
  · rintro ⟨hFound, e, hIs, hHi, hRest⟩
    rcases hLook.inside hFound with
      ⟨l, x, r, hSplit, hi, hxLo, hxHi⟩
    have hx : x ∈ m.entries := by
      rw [hSplit]
      simp
    rw [hi, Option.bind_some, hFind x hx] at hIs
    cases hIs
    exact ⟨e, hx, hxLo, hHi, hRest⟩

/- What has to be found when the copy was made. -/
theorem rechecks_copied_iff
    (hResult : ∀ kr, result ≠ .failed kr) :
    s.Rechecks args (.copied result r) ↔
      ∀ w, s.phase = .blocked w →
        (r.others ≠ 0 → r.sameStamp = true →
          Refinds args w r.found) ∧
        (r.sameStamp = false → ∀ i m e,
          r.found.startEntry s.srcStart =
            some (some (i, m)) →
          m.find i = some e → e.object = w.srcObject →
          e.offset = w.srcOffset →
          args.canRead e = true) := by
  cases result with
  | failed kr => exact absurd rfl (hResult kr)
  | success object offset needsCopy => exact Iff.rfl
  | restart => exact Iff.rfl

/- When the time stamp is as it was. -/
theorem rechecks_same_iff
    (h : s.Sourced args)
    (hPhase : s.phase = .blocked w)
    (hNext : CopyinNext args s w)
    (hFound : MapOk r.found)
    (hFollows : r.Follows s.map)
    (hStamp : r.sameStamp = true)
    (hResult : ∀ kr, result ≠ .failed kr) :
    r.found.Sources args w.new.vmeStart w.new.vmeEnd
        w.srcObject w.srcOffset ↔
      s.Rechecks args (.copied result r) := by
  have hIff := @sources_iff_refinds args _ _ hFound hNext.pos
  rw [rechecks_copied_iff hResult]
  constructor
  · intro hSources w' hPhase'
    rw [hPhase] at hPhase'
    cases hPhase'
    refine ⟨fun _ _ => hIff.mp hSources, ?_⟩
    intro hNot
    rw [hStamp] at hNot
    cases hNot
  · intro hAll
    by_cases hAlone : r.others = 0
    · rw [hFollows hAlone]
      exact h.blocked w hPhase
    · exact hIff.mpr ((hAll w hPhase).1 hAlone hStamp)

/- When it is another one. -/
theorem rechecks_changed_iff
    (hPhase : s.phase = .blocked w)
    (hStamp : r.sameStamp = false)
    (hResult : ∀ kr, result ≠ .failed kr) :
    (∀ i m e,
        r.found.startEntry s.srcStart = some (some (i, m)) →
        m.find i = some e → e.object = w.srcObject →
        e.offset = w.srcOffset → args.canRead e = true) ↔
      s.Rechecks args (.copied result r) := by
  rw [rechecks_copied_iff hResult]
  constructor
  · intro hAll w' hPhase'
    rw [hPhase] at hPhase'
    cases hPhase'
    refine ⟨?_, fun _ => hAll⟩
    intro _ hSame
    rw [hStamp] at hSame
    cases hSame
  · intro hAll
    exact (hAll w hPhase).2 hStamp

section

variable (h : s.Sourced args)
include h

theorem turn_verify
    {w' : CopyinWork}
    (hPlace : CopyinPlace args s)
    (hNext : CopyinNext args s w)
    (hLinked : s'.linked = s.linked)
    (hCopy : s'.copy = s.copy)
    (hStart : s'.srcStart = s.srcStart)
    (hLocked : s'.locked = r.found)
    (hNewStart : w'.new.vmeStart = w.new.vmeStart)
    (hNewEnd : w'.new.vmeEnd = w.new.vmeEnd)
    (hFound : MapOk r.found)
    (hSource : w'.srcObject = w.srcObject ∧
      w'.srcOffset = w.srcOffset)
    (hVerify : s'.verify args r w' result = some q) :
    Turn args s q (∀ i m e,
      r.found.startEntry s.srcStart = some (some (i, m)) →
      m.find i = some e → e.object = w.srcObject →
      e.offset = w.srcOffset → args.canRead e = true) := by
  have hCases := verify_cases hVerify
  rw [hStart, hSource.1, hSource.2] at hCases
  rcases hCases with
    ⟨hNone, hEq⟩ | ⟨i, m, e, hLook, hFind, hRest⟩
  · have hTurn : Turn args s q True := by
      rw [hEq]
      refine turn_onMap h hLinked hCopy ?_ (by simp [fail])
        (by simp [fail])
      intro hDone
      cases hDone
    refine hTurn.of_iff (iff_of_true trivial ?_)
    intro i m e hSome
    rw [hNone] at hSome
    cases hSome
  have hOnly : args.canRead e = true ∨
        (e.object ≠ w.srcObject ∨ e.offset ≠ w.srcOffset) ↔
      ∀ i m e,
        r.found.startEntry s.srcStart = some (some (i, m)) →
        m.find i = some e → e.object = w.srcObject →
        e.offset = w.srcOffset → args.canRead e = true := by
    constructor
    · intro hOne i' m' e' hLook' hFind' hObject hOffset
      rw [hLook] at hLook'
      cases hLook'
      rw [hFind] at hFind'
      cases hFind'
      rcases hOne with hRead | hNot | hNot
      · exact hRead
      · exact absurd hObject hNot
      · exact absurd hOffset hNot
    · intro hAll
      by_cases hObject : e.object = w.srcObject
      · by_cases hOffset : e.offset = w.srcOffset
        · exact Or.inl (hAll i m e hLook hFind hObject hOffset)
        · exact Or.inr (Or.inr hOffset)
      · exact Or.inr (Or.inl hObject)
  have hParts := VmMap.startEntry_parts hFound hLook
  refine Turn.of_iff hOnly ?_
  rcases hRest with ⟨hOther, hEq⟩ | ⟨hAsWas, hVerified⟩
  · have hTurn : Turn args s q True := by
      rw [hEq]
      refine turn_onMap h hLinked hCopy ?_ (by simp) (by simp)
      intro _
      rw [hLocked]
      exact hParts
    exact hTurn.of_iff (iff_of_true trivial (Or.inr hOther))
  · have hRead : args.canRead e = true ↔
        args.canRead e = true ∨
          (e.object ≠ w.srcObject ∨
            e.offset ≠ w.srcOffset) := by
      constructor
      · exact Or.inl
      · rintro (hRead | hNot | hNot)
        · exact hRead
        · exact absurd hAsWas.1 hNot
        · exact absurd hAsWas.2 hNot
    refine Turn.of_iff hRead ?_
    rcases reverified_next hPlace hNext hFound hLook hFind
      with ⟨hCut, he, _, hAt, _⟩
    have hIn := hCut.ok.toMapOrder.place he
    have hFirst := hNext.start
    have hPos := hNext.pos
    have hLess : e.vmeStart < min w.new.vmeEnd e.vmeEnd := by
      omega
    have hSources : ∀ k : VmMap,
        MapOrder k → k.Parts m →
        (k.Sources args
            (s'.reverified w' i e).new.vmeStart
            (s'.reverified w' i e).new.vmeEnd
            (s'.reverified w' i e).srcObject
            (s'.reverified w' i e).srcOffset ↔
          args.canRead e = true) := by
      intro k hOrder hCutParts
      have hOne := @sources_part_iff args _ _ _ _ hOrder
        hCutParts he hLess (Nat.min_le_right _ _)
      rw [hAsWas.1, hAsWas.2, hAt, ← hFirst] at hOne
      unfold reverified
      rw [hSource.1, hSource.2, hNewStart, hNewEnd]
      exact hOne
    refine turn_verified h ?_ ?_ ?_ ?_ ?_ hVerified
    · exact hLinked
    · exact hCopy
    · rw [hLocked]
      exact hParts
    · rw [hLocked]
      exact hSources _ hFound.toMapOrder hParts
    · exact hSources _ hCut.ok.toMapOrder
        (VmMap.parts_refl m)

theorem turn_copied
    (hPhase : s.phase = .blocked w)
    (hPlace : CopyinPlace args s)
    (hNext : CopyinNext args s w)
    (hFollows : r.Follows s.map)
    (hCopied : s.copied args w result r = some q) :
    Turn args s q (s.Rechecks args (.copied result r)) := by
  rcases copiedEntry_place w result with ⟨hStart, hEnd⟩
  rcases copied_cases hCopied with
    ⟨kr, hFailed, _, hEq⟩ | ⟨hResult, held, hRest⟩
  · rw [hFailed, hEq]
    exact turn_fail h rfl
  rcases hRest with ⟨hStamp, hRun⟩ | ⟨hStamp, hRun⟩
  · have hIff := rechecks_same_iff h hPhase hNext
      (hFollows.mapOk hPlace.ok) hFollows hStamp hResult
    rw [← hStart, ← hEnd] at hIff
    refine turn_verified h ?_ ?_ ?_ ?_ ?_ hRun
    · rfl
    · rfl
    · exact VmMap.parts_refl r.found
    · exact hIff
    · exact hIff
  · refine Turn.of_iff
      (rechecks_changed_iff hPhase hStamp hResult) ?_
    refine turn_verify h hPlace hNext ?_ ?_ ?_ ?_ ?_ ?_
      (hFollows.mapOk hPlace.ok) ?_ hRun
    · rfl
    · rfl
    · rfl
    · rfl
    · exact hStart
    · exact hEnd
    · exact ⟨rfl, rfl⟩

theorem turn_lookAgain
    (hFound : MapOk r.found)
    (hLook : { s with locked := r.found }.lookAgain r =
      some q) :
    Turn args s q True := by
  rcases Option.map_eq_some_iff.mp hLook with
    ⟨look, hStart, hEq⟩
  cases look with
  | none =>
      rw [← hEq]
      exact turn_fail h rfl
  | some found =>
      rcases found with ⟨i, m⟩
      rw [← hEq]
      refine turn_onMap h rfl rfl ?_ (by simp) (by simp)
      intro _
      exact VmMap.startEntry_parts hFound hStart

/- Each step links what has its source, or nothing. -/
theorem Sourced.turn
    {a : CopyinInput}
    (hCovers : s.Covers args)
    (hStep : copyinStep args s a = some q) :
    Turn args s q (s.Rechecks args a) := by
  unfold copyinStep at hStep
  split at hStep
  case h_1 tmp r hPhase =>
    unfold Covers at hCovers
    rw [hPhase] at hCovers
    split_ifs at hStep with hFollows
    · cases hStep
      refine turn_onMap h rfl rfl ?_ (by simp) (by simp)
      intro _
      exact VmMap.parts_refl r.found
    · exact turn_lookAgain h (hFollows.mapOk hCovers.1.ok)
        hStep
  case h_2 i internal hPhase =>
    have hDone : s.isDone = false := by
      simp [isDone, hPhase]
    unfold Covers at hCovers
    rw [hPhase] at hCovers
    exact turn_enter h hCovers.1 hCovers.2 (h.parts hDone)
      hStep
  case h_3 w symmetric hPhase =>
    have hDone : s.isDone = false := by
      simp [isDone, hPhase]
    exact turn_quickly h (h.parts hDone) (h.restart w hPhase)
      hStep
  case h_4 w result r hPhase =>
    unfold Covers at hCovers
    rw [hPhase] at hCovers
    split_ifs at hStep with hFollows
    exact turn_copied h hPhase hCovers.1 hCovers.2 hFollows.1
      hStep
  case h_5 r hPhase =>
    cases hStep
    refine turn_onMap h rfl rfl ?_ (by simp) (by simp)
    intro hDone
    cases hDone
  case h_6 => cases hStep

end

/-
  What a step has to find for every entry to have its source.
-/
def Tells
    (args : CopyinArgs)
    (s : CopyinState)
    (a : CopyinInput) : Prop :=
  s.StampTells a ∧ s.Rechecks args a

end CopyinState

------
-- Runs
------

/- A call whose steps so far met the condition. -/
structure CopyinTrue
    (args : CopyinArgs)
    (s : CopyinState) : Prop where
  keeps : s.Keeps args
  covers : args.srcEnd ≠ 0 → s.Covers args
  sourced : args.srcEnd ≠ 0 → s.Sourced args

namespace CopyinTrue

variable {args : CopyinArgs} {m : VmMap} {s q : CopyinState}

theorem step
    (s : CopyinState)
    (a : CopyinInput)
    (q : CopyinState)
    (h : CopyinTrue args s)
    (hTells : s.Tells args a)
    (hStep : copyinStep args s a = some q) :
    CopyinTrue args q := by
  refine ⟨h.keeps.step hStep, ?_, ?_⟩
  · intro hEnd
    exact (h.covers hEnd).step hTells.1 hStep
  · intro hEnd
    have hTurn := (h.sourced hEnd).turn (h.covers hEnd) hStep
    exact (hTurn.sourced_iff (h.sourced hEnd)).mpr hTells.2

theorem run
    {as : List CopyinInput}
    (h : CopyinTrue args s)
    (hMeets : Runs.Meets (copyinStep args)
      (CopyinState.Tells args) s as)
    (hExec : Runs.exec (copyinStep args) s as = some q) :
    CopyinTrue args q :=
  Runs.exec_invariant step h hMeets hExec

/- A call returns at once, or comes to its loop. -/
theorem start
    (hMap : MapOk m)
    (hStart : copyinStart args m = some s) :
    s.isDone = true ∧ s.hasCopy = false ∨
      CopyinTrue args s := by
  rcases CopyinGood.start hMap hStart with
    ⟨hDone, _⟩ | ⟨hNot, hGood⟩
  · left
    rcases CopyinState.copyinStart_cases hMap hStart with
      ⟨kr, rfl, _⟩ | ⟨m', e, _, _, _, _, _, rfl⟩
    · exact ⟨rfl, by cases kr <;> rfl⟩
    · cases hDone
  · right
    refine ⟨hGood.keeps, hGood.covers, ?_⟩
    intro _
    rcases CopyinState.copyinStart_cases hMap hStart with
      ⟨kr, rfl, _⟩ | ⟨m', e, _, hLook, _, _, _, rfl⟩
    · cases hNot
    · exact ⟨by simp [CopyinState.atLoop], rfl,
        fun _ => VmMap.startEntry_parts hMap hLook,
        fun _ hPhase => (by cases hPhase),
        fun _ hPhase => (by cases hPhase)⟩

end CopyinTrue

/-
  The entries of a copy that is returned were linked, and
  each had its source in the map that was locked last, if in
  each step other threads left what the call relies on. A
  step that links an entry links one that has its source
  exactly if it meets that condition.
-/
theorem vmMapCopyinCommon_taken_iff
    {args : CopyinArgs}
    {m : VmMap}
    (hMap : MapOk m) :
    ∀ s as p,
      copyinStart args m = some s →
      Runs.Meets (copyinStep args) (CopyinState.Tells args)
        s as →
      Runs.exec (copyinStep args) s as = some p →
      (∀ copy, p.phase = .done .success (some copy) →
        copy.entries = p.linked.map CopyinLink.new ∧
          ∀ l ∈ p.linked, l.Taken args) ∧
      (args.srcEnd ≠ 0 →
        ∀ a q,
          copyinStep args p a = some q →
          q.linked ≠ p.linked →
          ((∀ l ∈ q.linked, l.Taken args) ↔
            p.Rechecks args a)) := by
  intro s as p hStart hMeets hExec
  rcases CopyinTrue.start hMap hStart with
    ⟨hDone, hCopy⟩ | hTrue
  · have hSame := CopyinState.exec_done hDone hExec
    subst hSame
    refine ⟨?_, ?_⟩
    · intro copy hPhase
      simp [CopyinState.hasCopy, hPhase] at hCopy
    · intro _ a q hStep
      rw [CopyinState.step_done hDone] at hStep
      cases hStep
  · have hWas := hTrue.run hMeets hExec
    refine ⟨?_, ?_⟩
    · intro copy hPhase
      rcases hWas.keeps.returned copy hPhase with
        ⟨hSame, hEnd⟩
      rw [hSame]
      exact ⟨(hWas.sourced hEnd).entries,
        (hWas.sourced hEnd).taken⟩
    · intro hEnd a q hStep hNew
      have hSourced := hWas.sourced hEnd
      exact (hSourced.turn (hWas.covers hEnd) hStep).taken_iff
        hSourced hNew

/- One page of an object, which all may read and write. -/
def readableMap : VmMap :=
  soleMap (soleEntry 0x1000 0x2000 5 protAll 0)

/- The map after another thread took the permissions away. -/
def protectedMap : VmMap :=
  soleMap
    { soleEntry 0x1000 0x2000 5 protAll 0 with
      protection := 0 }

theorem protectedMap_ok : MapOk protectedMap :=
  soleMap_ok (by decide) (by decide) ⟨rfl, rfl⟩

theorem readableMap_ok : MapOk readableMap :=
  soleMap_ok (by decide) (by decide) ⟨rfl, rfl⟩

def onePage : CopyinArgs :=
  { srcAddr := 0x1000
    len := 0x1000
    srcDestroy := false
    useMaxprot := false
    kernelMap := false }

/-
  A page is copied without the lock, while another thread
  locks the map and leaves it as it was.
-/
def relockedInputs : List CopyinInput :=
  [.enter false, .quickly false,
    .copied (.success (.vmObject (some 6)) 0 false)
      ⟨1, readableMap, fun _ => readableMap_ok⟩]

/- The entry at the start of that page can be read. -/
theorem readableMap_again :
    ∀ i m e,
      readableMap.startEntry 0x1000 = some (some (i, m)) →
      m.find i = some e →
      onePage.canRead e = true := by
  have hAll : (readableMap.startEntry 0x1000).all
      (Option.all fun p =>
        (p.2.find p.1).all onePage.canRead) = true := by
    decide
  intro i m e hLook hFind
  rw [hLook, Option.all_some, Option.all_some, hFind] at hAll
  exact hAll

/- The copy that is returned has its entry from that page. -/
theorem vmMapCopyinCommon_taken_iff_readable :
    ∃ s p copy l,
      copyinStart onePage readableMap = some s ∧
      Runs.exec (copyinStep onePage) s relockedInputs =
        some p ∧
      p.phase = .done .success (some copy) ∧
      p.linked = [l] ∧ copy.entries = [l.new] ∧
      l.Taken onePage := by
  have hReturns : ((copyinStart onePage readableMap).bind
      fun s => (Runs.exec (copyinStep onePage) s
        relockedInputs).map fun p =>
          (p.hasCopy, p.linked.length)) =
        some (true, 1) := by
    decide
  rcases Option.bind_eq_some_iff.mp hReturns with
    ⟨s, hStart, hRun⟩
  rcases Option.map_eq_some_iff.mp hRun with ⟨p, hExec, hEq⟩
  rcases Prod.mk.inj hEq with ⟨hCopy, hLength⟩
  have hMeets : Runs.Meets (copyinStep onePage)
      (CopyinState.Tells onePage) s relockedInputs := by
    refine ⟨⟨trivial, trivial⟩, fun t ht => ?_⟩
    refine ⟨⟨trivial, trivial⟩, fun u hu => ?_⟩
    refine ⟨⟨trivial, ?_⟩, fun _ _ => trivial⟩
    have hFirst : ((copyinStart onePage readableMap).bind
        fun s => (copyinStep onePage s (.enter false)).bind
          fun t => (copyinStep onePage t
            (.quickly false)).map CopyinState.srcStart) =
          some 0x1000 := by
      decide
    rw [hStart, Option.bind_some, ht, Option.bind_some, hu]
      at hFirst
    intro w _
    refine ⟨?_, ?_⟩
    · intro _ hStamp
      cases hStamp
    · intro _ i m e hLook hFind _ _
      rw [Option.some.inj hFirst] at hLook
      exact readableMap_again i m e hLook hFind
  have hTaken := (vmMapCopyinCommon_taken_iff readableMap_ok
    s relockedInputs p hStart hMeets hExec).1
  rcases CopyinState.done_of_hasCopy hCopy with
    ⟨copy, hDone⟩
  rcases List.length_eq_one_iff.mp hLength with ⟨l, hOne⟩
  rcases hTaken copy hDone with ⟨hEntries, hAll⟩
  rw [hOne] at hEntries hAll
  exact ⟨s, p, copy, l, hStart, hExec, hDone, hOne, hEntries,
    hAll l (List.mem_singleton_self l)⟩

/- Whether a copy is returned, and all had its source. -/
def copyinTaken
    (args : CopyinArgs)
    (m : VmMap)
    (as : List CopyinInput) : Option (Bool × Bool) :=
  (copyinStart args m).bind fun s =>
    (Runs.exec (copyinStep args) s as).map fun q =>
      (q.hasCopy, decide (∀ l ∈ q.linked, l.Taken args))

/-
  While a page is copied another thread makes it unreadable.
  The call returns the copy.
-/
theorem vmMapCopyinCommon_takes_unreadable :
    copyinTaken ⟨0x1000, 0x1000, false, false, false⟩
      readableMap
      [.enter false, .quickly false,
        .copied (.success (.vmObject (some 6)) 0 false)
          ⟨1, protectedMap, fun _ => protectedMap_ok⟩] =
      some (true, false) := by
  decide

end Vm

end OsfMach
