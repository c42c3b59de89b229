import OsfMach.Ipc.EntryStores
import OsfMach.Ipc.Right

/-
  Moving a right from one entry of a space to another.

  The new entry is pending until the right is stored into it.
  The old one is emptied and deallocated; another name may
  move into its slot, which may be the new name.

  Main declarations:
    * `TwoEntries`, `Readied`, `movedView`
    * `Dropped`
    * `TwoEntries.readied`, `Readied.store_old`
    * `Readied.drop`
-/

------
-- Two Entries
------

namespace OsfMach

namespace Ipc

open Lib

/- A right under the old name, and a new entry without one. -/
structure TwoEntries
    (ipc : IpcParams)
    (s : IpcSpace)
    (oname : Nat)
    (oentry : EntryRef)
    (nname : Nat)
    (nentry : EntryRef)
    (old : EntryFields) : Prop where
  inv : SpaceInv ipc (some nentry) s
  names : oname ≠ nname
  apart : oentry ≠ nentry
  old : (s.layout ipc).At (some nentry) oname oentry old
  new :
    ∃ fields,
      (s.layout ipc).At (some nentry) nname nentry fields ∧
        fields.content = Content.fresh

/- The new entry denotes `y`, and the old one `x`. -/
structure Readied
    (ipc : IpcParams)
    (s w : IpcSpace)
    (oname : Nat)
    (oentry : EntryRef)
    (nname : Nat)
    (nentry : EntryRef)
    (x y : Content) : Prop where
  inv : SpaceInv ipc none w
  old :
    ∃ fields, (w.layout ipc).At none oname oentry fields ∧
      fields.content = x
  new :
    ∃ fields, (w.layout ipc).At none nname nentry fields ∧
      fields.content = y
  has :
    ∀ n c, (w.layout ipc).Has none n c ↔
      if n = nname then c = y
      else if n = oname then c = x
      else (s.layout ipc).Has (some nentry) n c
  sends :
    ∀ r o, (w.layout ipc).Sends r o ↔
      if r = nentry then
        y.type = machPortTypeSend ∧ y.object = o
      else if r = oentry then
        x.type = machPortTypeSend ∧ x.object = o
      else (s.layout ipc).Sends r o
  fast : w.isFast = s.isFast
  size : w.isTableSize = s.isTableSize

namespace SpaceInv

variable {ipc : IpcParams} {s : IpcSpace}
variable {pend : Option EntryRef} {name : Nat} {ref : EntryRef}

section

variable (hInv : SpaceInv ipc pend s)
include hInv

/- An entry denotes one content. -/
theorem content_of_has
    {fields : EntryFields}
    {c : Content}
    (hAt : (s.layout ipc).At pend name ref fields)
    (hHas : (s.layout ipc).Has pend name c) :
    c = fields.content := by
  rcases Layout.has_iff.mp hHas with ⟨r, e, hAt', hContent⟩
  have hRef := hInv.at_unique hAt hAt'
  subst hRef
  rw [← hContent, ← hInv.fields_of_at hAt,
    ← hInv.fields_of_at hAt']

/- Another entry reads as before a store. -/
theorem fields_store_other
    {f e : EntryFields}
    {n : Nat}
    {r : EntryRef}
    (hAt : (s.layout ipc).At pend n r e)
    (hNe : r ≠ ref) :
    (s.store ref f).fields r = e := by
  have hAt' := hInv.at_store_other (f := f) hAt hNe
  cases r with
  | slot i => exact hAt'.2.2.2.2.2
  | node m =>
      have hSorted : KeySorted
          (s.store ref f).isTree.toList := by
        cases ref with
        | slot i => exact hInv.tree.sorted
        | node k =>
            exact (SplayTree.modify_spec hInv.tree k
              (fun _ => f)).1.sorted
      rcases hAt' with ⟨hn, hMem⟩
      subst hn
      unfold IpcSpace.fields IpcSpace.treeFields
      dsimp only
      rw [hSorted.lookup_of_mem hMem]
      rfl

/- What was stored is read. -/
theorem fields_store_self
    {fields : EntryFields}
    (hAt : (s.layout ipc).At pend name ref fields)
    (f : EntryFields) :
    (s.store ref f).fields ref = f := by
  cases ref with
  | slot i =>
      unfold IpcSpace.store IpcSpace.setSlot IpcSpace.fields
      dsimp only
      rw [Function.update_self]
  | node n =>
      rcases hAt with ⟨hn, hMem⟩
      subst hn
      have hSpec := SplayTree.modify_spec hInv.tree n
        (fun _ => f)
      have hStored : (n, f) ∈
          (s.isTree.modify n (fun _ => f)).toList := by
        rw [hSpec.2]
        refine List.mem_map.mpr ⟨_, hMem, ?_⟩
        rw [if_pos rfl]
      unfold IpcSpace.store IpcSpace.fields
        IpcSpace.treeFields
      dsimp only
      rw [hSpec.1.sorted.lookup_of_mem hStored]
      rfl

end

end SpaceInv

theorem Content.type_content
    (fields : EntryFields) :
    fields.content.type = ieBitsType fields.ieBits :=
  ieBitsType_right _

section Two

variable {ipc : IpcParams} {s w : IpcSpace} {oname nname : Nat}
variable {oentry nentry : EntryRef} {old : EntryFields}
variable {x y : Content}

namespace TwoEntries

theorem congr
    {s' : IpcSpace}
    (h : TwoEntries ipc s oname oentry nname nentry old)
    (hSame : SameEntries s s') :
    TwoEntries ipc s' oname oentry nname nentry old := by
  have hLayout := hSame.layout_eq ipc
  exact
    { inv := hSame.spaceInv h.inv
      names := h.names
      apart := h.apart
      old := by
        rw [hLayout]
        exact h.old
      new := by
        rw [hLayout]
        exact h.new }

section

variable (h : TwoEntries ipc s oname oentry nname nentry old)
include h

/- The new entry is no send right. -/
theorem not_sends_new
    (o : Nat) :
    ¬ (s.layout ipc).Sends nentry o := by
  intro hSends
  rcases h.new with ⟨fields, hAt, hFresh⟩
  rcases h.inv.at_of_sends hSends with
    ⟨n, e, hAt', hType, _⟩
  have hEq : e = fields := by
    rw [← h.inv.fields_of_at hAt, ← h.inv.fields_of_at hAt']
  rw [hEq, ← Content.type_content, hFresh] at hType
  exact machPortTypeSend_ne_none hType.symm

/- The old entry is a send right just when its type says so. -/
theorem sends_old_iff
    (o : Nat) :
    (s.layout ipc).Sends oentry o ↔
      ieBitsType old.ieBits = machPortTypeSend ∧
        old.ieObject = o := by
  constructor
  · intro hSends
    rcases h.inv.at_of_sends hSends with
      ⟨n, e, hAt', hType, hObject⟩
    have hEq : e = old := by
      rw [← h.inv.fields_of_at h.old, ← h.inv.fields_of_at hAt']
    rw [← hEq]
    exact ⟨hType, hObject⟩
  · rintro ⟨hType, hObject⟩
    rw [← hObject]
    exact SpaceInv.sends_of_at h.old hType

/- The right is stored into the new entry. -/
theorem readied
    {f : EntryFields}
    (hBits : f.ieBits &&& ~~~ieBitsRightMask =
      (s.fields nentry).ieBits &&& ~~~ieBitsRightMask)
    (hTyped : f.content.Typed) :
    Readied ipc s (s.store nentry f) oname oentry nname
      nentry old.content f.content := by
  rcases h.new with ⟨fields, hNew, _⟩
  have hAssign := h.inv.assign_spec (.inr rfl) hNew hTyped
  rw [← s.store_eq_assign nentry hBits] at hAssign
  have hOld := (h.inv.at_store_other (f := f) h.old
    h.apart).settled h.apart
  rcases hAssign.kept with ⟨e, hKept⟩
  have hContent : f.content = e.content :=
    hAssign.inv.content_of_has hKept
      ((hAssign.has nname f.content).mpr (if_pos rfl ▸ rfl))
  refine ⟨hAssign.inv, ⟨old, hOld, rfl⟩,
    ⟨e, hKept, hContent.symm⟩, ?_, ?_, hAssign.fast, ?_⟩
  · intro n c
    rw [hAssign.has]
    by_cases hn : n = nname
    · rw [if_pos hn, if_pos hn]
    · rw [if_neg hn, if_neg hn]
      by_cases ho : n = oname
      · rw [if_pos ho, ho]
        constructor
        · exact h.inv.content_of_has h.old
        · intro hc
          exact Layout.has_iff.mpr
            ⟨oentry, old, h.old, hc.symm⟩
      · rw [if_neg ho]
  · intro r o
    rw [h.inv.sends_store_iff hNew, Content.type_content]
    by_cases hr : r = nentry
    · rw [if_pos hr, if_pos hr]
      rfl
    · rw [if_neg hr, if_neg hr]
      by_cases ho : r = oentry
      · rw [if_pos ho, ho, h.sends_old_iff,
          Content.type_content]
        rfl
      · rw [if_neg ho]
  · cases nentry <;> rfl

end

end TwoEntries

namespace Readied

/- Another store to the old entry. -/
theorem store_old
    (h : Readied ipc s w oname oentry nname nentry x y)
    (hNames : oname ≠ nname)
    (hApart : oentry ≠ nentry)
    {f : EntryFields}
    (hBits : f.ieBits &&& ~~~ieBitsRightMask =
      (w.fields oentry).ieBits &&& ~~~ieBitsRightMask)
    (hTyped : f.content.Typed) :
    Readied ipc s (w.store oentry f) oname oentry nname
      nentry f.content y := by
  rcases h.old with ⟨old, hOld, _⟩
  rcases h.new with ⟨new, hNew, hy⟩
  have hAssign := h.inv.assign_spec (.inl rfl) hOld hTyped
  rw [← w.store_eq_assign oentry hBits] at hAssign
  rcases hAssign.kept with ⟨e, hKept⟩
  have hContent : f.content = e.content :=
    hAssign.inv.content_of_has hKept
      ((hAssign.has oname f.content).mpr (if_pos rfl ▸ rfl))
  have hNew' := h.inv.at_store_other (f := f) hNew
    hApart.symm
  refine ⟨hAssign.inv, ⟨e, hKept, hContent.symm⟩,
    ⟨new, hNew', hy⟩, ?_, ?_, hAssign.fast.trans h.fast, ?_⟩
  · intro n c
    rw [hAssign.has, h.has]
    by_cases ho : n = oname
    · have hn : n ≠ nname := fun hn =>
        hNames (ho.symm.trans hn)
      rw [if_pos ho, if_neg hn, if_pos ho]
    · simp only [if_neg ho]
  · intro r o
    rw [h.inv.sends_store_iff hOld, Content.type_content,
      h.sends]
    by_cases hr : r = oentry
    · have hn : r ≠ nentry := fun hn =>
        hApart (hr.symm.trans hn)
      rw [if_pos hr, if_neg hn, if_pos hr]
      rfl
    · simp only [if_neg hr]
  · rw [← h.size]
    cases oentry <;> rfl

end Readied

/- What the reverse hash is to hold before the old entry goes. -/
def movedView
    (ipc : IpcParams)
    (s : IpcSpace)
    (oentry nentry : EntryRef)
    (y : Content)
    (r : EntryRef)
    (o : Nat) : Prop :=
  (r = nentry ∧ y.type = machPortTypeSend ∧ y.object = o) ∨
    (r ≠ nentry ∧ r ≠ oentry ∧ (s.layout ipc).Sends r o)

/- The old name is gone, and the new one denotes the right. -/
structure Dropped
    (ipc : IpcParams)
    (s t : IpcSpace)
    (oname nname : Nat)
    (nentry : EntryRef)
    (y : Content) : Prop where
  inv : SpaceInv ipc none t
  hash : HashInv ipc t
  has :
    ∀ n c, (t.layout ipc).Has none n c ↔
      (if n = nname then c = y
        else (s.layout ipc).Has (some nentry) n c) ∧
      n ≠ oname
  fast : t.isFast = s.isFast
  size : s.isFast = true → t.isTableSize = s.isTableSize

theorem ipcEntryDealloc_size
    (ipc : IpcParams)
    (name : Nat)
    (ref : EntryRef)
    (hFast : s.isFast = true) :
    (ipcEntryDealloc ipc s name ref).isTableSize =
      s.isTableSize := by
  unfold ipcEntryDealloc
  rw [if_pos hFast]
  rfl

/- The old entry is emptied and deallocated. -/
theorem Readied.drop
    {w' : IpcSpace}
    (h : Readied ipc s w oname oentry nname nentry x y)
    (hNames : oname ≠ nname)
    (hApart : oentry ≠ nentry)
    (hTyped : x.Typed)
    (hRequest : x.request = 0)
    (hSame : SameEntries w w')
    (hView : HashView ipc w'
      (movedView ipc s oentry nentry y)) :
    (w'.fields oentry).ieRequest = 0 ∧
      Dropped ipc s
        (ipcEntryDealloc ipc
          (w'.store oentry
            { w'.fields oentry with ieObject := ioNull })
          oname oentry)
        oname nname nentry y := by
  rcases h.old with ⟨old, hOld, hx⟩
  have hLayout := hSame.layout_eq ipc
  have hReadied :
      Readied ipc s w' oname oentry nname nentry x y :=
    { inv := hSame.spaceInv h.inv
      old := by
        rw [hLayout]
        exact h.old
      new := by
        rw [hLayout]
        exact h.new
      has := by
        rw [hLayout]
        exact h.has
      sends := by
        rw [hLayout]
        exact h.sends
      fast := hSame.frame.fast.trans h.fast
      size := hSame.frame.size.trans h.size }
  have hFields : w'.fields oentry = old := by
    rw [hSame.fields_eq]
    exact h.inv.fields_of_at hOld
  rw [hFields]
  have hOldRequest : old.ieRequest = 0 := by
    rw [← hx] at hRequest
    exact hRequest
  refine ⟨hOldRequest, ?_⟩
  have hEmptied := hReadied.store_old hNames hApart
    (f := { old with ieObject := ioNull })
    (by rw [hFields])
    (by
      rw [← hx] at hTyped
      exact hTyped)
  rcases hEmptied.old with ⟨e, hAt, he⟩
  have hNull : e.ieObject = 0 := congrArg Content.object he
  have hDealloc := hEmptied.inv.dealloc_spec (.inl rfl) hAt
    hNull
  have hStored := hView.congr
    (SameHash.store w' oentry
      { old with ieObject := ioNull })
    (fun _ _ => Iff.rfl)
  refine ⟨hDealloc.inv, ?_, ?_,
    hDealloc.fast.trans hEmptied.fast, ?_⟩
  · apply hEmptied.inv.dealloc_hashInv hAt
    apply hStored.congr (SameHash.refl _)
    intro r o
    unfold viewDelete movedView
    rw [hEmptied.sends]
    by_cases hn : r = nentry
    · simp [hn, hApart.symm]
    · by_cases ho : r = oentry
      · simp [ho, hApart]
      · simp [hn, ho]
  · intro n c
    rw [hDealloc.has, hEmptied.has]
    by_cases ho : n = oname
    · simp [ho]
    · simp only [if_neg ho]
  · intro hFast
    rw [ipcEntryDealloc_size ipc oname oentry
      (hEmptied.fast.trans hFast)]
    exact hEmptied.size

------
-- The Reverse Hash
------

/- A right that is not hashed moves to an entry that is not. -/
theorem TwoEntries.view_plain
    (h : TwoEntries ipc s oname oentry nname nentry old)
    (hHash : HashInv ipc s)
    (hOld : ieBitsType old.ieBits ≠ machPortTypeSend)
    (hNew : y.type ≠ machPortTypeSend) :
    HashView ipc s (movedView ipc s oentry nentry y) := by
  apply hHash.congr (SameHash.refl s)
  intro r o
  constructor
  · rintro (⟨_, hType, _⟩ | ⟨_, _, hSends⟩)
    · exact absurd hType hNew
    · exact hSends
  · intro hSends
    refine .inr ⟨?_, ?_, hSends⟩
    · rintro rfl
      exact h.not_sends_new o hSends
    · rintro rfl
      exact hOld ((h.sends_old_iff o).mp hSends).1

/- A hashed right that dies is unhashed. -/
theorem TwoEntries.view_deleted
    (h : TwoEntries ipc s oname oentry nname nentry old)
    (hHash : HashInv ipc s)
    (hOld : ieBitsType old.ieBits = machPortTypeSend)
    (hNew : y.type ≠ machPortTypeSend) :
    HashView ipc
      (ipcHashDelete ipc s old.ieObject oname oentry)
      (movedView ipc s oentry nentry y) := by
  have hView := HashView.deleteAt hHash h.old
    ((h.sends_old_iff _).mpr ⟨hOld, rfl⟩)
    (fun j o _ hSends => hSends.2.2)
  apply hView.congr (SameHash.refl _)
  intro r o
  constructor
  · rintro (⟨_, hType, _⟩ | ⟨_, hNe, hSends⟩)
    · exact absurd hType hNew
    · exact ⟨hSends, hNe⟩
  · rintro ⟨hSends, hNe⟩
    refine .inr ⟨?_, hNe, hSends⟩
    rintro rfl
    exact h.not_sends_new o hSends

/- A hashed right is hashed where it moves to. -/
theorem Readied.view_rehashed
    (hReadied :
      Readied ipc s w oname oentry nname nentry x y)
    (h : TwoEntries ipc s oname oentry nname nentry old)
    (hHash : HashInv ipc s)
    (hSame : SameHash s w)
    (hOld : ieBitsType old.ieBits = machPortTypeSend)
    (hType : y.type = machPortTypeSend)
    (hObject : y.object = old.ieObject) :
    HashView ipc
      (ipcHashInsert ipc
        (ipcHashDelete ipc w old.ieObject oname oentry)
        old.ieObject nname nentry)
      (movedView ipc s oentry nentry y) := by
  rcases hReadied.old with ⟨e, hOldAt, _⟩
  rcases hReadied.new with ⟨f, hNewAt, _⟩
  have hView := hHash.congr hSame (fun _ _ => Iff.rfl)
  have hDelete := hView.deleteAt hOldAt
    ((h.sends_old_iff _).mpr ⟨hOld, rfl⟩)
    (by
      intro j o hNe hSends
      have hNew : .slot j ≠ nentry := by
        rintro rfl
        exact h.not_sends_new o hSends
      have hSends' := hReadied.sends (.slot j) o
      rw [if_neg hNew, if_neg hNe] at hSends'
      exact (hSends'.mpr hSends).2.2)
  have hEntries := SameEntries.hashDelete ipc w old.ieObject
    oname oentry
  rw [← hEntries.layout_eq ipc] at hNewAt
  have hInsert := hDelete.insertAt hNewAt
    (by
      rintro o ⟨hSends, _⟩
      exact h.not_sends_new o hSends)
    old.ieObject
  apply hInsert.congr (SameHash.refl _)
  intro r o
  unfold movedView viewInsert viewDelete
  rw [hType, hObject]
  constructor
  · rintro (⟨hRef, _, hEq⟩ | ⟨_, hNe, hSends⟩)
    · exact .inr ⟨hRef, hEq.symm⟩
    · exact .inl ⟨hSends, hNe⟩
  · rintro (⟨hSends, hNe⟩ | ⟨hRef, hEq⟩)
    · refine .inr ⟨?_, hNe, hSends⟩
      rintro rfl
      exact h.not_sends_new o hSends
    · exact .inl ⟨hRef, rfl, hEq.symm⟩

end Two

end Ipc

end OsfMach
