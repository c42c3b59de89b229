import OsfMach.Vm.MapCopy
import OsfMach.Vm.MapAlloc

/-
  Copies of ranges are chains of entries without a hole.

  Main declarations:
    * `Chain`, `CopyChain`
    * `Chain.snoc`, `CopyChain.link`
-/

------
-- Chains
------

namespace OsfMach

namespace Vm

open Lib
open Lib.Prog

variable {start stop : Nat} {e : VmMapEntry}

/- Entries that cover a range. -/
structure Chain
    (start stop : Nat)
    (c : List VmMapEntry) : Prop where
  tiles : EntryTiles start stop c
  contiguous : EntryContiguous start stop c
  aligned : ∀ e ∈ c, Aligned e.vmeStart ∧ Aligned e.vmeEnd

theorem chain_nil
    (start : Nat) :
    Chain start start [] :=
  ⟨Nat.le_refl _, rfl, by simp⟩

theorem Chain.snoc
    {c : List VmMapEntry}
    (h : Chain start stop c)
    (hStart : e.vmeStart = stop)
    (hLt : e.vmeStart < e.vmeEnd)
    (hAligned : Aligned e.vmeStart ∧ Aligned e.vmeEnd) :
    Chain start e.vmeEnd (c ++ [e]) := by
  refine ⟨?_, ?_, ?_⟩
  · apply tiles_append.mpr
    exact ⟨stop, h.tiles, Nat.le_of_eq hStart.symm, hLt,
      Nat.le_refl _⟩
  · apply contiguous_append.mpr
    exact ⟨stop, h.contiguous, hStart, rfl⟩
  · intro x hx
    rcases List.mem_append.mp hx with hc | hOne
    · exact h.aligned x hc
    · rw [List.mem_singleton.mp hOne]
      exact hAligned

theorem Chain.lengths
    {c : List VmMapEntry}
    (h : Chain start stop c) :
    start + entryLengths c = stop := by
  have hTiles := h.tiles
  have hCont := h.contiguous
  clear h
  induction c generalizing start with
  | nil => exact hCont
  | cons e c ih =>
      rcases hTiles with ⟨_, hLt, hRest⟩
      rcases hCont with ⟨hLo, hCont⟩
      have hTail := ih hRest hCont
      rw [entryLengths_cons]
      omega

------
-- Copying a Range in
------

/- A copy whose entries cover a range. -/
structure CopyChain
    (copy : VmMapCopy)
    (start stop : Nat) : Prop where
  chain : Chain start stop copy.entries
  nentries : copy.nentries = copy.entries.length

theorem CopyChain.link
    {copy : VmMapCopy}
    (h : CopyChain copy start stop)
    (hStart : e.vmeStart = stop)
    (hLt : e.vmeStart < e.vmeEnd)
    (hAligned : Aligned e.vmeStart ∧ Aligned e.vmeEnd) :
    CopyChain (copy.link e) start e.vmeEnd := by
  refine ⟨h.chain.snoc hStart hLt hAligned, ?_⟩
  unfold VmMapCopy.link
  rw [h.nentries, List.length_append]
  rfl

theorem keepsRange_needsCopy :
    KeepsRange fun x => { x with needsCopy := true } :=
  ⟨fun _ => rfl, fun _ => rfl, fun _ => rfl⟩

theorem MapOrder.bounds_eq
    {m : VmMap}
    (h : MapOrder m)
    (he : e ∈ m.entries) :
    m.bounds (some e.entryId) =
      some (e.vmeStart, e.vmeEnd) := by
  unfold VmMap.bounds
  dsimp only
  rw [h.find_eq he]
  rfl

/- A pointer to nothing that starts at another address. -/
def PtrAt (m : VmMap) (p : Option Nat) (a : Nat) : Prop :=
  ∀ e ∈ m.entries, p = some e.entryId → e.vmeStart = a

theorem truncPage_aligned
    (x : Nat) :
    Aligned (truncPage x) := by
  unfold Aligned truncPage pageSize
  omega

theorem roundPage_aligned
    (x : Nat) :
    Aligned (roundPage x) :=
  truncPage_aligned _

end Vm

end OsfMach
