import Mathlib.Data.Finset.Card
import OsfMach.Pager.VsMap

/-
  The map of an object covers its size.

  The map of a size is made and extended without a test for
  wrap-around, and the enumerators of the valid pages take a
  direct map to be of the largest size.

  Main declarations:
    * `VsTable.Shaped`, `VsTable.validOffsets`
    * `CreateCovers`, `ExtendKeeps`, `Enumerates`
    * `createCovers_iff`, `extendKeeps_iff`, `enumerates_iff`
    * `vsMap_covers_iff`
-/

------
-- Shapes
------

namespace OsfMach

namespace Pager

open List

variable {vs : VsTable} {clshift size : Nat}
variable {junk : Nat → VsMap}
variable {n : Nat} {vsMemory mapMemory : Bool} {newSize : Int}
variable {dmap newDmap : List VsMap}

/- The entries of a block, which are clear where it is null. -/
def blockEntries : Option (List VsMap) → List VsMap
| none => List.replicate clmapEntries VsMap.clr
| some block => block

/- The entries that a map has room for. -/
def VsBlocks.entries : VsBlocks → List VsMap
| .direct dmap => dmap
| .indirect imap => imap.flatMap blockEntries

/- As a map of its size is laid out. -/
def VsTable.Layout (vs : VsTable) : Prop :=
  match vs.vsMap with
  | .direct dmap =>
      vs.vsSize = dmap.length ∧ dmap.length ≤ clmapEntries
  | .indirect imap =>
      clmapEntries < vs.vsSize ∧ vs.vsSize < 2 ^ 31 ∧
        imap.length = (vs.vsSize - 1) / clmapEntries + 1 ∧
        ∀ b ∈ imap, (blockEntries b).length = clmapEntries

/- What is after the entries of the size is clear. -/
structure VsTable.Shaped (vs : VsTable) : Prop where
  layout : vs.Layout
  slack : ∀ (c : Nat) e, vs.vsSize ≤ c →
    vs.vsMap.entries[c]? = some e → e = VsMap.clr

theorem length_flatMap_blocks
    {imap : List (Option (List VsMap))}
    (h : ∀ b ∈ imap, (blockEntries b).length = clmapEntries) :
    (imap.flatMap blockEntries).length =
      imap.length * clmapEntries := by
  rw [length_flatMap, map_congr_left h,
    map_const', sum_replicate_nat]

/- A map has room for its size. -/
theorem VsTable.Layout.room
    (h : vs.Layout) :
    vs.vsSize ≤ vs.vsMap.entries.length := by
  unfold Layout at h
  unfold VsBlocks.entries
  cases hMap : vs.vsMap with
  | direct dmap =>
      rw [hMap] at h
      exact Int.le_of_eq h.1
  | indirect imap =>
      rw [hMap] at h
      rcases h with ⟨_, _, hLength, hBlocks⟩
      rw [length_flatMap_blocks hBlocks]
      unfold clmapEntries clmapThreshold sizeofVsMap at *
      omega

------
-- Creating
------

/-
  What is returned holds the size, has room for its clusters
  and is clear; nothing outside of it was written.
-/
def CreateCovers
    (clshift size : Nat)
    (vsMemory mapMemory : Bool)
    (junk : Nat → VsMap) : Prop :=
  ∃ r, VsTable.psVstructCreate clshift size vsMemory mapMemory
      junk = .ok r ∧
    ∀ vs, r = some vs →
      (size : Int) ≤ vs.vsSize * (2 ^ clshift * vmPageSize) ∧
      vs.Layout ∧ ∀ e ∈ vs.vsMap.entries, e = VsMap.clr

/- There is no memory, or rounding the size does not wrap. -/
def CreateWhen
    (clshift size : Nat)
    (vsMemory mapMemory : Bool) : Prop :=
  vsMemory = true → mapMemory = true →
    (0 < size ∧ size + vmPageSize ≤ 2 ^ 32) ∨
      (size = 0 ∧ clshift = 0)

theorem cases_of_le_maxClusterShift
    (h : clshift ≤ maxClusterShift) :
    clshift = 0 ∨ clshift = 1 ∨ clshift = 2 ∨
      clshift = 3 := by
  unfold maxClusterShift at h
  omega

/- The size in clusters of an object that is not too large. -/
theorem vstructSize_fits
    (hShift : clshift ≤ maxClusterShift)
    (hPos : 0 < size)
    (hFits : size + vmPageSize ≤ 2 ^ 32) :
    ∃ n : Nat, vstructSize clshift size = n ∧ 0 < n ∧
      n ≤ 2 ^ 20 ∧
      size ≤ n * (2 ^ clshift * vmPageSize) := by
  refine ⟨((size + 4095) / 4096 - 1) / 2 ^ clshift + 1, ?_⟩
  unfold vstructSize unsigned atop roundPage
  unfold vmPageSize at *
  rcases cases_of_le_maxClusterShift hShift with
    rfl | rfl | rfl | rfl <;>
    (rw [if_pos (by omega)]; omega)

/- The size of one whose size in pages wraps around. -/
theorem vstructSize_wraps
    (hShift : clshift ≤ maxClusterShift)
    (hWraps : roundPage size = 0) :
    clmapSize (vstructSize clshift size) = 0 ∧
      (clshift = 0 ∧ vstructSize clshift size = 0 ∨
        clshift = 1 ∧ vstructSize clshift size < 0 ∨
        1 < clshift ∧ 0 < vstructSize clshift size) := by
  unfold vstructSize
  rw [hWraps]
  rcases cases_of_le_maxClusterShift hShift with
    rfl | rfl | rfl | rfl <;> decide

/- Sizes of maps that are computed without wrapping. -/
theorem clmapSize_eq
    (h : n < 2 ^ 29) :
    clmapSize n = n * sizeofVsMap := by
  unfold clmapSize unsigned sizeofVsMap
  omega

theorem indirectClmapSize_eq
    {n : Int}
    (hPos : 0 < n)
    (h : n < 2 ^ 31) :
    (indirectClmapSize n / sizeofPointer : Nat) =
      (n - 1) / clmapEntries + 1 := by
  unfold indirectClmapSize indirectClmapEntries unsigned
    sizeofPointer clmapEntries clmapThreshold sizeofVsMap
  omega

theorem length_junkMap
    (junk : Nat → VsMap)
    (size : Nat) :
    (junkMap junk size).length = size / sizeofVsMap := by
  unfold junkMap
  rw [length_map, length_range]

theorem entries_null
    (n : Nat) :
    (VsBlocks.indirect (List.replicate n none)).entries =
      List.replicate (n * clmapEntries) VsMap.clr := by
  unfold VsBlocks.entries
  dsimp only
  rw [flatMap_replicate]
  unfold blockEntries
  rw [flatten_replicate_replicate]

/- The map of a size that is not too large. -/
theorem psVstructCreate_fits
    (junk : Nat → VsMap)
    (hSize : vstructSize clshift size = n)
    (hPos : 0 < n)
    (hLe : n ≤ 2 ^ 20) :
    ∃ vs, VsTable.psVstructCreate clshift size true true junk =
        .ok (some vs) ∧
      vs.vsSize = n ∧ vs.Layout ∧
      ∀ e ∈ vs.vsMap.entries, e = VsMap.clr := by
  have hClmap := clmapSize_eq (n := n) (by omega)
  unfold VsTable.psVstructCreate isIndirectClmap
  dsimp only
  rw [hSize, hClmap]
  by_cases hIndirect : clmapEntries < n
  · refine ⟨⟨clshift, n, .indirect (List.replicate
      (indirectClmapSize n / sizeofPointer) none)⟩,
      ?_, rfl, ?_, ?_⟩
    · have hOver : clmapThreshold < n * sizeofVsMap := by
        unfold clmapEntries clmapThreshold sizeofVsMap at *
        omega
      simp [hOver]
    · have hRoom := indirectClmapSize_eq
        (n := n) (by omega) (by omega)
      refine ⟨by dsimp only; omega, by dsimp only; omega, ?_, ?_⟩
      · rw [length_replicate]
        exact hRoom
      · intro b hb
        rw [(mem_replicate.mp hb).2]
        exact length_replicate
    · intro e he
      rw [entries_null] at he
      exact (mem_replicate.mp he).2
  · refine ⟨⟨clshift, n, .direct (List.replicate n
      VsMap.clr)⟩, ?_, rfl, ?_, ?_⟩
    · have hUnder : ¬ clmapThreshold < n * sizeofVsMap := by
        unfold clmapEntries clmapThreshold sizeofVsMap at *
        omega
      have hLength : (junkMap junk (n * sizeofVsMap)).length =
          n := by
        rw [length_junkMap]
        exact Nat.mul_div_cancel n (by decide)
      simp [hUnder, vsmClrFrom, hLength]
    · exact ⟨by rw [length_replicate],
        by rw [length_replicate]; omega⟩
    · intro e he
      exact (mem_replicate.mp he).2

theorem createCovers_iff
    (hShift : clshift ≤ maxClusterShift)
    (hSize : size < 2 ^ 32) :
    CreateCovers clshift size vsMemory mapMemory junk ↔
      CreateWhen clshift size vsMemory mapMemory := by
  unfold CreateCovers CreateWhen
  cases vsMemory with
  | false =>
      exact iff_of_true ⟨none, rfl, by simp⟩ (by simp)
  | true =>
  cases mapMemory with
  | false =>
      exact iff_of_true ⟨none, rfl, by simp⟩ (by simp)
  | true =>
  by_cases hFits : 0 < size ∧ size + vmPageSize ≤ 2 ^ 32
  · rcases vstructSize_fits hShift hFits.1 hFits.2 with
      ⟨n, hn, hPos, hLe, hHolds⟩
    rcases psVstructCreate_fits junk hn hPos hLe with
      ⟨vs, hRun, hVs, hLayout, hClear⟩
    refine iff_of_true ⟨some vs, hRun, ?_⟩
      (fun _ _ => .inl hFits)
    rintro _ ⟨⟩
    refine ⟨?_, hLayout, hClear⟩
    rw [hVs]
    exact_mod_cast hHolds
  · -- rounding the size up gives no page at all
    have hWraps : roundPage size = 0 := by
      unfold roundPage
      unfold vmPageSize at *
      omega
    rcases vstructSize_wraps hShift hWraps with
      ⟨hZero, hCases⟩
    unfold VsTable.psVstructCreate isIndirectClmap
    dsimp only
    rw [hZero]
    constructor
    · rintro ⟨r, hRun, hAll⟩ _ _
      right
      rcases hCases with ⟨rfl, hVs⟩ | ⟨rfl, hVs⟩ | ⟨_, hVs⟩
      · rw [hVs] at hRun
        cases hRun
        have hHolds := (hAll _ rfl).1
        dsimp only at hHolds
        omega
      · rw [show (vstructSize 1 size).toNat = 0 by omega] at hRun
        cases hRun
        have hHolds := (hAll _ rfl).1
        dsimp only [vmPageSize] at hHolds
        omega
      · have hFails : vsmClrFrom (vstructSize clshift size).toNat
            0 (junkMap junk 0) = .error .outOfBounds := by
          unfold vsmClrFrom
          rw [if_neg]
          rw [length_junkMap, Nat.zero_div]
          omega
        rw [hFails] at hRun
        cases hRun
    · intro hWhen
      rcases hWhen rfl rfl with hIs | ⟨rfl, rfl⟩
      · exact absurd hIs hFits
      · refine ⟨some ⟨0, 0, .direct []⟩, rfl, ?_⟩
        rintro _ ⟨⟩
        exact ⟨by decide, ⟨rfl, by decide⟩, by simp [
          VsBlocks.entries]⟩

------
-- Extending
------

/- The old entries are preserved and the new ones clear. -/
structure Extends
    (vs : VsTable)
    (newSize : Int)
    (vs' : VsTable) : Prop where
  size : vs'.vsSize = max vs.vsSize newSize
  shift : vs'.vsClshift = vs.vsClshift
  shaped : vs'.Shaped
  old : ∀ c : Nat, c < vs.vsSize →
    vs'.vsMap.entries[c]? = vs.vsMap.entries[c]?
  new : ∀ c : Nat, vs.vsSize ≤ c → c < vs'.vsSize →
    vs'.vsMap.entries[c]? = some VsMap.clr

/- An error leaves the map, and nothing else was written. -/
def ExtendKeeps
    (newSize : Int)
    (mapMemory blockMemory : Bool)
    (junk : Nat → VsMap)
    (vs : VsTable) : Prop :=
  ∃ ok vs',
    psMapExtend newSize mapMemory blockMemory junk vs =
      .ok (ok, vs') ∧
    if ok then Extends vs newSize vs' else vs' = vs

/-
  The size of a new map is not one whose size in bytes, when
  it wraps around, is that of a direct map.
-/
def ExtendWhen
    (newSize : Int)
    (mapMemory : Bool)
    (vs : VsTable) : Prop :=
  vs.vsSize < newSize → mapMemory = true →
    newSize < 2 ^ 29 ∨ clmapEntries < newSize % 2 ^ 29

/- A map that has got clear entries after the old ones. -/
theorem VsTable.Shaped.extends
    {blocks : VsBlocks}
    (h : vs.Shaped)
    (hLess : vs.vsSize < newSize)
    (k : Nat)
    (hLayout : ({ vs with
      vsSize := newSize, vsMap := blocks } : VsTable).Layout)
    (hEntries : blocks.entries =
      vs.vsMap.entries ++ List.replicate k VsMap.clr) :
    Extends vs newSize
      { vs with vsSize := newSize, vsMap := blocks } := by
  have hRoom := h.layout.room
  have hRoom' : newSize ≤ blocks.entries.length := hLayout.room
  have hAfter : ∀ (c : Nat) e, vs.vsSize ≤ c →
      blocks.entries[c]? = some e → e = VsMap.clr := by
    intro c e hc he
    rw [hEntries] at he
    by_cases hLt : c < vs.vsMap.entries.length
    · rw [List.getElem?_append_left hLt] at he
      exact h.slack c e hc he
    · rw [List.getElem?_append_right (by omega)] at he
      exact eq_of_mem_replicate (mem_of_getElem? he)
  refine ⟨by dsimp only; omega, rfl, ⟨hLayout, ?_⟩, ?_, ?_⟩
  · intro c e hc he
    dsimp only at hc
    exact hAfter c e (by omega) he
  · intro c hc
    rw [hEntries]
    exact List.getElem?_append_left (by omega)
  · intro c hc hLt
    dsimp only at hLt ⊢
    have hIn : c < blocks.entries.length := by omega
    rw [List.getElem?_eq_getElem hIn]
    exact congrArg some
      (hAfter c _ hc (List.getElem?_eq_getElem hIn))

theorem isIndirectClmap_iff
    {n : Int} :
    isIndirectClmap n = true ↔ clmapEntries < n % 2 ^ 29 := by
  unfold isIndirectClmap
  rw [decide_eq_true_iff]
  unfold clmapSize unsigned sizeofVsMap clmapEntries
    clmapThreshold sizeofVsMap
  omega

/- A direct map that is copied to a larger one. -/
theorem extendDirect_eq
    {newdsize : Nat}
    (hMap : vs.vsMap = .direct dmap)
    (hLayout : vs.Layout)
    (hLength : newDmap.length = newdsize)
    (hLe : dmap.length ≤ newdsize) :
    extendDirect vs newDmap newdsize =
      .ok (dmap ++ List.replicate (newdsize - dmap.length)
        VsMap.clr) := by
  unfold VsTable.Layout at hLayout
  rw [hMap] at hLayout
  rcases hLayout with ⟨hSize, hSmall⟩
  have hClmap : clmapSize vs.vsSize / sizeofVsMap =
      dmap.length := by
    rw [hSize, clmapSize_eq]
    · exact Nat.mul_div_cancel _ (by decide)
    · unfold clmapEntries clmapThreshold sizeofVsMap at hSmall
      omega
  unfold extendDirect copyEntries vsmClrFrom
  rw [hMap]
  dsimp only
  rw [hClmap, if_pos ⟨le_refl _, by omega⟩, hSize]
  dsimp only
  have hDiff : ((newdsize : Int) - dmap.length).toNat =
      newdsize - dmap.length := by omega
  have hTotal : dmap.length + (newdsize - dmap.length) =
      newdsize := by omega
  rw [Int.toNat_natCast, hDiff, hTotal, take_length]
  have hCopied : (dmap ++ newDmap.drop dmap.length).length =
      newdsize := by
    rw [length_append, length_drop]
    omega
  rw [if_pos (.inr (by rw [hCopied])), take_left,
    drop_of_length_le (by rw [hCopied]), append_nil]

/- The size in bytes of the new map has wrapped around. -/
theorem extendDirect_wraps
    {newdsize : Int}
    (hLayout : vs.Layout)
    (hLess : vs.vsSize < newdsize)
    (hLength : newDmap.length < newdsize) :
    extendDirect vs newDmap newdsize =
      .error .outOfBounds := by
  unfold extendDirect
  cases hMap : vs.vsMap with
  | indirect imap => rfl
  | direct dmap =>
      unfold VsTable.Layout at hLayout
      rw [hMap] at hLayout
      rcases hLayout with ⟨hSize, _⟩
      dsimp only
      unfold copyEntries
      split_ifs with hCopy
      · dsimp only
        unfold vsmClrFrom
        rw [if_neg]
        rw [length_append, length_take, length_drop]
        omega
      · rfl

theorem extendKeeps_iff
    {mapMemory blockMemory : Bool}
    (h : vs.Shaped)
    (hInt : newSize < 2 ^ 31) :
    ExtendKeeps newSize mapMemory blockMemory junk vs ↔
      ExtendWhen newSize mapMemory vs := by
  unfold ExtendKeeps ExtendWhen psMapExtend
  by_cases hLess : vs.vsSize < newSize
  swap
  · rw [if_pos (by omega)]
    refine iff_of_true ⟨true, vs, rfl, ?_⟩
      (fun hLt => absurd hLt hLess)
    exact ⟨by omega, rfl, h, fun _ _ => rfl,
      fun c _ _ => by omega⟩
  rw [if_neg (by omega)]
  have hLayout := h.layout
  have hNonneg : 0 ≤ vs.vsSize := by
    unfold VsTable.Layout at hLayout
    split at hLayout <;> omega
  by_cases hIndirect : clmapEntries < newSize % 2 ^ 29
  · rw [if_pos (isIndirectClmap_iff.mpr hIndirect)]
    refine iff_of_true ?_ (fun _ _ => .inr hIndirect)
    have hNew := indirectClmapSize_eq (n := newSize) (by omega)
      hInt
    have hOver : clmapEntries < newSize := by omega
    unfold VsTable.Layout at hLayout
    cases hMap : vs.vsMap with
    | indirect imap =>
        rw [hMap] at hLayout
        rcases hLayout with ⟨hBig, hVs, hLength, hBlocks⟩
        have hOld := indirectClmapSize_eq (n := vs.vsSize)
          (by omega) hVs
        dsimp only
        split_ifs with hSame hMemory
        · refine ⟨true, _, rfl, ?_⟩
          apply h.extends hLess 0
          · refine ⟨hOver, hInt, ?_, hBlocks⟩
            rw [hLength, ← hOld, ← hNew, hSame]
          · rw [hMap, replicate_zero, append_nil]
        · exact ⟨false, vs, rfl, rfl⟩
        · have hGrows : imap.length ≤
              indirectClmapSize newSize / sizeofPointer := by
            unfold clmapEntries clmapThreshold sizeofVsMap at *
            omega
          have hCopy : copyEntries
              (indirectClmapSize vs.vsSize / sizeofPointer)
              (List.replicate
                (indirectClmapSize newSize / sizeofPointer)
                none) imap =
              .ok (imap ++ List.replicate
                (indirectClmapSize newSize / sizeofPointer -
                  imap.length) none) := by
            have hAll : indirectClmapSize vs.vsSize /
                sizeofPointer = imap.length := by omega
            unfold copyEntries
            rw [hAll, if_pos ⟨le_refl _, by
              rw [length_replicate]; exact hGrows⟩,
              take_length, drop_replicate]
          rw [hCopy]
          refine ⟨true, _, rfl, ?_⟩
          apply h.extends hLess
          · refine ⟨hOver, hInt, ?_, ?_⟩
            · rw [length_append, length_replicate]
              dsimp only
              omega
            · intro b hb
              rcases mem_append.mp hb with hb | hb
              · exact hBlocks b hb
              · rw [(mem_replicate.mp hb).2]
                exact length_replicate
          · rw [hMap]
            unfold VsBlocks.entries
            dsimp only
            rw [flatMap_append]
            exact congrArg _ (entries_null _)
    | direct dmap =>
        rw [hMap] at hLayout
        split_ifs with hMemory hBlock
        · exact ⟨false, vs, rfl, rfl⟩
        · exact ⟨false, vs, rfl, rfl⟩
        · have hLength : (junkMap junk clmapThreshold).length =
              clmapEntries := length_junkMap junk clmapThreshold
          rw [extendDirect_eq hMap h.layout hLength hLayout.2]
          refine ⟨true, _, rfl, ?_⟩
          have hFull : (dmap ++ List.replicate
              (clmapEntries - dmap.length)
                VsMap.clr).length = clmapEntries := by
            rw [length_append, length_replicate]
            omega
          have hSome : 1 ≤
              indirectClmapSize newSize / sizeofPointer := by
            unfold clmapEntries clmapThreshold sizeofVsMap at *
            omega
          apply h.extends hLess
          · refine ⟨hOver, hInt, ?_, ?_⟩
            · rw [length_cons, length_replicate]
              dsimp only
              omega
            · intro b hb
              rcases mem_cons.mp hb with rfl | hb
              · exact hFull
              · rw [(mem_replicate.mp hb).2]
                exact length_replicate
          · rw [hMap]
            unfold VsBlocks.entries
            dsimp only
            rw [flatMap_cons]
            have hRest := entries_null
              (indirectClmapSize newSize / sizeofPointer - 1)
            unfold VsBlocks.entries at hRest
            dsimp only at hRest
            rw [hRest]
            unfold blockEntries
            rw [append_assoc, ← replicate_add]
  · rw [if_neg (fun hIs =>
      hIndirect (isIndirectClmap_iff.mp hIs))]
    cases mapMemory with
    | false =>
        exact iff_of_true ⟨false, vs, rfl, rfl⟩ (by simp)
    | true =>
    by_cases hWord : newSize < 2 ^ 29
    · refine iff_of_true ?_ (fun _ _ => .inl hWord)
      unfold VsTable.Layout at hLayout
      cases hMap : vs.vsMap with
      | indirect imap =>
          rw [hMap] at hLayout
          omega
      | direct dmap =>
          rw [hMap] at hLayout
          lift newSize to Nat using by omega with n
          have hLength : (junkMap junk (clmapSize n)).length =
              n := by
            rw [length_junkMap, clmapSize_eq (by omega)]
            exact Nat.mul_div_cancel n (by decide)
          rw [extendDirect_eq hMap h.layout hLength (by omega)]
          refine ⟨true, _, rfl, ?_⟩
          apply h.extends hLess
          · have hAll : (dmap ++ List.replicate
                (n - dmap.length) VsMap.clr).length = n := by
              rw [length_append, length_replicate]
              omega
            exact ⟨congrArg Nat.cast hAll.symm, by omega⟩
          · rw [hMap]
            rfl
    · -- the size of the new map in bytes wraps around
      have hWraps : extendDirect vs
          (junkMap junk (clmapSize newSize)) newSize =
            .error .outOfBounds := by
        apply extendDirect_wraps h.layout hLess
        rw [length_junkMap]
        unfold clmapSize unsigned sizeofVsMap
        omega
      rw [hWraps]
      constructor
      · rintro ⟨ok, vs', hRun, _⟩
        cases hRun
      · intro hWhen
        rcases hWhen hLess rfl with hLt | hIs
        · exact absurd hLt hWord
        · exact absurd hIs hIndirect

------
-- Enumerating
------

/- The offsets of the valid pages of entries from one on. -/
def validFrom (clsize : Nat) : Nat → List VsMap → List Nat
| _, [] => []
| offset, e :: rest =>
    (if e.isclr || e.iserr then []
      else ((List.range clsize).filter
        fun k => e.vsmapBmap.testBit k).map
          fun k => (offset + vmPageSize * k) % 2 ^ 32) ++
      validFrom clsize (offset + vmPageSize * clsize) rest

def VsTable.validOffsets (vs : VsTable) : List Nat :=
  validFrom vs.vsclsize 0 vs.vsMap.entries

/-
  The size and the offsets of the valid pages are reported,
  and as many of the offsets as there are slots.
-/
def Enumerates (vs : VsTable) (pagesSize : Nat) : Prop :=
  psVstructAllocatedSize vs =
      .ok (ptoa vs.validOffsets.length) ∧
    psVstructAllocatedPages vs pagesSize =
      .ok (vs.validOffsets.length,
        vs.validOffsets.take pagesSize)

/-
  A direct map has all the entries that one can have, and
  there are more slots than valid pages, or none.
-/
structure EnumeratesWhen
    (vs : VsTable)
    (pagesSize : Nat) : Prop where
  full : ∀ dmap, vs.vsMap = .direct dmap →
    vs.vsSize = clmapEntries
  slots : pagesSize = 0 ∨ vs.validOffsets.length < pagesSize

/- The tally after the pages of a list, up to an offset. -/
def tallyOf
    (pagesSize offset : Nat)
    (seen : List Nat) : Tally :=
  { numPages := seen.length
    offset := offset % 2 ^ 32
    pages := seen.take (pagesSize - 1) }

variable {clsize pagesSize offset : Nat}

theorem tallyOf_skip
    (n : Nat)
    (seen : List Nat) :
    (tallyOf pagesSize offset seen).skip n =
      tallyOf pagesSize (offset + vmPageSize * n) seen := by
  unfold tallyOf Tally.skip
  rw [Nat.mod_add_mod]

theorem tallyOf_page
    (valid : Bool)
    (seen : List Nat) :
    (tallyOf pagesSize offset seen).page pagesSize valid =
      tallyOf pagesSize (offset + vmPageSize)
        (if valid then seen ++ [offset % 2 ^ 32] else seen) := by
  cases valid with
  | false => exact tallyOf_skip 1 seen
  | true =>
      have hTake : (seen ++ [offset % 2 ^ 32]).take
            (pagesSize - 1) =
          if seen.length + 1 < pagesSize then
            seen.take (pagesSize - 1) ++ [offset % 2 ^ 32]
          else seen.take (pagesSize - 1) := by
        split_ifs with hSlot
        · rw [take_of_length_le
            (by rw [length_append, length_singleton]; omega),
            take_of_length_le (by omega)]
        · exact take_append_of_le_length (by omega)
      unfold Tally.page tallyOf Tally.skip
      simp only [if_true, length_append, length_singleton,
        Nat.mul_one, Nat.mod_add_mod, hTake]

/- The pages of an entry that is neither clear nor in error. -/
theorem tallyOf_pages
    (bmap n : Nat)
    (seen : List Nat) :
    (List.range n).foldl
        (fun t k => Tally.page pagesSize (bmap.testBit k) t)
        (tallyOf pagesSize offset seen) =
      tallyOf pagesSize (offset + vmPageSize * n)
        (seen ++ ((List.range n).filter
          fun k => bmap.testBit k).map
            fun k => (offset + vmPageSize * k) % 2 ^ 32) := by
  induction n with
  | zero =>
      rw [range_zero, filter_nil, map_nil, append_nil]
      rfl
  | succ n ih =>
      rw [range_succ, foldl_append, ih, filter_append,
        map_append, ← append_assoc, foldl_cons, foldl_nil,
        tallyOf_page, Nat.mul_succ, Nat.add_assoc]
      congr 1
      cases hBit : bmap.testBit n <;> simp [hBit]

theorem tallyOf_entries
    (clsize pagesSize offset : Nat)
    (es : List VsMap)
    (seen : List Nat) :
    es.foldl (fun t e => Tally.entry clsize pagesSize e t)
        (tallyOf pagesSize offset seen) =
      tallyOf pagesSize
        (offset + vmPageSize * clsize * es.length)
        (seen ++ validFrom clsize offset es) := by
  induction es generalizing offset seen with
  | nil => simp [validFrom]
  | cons e es ih =>
      have hEntry :
          Tally.entry clsize pagesSize e
              (tallyOf pagesSize offset seen) =
            tallyOf pagesSize (offset + vmPageSize * clsize)
              (seen ++ if e.isclr || e.iserr then [] else
                ((List.range clsize).filter
                  fun k => e.vsmapBmap.testBit k).map
                    fun k =>
                      (offset + vmPageSize * k) % 2 ^ 32) := by
        unfold Tally.entry
        split_ifs
        · rw [append_nil]
          exact tallyOf_skip clsize seen
        · exact tallyOf_pages _ _ seen
      rw [foldl_cons, hEntry, ih, validFrom,
        append_assoc, length_cons, Nat.mul_succ,
        Nat.add_assoc, Nat.add_comm (vmPageSize * clsize)]

theorem countPages_entries
    (clsize offset : Nat)
    (es : List VsMap)
    (n : Nat) :
    es.foldl (fun n e => countPages clsize e n) n =
      n + (validFrom clsize offset es).length := by
  induction es generalizing offset n with
  | nil => rfl
  | cons e es ih =>
      have hCount : ∀ m, (List.range m).foldl
          (fun n k =>
            if e.vsmapBmap.testBit k then n + 1 else n) n =
          n + ((List.range m).filter
            fun k => e.vsmapBmap.testBit k).length := by
        intro m
        induction m with
        | zero => rfl
        | succ m ihm =>
            rw [range_succ, foldl_append, ihm,
              filter_append, length_append]
            cases hBit : e.vsmapBmap.testBit m <;>
              simp [hBit, Nat.add_assoc]
      rw [foldl_cons, ih (offset + vmPageSize * clsize),
        validFrom, length_append]
      unfold countPages
      split_ifs
      · rw [length_nil]
        omega
      · rw [hCount, length_map]
        omega

/- What is visited in a list of blocks. -/
theorem walkBlocks_eq
    {σ : Type}
    {visit : VsMap → σ → σ}
    {hole : σ → σ}
    (hHole : ∀ s, hole s = (List.replicate clmapEntries
      VsMap.clr).foldl (fun s e => visit e s) s)
    (imap : List (Option (List VsMap)))
    (hBlocks : ∀ b ∈ imap,
      (blockEntries b).length = clmapEntries)
    (s : σ) :
    imap.foldlM (walkBlock visit hole) s =
      .ok ((imap.flatMap blockEntries).foldl
        (fun s e => visit e s) s) := by
  induction imap generalizing s with
  | nil => rfl
  | cons b imap ih =>
      have hStep : walkBlock visit hole s b =
          .ok ((blockEntries b).foldl
            (fun s e => visit e s) s) := by
        cases b with
        | none => exact congrArg Except.ok (hHole s)
        | some block =>
            have hIs : block.length = clmapEntries :=
              hBlocks _ mem_cons_self
            unfold walkBlock walkEntries
            dsimp only
            rw [if_pos (by omega), ← hIs, take_length]
            rfl
      rw [foldlM_cons, hStep, flatMap_cons, foldl_append]
      exact ih (fun b hb => hBlocks b (mem_cons_of_mem _ hb))
        _

/- What both enumerators visit. -/
theorem walkMap_eq
    {σ : Type}
    {visit : VsMap → σ → σ}
    {hole : σ → σ}
    (h : vs.Layout)
    (hFull : ∀ dmap, vs.vsMap = .direct dmap →
      vs.vsSize = clmapEntries)
    (hHole : ∀ s, hole s = (List.replicate clmapEntries
      VsMap.clr).foldl (fun s e => visit e s) s)
    (s : σ) :
    walkMap visit hole vs s =
      .ok (vs.vsMap.entries.foldl (fun s e => visit e s) s) := by
  unfold walkMap
  unfold VsTable.Layout at h
  cases hMap : vs.vsMap with
  | direct dmap =>
      rw [hMap] at h
      have hLength : dmap.length = clmapEntries := by
        have hSize := hFull dmap hMap
        omega
      dsimp only
      unfold walkEntries
      rw [if_pos (by omega), ← hLength, take_length]
      rfl
  | indirect imap =>
      rw [hMap] at h
      rcases h with ⟨hBig, hVs, hLength, hBlocks⟩
      have hAll : indirectClmapEntries vs.vsSize =
          imap.length := by
        unfold indirectClmapEntries unsigned clmapEntries
          clmapThreshold sizeofVsMap at *
        omega
      dsimp only
      rw [hAll, if_pos (le_refl _), take_length]
      exact walkBlocks_eq hHole imap hBlocks s

/- A direct map is read past its end unless it is full. -/
theorem walkMap_short
    {σ : Type}
    {visit : VsMap → σ → σ}
    {hole : σ → σ}
    (h : vs.Layout)
    (hMap : vs.vsMap = .direct dmap)
    (hShort : vs.vsSize ≠ clmapEntries)
    (s : σ) :
    walkMap visit hole vs s = .error .outOfBounds := by
  unfold VsTable.Layout at h
  rw [hMap] at h
  rcases h with ⟨hSize, hSmall⟩
  unfold walkMap walkEntries
  rw [hMap]
  exact if_neg (by omega)

theorem foldl_clr
    {σ : Type}
    {visit : VsMap → σ → σ}
    (hVisit : ∀ s, visit VsMap.clr s = s)
    (n : Nat)
    (s : σ) :
    (List.replicate n VsMap.clr).foldl
      (fun s e => visit e s) s = s := by
  induction n with
  | zero => rfl
  | succ n ih =>
      rw [replicate_succ, foldl_cons, hVisit]
      exact ih

/- Going past a null block is going past clear entries. -/
theorem skip_hole
    (t : Tally) :
    t.skip (clmapEntries * clsize) =
      (List.replicate clmapEntries VsMap.clr).foldl
        (fun t e => Tally.entry clsize pagesSize e t) t := by
  have hSkip : ∀ (n : Nat) (t : Tally),
      (List.replicate n VsMap.clr).foldl
        (fun t e => Tally.entry clsize pagesSize e t) t =
      { t with
        offset := if n = 0 then t.offset else
          (t.offset + vmPageSize * (n * clsize)) % 2 ^ 32 } := by
    intro n
    induction n with
    | zero => intro t; rfl
    | succ n ih =>
        intro t
        rw [replicate_succ, foldl_cons, ih]
        unfold Tally.entry Tally.skip
        rw [if_pos (by decide), if_neg (Nat.succ_ne_zero n)]
        congr 1
        split_ifs with hZero
        · rw [hZero, Nat.zero_add, Nat.one_mul]
        · rw [Nat.mod_add_mod, Nat.succ_mul, Nat.mul_add,
            Nat.add_assoc, Nat.add_comm (vmPageSize * clsize)]
  rw [hSkip]
  rfl

theorem enumerates_iff
    (h : vs.Layout) :
    Enumerates vs pagesSize ↔ EnumeratesWhen vs pagesSize := by
  unfold Enumerates psVstructAllocatedSize
    psVstructAllocatedPages
  by_cases hFull : ∀ dmap, vs.vsMap = .direct dmap →
      vs.vsSize = clmapEntries
  · have hCount := countPages_entries vs.vsclsize 0
      vs.vsMap.entries 0
    have hTally := tallyOf_entries vs.vsclsize pagesSize 0
      vs.vsMap.entries []
    have hHole : ∀ s, id s =
        (List.replicate clmapEntries VsMap.clr).foldl
          (fun s e => countPages vs.vsclsize e s) s :=
      fun s => (foldl_clr (fun _ => rfl) _ s).symm
    rw [walkMap_eq h hFull hHole 0,
      walkMap_eq h hFull skip_hole, hCount]
    have hStart : (⟨0, 0, []⟩ : Tally) = tallyOf pagesSize 0 [] := by
      unfold tallyOf
      rw [take_nil]
      rfl
    rw [hStart, hTally, nil_append, Nat.zero_add]
    have hTake : vs.validOffsets.take (pagesSize - 1) =
          vs.validOffsets.take pagesSize ↔
        pagesSize = 0 ∨ vs.validOffsets.length < pagesSize := by
      constructor
      · intro hSame
        have hLength := congrArg List.length hSame
        rw [length_take, length_take] at hLength
        omega
      · rintro (rfl | hLess)
        · rfl
        · rw [take_of_length_le (by omega),
            take_of_length_le (by omega)]
    constructor
    · rintro ⟨_, hPages⟩
      refine ⟨hFull, hTake.mp ?_⟩
      exact congrArg Prod.snd (Except.ok.inj hPages)
    · rintro ⟨_, hSlots⟩
      refine ⟨rfl, congrArg Except.ok ?_⟩
      exact congrArg (Prod.mk _) (hTake.mpr hSlots)
  · refine iff_of_false ?_ (fun hWhen => hFull hWhen.full)
    rintro ⟨hSize, _⟩
    push Not at hFull
    rcases hFull with ⟨dmap, hMap, hShort⟩
    rw [walkMap_short h hMap hShort] at hSize
    cases hSize

------
-- The map of an object
------

/-
  Making, extending and enumerating a map go right in exactly
  these cases.
-/
theorem vsMap_covers_iff
    (clshift : Nat)
    (hShift : clshift ≤ maxClusterShift) :
    (∀ size < 2 ^ 32, ∀ vsMemory mapMemory junk,
      CreateCovers clshift size vsMemory mapMemory junk ↔
        CreateWhen clshift size vsMemory mapMemory) ∧
    (∀ vs : VsTable, vs.Shaped → vs.vsClshift = clshift →
      (∀ newSize : Int, newSize < 2 ^ 31 →
        ∀ mapMemory blockMemory junk,
          ExtendKeeps newSize mapMemory blockMemory junk vs ↔
            ExtendWhen newSize mapMemory vs) ∧
      ∀ pagesSize,
        Enumerates vs pagesSize ↔
          EnumeratesWhen vs pagesSize) := by
  refine ⟨?_, ?_⟩
  · intro size hSize vsMemory mapMemory junk
    exact createCovers_iff hShift hSize
  · intro vs hShaped _
    refine ⟨?_, ?_⟩
    · intro newSize hInt mapMemory blockMemory junk
      exact extendKeeps_iff hShaped hInt
    · intro pagesSize
      exact enumerates_iff hShaped.layout

/- A map of one cluster, with one valid page. -/
def smallMap : VsTable :=
  { vsClshift := 0
    vsSize := 1
    vsMap := .direct [{ VsMap.clr with
      vsmapEntry := 0, vsmapBmap := 1, vsmapAlloc := 1 }] }

theorem smallMap_shaped :
    smallMap.Shaped := by
  refine ⟨⟨rfl, by decide⟩, ?_⟩
  intro c e hc he
  rw [List.getElem?_eq_none] at he
  · cases he
  · dsimp only [smallMap] at hc
    change 1 ≤ c
    omega

theorem vsMap_covers_iff_zero :
    ¬ CreateCovers 3 0 true true (fun _ => VsMap.clr) ∧
      CreateCovers 3 1 true true (fun _ => VsMap.clr) ∧
      ExtendKeeps 65 true true (fun _ => VsMap.clr)
        smallMap := by
  rcases vsMap_covers_iff 3 (by decide) with ⟨hCreate, _⟩
  rcases vsMap_covers_iff 0 (by decide) with ⟨_, hMaps⟩
  have hExtend := (hMaps smallMap smallMap_shaped rfl).1
  refine ⟨?_, ?_, ?_⟩
  · rw [hCreate 0 (by decide)]
    intro hWhen
    exact absurd (hWhen rfl rfl) (by decide)
  · rw [hCreate 1 (by decide)]
    exact fun _ _ => .inl (by decide)
  · rw [hExtend 65 (by decide)]
    exact fun _ _ => .inl (by decide)

/- The map of one cluster is read past its end. -/
theorem vsMap_not_covered :
    ¬ ((∀ size < 2 ^ 32, ∀ vsMemory mapMemory junk,
        CreateCovers 0 size vsMemory mapMemory junk) ∧
      ∀ vs : VsTable, vs.Shaped → vs.vsClshift = 0 →
        (∀ newSize : Int, newSize < 2 ^ 31 →
          ∀ mapMemory blockMemory junk,
            ExtendKeeps newSize mapMemory blockMemory junk
              vs) ∧
        ∀ pagesSize, Enumerates vs pagesSize) := by
  rintro ⟨_, hAll⟩
  rcases (hAll smallMap smallMap_shaped rfl).2 1 with
    ⟨hSize, _⟩
  exact absurd hSize (by decide)

end Pager

end OsfMach
