import OsfMach.Pager.PageInRuns

/-
  The first data of an object, from `dp_memory_object.c`.

  A run gives the pages that `vs_cluster_write` is handed,
  each with the map that the turn of the loop found. Writes
  complete at any time, so every turn has a map of its own,
  in which it shows what was allocated. Whether there is
  memory and a cluster for a page without one is an answer.

  Main declarations:
    * `psClmapAlloc`, `dataInitialize`
    * `Initializes`, `InitializesWhen`
    * `dataInitialize_exact_iff`
-/

------
-- Storing Pages
------

namespace OsfMach

namespace Pager

open List

/- `ps_clmap` with `CL_ALLOC`, for `cl_numpages`. -/
def psClmapAlloc
    (space : Bool)
    (vs : VsTable)
    (offset : Nat) : Except Fault (Option Nat) :=
  let clNumpages := vs.vsclsize - vs.pageOf offset
  let allocated := if space then some clNumpages else none
  if unsigned vs.vsSize ≤ vs.clusterOf offset then .ok allocated
  else
    (vs.slot (vs.clusterOf offset)).map
      fun (e : Option VsMap) =>
        match e with
        | none => allocated
        | some e =>
            if e.iserr then none
            else if e.isclr then allocated
            else some clNumpages

/- The variables that the loop steps. -/
structure Place where
  offset : Nat
  addr : Nat
  dataCnt : Nat

/- Go past some pages. -/
def Place.pass (n : Nat) (p : Place) : Place :=
  { offset := (p.offset + vmPageSize * n) % 2 ^ 32
    addr := (p.addr + vmPageSize * n) % 2 ^ 32
    dataCnt :=
      (p.dataCnt + (2 ^ 32 - vmPageSize * n % 2 ^ 32)) % 2 ^ 32 }

/- A request for `n` pages, from page `o` of the object on. -/
def request (o n addr : Nat) : Place :=
  { offset := vmPageSize * o
    addr := addr
    dataCnt := vmPageSize * n }

/- Write the pages of a cluster that are not there. -/
def writePages
    (bmap : Nat) : Nat → Nat → Place → List Place × Place
| 0, _, p => ([], p)
| n + 1, i, p =>
    let r := writePages bmap n (i + 1) (p.pass 1)
    (if bmap.testBit i then r.1 else p :: r.1, r.2)

/- A turn of the loop, unless it breaks off. -/
def initializeTurn
    (space : Bool)
    (vs : VsTable)
    (p : Place) : Except Fault (Option (List Place × Place)) :=
  match psClmapFind vs p.offset with
  | .error e => .error e
  | .ok (.found _ clmap) =>
      .ok (some (writePages clmap.clBmap clmap.clNumpages 0 p))
  | .ok (.absent clError) =>
      if clError ≠ 0 then .ok none
      else
        -- All the pages of a new cluster are written at once.
        (psClmapAlloc space vs p.offset).map
          fun (npgs : Option Nat) =>
            npgs.map fun (n : Nat) => writePages 0 n 0 p

/- The loop, if at most `fuel` turns end it. -/
def dataInitialize
    (maps : Nat → VsTable)
    (space : Nat → Bool) :
    Nat → Nat → Place →
      Option (Except Fault (List (VsTable × Place)))
| 0, _, p => if p.dataCnt = 0 then some (.ok []) else none
| fuel + 1, k, p =>
    if p.dataCnt = 0 then some (.ok [])
    else
      match initializeTurn (space k) (maps k) p with
      | .error e => some (.error e)
      | .ok none => some (.ok [])
      | .ok (some (pages, p)) =>
          (dataInitialize maps space fuel (k + 1) p).map
            fun (r : Except Fault _) =>
              r.map fun (rest : List _) =>
                pages.map (Prod.mk (maps k)) ++ rest

------
-- What Is Handed Over
------

/- A page that is on backing store. -/
def VsTable.Valid (vs : VsTable) (offset : Nat) : Prop :=
  ∃ actual clmap,
    psClmapFind vs offset = .ok (.found actual clmap) ∧
      clmap.clBmap.testBit 0 = true

/- A page is within some bytes. -/
def Within (start cnt page : Nat) : Prop :=
  (page + 2 ^ 32 - start) % 2 ^ 32 + vmPageSize ≤ cnt

structure Place.Right (s : Place) (vs : VsTable) (p : Place) :
    Prop where
  addr : Within s.addr s.dataCnt p.addr
  offset : Within s.offset s.dataCnt p.offset
  absent : ¬ vs.Valid p.offset

section Conditions

variable (maps : Nat → VsTable) (space : Nat → Bool)
variable (clshift o n addr : Nat)

/- The rest of a run is right. -/
def RightFrom (s : Place) (fuel k : Nat) (p : Place) : Prop :=
  ∃ pages, dataInitialize maps space fuel k p =
    some (.ok pages) ∧ ∀ r ∈ pages, s.Right r.1 r.2

/-
  A request ends, and only pages of its data that were not
  valid are handed over.
-/
def Initializes (s : Place) : Prop :=
  ∃ fuel, RightFrom maps space s fuel 0 s

/- The first page of a turn, from the start of the request. -/
def turnPage (k : Nat) : Nat :=
  k * 2 ^ clshift - o % 2 ^ clshift

def pageAt (d : Nat) : Nat :=
  (vmPageSize * o + vmPageSize * d) % 2 ^ 32

/- The pages of a turn after the data are valid. -/
def Quiet (k : Nat) : Prop :=
  ∀ d, turnPage clshift o k ≤ d → d < turnPage clshift o (k + 1) →
    n ≤ d % 2 ^ 20 → (maps k).Valid (pageAt o d)

/- There is an error in the map, or no space for a cluster. -/
def Breaks (k : Nat) : Prop :=
  psClmapAlloc (space k) (maps k)
    (pageAt o (turnPage clshift o k)) = .ok none

/-
  A request of `n` pages from page `o` on is empty or ends
  with a cluster, or it is broken off with nothing to write
  after its data.
-/
def InitializesWhen : Prop :=
  n = 0 ∨ (o + n) % 2 ^ clshift = 0 ∨
    ∃ t, Breaks maps space clshift o t ∧
      ∀ k < t, Quiet maps clshift o n k

/- The request ends before a turn, or it breaks off. -/
def Stops (k : Nat) : Prop :=
  turnPage clshift o k % 2 ^ 20 = n ∨ Breaks maps space clshift o k

end Conditions

------
-- Turns
------

variable {vs : VsTable} {o d j n addr : Nat} {s : Place}

/- What is found for the pages of a cluster. -/
theorem exists_entry
    (h : vs.Layout)
    (cluster : Nat) :
    ∃ e : VsMap, ∀ offset, vs.clusterOf offset = cluster →
      (∃ actual, psClmapFind vs offset = .ok (
        if e.iserr then .absent e.vsmapEntry
        else if e.isclr then .absent 0
        else .found actual
          ⟨e.vsmapPsindex, vs.vsclsize - vs.pageOf offset,
            e.vsmapBmap >>> vs.pageOf offset⟩)) ∧
      ∀ space, psClmapAlloc space vs offset = .ok (
        if e.iserr then none
        else if e.isclr && !space then none
        else some (vs.vsclsize - vs.pageOf offset)) := by
  unfold psClmapFind psClmapAlloc
  have hAnswer : ∀ (space : Bool) (n : Nat),
      (if space then some n else none) =
        if VsMap.clr.isclr && !space then none else some n := by
    rintro (_ | _) n <;> rfl
  by_cases hOut : unsigned vs.vsSize ≤ cluster
  · refine ⟨VsMap.clr, fun offset hc => ?_⟩
    rw [hc, if_pos hOut]
    exact ⟨⟨0, rfl⟩, fun space => (if_pos hOut).trans
      (congrArg _ (hAnswer space _))⟩
  have hBounds := h.bounds
  rcases h.slot cluster (by unfold unsigned at hOut; omega)
    with ⟨_ | e, he⟩
  · refine ⟨VsMap.clr, fun offset hc => ?_⟩
    rw [hc, if_neg hOut, he]
    exact ⟨⟨0, rfl⟩, fun space => (if_neg hOut).trans
      (congrArg _ (hAnswer space _))⟩
  · refine ⟨e, fun offset hc => ?_⟩
    rw [hc, if_neg hOut, he]
    refine ⟨⟨(ptoa e.vsmapEntry * vs.vsclsize +
      vmPageSize * vs.pageOf offset) % 2 ^ 32, ?_⟩,
      fun space => ?_⟩
    · dsimp only
      split_ifs <;> rfl
    · rw [if_neg hOut]
      dsimp only [Except.map]
      cases e.iserr <;> cases e.isclr <;> cases space <;> rfl

/- The pages from one on up to the end of its cluster. -/
theorem pageOf_add
    (hShift : vs.vsClshift ≤ maxClusterShift)
    (hj : j < vs.vsclsize - vs.pageOf (pageAt o d)) :
    vs.clusterOf (pageAt o (d + j)) =
      vs.clusterOf (pageAt o d) ∧
    vs.pageOf (pageAt o (d + j)) =
      vs.pageOf (pageAt o d) + j := by
  unfold VsTable.clusterOf VsTable.pageOf VsTable.vsclsize atop
    pageAt vmPageSize at *
  rcases cases_of_le_maxClusterShift hShift with h | h | h | h <;>
    rw [h] at hj ⊢ <;> omega

theorem Place.pass_pass (d j : Nat) :
    (s.pass d).pass j = s.pass (d + j) := by
  unfold pass vmPageSize
  simp only [Place.mk.injEq]
  omega

theorem writePages_spec
    (bmap n : Nat) :
    ∀ i d, (writePages bmap n i (s.pass d)).2 = s.pass (d + n) ∧
      ∀ w, w ∈ (writePages bmap n i (s.pass d)).1 ↔
        ∃ j < n, ¬ bmap.testBit (i + j) = true ∧
          w = s.pass (d + j) := by
  induction n with
  | zero => exact fun i d => ⟨rfl, by simp [writePages]⟩
  | succ n ih =>
      intro i d
      unfold writePages
      rw [Place.pass_pass]
      have hRest := ih (i + 1) (d + 1)
      refine ⟨by rw [hRest.1, Nat.add_right_comm d 1]; rfl,
        fun w => ?_⟩
      have hNext : (∃ j < n, ¬ bmap.testBit (i + (j + 1)) = true ∧
          w = s.pass (d + (j + 1))) ↔
          w ∈ (writePages bmap n (i + 1) (s.pass (d + 1))).1 := by
        rw [hRest.2]
        simp only [Nat.add_assoc, Nat.add_comm 1]
      rw [Nat.exists_lt_succ_left, hNext]
      cases bmap.testBit i with
      | true => simp
      | false => simp

/- A turn breaks off, or writes what is not valid. -/
theorem initializeTurn_spec
    {rest : Nat}
    (space : Bool)
    (h : vs.Layout)
    (hShift : vs.vsClshift ≤ maxClusterShift)
    (hOffset : s.offset = vmPageSize * o)
    (hRest : vs.vsclsize - vs.pageOf (pageAt o d) = rest) :
    if psClmapAlloc space vs (pageAt o d) = .ok none then
      initializeTurn space vs (s.pass d) = .ok none
    else
      ∃ pages, initializeTurn space vs (s.pass d) =
          .ok (some (pages, s.pass (d + rest))) ∧
        ∀ w, w ∈ pages ↔ ∃ j < rest,
          ¬ vs.Valid (pageAt o (d + j)) ∧ w = s.pass (d + j) := by
  have hHere : (s.pass d).offset = pageAt o d := by
    unfold Place.pass pageAt
    rw [hOffset]
  rcases exists_entry h (vs.clusterOf (pageAt o d)) with ⟨e, he⟩
  have hFind := fun j (hj : j < rest) =>
    (he _ (pageOf_add (j := j) hShift (hRest.symm ▸ hj)).1).1
  -- What is written when the bits are those of the valid pages.
  have hWrite : ∀ bmap, (∀ j < rest,
      vs.Valid (pageAt o (d + j)) ↔ bmap.testBit j = true) →
      ∃ pages, Except.ok (some (writePages bmap rest 0
          (s.pass d))) = (.ok (some (pages, s.pass (d + rest))) :
            Except Fault _) ∧
        ∀ w, w ∈ pages ↔ ∃ j < rest,
          ¬ vs.Valid (pageAt o (d + j)) ∧ w = s.pass (d + j) := by
    intro bmap hBits
    have hSpec := writePages_spec (s := s) bmap rest 0 d
    refine ⟨_, by rw [← hSpec.1], fun w => (hSpec.2 w).trans ?_⟩
    apply exists_congr
    intro j
    rw [Nat.zero_add]
    exact and_congr_right fun hj => by rw [hBits j hj]
  rcases he _ rfl with ⟨⟨actual, hAt⟩, hAlloc⟩
  unfold initializeTurn
  rw [hHere, hAt, hAlloc, hRest]
  cases hErr : e.iserr with
  | true => exact ite_self _
  | false =>
      cases hClr : e.isclr with
      | true =>
          cases space with
          | false => rfl
          | true =>
              apply hWrite 0
              intro j hj
              rcases hFind j hj with ⟨_, hNone⟩
              rw [hErr, hClr] at hNone
              unfold VsTable.Valid
              rw [hNone, Nat.zero_testBit]
              exact iff_of_false (fun ⟨_, _, hSome, _⟩ => by
                cases hSome) Bool.false_ne_true
      | false =>
          apply hWrite
          intro j hj
          rcases hFind j hj with ⟨_, hSome⟩
          rw [hErr, hClr] at hSome
          unfold VsTable.Valid
          rw [hSome, (pageOf_add hShift (hRest.symm ▸ hj)).2,
            Nat.testBit_shiftRight]
          constructor
          · rintro ⟨_, _, ⟨⟩, hSet⟩
            rwa [Nat.testBit_shiftRight] at hSet
          · intro hSet
            exact ⟨_, _, rfl, by rwa [Nat.testBit_shiftRight]⟩

------
-- Runs
------

theorem within_iff
    {start : Nat}
    (hStart : start < 2 ^ 32) :
    Within start (vmPageSize * n)
      ((start + vmPageSize * d) % 2 ^ 32) ↔ d % 2 ^ 20 < n := by
  unfold Within vmPageSize
  omega

theorem dataCnt_pass
    (hn : n < 2 ^ 20) :
    ((request o n addr).pass d).dataCnt = 0 ↔ d % 2 ^ 20 = n := by
  unfold Place.pass request vmPageSize
  dsimp only
  omega

section Runs

variable {maps : Nat → VsTable} {space : Nat → Bool} {clshift : Nat}
variable (hMaps : ∀ k, (maps k).Layout)
variable (hSame : ∀ k, (maps k).vsClshift = clshift)
variable (hShift : clshift ≤ maxClusterShift)
variable (ho : o < 2 ^ 20) (hn : n < 2 ^ 20) (hAddr : addr < 2 ^ 32)
include hMaps hSame hShift ho hn hAddr

/-
  One turn of the loop: it stops, or writes what is right and
  goes on.
-/
theorem rightFrom_succ
    (fuel k : Nat) :
    RightFrom maps space (request o n addr) (fuel + 1) k
      ((request o n addr).pass (turnPage clshift o k)) ↔
      Stops maps space clshift o n k ∨
        Quiet maps clshift o n k ∧
          RightFrom maps space (request o n addr) fuel (k + 1)
            ((request o n addr).pass
              (turnPage clshift o (k + 1))) := by
  have hNext : turnPage clshift o (k + 1) =
      turnPage clshift o k + ((maps k).vsclsize -
        (maps k).pageOf (pageAt o (turnPage clshift o k))) := by
    unfold VsTable.pageOf VsTable.vsclsize atop pageAt turnPage
      vmPageSize
    rw [hSame]
    rcases cases_of_le_maxClusterShift hShift with h | h | h | h <;>
      rw [h] <;> omega
  have hTurn := initializeTurn_spec (s := request o n addr)
    (space k) (hMaps k) (hSame k ▸ hShift) rfl rfl
      (d := turnPage clshift o k)
  rw [← hNext] at hTurn
  unfold RightFrom Stops
  have hCnt : (_ ↔ turnPage clshift o k % 2 ^ 20 = n) :=
    @dataCnt_pass o _ _ addr hn
  rw [dataInitialize, ← hCnt]
  by_cases hDone : ((request o n addr).pass
      (turnPage clshift o k)).dataCnt = 0
  · rw [if_pos hDone]
    exact iff_of_true ⟨[], rfl, by simp⟩ (.inl (.inl hDone))
  rw [if_neg hDone]
  split_ifs at hTurn with hBreaks
  · rw [hTurn]
    exact iff_of_true ⟨[], rfl, by simp⟩ (.inl (.inr hBreaks))
  rcases hTurn with ⟨pages, hTurn, hPages⟩
  have hRight : (∀ p ∈ pages, (request o n addr).Right (maps k) p) ↔
      Quiet maps clshift o n k := by
    constructor
    · intro hAll d hLow hHigh hOut
      by_contra hNot
      have hd : turnPage clshift o k +
          (d - turnPage clshift o k) = d := by omega
      have hIn := (hAll _ ((hPages _).mpr
        ⟨d - turnPage clshift o k, by omega, by rwa [hd],
          rfl⟩)).addr
      exact absurd ((within_iff hAddr).mp hIn) (by omega)
    · intro hQuiet p hp
      rcases (hPages p).mp hp with ⟨j, hj, hAbsent, rfl⟩
      have hIn : (turnPage clshift o k + j) % 2 ^ 20 < n := by
        by_contra hOut
        exact hAbsent (hQuiet _ (by omega) (by omega) (by omega))
      have hOffset : vmPageSize * o < 2 ^ 32 := by
        unfold vmPageSize
        omega
      exact ⟨(within_iff hAddr).mpr hIn,
        (within_iff hOffset).mpr hIn, hAbsent⟩
  have hGoes : ¬ (_ ∨ Breaks maps space clshift o k) :=
    not_or_intro hDone hBreaks
  rw [hTurn, or_iff_right hGoes, ← hRight]
  dsimp only
  constructor
  · rintro ⟨_, hRun, hAll⟩
    rcases Option.map_eq_some_iff.mp hRun with
      ⟨_ | rest, hRest, hr⟩
    · cases hr
    cases hr
    rw [forall_mem_append, forall_mem_map] at hAll
    exact ⟨hAll.1, rest, hRest, hAll.2⟩
  · rintro ⟨hNow, rest, hRest, hAll⟩
    refine ⟨_, by rw [hRest]; rfl, ?_⟩
    rw [forall_mem_append, forall_mem_map]
    exact ⟨hNow, hAll⟩

/- A whole run goes up to a turn that stops it. -/
theorem rightFrom_iff
    (k : Nat) :
    (∃ fuel, RightFrom maps space (request o n addr) fuel k
      ((request o n addr).pass (turnPage clshift o k))) ↔
      ∃ t, Stops maps space clshift o n (k + t) ∧
        ∀ j < t, Quiet maps clshift o n (k + j) := by
  have hSucc := @rightFrom_succ _ _ _ _ space _ hMaps hSame
    hShift ho hn hAddr
  constructor
  · rintro ⟨fuel, hRun⟩
    induction fuel generalizing k with
    | zero =>
        rcases hRun with ⟨_, hRun, _⟩
        unfold dataInitialize at hRun
        split_ifs at hRun with hDone
        exact ⟨0, .inl ((dataCnt_pass hn).mp hDone), by simp⟩
    | succ fuel ih =>
        rcases (hSucc fuel k).mp hRun with hStop | ⟨hNow, hRest⟩
        · exact ⟨0, hStop, by simp⟩
        rcases ih (k + 1) hRest with ⟨t, hStop, hQuiet⟩
        rw [Nat.add_assoc, Nat.add_comm 1] at hStop
        refine ⟨t + 1, hStop, Nat.forall_lt_succ_left.mpr
          ⟨hNow, fun j hj => ?_⟩⟩
        rw [Nat.add_comm j, ← Nat.add_assoc]
        exact hQuiet j hj
  · rintro ⟨t, hStop, hQuiet⟩
    induction t generalizing k with
    | zero => exact ⟨1, (hSucc 0 k).mpr (.inl hStop)⟩
    | succ t ih =>
        rcases ih (k + 1) (by rwa [Nat.add_assoc, Nat.add_comm 1])
          (fun j hj => by
            rw [Nat.add_assoc, Nat.add_comm 1]
            exact hQuiet (j + 1) (by omega)) with ⟨fuel, hRest⟩
        exact ⟨fuel + 1, (hSucc fuel k).mpr
          (.inr ⟨hQuiet 0 (Nat.succ_pos t), hRest⟩)⟩

/-
  A request is carried out just when it is empty, ends with
  a cluster or is broken off in time.
-/
theorem dataInitialize_exact_iff :
    Initializes maps space (request o n addr) ↔
      InitializesWhen maps space clshift o n := by
  have hStart : (request o n addr).pass (turnPage clshift o 0) =
      request o n addr := by
    unfold turnPage Place.pass request vmPageSize
    simp only [Place.mk.injEq]
    omega
  have hRuns := @rightFrom_iff _ _ _ _ space _ hMaps hSame
    hShift ho hn hAddr 0
  rw [hStart] at hRuns
  simp only [Nat.zero_add] at hRuns
  refine hRuns.trans ?_
  have hPower := cases_of_le_maxClusterShift hShift
  constructor
  · rintro ⟨t, hDone | hBreaks, hQuiet⟩
    swap
    · exact .inr (.inr ⟨t, hBreaks, hQuiet⟩)
    unfold turnPage at hDone
    by_cases hFirst : t = 0
    · exact .inl (by rw [← hDone, hFirst]; omega)
    refine .inr (.inl ?_)
    rcases hPower with h | h | h | h <;> rw [h] at hDone ⊢ <;>
      omega
  · have hEnd : ∀ t, turnPage clshift o t = n →
        ∃ t, Stops maps space clshift o n t ∧
          ∀ j < t, Quiet maps clshift o n j := by
      refine fun t ht => ⟨t, .inl (ht.symm ▸ Nat.mod_eq_of_lt hn),
        fun j hj d _ hd hOut => ?_⟩
      have hMono : turnPage clshift o (j + 1) ≤
          turnPage clshift o t :=
        Nat.sub_le_sub_right (Nat.mul_le_mul_right _ hj) _
      omega
    rintro (rfl | hEdge | ⟨t, hBreaks, hQuiet⟩)
    · exact hEnd 0 (by unfold turnPage; omega)
    · refine hEnd ((o % 2 ^ clshift + n) / 2 ^ clshift) ?_
      unfold turnPage
      rcases hPower with h | h | h | h <;>
        rw [h] at hEdge ⊢ <;> omega
    · exact ⟨t, .inr hBreaks, hQuiet⟩

end Runs

/- A cluster of eight pages that is not allocated. -/
def newCluster : VsTable :=
  { vsClshift := 3, vsSize := 1, vsMap := .direct [VsMap.clr] }

theorem newCluster_layout : newCluster.Layout :=
  ⟨rfl, by decide⟩

/- The last five pages of the cluster are stored. -/
theorem dataInitialize_exact_iff_end :
    Initializes (fun _ => newCluster) (fun _ => true)
      (request 3 5 4096) :=
  (dataInitialize_exact_iff (fun _ => newCluster_layout)
    (fun _ => rfl) (by decide) (by decide) (by decide)
    (by decide)).mpr (.inr (.inl rfl))

/- For one page the whole cluster is handed over. -/
theorem dataInitialize_not_exact :
    ¬ Initializes (fun _ => newCluster) (fun k => k == 0)
      (request 0 1 4096) := by
  rintro ⟨fuel, pages, hRun, hAll⟩
  rcases fuel with _ | _ | fuel
  · cases hRun
  · cases hRun
  · cases hRun
    exact absurd (hAll _ (mem_cons_of_mem _ mem_cons_self)).addr (by
      unfold Within
      decide)

end Pager

end OsfMach
