import OsfMach.Ipc.Copyout
import OsfMach.Lib.Lockstep

/-
  The two walks along a scatter list.

  The check before a message is accepted and the copying out
  both pair the descriptors of the message that are no ports
  with those of the scatter list that are none.

  Main declarations:
    * `scatterPairs`, `PairFits`, `ScatterFits`
    * `checkScatter_spec`
    * `copyoutLoop_paired`, `copyoutLoop_written`
    * `copyoutLoop_reads`
-/

------
-- Pairs
------

namespace OsfMach

namespace Ipc

open List
open Lib
open Lib.Checked
open Lib.Lockstep

variable {ss : ScatterList} {d : Descriptor}

def isScatterPort (s : Nat × Descriptor) : Bool :=
  s.2.isPort

/- The descriptors that belong together. -/
def scatterPairs
    (gs : List Descriptor)
    (ss : ScatterList) :
    List (Descriptor × (Nat × Descriptor)) :=
  pairs Descriptor.isPort isScatterPort gs ss

/-
  A scatter descriptor is of the message descriptor's kind,
  and a region that it gives is large enough.
-/
structure PairFits (g s : Descriptor) : Prop where
  kind :
    g.isOol = true ∧ s.isOol = true ∨
      g.isOol = false ∧ s.type = machMsgOolPortsDescriptor
  room : s.copy = machMsgOverwrite → g.size ≤ s.size

/- Every pair fits, and a list with no count has none. -/
structure ScatterFits
    (count : Nat)
    (gs : List Descriptor)
    (ss : ScatterList) : Prop where
  count : count = 0 → ∀ g, g ∈ gs → g.isPort = true
  pairs : ∀ g s, (g, s) ∈ scatterPairs gs ss →
    PairFits g s.2

theorem checkPair_ok_iff
    (g s : Descriptor) :
    checkPair g s = .ok () ↔ PairFits g s := by
  unfold checkPair
  by_cases hOol : g.isOol = true
  · rw [if_pos hOol]
    by_cases hKind : s.isOol = true
    · rw [if_neg (by simp [hKind])]
      by_cases hSmall : s.copy = machMsgOverwrite ∧
          s.size < g.size
      · rw [if_pos hSmall]
        refine iff_of_false (fun hEq => (by cases hEq))
          fun hFits => ?_
        have hRoom := hFits.room hSmall.1
        omega
      · rw [if_neg hSmall]
        refine iff_of_true rfl
          ⟨Or.inl ⟨hOol, hKind⟩, fun hCopy => ?_⟩
        by_contra hLess
        exact hSmall ⟨hCopy, by omega⟩
    · rw [if_pos (by simp [hKind])]
      refine iff_of_false (fun hEq => (by cases hEq))
        fun hFits => ?_
      rcases hFits.kind with ⟨_, hIs⟩ | ⟨hNot, _⟩
      · exact hKind hIs
      · rw [hOol] at hNot
        cases hNot
  · rw [if_neg hOol]
    by_cases hKind : s.type = machMsgOolPortsDescriptor
    · rw [if_neg (not_not_intro hKind)]
      by_cases hSmall : s.copy = machMsgOverwrite ∧
          s.count < g.count
      · rw [if_pos hSmall]
        refine iff_of_false (fun hEq => (by cases hEq))
          fun hFits => ?_
        have hRoom := hFits.room hSmall.1
        have hLess : s.size < g.size := hSmall.2
        omega
      · rw [if_neg hSmall]
        refine iff_of_true rfl
          ⟨Or.inr ⟨by simpa using hOol, hKind⟩,
            fun hCopy => ?_⟩
        by_contra hLess
        have hCount : s.count < g.count := by
          unfold Descriptor.count
          omega
        exact hSmall ⟨hCopy, hCount⟩
    · rw [if_pos hKind]
      refine iff_of_false (fun hEq => (by cases hEq))
        fun hFits => ?_
      rcases hFits.kind with ⟨hIs, _⟩ | ⟨_, hIs⟩
      · exact hOol hIs
      · exact hKind hIs

namespace ScatterFits

variable {count : Nat} {g : Descriptor} {gs : List Descriptor}
variable {ss ss' : ScatterList} {s : Nat × Descriptor}

theorem skip
    (hPort : g.isPort = true) :
    ScatterFits count (g :: gs) ss ↔
      ScatterFits count gs ss := by
  have hPairs : scatterPairs (g :: gs) ss =
      scatterPairs gs ss := pairs_skip hPort
  constructor
  · intro h
    refine ⟨fun hZero x hIn =>
      h.count hZero x (mem_cons_of_mem _ hIn), ?_⟩
    rw [← hPairs]
    exact h.pairs
  · intro h
    refine ⟨fun hZero x hIn => ?_, ?_⟩
    · rcases mem_cons.mp hIn with hEq | hIn
      · exact hEq ▸ hPort
      · exact h.count hZero x hIn
    · rw [hPairs]
      exact h.pairs

theorem not_zero
    (hPort : g.isPort = false)
    (h : ScatterFits count (g :: gs) ss) :
    count ≠ 0 := by
  intro hZero
  have hIs := h.count hZero g mem_cons_self
  rw [hPort] at hIs
  cases hIs

theorem none
    (hCount : count ≠ 0)
    (h : ss.dropWhile isScatterPort = []) :
    ScatterFits count gs ss := by
  refine ⟨fun hZero => absurd hZero hCount,
    fun x s hIn => ?_⟩
  unfold scatterPairs at hIn
  rw [pairs_none h] at hIn
  simp at hIn

theorem cons
    (hPort : g.isPort = false)
    (hCount : count ≠ 0)
    (h : ss.dropWhile isScatterPort = s :: ss') :
    ScatterFits count (g :: gs) ss ↔
      PairFits g s.2 ∧ ScatterFits count gs ss' := by
  have hPairs : scatterPairs (g :: gs) ss =
      (g, s) :: scatterPairs gs ss' := pairs_cons hPort h
  constructor
  · intro hAll
    have hFits := hAll.pairs
    rw [hPairs] at hFits
    exact ⟨hFits g s mem_cons_self,
      fun hZero => absurd hZero hCount, fun x y hIn =>
        hFits x y (mem_cons_of_mem _ hIn)⟩
  · rintro ⟨hFirst, hRest⟩
    refine ⟨fun hZero => absurd hZero hCount,
      fun x y hIn => ?_⟩
    rw [hPairs] at hIn
    rcases mem_cons.mp hIn with hEq | hIn
    · injection hEq with hG hS
      rw [hG, hS]
      exact hFirst
    · exact hRest.pairs x y hIn

end ScatterFits

------
-- The Check
------

/- Addresses of descriptors of a list. -/
def ReadsOf
    (ss : ScatterList)
    (reads : List Nat) : Prop :=
  ∀ addr, addr ∈ reads → ∃ s, (addr, s) ∈ ss

theorem ReadsOf.mono
    {ss ss' : ScatterList}
    {reads : List Nat}
    (h : ReadsOf ss' reads)
    (hIn : ∀ s, s ∈ ss' → s ∈ ss) :
    ReadsOf ss reads := by
  intro addr hMem
  rcases h addr hMem with ⟨s, hs⟩
  exact ⟨s, hIn _ hs⟩

section Check

variable {ε : Type}

theorem skipPortDescriptors_run
    (ss : ScatterList)
    (l : ScatterLog) :
    ∃ reads,
      (skipPortDescriptors ss : Checked ScatterLog ε _) l =
        (.ok (ss.dropWhile isScatterPort),
          { l with read := l.read ++ reads }) ∧
        ReadsOf ss reads := by
  induction ss generalizing l with
  | nil =>
      refine ⟨[], ?_, fun addr hIn => by simp at hIn⟩
      rw [append_nil]
      rfl
  | cons first ss ih =>
      rcases first with ⟨addr, s⟩
      have hFirst : (skipPortDescriptors ((addr, s) :: ss) :
          Checked ScatterLog ε _) l =
            (if s.isPort then skipPortDescriptors ss
              else pure ((addr, s) :: ss))
              { l with read := l.read ++ [addr] } := rfl
      rw [hFirst]
      by_cases hPort : s.isPort = true
      · rw [if_pos hPort]
        have hIs : isScatterPort (addr, s) = true := hPort
        rcases ih { l with read := l.read ++ [addr] } with
          ⟨reads, hRun, hReads⟩
        refine ⟨addr :: reads, ?_, ?_⟩
        · rw [hRun, dropWhile_cons_of_pos hIs]
          rw [append_assoc]
          rfl
        · intro x hIn
          rcases mem_cons.mp hIn with hEq | hIn
          · exact ⟨s, hEq ▸ mem_cons_self⟩
          · rcases hReads x hIn with ⟨y, hy⟩
            exact ⟨y, mem_cons_of_mem _ hy⟩
      · rw [if_neg hPort]
        have hNot : ¬ isScatterPort (addr, s) = true := hPort
        refine ⟨[addr], ?_, ?_⟩
        · rw [dropWhile_cons_of_neg hNot]
          rfl
        · intro x hIn
          rw [mem_singleton.mp hIn]
          exact ⟨s, mem_cons_self⟩

end Check

section CheckScatter

variable (count : Nat)

/-
  What the check returns, the descriptors that it reads, and
  the pairs that it has made when it accepts.
-/
theorem checkScatter_spec
    (gs : List Descriptor)
    (ss : ScatterList)
    (l : ScatterLog) :
    ∃ r reads paired,
      ipcKmsgCheckScatter count gs ss l =
        (r, ⟨l.read ++ reads, l.paired ++ paired⟩) ∧
      ReadsOf ss reads ∧
      (r = .ok () ↔ ScatterFits count gs ss) ∧
      (r = .ok () → paired = scatterPairs gs ss) := by
  induction gs generalizing ss l with
  | nil =>
      refine ⟨.ok (), [], [], ?_, fun addr hIn => by
        simp at hIn, ?_, fun _ => rfl⟩
      · rw [append_nil, append_nil]
        rfl
      · refine iff_of_true rfl ⟨fun _ g hIn => ?_,
          fun g s hIn => ?_⟩
        · simp at hIn
        · unfold scatterPairs at hIn
          rw [pairs_nil] at hIn
          simp at hIn
  | cons g gs ih =>
      unfold ipcKmsgCheckScatter
      by_cases hPort : g.isPort = true
      · rw [if_pos hPort]
        rcases ih ss l with
          ⟨r, reads, paired, hRun, hReads, hOk, hPairs⟩
        refine ⟨r, reads, paired, hRun, hReads,
          hOk.trans (ScatterFits.skip hPort).symm,
          fun hEq => ?_⟩
        have hSame : scatterPairs (g :: gs) ss =
            scatterPairs gs ss := pairs_skip hPort
        rw [hSame]
        exact hPairs hEq
      rw [if_neg hPort]
      have hNot : g.isPort = false := by simpa using hPort
      by_cases hCount : count ≠ 0
      · rcases skipPortDescriptors_run ss l with
          ⟨reads, hSkip, hReads⟩
        rw [bind_run (require_run hCount), bind_run hSkip]
        cases hLeft : ss.dropWhile isScatterPort with
        | nil =>
            refine ⟨.ok (), reads, [], ?_, hReads,
              iff_of_true rfl (ScatterFits.none hCount hLeft),
              fun _ => ?_⟩
            · rw [append_nil]
              rfl
            · exact (pairs_none hLeft).symm
        | cons s rest =>
            rcases mem_of_dropWhile hLeft with ⟨_, hRest⟩
            have hFits : ScatterFits count (g :: gs) ss ↔ _ :=
              ScatterFits.cons hNot hCount hLeft
            have hPairs : scatterPairs (g :: gs) ss =
                (g, s) :: scatterPairs gs rest :=
              pairs_cons hNot hLeft
            rcases hPair : checkPair g s.2 with e | u
            · refine ⟨.error e, reads, [(g, s)], ?_, hReads,
                ?_, fun hEq => by cases hEq⟩
              · dsimp only
                unfold pairScatter
                rw [change_bind]
                have hLift : (lift (checkPair g s.2) :
                    Checked ScatterLog ScatterError Unit)
                    ⟨l.read ++ reads, l.paired ++ [(g, s)]⟩ =
                      (.error e,
                        ⟨l.read ++ reads,
                          l.paired ++ [(g, s)]⟩) := by
                  unfold lift
                  rw [hPair]
                rw [bind_stop hLift]
              · refine iff_of_false (fun hEq => by cases hEq)
                  fun hAll => ?_
                have hOk := (checkPair_ok_iff g s.2).mpr
                  (hFits.mp hAll).1
                rw [hPair] at hOk
                cases hOk
            · have hOkPair : checkPair g s.2 = .ok () := hPair
              rcases ih rest
                  ⟨l.read ++ reads, l.paired ++ [(g, s)]⟩ with
                ⟨r, reads', paired, hRun, hReads', hOk, hSame⟩
              refine ⟨r, reads ++ reads', (g, s) :: paired,
                ?_, ?_, ?_, ?_⟩
              · dsimp only
                unfold pairScatter
                rw [change_bind]
                have hLift : (lift (checkPair g s.2) :
                    Checked ScatterLog ScatterError Unit)
                    ⟨l.read ++ reads, l.paired ++ [(g, s)]⟩ =
                      (.ok (),
                        ⟨l.read ++ reads,
                          l.paired ++ [(g, s)]⟩) := by
                  unfold lift
                  rw [hOkPair]
                rw [bind_run hLift, hRun]
                rw [append_assoc, append_assoc]
                rfl
              · intro addr hIn
                rcases mem_append.mp hIn with hOld | hNew
                · exact hReads addr hOld
                · exact hReads'.mono hRest addr hNew
              · rw [hOk, hFits]
                exact (and_iff_right
                  ((checkPair_ok_iff g s.2).mp hOkPair)).symm
              · intro hEq
                rw [hPairs, hSame hEq]
      · refine ⟨.error .scatterSmall, [], [], ?_,
          fun addr hIn => by simp at hIn, ?_,
          fun hEq => by cases hEq⟩
        · rw [bind_stop (require_stop hCount),
            append_nil, append_nil]
        · exact iff_of_false (fun hEq => by cases hEq)
            fun hAll => hCount (hAll.not_zero hNot)

end CheckScatter

------
-- Taking Descriptors
------

/- The region that the list gives next, and the rest. -/
def scatterNext (ss : ScatterList) :
    Option Descriptor × ScatterList :=
  match ss.dropWhile isScatterPort with
  | [] => (none, [])
  | s :: rest => (overwriteOf s.2, rest)

/- What is left of the list after a descriptor. -/
def scatterAfter
    (d : Descriptor)
    (ss : ScatterList) : ScatterList :=
  if d.isPort then ss else (scatterNext ss).2

theorem scatterAfter_port
    (hPort : d.isPort = true)
    (ss : ScatterList) :
    scatterAfter d ss = ss := if_pos hPort

theorem scatterAfter_other
    (hPort : d.isPort = false)
    (ss : ScatterList) :
    scatterAfter d ss = (scatterNext ss).2 :=
  if_neg (by simp [hPort])

/- The region that is given is a partner's. -/
theorem mem_of_scatterNext
    {s d : Descriptor}
    (hPort : d.isPort = false)
    (h : (scatterNext ss).1 = some s)
    (ds : List Descriptor) :
    s.copy = machMsgOverwrite ∧
      ∃ addr, (d, addr, s) ∈ scatterPairs (d :: ds) ss := by
  unfold scatterNext at h
  cases hLeft : ss.dropWhile isScatterPort with
  | nil =>
      rw [hLeft] at h
      cases h
  | cons first rest =>
      rw [hLeft] at h
      dsimp only at h
      unfold overwriteOf at h
      by_cases hCopy : first.2.copy = machMsgOverwrite
      · rw [if_pos hCopy] at h
        injection h with hEq
        rw [← hEq]
        refine ⟨hCopy, first.1, ?_⟩
        have hPairs : scatterPairs (d :: ds) ss =
            (d, first) :: scatterPairs ds rest :=
          pairs_cons hPort hLeft
        rw [hPairs]
        exact mem_cons_self
      · rw [if_neg hCopy] at h
        cases h

theorem mem_of_scatterAfter
    {x : Nat × Descriptor}
    (h : x ∈ scatterAfter d ss) :
    x ∈ ss := by
  unfold scatterAfter at h
  by_cases hPort : d.isPort = true
  · rw [if_pos hPort] at h
    exact h
  rw [if_neg hPort] at h
  unfold scatterNext at h
  cases hLeft : ss.dropWhile isScatterPort with
  | nil =>
      rw [hLeft] at h
      simp at h
  | cons s rest =>
      rw [hLeft] at h
      exact (mem_of_dropWhile hLeft).2 x h

/- The pair that a descriptor makes. -/
def scatterFirst
    (d : Descriptor)
    (ss : ScatterList) :
    List (Descriptor × (Nat × Descriptor)) :=
  if d.isPort then []
  else
    match ss.dropWhile isScatterPort with
    | [] => []
    | s :: _ => [(d, s)]

/- What comes after a descriptor has the pairs that follow. -/
theorem scatterPairs_cons
    (d : Descriptor)
    (ds : List Descriptor)
    (ss : ScatterList) :
    scatterPairs (d :: ds) ss =
      scatterFirst d ss ++
        scatterPairs ds (scatterAfter d ss) := by
  unfold scatterFirst
  by_cases hPort : d.isPort = true
  · rw [if_pos hPort, scatterAfter_port hPort]
    exact pairs_skip hPort
  have hNot : d.isPort = false := by simpa using hPort
  rw [if_neg hPort, scatterAfter_other hNot]
  unfold scatterNext
  cases hLeft : ss.dropWhile isScatterPort with
  | nil =>
      have hNone : scatterPairs ds [] = [] := pairs_none rfl
      rw [nil_append, hNone]
      exact pairs_none hLeft
  | cons s rest => exact pairs_cons hNot hLeft

theorem scatterPairs_of_after
    {ds : List Descriptor}
    {x : Descriptor × (Nat × Descriptor)}
    (h : x ∈ scatterPairs ds (scatterAfter d ss)) :
    x ∈ scatterPairs (d :: ds) ss := by
  rw [scatterPairs_cons]
  exact mem_append_right _ h

------
-- Copying out
------

section Copyout

variable {cfg : KmsgConfig} {env : CopyoutAnswers}
variable {d : Descriptor} {ss : ScatterList}

/- Taking a region reads up to it, and makes a pair. -/
theorem takeScatter_run
    (hPort : d.isPort = false)
    (ss : ScatterList)
    (r : Receiver) :
    ∃ reads, takeScatter d ss r =
        (.ok (scatterNext ss), { r with scatter :=
          ⟨r.scatter.read ++ reads,
            r.scatter.paired ++ scatterFirst d ss⟩ }) ∧
      ReadsOf ss reads := by
  rcases skipPortDescriptors_run (ε := Stop) ss r.scatter with
    ⟨reads, hRun, hReads⟩
  have hSkip : onScatter (skipPortDescriptors ss) r =
      (.ok (ss.dropWhile isScatterPort), { r with scatter :=
        { r.scatter with read := r.scatter.read ++ reads } }) :=
    onPart_run hRun
  refine ⟨reads, ?_, hReads⟩
  unfold takeScatter
  rw [bind_run hSkip]
  unfold scatterNext scatterFirst
  rw [if_neg (by simp [hPort])]
  cases hLeft : ss.dropWhile isScatterPort with
  | nil =>
      rw [append_nil]
      rfl
  | cons s rest => rfl

theorem takeScatter_returns
    (hPort : d.isPort = false) :
    Returns (fun out => out = scatterNext ss)
      (takeScatter d ss) := by
  intro r out r' hRun
  rcases takeScatter_run hPort ss r with ⟨reads, hEq, _⟩
  rw [hEq] at hRun
  injection hRun with hResult
  injection hResult with hOut
  exact hOut.symm

theorem takeScatter_keeps_written
    (hPort : d.isPort = false) :
    Keeps Receiver.written (takeScatter d ss) := by
  intro r
  rcases takeScatter_run hPort ss r with ⟨reads, hEq, _⟩
  rw [hEq]

/- A port descriptor is of neither of the other kinds. -/
theorem isPort_of_type
    {type : Nat}
    (hType : d.type = type)
    (hNot : type ≠ machMsgPortDescriptor) :
    d.isPort = false := by
  unfold Descriptor.isPort
  rw [hType]
  exact decide_eq_false hNot

/- What is done to the message and to the logs. -/
theorem keeps_onMessage
    {α γ : Type}
    {get : Receiver → γ}
    {x : KmsgProg α}
    (h : ∀ r s, get { r with message := s } = get r) :
    Keeps get (onMessage x) :=
  keeps_onPart h

/-
  A log of the receiver that only taking regions and writing
  to them, as far as they are of a kind, have to do with.
-/
structure Aside
    {β : Type}
    (log : Receiver → List β)
    (P : β → Prop)
    (W : Overwrite → Prop) : Prop where
  message : ∀ r s, log { r with message := s } = log r
  installed : ∀ r l, log { r with installed := l } = log r
  mapped : ∀ r l, log { r with mapped := l } = log r
  write : ∀ w, W w → Appends log P (writeOver w)

def Overwrite.Fits (w : Overwrite) : Prop :=
  w.length ≤ w.room

/- Copying out adds to the scatter list's logs by taking. -/
theorem aside_scatter
    {β : Type}
    (log : ScatterLog → List β)
    (P : β → Prop) :
    Aside (fun r => log r.scatter) P (fun _ => True) :=
  ⟨fun _ _ => rfl, fun _ _ => rfl, fun _ _ => rfl,
    fun _ _ => appends_change fun _ => rfl⟩

theorem aside_written :
    Aside Receiver.written Overwrite.Fits Overwrite.Fits := by
  refine ⟨fun _ _ => rfl, fun _ _ => rfl, fun _ _ => rfl,
    fun w hFits r => ⟨[w], rfl, fun b hIn => ?_⟩⟩
  rw [mem_singleton.mp hIn]
  exact hFits

namespace Aside

variable {β : Type} {log : Receiver → List β} {P : β → Prop}
variable {W : Overwrite → Prop} {region : Option Descriptor}

section Aside

variable (h : Aside log P W)

include h

theorem install
    (object type : Nat) :
    Keeps log (install object type) :=
  (keeps_onMessage h.message).bind fun _ =>
    keeps_change fun _ => h.installed _ _

theorem mapCopy
    (copy : Nat) :
    Keeps log (mapCopy copy) :=
  (keeps_onMessage h.message).bind fun _ =>
    keeps_change fun _ => h.mapped _ _

theorem freeBuffer
    (length : Nat) :
    Keeps log (freeBuffer d length) :=
  keeps_onMessage h.message

theorem copyoutObject
    (env : KmsgAnswers)
    (answer : CopyoutAnswer)
    (object msgtName : Nat) :
    Keeps log
      (ipcKmsgCopyoutObject env answer object msgtName) := by
  apply keeps_ite keeps_pure
  cases answer with
  | success name =>
      exact (h.install object msgtName).bind fun _ => keeps_pure
  | invalidCapability | resourceShortage | noSpace =>
      exact (keeps_onMessage h.message).bind fun _ => keeps_pure

theorem copyoutObjects
    (env : KmsgAnswers)
    (answers : Nat → CopyoutAnswer)
    (msgtName j : Nat)
    (objects : List Nat) :
    Keeps log
      (copyoutObjects env answers msgtName j objects) := by
  induction objects generalizing j with
  | nil => exact keeps_pure
  | cons object objects ih =>
      exact (h.copyoutObject env _ object msgtName).bind
        fun _ => (ih (j + 1)).bind fun _ => keeps_pure

theorem copyoutArray
    (env : KmsgAnswers)
    (answers : Nat → CopyoutAnswer)
    (addr : Nat) :
    Keeps log (copyoutArray env answers d addr) :=
  keeps_require.bind fun _ => keeps_read.bind fun _ =>
    keeps_require.bind fun _ =>
      (h.copyoutObjects env answers _ _ _).bind fun _ =>
        (h.freeBuffer _).bind fun _ => keeps_pure

theorem copyoutSmall
    (answer : MapAnswer)
    (hRegion : ∀ s, region = some s →
      W ⟨s.address, s.size, d.size⟩) :
    Appends log P (copyoutSmall cfg answer d region) := by
  cases region with
  | some s =>
      exact (h.write _ (hRegion s rfl)).bind fun _ =>
        ((h.freeBuffer _).bind fun _ => keeps_pure).appends
  | none =>
      apply Keeps.appends
      apply keeps_ite
      · exact (h.freeBuffer _).bind fun _ => keeps_pure
      cases answer with
      | success addr | resourceShortage | noSpace =>
          exact (h.freeBuffer _).bind fun _ => keeps_pure

theorem copyoutCopy
    (answer : MapAnswer)
    (hRegion : ∀ s, region = some s →
      W ⟨s.address, s.size, d.size⟩) :
    Appends log P (copyoutCopy answer d region) := by
  cases region with
  | some s =>
      refine (h.write _ (hRegion s rfl)).bind fun _ =>
        Keeps.appends ?_
      cases answer with
      | success addr =>
          exact (h.mapCopy _).bind fun _ => keeps_pure
      | resourceShortage | noSpace =>
          exact (keeps_onMessage h.message).bind fun _ =>
            keeps_pure
  | none =>
      apply Keeps.appends
      cases answer with
      | success addr =>
          exact (h.mapCopy _).bind fun _ => keeps_pure
      | resourceShortage | noSpace =>
          exact (keeps_onMessage h.message).bind fun _ =>
            keeps_pure

theorem copyoutOol
    (answer : MapAnswer)
    (hRegion : ∀ s, region = some s →
      W ⟨s.address, s.size, d.size⟩) :
    Appends log P (copyoutOol cfg answer d region) :=
  appends_require.bind fun _ => appends_require.bind fun _ =>
    appends_ite appends_pure
      (appends_ite (h.copyoutSmall answer hRegion)
        (h.copyoutCopy answer hRegion))

theorem copyoutPorts
    (done rest : List Descriptor)
    (hRegion : ∀ s, region = some s →
      W ⟨s.address, s.count * 4, d.portsLength⟩) :
    Appends log P
      (copyoutPorts cfg env done rest d region) := by
  apply appends_ite
  · exact appends_pure
  cases region with
  | some s =>
      exact (h.write _ (hRegion s rfl)).bind fun _ =>
        (h.copyoutArray _ _ _).appends
  | none =>
      apply Keeps.appends
      apply keeps_ite
      · exact (keeps_onMessage h.message).bind fun _ =>
          keeps_pure
      cases env.map done.length with
      | success addr => exact h.copyoutArray _ _ addr
      | resourceShortage | noSpace =>
          exact (keeps_onMessage h.message).bind fun _ =>
            keeps_pure

/-
  A descriptor's log: a port is not paired, and others are
  copied out to what the list gives.
-/
theorem copyoutDescriptor
    (done rest : List Descriptor)
    (hTake : d.isPort = false →
      Appends log P (takeScatter d ss))
    (hRegion : d.isPort = false →
      ∀ s, (scatterNext ss).1 = some s →
        W ⟨s.address, s.size, d.size⟩ ∧
          W ⟨s.address, s.count * 4, d.portsLength⟩) :
    Appends log P
      (copyoutDescriptor cfg env done rest d ss) := by
  have hOol : d.isPort = false →
      Appends log P (withRegion d ss (OsfMach.Ipc.copyoutOol
        cfg (env.map done.length) d)) := by
    intro hPort
    apply (hTake hPort).bind_returns
      (takeScatter_returns hPort)
    intro out hOut
    refine (h.copyoutOol _ fun s hs => ?_).bind fun _ =>
      appends_pure
    rw [hOut] at hs
    exact (hRegion hPort s hs).1
  unfold OsfMach.Ipc.copyoutDescriptor
  split
  · exact ((h.copyoutObject _ _ _ _).bind fun _ =>
      keeps_pure).appends
  · rename_i hType
    exact hOol (isPort_of_type hType (by decide))
  · rename_i hType
    exact hOol (isPort_of_type hType (by decide))
  · rename_i hType
    have hPort := isPort_of_type hType (by decide)
    apply (hTake hPort).bind_returns
      (takeScatter_returns hPort)
    intro out hOut
    refine (h.copyoutPorts done rest fun s hs => ?_).bind
      fun _ => appends_pure
    rw [hOut] at hs
    exact (hRegion hPort s hs).2
  · exact appends_stop

end Aside

end Aside

theorem copyoutDescriptor_returns
    (done rest : List Descriptor) :
    Returns (fun out => out.2.2 = scatterAfter d ss)
      (copyoutDescriptor cfg env done rest d ss) := by
  have hRest : d.isPort = false → ∀ f,
      Returns (fun out => out.2.2 = scatterAfter d ss)
        (withRegion d ss f) := by
    intro hPort f
    rw [scatterAfter_other hPort]
    intro r out r' hRun
    rcases takeScatter_run hPort ss r with ⟨reads, hTake, _⟩
    unfold withRegion at hRun
    rw [bind_run hTake] at hRun
    rcases of_bind_run hRun with ⟨x, s, _, hPure⟩
    cases hPure
    rfl
  unfold copyoutDescriptor
  split
  · rename_i hType
    have hPort : d.isPort = true := decide_eq_true hType
    rw [scatterAfter_port hPort]
    exact returns_bind fun _ => returns_pure rfl
  · rename_i hType
    exact hRest (isPort_of_type hType (by decide)) _
  · rename_i hType
    exact hRest (isPort_of_type hType (by decide)) _
  · rename_i hType
    exact hRest (isPort_of_type hType (by decide)) _
  · exact returns_stop

/-
  The regions that are written, where the list fits, are
  large enough.
-/
theorem copyoutLoop_written
    (done ds : List Descriptor)
    (ss : ScatterList)
    (mr : Nat)
    (hFits : ∀ g s, (g, s) ∈ scatterPairs ds ss →
      PairFits g s.2) :
    Appends Receiver.written Overwrite.Fits
      (copyoutLoop cfg env done ds ss mr) := by
  induction ds generalizing done ss mr with
  | nil => exact appends_pure
  | cons d ds ih =>
      refine (aside_written.copyoutDescriptor done ds ?_
        ?_).bind_returns (copyoutDescriptor_returns done ds)
        fun out hOut => ?_
      · intro hPort
        exact (takeScatter_keeps_written hPort).appends
      · intro hPort s hs
        rcases mem_of_scatterNext hPort hs ds with
          ⟨hCopy, addr, hIn⟩
        have hRoom : d.size ≤ s.size :=
          (hFits d (addr, s) hIn).room hCopy
        refine ⟨hRoom, ?_⟩
        have hLength : d.portsLength ≤ d.size * 4 :=
          Nat.mod_le _ _
        have hCount : s.count = s.size := rfl
        unfold Overwrite.Fits
        dsimp only
        omega
      · apply ih
        intro g s hIn
        rw [hOut] at hIn
        exact hFits g s (scatterPairs_of_after hIn)

variable (cfg env) in
/- Only descriptors of the list are read. -/
theorem copyoutLoop_reads
    (done ds : List Descriptor)
    (ss all : ScatterList)
    (mr : Nat)
    (hAll : ∀ x, x ∈ ss → x ∈ all) :
    Appends (fun r : Receiver => r.scatter.read)
      (fun addr => ∃ s, (addr, s) ∈ all)
      (copyoutLoop cfg env done ds ss mr) := by
  induction ds generalizing done ss mr with
  | nil => exact appends_pure
  | cons d ds ih =>
      unfold copyoutLoop
      refine ((aside_scatter ScatterLog.read
        _).copyoutDescriptor done ds ?_
        fun _ _ _ => ⟨trivial, trivial⟩).bind_returns
        (copyoutDescriptor_returns done ds) fun out hOut => ?_
      · intro hPort r
        rcases takeScatter_run hPort ss r with
          ⟨reads, hRun, hReads⟩
        refine ⟨reads, ?_, fun addr hIn => ?_⟩
        · rw [hRun]
        · rcases hReads addr hIn with ⟨s, hs⟩
          exact ⟨s, hAll _ hs⟩
      · apply ih
        intro x hIn
        rw [hOut] at hIn
        exact hAll x (mem_of_scatterAfter hIn)

theorem takeScatter_adds
    (hPort : d.isPort = false)
    (ss : ScatterList) :
    Adds (fun r : Receiver => r.scatter.paired)
      (scatterFirst d ss) (takeScatter d ss) := by
  intro r out r' hRun
  rcases takeScatter_run hPort ss r with ⟨reads, hEq, _⟩
  rw [hEq] at hRun
  injection hRun with _ hState
  rw [← hState]

theorem copyoutDescriptor_paired
    (done rest : List Descriptor) :
    Adds (fun r : Receiver => r.scatter.paired)
      (scatterFirst d ss)
      (copyoutDescriptor cfg env done rest d ss) := by
  have hAside := aside_scatter ScatterLog.paired
    (fun _ => False)
  have hRest : d.isPort = false → ∀ f,
      (∀ region, Keeps
        (fun r : Receiver => r.scatter.paired) (f region)) →
      Adds (fun r : Receiver => r.scatter.paired)
        (scatterFirst d ss) (withRegion d ss f) := by
    intro hPort f hf
    rw [← append_nil (scatterFirst d ss)]
    exact (takeScatter_adds hPort ss).bind returns_true
      fun out _ => ((hf out.1).bind fun _ => keeps_pure).adds
  unfold copyoutDescriptor
  split
  · rename_i hType
    have hPort : d.isPort = true := decide_eq_true hType
    have hNone : scatterFirst d ss = [] := if_pos hPort
    rw [hNone]
    exact ((hAside.copyoutObject _ _ _ _).bind fun _ =>
      keeps_pure).adds
  · rename_i hType
    exact hRest (isPort_of_type hType (by decide)) _
      fun region =>
        (hAside.copyoutOol _ fun _ _ => trivial).keeps
  · rename_i hType
    exact hRest (isPort_of_type hType (by decide)) _
      fun region =>
        (hAside.copyoutOol _ fun _ _ => trivial).keeps
  · rename_i hType
    exact hRest (isPort_of_type hType (by decide)) _
      fun region =>
        (hAside.copyoutPorts done rest fun _ _ =>
          trivial).keeps
  · exact adds_stop

/- Copying out pairs what the check pairs. -/
theorem copyoutLoop_paired
    (done ds : List Descriptor)
    (ss : ScatterList)
    (mr : Nat) :
    Adds (fun r : Receiver => r.scatter.paired)
      (scatterPairs ds ss)
      (copyoutLoop cfg env done ds ss mr) := by
  induction ds generalizing done ss mr with
  | nil =>
      exact keeps_pure.adds
  | cons d ds ih =>
      rw [scatterPairs_cons]
      apply (copyoutDescriptor_paired done ds).bind
        (copyoutDescriptor_returns done ds)
      intro out hOut
      rw [← hOut]
      exact ih _ _ _

end Copyout

end Ipc

end OsfMach
