import OsfMach.Lib.Forest
import OsfMach.Ipc.Names

/-
  Ports whose receive right is in a message, and the check
  that keeps them from going round in circles, from
  `ipc/ipc_port.c`.

  A port in transit points at the port its message is for.
  The check follows these pointers with the locks taken
  along the way. A run of it fails when it waits for a lock
  it holds, drops one it does not hold, fails an assertion
  or runs out of fuel.

  Main declarations:
    * `TransitPort`, `transitNext`
    * `ipcPortCheckCircularity`
    * `ipcPortCheckCircularity_spec`
-/

------
-- Data
------

namespace OsfMach

namespace Ipc

open List
open Lib

variable {port dest base fuel : Nat} {locked : List Nat}
variable {l : List Nat} {i : Nat} {tried : Bool}

/-
  The union that holds the receiver of a port in a space and
  the destination of one that is not.
-/
inductive PortData where
| receiver (space : Nat)
| destination (dest : Option Nat)
deriving DecidableEq, Repr

/- The fields of a port that say where its right is. -/
structure TransitPort where
  ipActive : Bool
  ipReceiverName : Nat
  data : PortData
  ipPdrequest : Option Nat
deriving DecidableEq, Repr

namespace TransitPort

def ipDestination (p : TransitPort) : Option Nat :=
  match p.data with
  | .receiver _ => none
  | .destination dest => dest

/- The test at which the check stops. -/
def notInTransit (p : TransitPort) : Bool :=
  !p.ipActive || p.ipReceiverName != machPortNull ||
    p.ipDestination == none

/- Active, without a name, and not on its way either. -/
def inLimbo (p : TransitPort) : Bool :=
  p.ipActive && p.ipReceiverName == machPortNull &&
    p.data == .destination none

/- Take the receive right out of its space. -/
def limbo (p : TransitPort) : TransitPort :=
  { p with
    ipReceiverName := machPortNull
    data := .destination none }

/- Where the pointer of a port in transit leads. -/
def transitTo (p : TransitPort) : Option Nat :=
  if p.notInTransit then none else p.ipDestination

end TransitPort

/- The pointers of all ports in transit. -/
def transitNext
    (ports : Nat → TransitPort)
    (i : Nat) : Option Nat :=
  (ports i).transitTo

def InTransit
    (ports : Nat → TransitPort)
    (i : Nat) : Prop :=
  (ports i).notInTransit = false

------
-- The Check
------

/- Take the lock of a port, with the locks held so far. -/
def ipLock (locked : List Nat) (p : Nat) :
    Option (List Nat) :=
  if p ∈ locked then none else some (p :: locked)

def ipUnlock (locked : List Nat) (p : Nat) :
    Option (List Nat) :=
  if p ∈ locked then some (locked.erase p) else none

/- Lock the chain of `base` up to a port not in transit. -/
def lockChain (ports : Nat → TransitPort) :
    Nat → List Nat → Nat → Option (Nat × List Nat)
| 0, _, _ => none
| fuel + 1, locked, base =>
    match ipLock locked base with
    | none => none
    | some locked =>
        if (ports base).notInTransit then
          some (base, locked)
        else
          match (ports base).ipDestination with
          | none => none
          | some dest => lockChain ports fuel locked dest

/- The unlocking loop of a circularity. -/
def unlockCircle (ports : Nat → TransitPort) :
    Nat → List Nat → Option Nat → Option (List Nat)
| 0, _, _ => none
| _ + 1, locked, none => some locked
| fuel + 1, locked, some dest =>
    if (ports dest).ipActive &&
        (ports dest).ipReceiverName == machPortNull then
      match ipUnlock locked dest with
      | none => none
      | some locked =>
          unlockCircle ports fuel locked
            (ports dest).ipDestination
    else none

/- The unlocking loop for a port that joined a chain. -/
def unlockChain (ports : Nat → TransitPort) (base : Nat) :
    Nat → List Nat → Nat → Option (List Nat)
| 0, _, _ => none
| fuel + 1, locked, port =>
    if port = base then some locked
    else if (ports port).ipActive &&
        (ports port).ipReceiverName == machPortNull then
      match (ports port).ipDestination,
          ipUnlock locked port with
      | some next, some locked =>
          unlockChain ports base fuel locked next
      | _, _ => none
    else none

/- Point `port` at `dest`. -/
def setDestination
    (ports : Nat → TransitPort)
    (port dest : Nat) : Nat → TransitPort :=
  Function.update ports port
    { ports port with data := .destination (some dest) }

/-
  The label `not_circular`: the chain from `dest` to `base`
  and `port` are locked.
-/
def notCircular
    (fuel : Nat)
    (ports : Nat → TransitPort)
    (locked : List Nat)
    (port dest base : Nat) :
    Option (Bool × (Nat → TransitPort) × List Nat) :=
  if (ports port).inLimbo then
    let ports := setDestination ports port dest
    match unlockChain ports base fuel locked port with
    | none => none
    | some locked =>
        if (ports base).notInTransit then
          match ipUnlock locked base with
          | none => none
          | some locked => some (false, ports, locked)
        else none
  else none

/- Climb the chain of `dest` under the multiple lock. -/
def checkSlow
    (fuel : Nat)
    (ports : Nat → TransitPort)
    (locked : List Nat)
    (port dest : Nat) :
    Option (Bool × (Nat → TransitPort) × List Nat) :=
  match lockChain ports fuel locked dest with
  | none => none
  | some (base, locked) =>
      if port = base then
        if (ports port).inLimbo then
          match unlockCircle ports fuel locked
              (some dest) with
          | none => none
          | some locked => some (true, ports, locked)
        else none
      else
        match ipLock locked port with
        | none => none
        | some locked =>
            notCircular fuel ports locked port dest base

/-
  Check if queueing `port` in a message for `dest` would
  create a circle, and point `port` at `dest` if not. The
  flag `tried` is what `ip_lock_try` says of `dest`. The
  result carries the locks still held.
-/
def ipcPortCheckCircularity
    (fuel : Nat)
    (tried : Bool)
    (ports : Nat → TransitPort)
    (port dest : Nat) :
    Option (Bool × (Nat → TransitPort) × List Nat) :=
  if port = dest then some (true, ports, [])
  else
    match ipLock [] port with
    | none => none
    | some locked =>
        if tried then
          match ipLock locked dest with
          | none => none
          | some both =>
              if (ports dest).notInTransit then
                notCircular fuel ports both port dest dest
              else
                match ipUnlock both dest with
                | none => none
                | some locked =>
                    match ipUnlock locked port with
                    | none => none
                    | some locked =>
                        checkSlow fuel ports locked port
                          dest
        else
          match ipUnlock locked port with
          | none => none
          | some locked =>
              checkSlow fuel ports locked port dest

------
-- What the Check Does
------

variable {p : TransitPort}

theorem TransitPort.transitTo_eq_none_iff :
    p.transitTo = none ↔ p.notInTransit = true := by
  unfold transitTo
  split_ifs with hNot
  · exact iff_of_true rfl hNot
  · constructor
    · intro hNone
      simp [notInTransit, hNone] at hNot
    · intro h
      exact absurd h hNot

/- What the loops read of a port in transit. -/
theorem TransitPort.transitTo_eq_some
    {d : Nat}
    (h : p.transitTo = some d) :
    p.notInTransit = false ∧ p.ipActive = true ∧
      p.ipReceiverName = machPortNull ∧
      p.ipDestination = some d := by
  unfold transitTo at h
  split_ifs at h with hNot
  rw [Bool.not_eq_true] at hNot
  have hParts := hNot
  simp only [notInTransit, Bool.or_eq_false_iff,
    Bool.not_eq_false', bne_eq_false_iff_eq] at hParts
  exact ⟨hNot, hParts.1.1, hParts.1.2, h⟩

theorem TransitPort.inLimbo_iff :
    p.inLimbo = true ↔
      p.ipActive = true ∧
        p.ipReceiverName = machPortNull ∧
        p.data = .destination none := by
  simp [inLimbo, and_assoc]

theorem TransitPort.transitTo_of_inLimbo
    (h : p.inLimbo = true) :
    p.transitTo = none := by
  rcases inLimbo_iff.mp h with ⟨_, _, hData⟩
  rw [transitTo_eq_none_iff]
  simp [notInTransit, ipDestination, hData]

theorem lockChain_spec
    {ports : Nat → TransitPort}
    {i b fuel : Nat}
    {l locked : List Nat}
    (h : Chain (transitNext ports) i b l)
    (hFree : ∀ x ∈ l, x ∉ locked)
    (hFuel : l.length ≤ fuel) :
    ∃ held,
      lockChain ports fuel locked i = some (b, held) ∧
        held.Perm (l ++ locked) := by
  have hNodup := h.nodup
  induction h generalizing fuel locked with
  | @root b hNone =>
      rcases Nat.exists_eq_succ_of_ne_zero
        (show fuel ≠ 0 by
          rw [length_singleton] at hFuel
          omega) with ⟨n, rfl⟩
      have hStop :=
        TransitPort.transitTo_eq_none_iff.mp hNone
      refine ⟨b :: locked, ?_, List.Perm.refl _⟩
      simp [lockChain, ipLock, hFree b, hStop]
  | @step i j b l hNext hRest ih =>
      rcases Nat.exists_eq_succ_of_ne_zero
        (show fuel ≠ 0 by
          rw [length_cons] at hFuel
          omega) with ⟨n, rfl⟩
      rcases TransitPort.transitTo_eq_some hNext with
        ⟨hIn, _, _, hDest⟩
      rcases nodup_cons.mp hNodup with ⟨hi, hl⟩
      have hFree' : ∀ x ∈ l, x ∉ i :: locked := by
        intro x hx hMem
        rcases mem_cons.mp hMem with hEq | hOld
        · subst hEq
          exact hi hx
        · exact hFree x (mem_cons_of_mem _ hx) hOld
      rw [length_cons] at hFuel
      rcases @ih n (i :: locked) hFree' (by omega) hl with
        ⟨held, hRun, hPerm⟩
      refine ⟨held, ?_, ?_⟩
      · simp [lockChain, ipLock,
          hFree i mem_cons_self, hIn, hDest, hRun]
      · exact hPerm.trans perm_middle

/- A chain ending in limbo is unlocked whole. -/
theorem unlockCircle_spec
    {ports : Nat → TransitPort}
    {i b fuel : Nat}
    {l locked : List Nat}
    (h : Chain (transitNext ports) i b l)
    (hLimbo : (ports b).inLimbo = true)
    (hPerm : locked.Perm l)
    (hFuel : l.length < fuel) :
    unlockCircle ports fuel locked (some i) = some [] := by
  induction h generalizing fuel locked with
  | @root b hNone =>
      rw [length_singleton] at hFuel
      rcases Nat.exists_eq_add_of_le hFuel with ⟨n, rfl⟩
      rcases TransitPort.inLimbo_iff.mp hLimbo with
        ⟨hActive, hName, hData⟩
      have hDest : (ports b).ipDestination = none := by
        simp [TransitPort.ipDestination, hData]
      rw [perm_singleton.mp hPerm,
        show Nat.succ 1 + n = (n + 1) + 1 by omega]
      simp [unlockCircle, hActive, hName, hDest, ipUnlock]
  | @step i j b l hNext hRest ih =>
      rcases Nat.exists_eq_succ_of_ne_zero
        (show fuel ≠ 0 by omega) with ⟨n, rfl⟩
      rcases TransitPort.transitTo_eq_some hNext with
        ⟨_, hActive, hName, hDest⟩
      have hMem : i ∈ locked :=
        hPerm.mem_iff.mpr mem_cons_self
      have hErase : (locked.erase i).Perm l := by
        have hBoth := hPerm.erase i
        rwa [erase_cons_head] at hBoth
      rw [length_cons] at hFuel
      have hRun := @ih n (locked.erase i) hLimbo hErase
        (by omega)
      simp [unlockCircle, hActive, hName, hDest, ipUnlock,
        hMem, hRun]

/- The other loop leaves the end of the chain locked. -/
theorem unlockChain_spec
    {ports : Nat → TransitPort}
    {i b fuel : Nat}
    {l locked : List Nat}
    (h : Chain (transitNext ports) i b l)
    (hPerm : locked.Perm l)
    (hFuel : l.length ≤ fuel) :
    unlockChain ports b fuel locked i = some [b] := by
  induction h generalizing fuel locked with
  | @root b hNone =>
      rcases Nat.exists_eq_succ_of_ne_zero
        (show fuel ≠ 0 by
          rw [length_singleton] at hFuel
          omega) with ⟨n, rfl⟩
      rw [perm_singleton.mp hPerm]
      simp [unlockChain]
  | @step i j b l hNext hRest ih =>
      rcases Nat.exists_eq_succ_of_ne_zero
        (show fuel ≠ 0 by
          rw [length_cons] at hFuel
          omega) with ⟨n, rfl⟩
      rcases TransitPort.transitTo_eq_some hNext with
        ⟨_, hActive, hName, hDest⟩
      have hNe : i ≠ b := by
        intro hEq
        subst hEq
        have hEnd := hRest.next_end
        rw [hNext] at hEnd
        cases hEnd
      have hMem : i ∈ locked :=
        hPerm.mem_iff.mpr mem_cons_self
      have hErase : (locked.erase i).Perm l := by
        have hBoth := hPerm.erase i
        rwa [erase_cons_head] at hBoth
      rw [length_cons] at hFuel
      have hRun := @ih n (locked.erase i) hErase (by omega)
      simp [unlockChain, hNe, hActive, hName, hDest,
        ipUnlock, hMem, hRun]

variable {ports : Nat → TransitPort}

/- Pointing a port in limbo changes its pointer alone. -/
theorem transitNext_setDestination
    (hLimbo : (ports port).inLimbo = true)
    (dest : Nat) :
    transitNext (setDestination ports port dest) =
      Function.update (transitNext ports) port
        (some dest) := by
  rcases TransitPort.inLimbo_iff.mp hLimbo with
    ⟨hActive, hName, _⟩
  funext x
  by_cases hx : x = port
  · subst hx
    simp [transitNext, setDestination,
      TransitPort.transitTo, TransitPort.notInTransit,
      TransitPort.ipDestination, hActive, hName]
  · simp [transitNext, setDestination, hx]

theorem notCircular_spec
    {ports : Nat → TransitPort}
    {port dest base fuel : Nat}
    {l locked : List Nat}
    (hLimbo : (ports port).inLimbo = true)
    (h : Chain (transitNext ports) dest base l)
    (hNe : base ≠ port)
    (hPerm : locked.Perm (port :: l))
    (hFuel : l.length < fuel) :
    notCircular fuel ports locked port dest base =
      some (false, setDestination ports port dest, []) := by
  have hRoot : transitNext ports port = none :=
    TransitPort.transitTo_of_inLimbo hLimbo
  have hChain := h.link hRoot hNe
  rw [← transitNext_setDestination hLimbo] at hChain
  have hLoop := @unlockChain_spec _ _ _ fuel _ _ hChain
    hPerm hFuel
  have hEnd := TransitPort.transitTo_eq_none_iff.mp
    hChain.next_end
  simp [notCircular, hLimbo, hLoop, hEnd, ipUnlock]

theorem checkSlow_spec
    (hLimbo : (ports port).inLimbo = true)
    (h : Chain (transitNext ports) dest base l)
    (hFuel : l.length < fuel) :
    checkSlow fuel ports [] port dest =
      if base = port then some (true, ports, [])
      else
        some (false, setDestination ports port dest,
          []) := by
  rcases @lockChain_spec _ _ _ fuel _ [] h (by simp)
    (by omega) with ⟨held, hRun, hPerm⟩
  rw [append_nil] at hPerm
  unfold checkSlow
  rw [hRun]
  by_cases hEq : base = port
  · subst hEq
    have hLoop := @unlockCircle_spec _ _ _ fuel _ _ h
      hLimbo hPerm hFuel
    simp [hLimbo, hLoop]
  · have hFree : port ∉ held := by
      intro hMem
      have hRoot : transitNext ports port = none :=
        TransitPort.transitTo_of_inLimbo hLimbo
      exact hEq (h.eq_of_root_mem hRoot
        (hPerm.mem_iff.mp hMem)).symm
    have hRest := @notCircular_spec _ _ _ _ fuel _
      (port :: held) hLimbo h hEq (hPerm.cons port) hFuel
    simp [Ne.symm hEq, hEq, ipLock, hFree, hRest]

/-
  Both the quick check and the climb say whether the chain
  of `dest` ends at `port`, and end with no lock held.
-/
theorem ipcPortCheckCircularity_spec
    {ports : Nat → TransitPort}
    {port dest base fuel : Nat}
    {l : List Nat}
    (hLimbo : (ports port).inLimbo = true)
    (h : Chain (transitNext ports) dest base l)
    (tried : Bool)
    (hFuel : l.length < fuel) :
    ipcPortCheckCircularity fuel tried ports port dest =
      if base = port then some (true, ports, [])
      else
        some (false, setDestination ports port dest,
          []) := by
  have hSlow := checkSlow_spec hLimbo h hFuel
  by_cases hSame : port = dest
  · subst hSame
    have hRoot : transitNext ports port = none :=
      TransitPort.transitTo_of_inLimbo hLimbo
    have hBase := (h.unique (Chain.root hRoot)).1
    simp [ipcPortCheckCircularity, hBase]
  · cases tried with
    | false =>
        rw [← hSlow]
        simp [ipcPortCheckCircularity, hSame, ipLock, ipUnlock]
    | true =>
        by_cases hNot : (ports dest).notInTransit = true
        · have hRoot : transitNext ports dest = none :=
            TransitPort.transitTo_eq_none_iff.mpr hNot
          rcases h.unique (Chain.root hRoot) with
            ⟨hBase, hl⟩
          subst hBase hl
          have hRest := @notCircular_spec _ _ _ _ fuel _
            [base, port] hLimbo h (Ne.symm hSame)
            (List.Perm.swap _ _ _) hFuel
          simp [ipcPortCheckCircularity, hSame, ipLock,
            Ne.symm hSame, hNot, hRest]
        · rw [← hSlow]
          simp [ipcPortCheckCircularity, hSame, ipLock,
            ipUnlock, Ne.symm hSame, hNot]

------
-- More Fuel
------

/- One more turn does not change what came out. -/
theorem lockChain_more
    {r : Nat × List Nat}
    (h : lockChain ports fuel locked i = some r) :
    lockChain ports (fuel + 1) locked i = some r := by
  induction fuel generalizing locked i with
  | zero => cases h
  | succ n ih =>
      unfold lockChain at h ⊢
      split at h
      · cases h
      · split_ifs at h ⊢
        · exact h
        · split at h
          · cases h
          · exact ih h

theorem unlockCircle_more
    {i : Option Nat}
    {locked r : List Nat}
    (h : unlockCircle ports fuel locked i = some r) :
    unlockCircle ports (fuel + 1) locked i = some r := by
  induction fuel generalizing locked i with
  | zero => cases h
  | succ n ih =>
      cases i with
      | none =>
          exact h
      | some dest =>
          unfold unlockCircle at h ⊢
          split_ifs at h ⊢
          split at h
          · cases h
          · exact ih h

theorem unlockChain_more
    {locked r : List Nat}
    (h : unlockChain ports base fuel locked i = some r) :
    unlockChain ports base (fuel + 1) locked i = some r := by
  induction fuel generalizing locked i with
  | zero => cases h
  | succ n ih =>
      unfold unlockChain at h ⊢
      split_ifs at h ⊢
      · exact h
      · split at h
        · exact ih h
        · cases h

variable {r : Bool × (Nat → TransitPort) × List Nat}

theorem notCircular_more
    (h : notCircular fuel ports locked port dest base =
      some r) :
    notCircular (fuel + 1) ports locked port dest base =
      some r := by
  unfold notCircular at h ⊢
  split_ifs at h ⊢
  dsimp only at h ⊢
  split at h
  · cases h
  · rename_i hLoop
    rw [unlockChain_more hLoop]
    exact h

theorem checkSlow_more
    (h : checkSlow fuel ports locked port dest = some r) :
    checkSlow (fuel + 1) ports locked port dest = some r := by
  unfold checkSlow at h ⊢
  split at h
  · cases h
  · rename_i hLock
    rw [lockChain_more hLock]
    dsimp only
    split_ifs at h ⊢
    · split at h
      · cases h
      · rename_i hLoop
        rw [unlockCircle_more hLoop]
        exact h
    · split at h
      · cases h
      · exact notCircular_more h

theorem ipcPortCheckCircularity_more
    (h :
      ipcPortCheckCircularity fuel tried ports port dest =
        some r) :
    ipcPortCheckCircularity (fuel + 1) tried ports port dest =
      some r := by
  unfold ipcPortCheckCircularity at h ⊢
  split_ifs at h ⊢ with hSame hTried hNot
  · exact h
  · split at h
    · cases h
    · split at h
      · cases h
      · exact notCircular_more h
  · split at h
    · cases h
    · split at h
      · cases h
      · split at h
        · cases h
        · split at h
          · cases h
          · exact checkSlow_more h
  · split at h
    · cases h
    · split at h
      · cases h
      · exact checkSlow_more h

/- Whatever the fuel was, a result is the right one. -/
theorem ipcPortCheckCircularity_result
    (hLimbo : (ports port).inLimbo = true)
    (hChain : Chain (transitNext ports) dest base l)
    (h :
      ipcPortCheckCircularity fuel tried ports port dest =
        some r) :
    r = if base = port then (true, ports, [])
      else
        (false, setDestination ports port dest, []) := by
  have hMore : ipcPortCheckCircularity
      (fuel + (l.length + 1)) tried ports port dest = some r :=
    Nat.le_induction h
      (fun _ _ => ipcPortCheckCircularity_more) _
      (Nat.le_add_right _ _)
  have hSpec := @ipcPortCheckCircularity_spec _ _ _ _
    (fuel + (l.length + 1)) _ hLimbo hChain tried
    (by omega)
  rw [hMore] at hSpec
  split_ifs at hSpec ⊢ with hEq
  · exact Option.some.inj hSpec
  · exact Option.some.inj hSpec

end Ipc

end OsfMach
