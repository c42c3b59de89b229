import OsfMach.Ipc.Splay
import Mathlib.Tactic.IntervalCases

/-
  Names and entry bits, from `mach/port.h` and
  `ipc/ipc_entry.h`.

  A name is an index with an eight-bit generation below it.
  The bits of an entry hold the user references, the type,
  the collision flag and, in the table, the generation.

  Main declarations:
    * `machPortIndex`, `machPortGen`, `machPortMake`
    * `ieBitsUrefs`, `ieBitsType`, `ieBitsGen`, `ieBitsRight`
    * `ieBitsHasCollision`
    * `machPort_ext`
    * `machPortIndex_make`, `machPortGen_make`
    * `lt_machPortMake_zero_iff`
-/

------
-- Entry Bits
------

namespace OsfMach

namespace Ipc

variable {index : Nat}
variable {name a b : Nat}

/- `ipc_entry_bits_t`. -/
abbrev EntryBits := BitVec 32

theorem ne_zero_of_pos
    {b : EntryBits}
    (h : 0 < b.toNat) :
    b ≠ 0 := by
  rintro rfl
  exact absurd h (by decide)

def ieBitsUrefsMask : EntryBits := 0x0000ffff#32
def ieBitsTypeMask : EntryBits := 0x001f0000#32
def ieBitsCollision : EntryBits := 0x00800000#32
def ieBitsGenMask : EntryBits := 0xff000000#32
def ieBitsGenOne : EntryBits := 0x04000000#32
def ieBitsRightMask : EntryBits := 0x007fffff#32

def ieBitsUrefs (bits : EntryBits) : EntryBits :=
  bits &&& ieBitsUrefsMask

def ieBitsType (bits : EntryBits) : EntryBits :=
  bits &&& ieBitsTypeMask

def ieBitsGen (bits : EntryBits) : EntryBits :=
  bits &&& ieBitsGenMask

/- The bits that are relevant to the right. -/
def ieBitsRight (bits : EntryBits) : EntryBits :=
  bits &&& ieBitsRightMask

def ieBitsNewGen (old : EntryBits) : EntryBits :=
  (old + ieBitsGenOne) &&& ieBitsGenMask

def ieBitsHasCollision (bits : EntryBits) : Bool :=
  bits &&& ieBitsCollision != 0

/- The types of rights. -/
def machPortTypeNone : EntryBits := 0#32
def machPortTypeSend : EntryBits := 0x00010000#32
def machPortTypeReceive : EntryBits := 0x00020000#32
def machPortTypeSendOnce : EntryBits := 0x00040000#32
def machPortTypePortSet : EntryBits := 0x00080000#32
def machPortTypeDeadName : EntryBits := 0x00100000#32
def machPortTypeSendReceive : EntryBits :=
  machPortTypeSend ||| machPortTypeReceive
def machPortTypeSendRights : EntryBits :=
  machPortTypeSend ||| machPortTypeSendOnce
def machPortTypePortRights : EntryBits :=
  machPortTypeSendRights ||| machPortTypeReceive
def machPortTypePortOrDead : EntryBits :=
  machPortTypePortRights ||| machPortTypeDeadName
------
-- Laws of the Fields
------

section Fields

variable (bits other : EntryBits)

/- The fields are read bit by bit. -/
theorem ieBitsType_or :
    ieBitsType (bits ||| other) =
      ieBitsType bits ||| ieBitsType other :=
  BitVec.and_or_distrib_right

theorem ieBitsGen_or :
    ieBitsGen (bits ||| other) =
      ieBitsGen bits ||| ieBitsGen other :=
  BitVec.and_or_distrib_right

theorem ieBitsRight_or :
    ieBitsRight (bits ||| other) =
      ieBitsRight bits ||| ieBitsRight other :=
  BitVec.and_or_distrib_right

/- A masked field of a masked field. -/
private theorem mask_mask
    (m n : EntryBits) :
    (bits &&& m) &&& n = bits &&& (m &&& n) :=
  BitVec.and_assoc ..

@[simp] theorem ieBitsType_gen :
    ieBitsType (ieBitsGen bits) = 0 := by
  unfold ieBitsType ieBitsGen
  rw [mask_mask]
  exact BitVec.and_zero

@[simp] theorem ieBitsType_right :
    ieBitsType (ieBitsRight bits) = ieBitsType bits := by
  unfold ieBitsType ieBitsRight
  rw [mask_mask]
  rfl

@[simp] theorem ieBitsGen_gen :
    ieBitsGen (ieBitsGen bits) = ieBitsGen bits := by
  unfold ieBitsGen
  rw [mask_mask]
  rfl

@[simp] theorem ieBitsGen_right :
    ieBitsGen (ieBitsRight bits) = 0 := by
  unfold ieBitsGen ieBitsRight
  rw [mask_mask]
  exact BitVec.and_zero

@[simp] theorem ieBitsRight_gen :
    ieBitsRight (ieBitsGen bits) = 0 := by
  unfold ieBitsGen ieBitsRight
  rw [mask_mask]
  exact BitVec.and_zero

@[simp] theorem ieBitsRight_right :
    ieBitsRight (ieBitsRight bits) = ieBitsRight bits := by
  unfold ieBitsRight
  rw [mask_mask]
  rfl

@[simp] theorem ieBitsHasCollision_gen :
    ieBitsHasCollision (ieBitsGen bits) = false := by
  unfold ieBitsHasCollision ieBitsGen
  rw [mask_mask]
  have hZero : bits &&& (ieBitsGenMask &&& ieBitsCollision) =
      0 := BitVec.and_zero
  rw [hZero]
  rfl

@[simp] theorem ieBitsHasCollision_right :
    ieBitsHasCollision (ieBitsRight bits) = false := by
  unfold ieBitsHasCollision ieBitsRight
  rw [mask_mask]
  have hZero :
      bits &&& (ieBitsRightMask &&& ieBitsCollision) = 0 :=
    BitVec.and_zero
  rw [hZero]
  rfl

@[simp] theorem ieBitsGen_newGen :
    ieBitsGen (ieBitsNewGen bits) = ieBitsNewGen bits := by
  exact ieBitsGen_gen _

/- Setting the collision flag changes nothing else. -/
@[simp] theorem ieBitsType_setCollision :
    ieBitsType (bits ||| ieBitsCollision) =
      ieBitsType bits := by
  rw [ieBitsType_or]
  exact BitVec.or_zero

@[simp] theorem ieBitsGen_setCollision :
    ieBitsGen (bits ||| ieBitsCollision) =
      ieBitsGen bits := by
  rw [ieBitsGen_or]
  exact BitVec.or_zero

@[simp] theorem ieBitsRight_setCollision :
    ieBitsRight (bits ||| ieBitsCollision) =
      ieBitsRight bits := by
  rw [ieBitsRight_or]
  exact BitVec.or_zero

@[simp] theorem ieBitsHasCollision_setCollision :
    ieBitsHasCollision (bits ||| ieBitsCollision) =
      true := by
  unfold ieBitsHasCollision
  simp only [bne_iff_ne, ne_eq]
  intro hZero
  have hBit := congrArg (fun b => b.getLsbD 23) hZero
  simp [ieBitsCollision] at hBit

/- Clearing the collision flag changes nothing else. -/
@[simp] theorem ieBitsType_clearCollision :
    ieBitsType (bits &&& ~~~ieBitsCollision) =
      ieBitsType bits := by
  unfold ieBitsType
  rw [mask_mask]
  rfl

@[simp] theorem ieBitsGen_clearCollision :
    ieBitsGen (bits &&& ~~~ieBitsCollision) =
      ieBitsGen bits := by
  unfold ieBitsGen
  rw [mask_mask]
  rfl

@[simp] theorem ieBitsRight_clearCollision :
    ieBitsRight (bits &&& ~~~ieBitsCollision) =
      ieBitsRight bits := by
  unfold ieBitsRight
  rw [mask_mask]
  rfl

@[simp] theorem ieBitsHasCollision_clearCollision :
    ieBitsHasCollision (bits &&& ~~~ieBitsCollision) =
      false := by
  unfold ieBitsHasCollision
  rw [mask_mask]
  have hZero :
      bits &&& (~~~ieBitsCollision &&& ieBitsCollision) =
        0 := BitVec.and_zero
  rw [hZero]
  rfl

end Fields

/- New bits for the right, with the other bits kept. -/
def ieBitsWithRight (bits right : EntryBits) : EntryBits :=
  (bits &&& ~~~ieBitsRightMask) ||| ieBitsRight right

section WithRight

variable (bits right : EntryBits)

@[simp] theorem ieBitsRight_withRight :
    ieBitsRight (ieBitsWithRight bits right) =
      ieBitsRight right := by
  unfold ieBitsWithRight
  rw [ieBitsRight_or, ieBitsRight_right]
  unfold ieBitsRight
  rw [mask_mask]
  have hZero :
      bits &&& (~~~ieBitsRightMask &&& ieBitsRightMask) =
        0 := BitVec.and_zero
  rw [hZero]
  exact BitVec.zero_or

@[simp] theorem ieBitsType_withRight :
    ieBitsType (ieBitsWithRight bits right) =
      ieBitsType right := by
  rw [← ieBitsType_right, ieBitsRight_withRight,
    ieBitsType_right]

@[simp] theorem ieBitsGen_withRight :
    ieBitsGen (ieBitsWithRight bits right) =
      ieBitsGen bits := by
  unfold ieBitsWithRight
  rw [ieBitsGen_or, ieBitsGen_right]
  unfold ieBitsGen
  rw [mask_mask]
  exact BitVec.or_zero

@[simp] theorem ieBitsHasCollision_withRight :
    ieBitsHasCollision (ieBitsWithRight bits right) =
      ieBitsHasCollision bits := by
  have hRight := ieBitsHasCollision_right right
  unfold ieBitsHasCollision at hRight ⊢
  rw [bne_eq_false_iff_eq] at hRight
  unfold ieBitsWithRight
  rw [BitVec.and_or_distrib_right, hRight, mask_mask]
  exact congrArg (fun b => b != 0) BitVec.or_zero

/- Tree bits have no other bits to keep. -/
theorem ieBitsWithRight_of_right
    {bits : EntryBits}
    (hBits : ieBitsRight bits = bits) :
    ieBitsWithRight bits right = ieBitsRight right := by
  unfold ieBitsWithRight
  rw [← hBits]
  unfold ieBitsRight
  rw [mask_mask]
  have hZero :
      bits &&& (ieBitsRightMask &&& ~~~ieBitsRightMask) =
        0 := BitVec.and_zero
  rw [hZero]
  exact BitVec.zero_or

end WithRight

theorem ieBitsRight_zero : ieBitsRight 0 = 0 := by
  decide

theorem ieBitsType_zero : ieBitsType 0 = 0 := by
  decide

/- Tree bits carry no generation and no collision flag. -/
theorem ieBitsType_or_gen
    (bits gen : EntryBits)
    (hGen : ieBitsGen gen = gen) :
    ieBitsType (bits ||| gen) = ieBitsType bits := by
  rw [ieBitsType_or, ← hGen, ieBitsType_gen]
  exact BitVec.or_zero

theorem ieBitsRight_or_gen
    (bits gen : EntryBits)
    (hGen : ieBitsGen gen = gen) :
    ieBitsRight (bits ||| gen) = ieBitsRight bits := by
  rw [ieBitsRight_or, ← hGen, ieBitsRight_gen]
  exact BitVec.or_zero

variable {bits gen : EntryBits}

theorem ieBitsGen_or_gen
    (hBits : ieBitsRight bits = bits)
    (hGen : ieBitsGen gen = gen) :
    ieBitsGen (bits ||| gen) = gen := by
  rw [ieBitsGen_or, ← hBits, ieBitsGen_right, hGen]
  exact BitVec.zero_or

theorem ieBitsHasCollision_or_gen
    (hBits : ieBitsRight bits = bits)
    (hGen : ieBitsGen gen = gen) :
    ieBitsHasCollision (bits ||| gen) = false := by
  have hLeft := ieBitsHasCollision_right bits
  have hRight := ieBitsHasCollision_gen gen
  rw [hBits] at hLeft
  rw [hGen] at hRight
  unfold ieBitsHasCollision at hLeft hRight ⊢
  simp only [bne_eq_false_iff_eq] at hLeft hRight ⊢
  rw [BitVec.and_or_distrib_right, hLeft, hRight]
  rfl

------
-- Names
------

def machPortNull : Nat := 0
def machPortDead : Nat := 2 ^ 32 - 1

def MachPortValid (name : Nat) : Prop :=
  name ≠ machPortNull ∧ name ≠ machPortDead

instance (name : Nat) : Decidable (MachPortValid name) :=
  inferInstanceAs (Decidable (_ ∧ _))

def machPortIndex (name : Nat) : Nat :=
  name >>> 8

def machPortGen (name : Nat) : EntryBits :=
  (BitVec.ofNat 32 name &&& 0xff#32) <<< 24

def machPortMake (index : Nat) (gen : EntryBits) : Nat :=
  ((BitVec.ofNat 32 index <<< 8) ||| (gen >>> 24)).toNat

def machPortMakeb (index : Nat) (bits : EntryBits) : Nat :=
  machPortMake index (ieBitsGen bits)

/- Names are 32-bit words. -/
def machPortBound : Nat := 2 ^ 32

/- Indices are 24-bit words. -/
def machIndexBound : Nat := 2 ^ 24

theorem machPortIndex_eq
    (name : Nat) :
    machPortIndex name = name / 256 :=
  Nat.shiftRight_eq_div_pow name 8

theorem machPortIndex_lt
    (hName : name < machPortBound) :
    machPortIndex name < machIndexBound := by
  rw [machPortIndex_eq]
  unfold machPortBound at hName
  unfold machIndexBound
  omega

theorem machPortIndex_mono
    (hLe : a ≤ b) :
    machPortIndex a ≤ machPortIndex b := by
  rw [machPortIndex_eq, machPortIndex_eq]
  exact Nat.div_le_div_right hLe

theorem machPortGen_toNat
    (name : Nat) :
    (machPortGen name).toNat = name % 256 * 2 ^ 24 := by
  have hMod : name % 2 ^ 32 &&& 255 = name % 256 :=
    (Nat.and_two_pow_sub_one_eq_mod
      (name % 2 ^ 32) 8).trans (by omega)
  unfold machPortGen
  rw [BitVec.toNat_shiftLeft, BitVec.toNat_and,
    BitVec.toNat_ofNat, BitVec.toNat_ofNat]
  have hConst : (255 : Nat) % 2 ^ 32 = 255 := rfl
  rw [hConst, hMod, Nat.shiftLeft_eq]
  omega

@[simp] theorem ieBitsGen_machPortGen
    (name : Nat) :
    ieBitsGen (machPortGen name) = machPortGen name := by
  unfold ieBitsGen machPortGen ieBitsGenMask
  ext i hi
  interval_cases i <;> simp

/- Index and generation determine a name. -/
theorem machPort_ext
    (hIndex : machPortIndex a = machPortIndex b)
    (hGen : machPortGen a = machPortGen b) :
    a = b := by
  have hNat := congrArg BitVec.toNat hGen
  rw [machPortGen_toNat, machPortGen_toNat] at hNat
  rw [machPortIndex_eq, machPortIndex_eq] at hIndex
  omega

/- The value of a masked generation. -/
theorem ieBitsGen_toNat
    (bits : EntryBits) :
    (ieBitsGen bits).toNat =
      bits.toNat / 2 ^ 24 * 2 ^ 24 := by
  have hShift : ieBitsGen bits = (bits >>> 24) <<< 24 := by
    unfold ieBitsGen ieBitsGenMask
    ext i hi
    interval_cases i <;> simp
  rw [hShift, BitVec.toNat_shiftLeft, BitVec.toNat_ushiftRight,
    Nat.shiftRight_eq_div_pow, Nat.shiftLeft_eq]
  omega

section

variable (hIndex : index < machIndexBound)
include hIndex

theorem machPortMake_eq
    (gen : EntryBits) :
    machPortMake index gen =
      index * 256 + gen.toNat / 2 ^ 24 := by
  unfold machIndexBound at hIndex
  have hSmall : gen.toNat / 2 ^ 24 < 2 ^ 8 := by omega
  have hShift :
      (BitVec.ofNat 32 index <<< 8).toNat =
        index * 2 ^ 8 := by
    rw [BitVec.toNat_shiftLeft, BitVec.toNat_ofNat,
      Nat.shiftLeft_eq]
    omega
  unfold machPortMake
  rw [BitVec.toNat_or, hShift, BitVec.toNat_ushiftRight,
    Nat.shiftRight_eq_div_pow, Nat.mul_comm index,
    ← Nat.two_pow_add_eq_or_of_lt hSmall index]
  omega

theorem machPortIndex_make
    (gen : EntryBits) :
    machPortIndex (machPortMake index gen) = index := by
  rw [machPortIndex_eq, machPortMake_eq hIndex]
  omega

theorem machPortGen_make
    (hGen : ieBitsGen gen = gen) :
    machPortGen (machPortMake index gen) = gen := by
  apply BitVec.eq_of_toNat_eq
  have hLt := gen.isLt
  have hNat := congrArg BitVec.toNat hGen
  rw [ieBitsGen_toNat] at hNat
  rw [machPortGen_toNat, machPortMake_eq hIndex]
  generalize gen.toNat = value at hLt hNat ⊢
  have hMod : (index * 256 + value / 2 ^ 24) % 256 =
      value / 2 ^ 24 := by
    omega
  rw [hMod]
  exact hNat

end

/- A name is made of its index and its generation. -/
theorem machPortMake_index_gen
    (hName : name < machPortBound) :
    machPortMake (machPortIndex name) (machPortGen name) =
      name := by
  have hIndex := machPortIndex_lt hName
  apply machPort_ext
  · exact machPortIndex_make hIndex _
  · exact machPortGen_make hIndex (ieBitsGen_machPortGen _)

/- The smallest name of an index. -/
theorem machPortMake_zero
    (hIndex : index < machIndexBound) :
    machPortMake index 0 = index * 256 := by
  rw [machPortMake_eq hIndex]
  simp

/- Names are ordered first by index. -/
theorem lt_machPortMake_zero_iff
    (hIndex : index < machIndexBound)
    (name : Nat) :
    name < machPortMake index 0 ↔
      machPortIndex name < index := by
  rw [machPortMake_zero hIndex, machPortIndex_eq]
  omega

end Ipc

end OsfMach
