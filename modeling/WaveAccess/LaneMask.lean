import WaveAccess.Json.Decode

/-!
# Execution masks

A wavefront has 64 lanes. Bit `i` of its execution mask says whether lane `i` executed the
instruction. Lanes are listed in ascending order, which is the order of their addresses in a
message, and the digits of a written mask begin with lane 63.
-/

namespace WaveAccess

/-- The number of lanes of a wavefront. -/
def waveLanes : Nat := 64

/-- Which lanes of a wavefront executed an instruction. -/
structure LaneMask where
  bits : UInt64
  deriving DecidableEq, Repr

namespace LaneMask

/-- The mask of an integer's bits. -/
def ofNat (n : Nat) : LaneMask :=
  ⟨UInt64.ofNat n⟩

/-- The mask as an integer. -/
def toNat (mask : LaneMask) : Nat :=
  mask.bits.toNat

/-- Whether a lane is active. -/
def isActive (mask : LaneMask) (lane : Nat) : Bool :=
  mask.toNat.testBit lane

/-- The active lanes in ascending order. -/
def lanes (mask : LaneMask) : List Nat :=
  (List.range waveLanes).filter mask.isActive

/-- A lane is listed exactly if the wavefront has it and it is active. -/
@[simp]
theorem mem_lanes {mask : LaneMask} {lane : Nat} :
    lane ∈ mask.lanes ↔ lane < waveLanes ∧ mask.isActive lane = true := by
  simp [lanes]

/-- Lanes are listed in ascending order. -/
theorem pairwise_lanes (mask : LaneMask) : mask.lanes.Pairwise (· < ·) :=
  List.pairwise_lt_range.filter _

/-- The number of ones among the lowest binary digits of a number. -/
def countOnes : Nat → Nat → Nat
  | 0, _ => 0
  | width + 1, n => n % 2 + countOnes width (n / 2)

/-- The number of active lanes. -/
def activeCount (mask : LaneMask) : Nat :=
  countOnes waveLanes mask.toNat

/-- The mask of the lanes that are not active. -/
def complement (mask : LaneMask) : LaneMask :=
  ⟨~~~mask.bits⟩

/-- Whether no lane is active. -/
def isEmpty (mask : LaneMask) : Bool :=
  mask.bits == 0

/-- Whether every lane is active. -/
def isFull (mask : LaneMask) : Bool :=
  mask.complement.isEmpty

/-- The mask in binary digits, the highest lane first. -/
def binaryDigits (mask : LaneMask) : List Char :=
  (List.range waveLanes).reverse.map fun lane => if mask.isActive lane then '1' else '0'

/-- The mask as a text of binary digits. -/
def binary (mask : LaneMask) : String :=
  String.ofList mask.binaryDigits

/-- The mask with the lowest `n` lanes active. -/
def lowest (n : Nat) : LaneMask :=
  ofNat (Nat.pow 2 n - 1)

/-! ## JSON -/

/-- A mask is written as an integer. -/
def toJson (mask : LaneMask) : Json :=
  .ofNat mask.toNat

/-- Reads a mask. -/
def ofJson? (j : Json) : Option LaneMask :=
  j.uint64?.map LaneMask.mk

end LaneMask

end WaveAccess
