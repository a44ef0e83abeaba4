import WaveAccess.Proofs.Message.Layout
import WaveAccess.Proofs.Message.Readback

/-!
# Masks as sets, numbers and texts

An execution mask is looked at in several ways: as the list of its active lanes, as their number, as
an integer, as the mask of the other lanes and as a text of binary digits. The list begins with the
lowest lane and the text with the highest. All of them show the same bits.
-/

namespace WaveAccess.LaneMask

variable (mask : LaneMask)

/-! ## Active lanes and the others -/

/-- A lane is active exactly if its bit is set. -/
lemma mem_lanes_iff_testBit {lane : ℕ} : lane ∈ mask.lanes ↔ mask.toNat.testBit lane = true := by
  rw [lanes_eq_bitIndices, Nat.mem_bitIndices]

/-- The complement of a mask has the lanes that the mask lacks. -/
lemma isActive_complement {lane : ℕ} (h : lane < waveLanes) :
    mask.complement.isActive lane = !mask.isActive lane := by
  have hwidth : lane < 64 := h
  simp only [isActive, toNat, complement, ← UInt64.toNat_toBitVec, BitVec.testBit_toNat,
    UInt64.toBitVec_not, BitVec.getLsbD_not, hwidth, decide_true, Bool.true_and]

/-- The complement lists the lanes of the wavefront that the mask does not list. -/
lemma mem_lanes_complement {lane : ℕ} :
    lane ∈ mask.complement.lanes ↔ lane < waveLanes ∧ lane ∉ mask.lanes := by
  rw [mem_lanes, mem_lanes]
  apply and_congr_right
  intro hlane
  rw [isActive_complement mask hlane]
  simp [hlane]

/-- Every lane of the wavefront is counted once, by the mask or by its complement. -/
lemma activeCount_add_complement :
    mask.activeCount + mask.complement.activeCount = waveLanes := by
  have hcomplement : mask.complement.lanes =
      (List.range waveLanes).filter fun lane => !mask.isActive lane := by
    apply List.filter_congr
    intro lane hlane
    exact isActive_complement mask (List.mem_range.mp hlane)
  have hlength := List.length_eq_length_filter_add (l := List.range waveLanes) mask.isActive
  rw [List.length_range] at hlength
  rw [← length_lanes, ← length_lanes, hcomplement, lanes, ← hlength]

/-! ## Binary digits -/

/-- The value of a binary digit. -/
def binaryDigit? (c : Char) : Option ℕ :=
  if c = '0' then some 0 else if c = '1' then some 1 else none

/-- The number that binary digits stand for, the highest first. Other characters stand for none. -/
def readBinary? (digits : List Char) : Option ℕ :=
  digits.foldlM (fun n c => (binaryDigit? c).map (2 * n + ·)) 0

/-- One more digit doubles the value of those before it and adds its own. -/
lemma readBinary?_concat (digits : List Char) (c : Char) :
    readBinary? (digits ++ [c]) =
      (readBinary? digits).bind fun n => (binaryDigit? c).map (2 * n + ·) := by
  rw [readBinary?, List.foldlM_append]
  simp [readBinary?]

/-- So many bits of a number as digits, the highest first. -/
def bitDigits (width n : ℕ) : List Char :=
  (List.range width).reverse.map fun i => if n.testBit i then '1' else '0'

/-- All digits but the last are those of half the number. -/
lemma bitDigits_succ (width n : ℕ) :
    bitDigits (width + 1) n = bitDigits width (n / 2) ++ [if n.testBit 0 then '1' else '0'] := by
  rw [bitDigits, List.range_succ_eq_map, List.reverse_cons, List.map_append, ← List.map_reverse,
    List.map_map]
  simp only [Function.comp_def, Nat.testBit_succ]
  rfl

/-- The digits of a number that has no more bits stand for it. -/
lemma readBinary?_bitDigits {width n : ℕ} (h : n < 2 ^ width) :
    readBinary? (bitDigits width n) = some n := by
  induction width generalizing n with
  | zero =>
    obtain rfl : n = 0 := by simpa using h
    rfl
  | succ width ih =>
    have hhalf : n / 2 < 2 ^ width := by omega
    have hlast : 2 * (n / 2) + n % 2 = n := Nat.div_add_mod n 2
    rw [bitDigits_succ, readBinary?_concat, ih hhalf, Option.bind_some, Nat.testBit_zero]
    rcases Nat.mod_two_eq_zero_or_one n with hbit | hbit
    all_goals rw [hbit] at hlast
    · simpa [hbit, binaryDigit?] using hlast
    · simpa [hbit, binaryDigit?] using hlast

/-- The digits of a mask have its value. -/
lemma readBinary?_binaryDigits : readBinary? mask.binaryDigits = some mask.toNat :=
  readBinary?_bitDigits mask.bits.toNat_lt

/-- A mask has a digit for each lane. -/
lemma length_binaryDigits : mask.binaryDigits.length = waveLanes := by
  rw [binaryDigits, List.length_map, List.length_reverse, List.length_range]

/-- Counted from behind, the digits stand for the lanes. -/
lemma getElem?_binaryDigits {lane : ℕ} (h : lane < waveLanes) :
    mask.binaryDigits[waveLanes - 1 - lane]? = some (if mask.isActive lane then '1' else '0') := by
  have hindex : waveLanes - 1 - (waveLanes - 1 - lane) = lane := by omega
  rw [binaryDigits, List.getElem?_map, List.getElem?_reverse, List.length_range, hindex,
    List.getElem?_range h, Option.map_some]
  rw [List.length_range]
  omega

/-- The active lanes of a mask are the places of its ones, in ascending order. They are as many as
are counted, their powers of two add up to the mask as an integer, and the complement has the other
lanes of the wavefront. The text of the mask has a digit for every lane, that of the highest first,
and stands for the integer. -/
theorem lanes_are_set_bits (mask : LaneMask) :
    (∀ lane, lane ∈ mask.lanes ↔ mask.toNat.testBit lane = true) ∧
      mask.lanes.Pairwise (· < ·) ∧
      mask.activeCount = mask.lanes.length ∧
      (mask.lanes.map (2 ^ ·)).sum = mask.toNat ∧
      (∀ lane, lane ∈ mask.complement.lanes ↔ lane < 64 ∧ lane ∉ mask.lanes) ∧
      mask.activeCount + mask.complement.activeCount = 64 ∧
      mask.binary.toList.length = 64 ∧
      readBinary? mask.binary.toList = some mask.toNat ∧
      ∀ lane < 64, mask.binary.toList[63 - lane]? =
        some (if mask.toNat.testBit lane then '1' else '0') := by
  have hbinary : mask.binary.toList = mask.binaryDigits := String.toList_ofList
  rw [hbinary]
  refine ⟨?_, mask.pairwise_lanes, mask.length_lanes.symm, mask.sum_two_pow_lanes, ?_,
    mask.activeCount_add_complement, mask.length_binaryDigits, mask.readBinary?_binaryDigits, ?_⟩
  · intro lane
    exact mask.mem_lanes_iff_testBit
  · intro lane
    exact mask.mem_lanes_complement
  · intro lane hlane
    exact mask.getElem?_binaryDigits hlane

/-- A mask with the highest lane and four of the lowest eight. -/
theorem lanes_are_set_bits_of_five_lanes :
    let mask : LaneMask := ⟨0x8000000000000096⟩
    mask.lanes = [1, 2, 4, 7, 63] ∧ mask.activeCount = 5 ∧ mask.complement.activeCount = 59 ∧
      2 ^ 1 + 2 ^ 2 + 2 ^ 4 + 2 ^ 7 + 2 ^ 63 = mask.toNat ∧
      mask.binary.toList[0]? = some '1' ∧ mask.binary.toList[60]? = some '0' := by
  intro mask
  have hlanes : mask.lanes = [1, 2, 4, 7, 63] := by decide
  obtain ⟨-, -, hcount, hsum, -, hboth, -, -, hdigits⟩ := lanes_are_set_bits mask
  rw [hlanes] at hcount hsum
  have hfirst := hdigits 63 (by decide)
  have hthird := hdigits 3 (by decide)
  rw [if_pos (by decide)] at hfirst
  rw [if_neg (by decide)] at hthird
  refine ⟨hlanes, hcount, ?_, hsum, hfirst, hthird⟩
  rw [hcount] at hboth
  exact Nat.add_left_cancel hboth

end WaveAccess.LaneMask
