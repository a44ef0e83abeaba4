import Mathlib.Order.Interval.Finset.Nat
import WaveAccess.Proofs.CacheLine.Bytes

/-!
# Densely packed lanes

The accesses of lanes that lie one behind the other cover a range of bytes without a hole, so the
lines that they touch are all lines from that of the first byte to that of the last. So many bytes
need as many lines, or one line fewer if the range does not begin with a line.
-/

namespace WaveAccess.CacheLine

/-- The addresses of `n` accesses of which each begins where the one before it ends. -/
def denseAddresses (base size n : ℕ) : List ℕ :=
  (List.range n).map (base + · * size)

variable {addresses : List ℕ} {base size n : ℕ} {line : LineSize}

/-! ## Touched lines -/

/-- A dense address is as many sizes behind the base as lanes come before it. -/
lemma mem_denseAddresses {a : ℕ} :
    a ∈ denseAddresses base size n ↔ ∃ i < n, base + i * size = a := by
  simp [denseAddresses]

/-- The bytes of a lane lie within those of all lanes. -/
lemma mul_add_le_mul {i : ℕ} (hi : i < n) : i * size + size ≤ n * size := by
  rw [← Nat.succ_mul]
  exact Nat.mul_le_mul_right size hi

section Dense

variable (hsize : 0 < size) (hfits : base + n * size ≤ maxAddress + 1)
  (hdense : addresses.Perm (denseAddresses base size n))

include hsize hfits

/-- A dense access ends directly before the next one. -/
lemma lastByte_dense {i : ℕ} (hi : i < n) :
    lastByte (base + i * size) size = base + i * size + size - 1 := by
  have hend : i * size + size ≤ n * size := mul_add_le_mul hi
  rw [lastByte]
  omega

include hdense

/-- A dense access touches the lines of all bytes from the base to its end. -/
lemma mem_touched_dense {k : ℕ} :
    k ∈ touched addresses size line ↔
      ∃ b, base ≤ b ∧ b < base + n * size ∧ b / line.bytes = k := by
  have hbound : ∀ a ∈ addresses, a ≤ maxAddress := by
    intro a ha
    obtain ⟨i, hi, rfl⟩ := mem_denseAddresses.mp (hdense.mem_iff.mp ha)
    have hend : i * size + size ≤ n * size := mul_add_le_mul hi
    omega
  -- the accesses follow each other without a hole, so each byte of the range is in one of them
  rw [mem_touched_iff_byte hbound]
  constructor
  · rintro ⟨a, ha, b, hfirst, hlast, hb⟩
    obtain ⟨i, hi, rfl⟩ := mem_denseAddresses.mp (hdense.mem_iff.mp ha)
    have hend : i * size + size ≤ n * size := mul_add_le_mul hi
    rw [lastByte_dense hsize hfits hi] at hlast
    exact ⟨b, by omega, by omega, hb⟩
  · rintro ⟨b, hfirst, hlast, hb⟩
    -- the distance of a byte from the base tells the access that reaches it
    have hi : (b - base) / size < n := (Nat.div_lt_iff_lt_mul hsize).mpr (by omega)
    have hlower : (b - base) / size * size ≤ b - base := Nat.div_mul_le_self _ _
    have hupper : b - base < (b - base) / size * size + size := Nat.lt_div_mul_add hsize
    refine ⟨base + (b - base) / size * size, ?_, b, by omega, ?_, hb⟩
    · exact hdense.mem_iff.mpr (mem_denseAddresses.mpr ⟨_, hi, rfl⟩)
    · rw [lastByte_dense hsize hfits hi]
      omega

/-- A dense access uses all lines from the first to the last. -/
lemma used_dense (hpos : 0 < n) :
    (usage addresses size line).used =
      (base + n * size - 1) / line.bytes + 1 - base / line.bytes := by
  have hbytes : 0 < n * size := Nat.mul_pos hpos hsize
  have hlines : (touched addresses size line).toFinset =
      Finset.Icc (base / line.bytes) ((base + n * size - 1) / line.bytes) := by
    ext k
    have hrange : base ≤ base + n * size - 1 := by omega
    rw [List.mem_toFinset, mem_touched_dense hsize hfits hdense, Finset.mem_Icc,
      ← exists_byte_iff hrange]
    refine exists_congr fun b => and_congr_right fun _ => and_congr_left fun _ => ?_
    omega
  rw [← Nat.card_Icc, ← hlines, List.toFinset_card_of_nodup]
  · rfl
  · exact (pairwise_touched addresses size line).imp Nat.ne_of_lt

/-! ## Used and needed lines -/

omit hsize hfits in
/-- The needed lines have room for all bytes, and no fewer lines have. -/
lemma needed_dense_le_iff {k : ℕ} :
    (usage addresses size line).needed ≤ k ↔ n * size ≤ k * line.bytes := by
  have hlength : addresses.length = n := by
    rw [hdense.length_eq, denseAddresses, List.length_map, List.length_range]
  rw [usage, minimumNeeded_le_iff, hlength]

/-- Dense accesses use as many lines as they need, or more: the used lines have room for all
bytes. -/
lemma needed_le_used_dense :
    (usage addresses size line).needed ≤ (usage addresses size line).used := by
  rw [needed_dense_le_iff hdense]
  rcases Nat.eq_zero_or_pos n with rfl | hpos
  · rw [Nat.zero_mul]
    exact Nat.zero_le _
  · have hbytes : 0 < n * size := Nat.mul_pos hpos hsize
    have hfirst : base / line.bytes * line.bytes ≤ base := Nat.div_mul_le_self _ _
    have hlast : base + n * size - 1 <
        (base + n * size - 1) / line.bytes * line.bytes + line.bytes :=
      Nat.lt_div_mul_add line.bytes_pos
    rw [used_dense hsize hfits hdense hpos, Nat.sub_mul, Nat.succ_mul]
    omega

/-- So many lines are enough that the range of the bytes ends on the last of them. -/
lemma used_dense_le {k : ℕ} (h : base + n * size ≤ (base / line.bytes + k) * line.bytes) :
    (usage addresses size line).used ≤ k := by
  rcases Nat.eq_zero_or_pos n with rfl | hpos
  · have hnone : (usage addresses size line).used = 0 := by
      rw [hdense.eq_nil]
      simp [usage, touched, dropRepeats]
    omega
  · have hbytes : 0 < n * size := Nat.mul_pos hpos hsize
    have hlast : (base + n * size - 1) / line.bytes < base / line.bytes + k := by
      rw [Nat.div_lt_iff_lt_mul line.bytes_pos]
      omega
    rw [used_dense hsize hfits hdense hpos]
    omega

/-- One line more than needed is enough wherever the bytes begin. -/
lemma used_le_needed_succ_dense :
    (usage addresses size line).used ≤ (usage addresses size line).needed + 1 := by
  have hbytes := (needed_dense_le_iff hdense).mp (le_refl (usage addresses size line).needed)
  have hfirst : base < base / line.bytes * line.bytes + line.bytes :=
    Nat.lt_div_mul_add line.bytes_pos
  apply used_dense_le hsize hfits hdense
  rw [Nat.add_mul, Nat.succ_mul]
  omega

/-- A dense access that starts on a line boundary uses what it needs. -/
lemma used_eq_needed_dense (hbase : line.bytes ∣ base) :
    (usage addresses size line).used = (usage addresses size line).needed := by
  have hbytes := (needed_dense_le_iff hdense).mp (le_refl (usage addresses size line).needed)
  have hfirst : base / line.bytes * line.bytes = base := Nat.div_mul_cancel hbase
  apply le_antisymm _ (needed_le_used_dense hsize hfits hdense)
  apply used_dense_le hsize hfits hdense
  rw [Nat.add_mul]
  omega

end Dense

end WaveAccess.CacheLine
