import Mathlib.Algebra.Group.Nat.Defs
import Mathlib.Data.List.Nodup
import Mathlib.Data.List.Perm.Subperm
import Mathlib.Order.CompletePartialOrder
import Mathlib.Order.Interval.Set.Disjoint
import Mathlib.Tactic.Lemma
import WaveAccess.CacheLine

/-!
# The bytes on cache lines

An access reaches the bytes from its address up to its last, and touches the lines that these bytes
lie on. A line has room for so many bytes only: accesses that share no byte cannot touch fewer lines
than all their bytes fill, which is the number that they need.
-/

namespace WaveAccess.CacheLine

variable {addresses : List ℕ} {size : ℕ} {line : LineSize}

/-- The lines of accesses need no sorting if they are ascending already. -/
lemma usage_of_ascending (h : (addresses.flatMap (linesOf size line)).Pairwise (· ≤ ·)) :
    usage addresses size line = ⟨minimumNeeded addresses.length size line,
      (dropRepeats (addresses.flatMap (linesOf size line))).length⟩ := by
  have hsorted : (addresses.flatMap (linesOf size line)).Pairwise
      fun m n => decide (m ≤ n) = true := by
    simpa using h
  rw [usage, touched, List.mergeSort_of_pairwise hsorted]

/-! ## Lines of bytes -/

/-- An access does not end before it starts. -/
lemma le_lastByte {address : ℕ} (h : address ≤ maxAddress) : address ≤ lastByte address size := by
  rw [lastByte, le_min_iff]
  constructor
  · omega
  · exact h

/-- The lines of the bytes in a range are those from the line of its first byte to that of its
last. -/
lemma exists_byte_iff {first last n : ℕ} (h : first ≤ last) :
    (∃ b, first ≤ b ∧ b ≤ last ∧ b / line.bytes = n) ↔
      first / line.bytes ≤ n ∧ n ≤ last / line.bytes := by
  have hpos := line.bytes_pos
  constructor
  · rintro ⟨b, hfirst, hlast, rfl⟩
    exact ⟨Nat.div_le_div_right hfirst, Nat.div_le_div_right hlast⟩
  · rintro ⟨hfirst, hlast⟩
    -- the lowest byte on the line, unless the range begins behind it
    refine ⟨max first (n * line.bytes), le_max_left _ _, ?_, ?_⟩
    · exact max_le h ((Nat.le_div_iff_mul_le hpos).mp hlast)
    · rcases le_total first (n * line.bytes) with hle | hle
      · rw [max_eq_right hle, Nat.mul_div_cancel n hpos]
      · rw [max_eq_left hle]
        exact le_antisymm hfirst ((Nat.le_div_iff_mul_le hpos).mpr hle)

/-- An access overlaps a line exactly if it reaches a byte on it. -/
lemma mem_linesOf_iff_byte {address n : ℕ} (h : address ≤ maxAddress) :
    n ∈ linesOf size line address ↔
      ∃ b, address ≤ b ∧ b ≤ lastByte address size ∧ b / line.bytes = n := by
  rw [mem_linesOf, exists_byte_iff (le_lastByte h)]

/-- The touched lines are those of the bytes that accesses reach. -/
lemma mem_touched_iff_byte (h : ∀ a ∈ addresses, a ≤ maxAddress) {n : ℕ} :
    n ∈ touched addresses size line ↔
      ∃ a ∈ addresses, ∃ b, a ≤ b ∧ b ≤ lastByte a size ∧ b / line.bytes = n := by
  rw [mem_touched]
  constructor
  · rintro ⟨a, ha, hn⟩
    exact ⟨a, ha, (mem_linesOf_iff_byte (h a ha)).mp hn⟩
  · rintro ⟨a, ha, hb⟩
    exact ⟨a, ha, (mem_linesOf_iff_byte (h a ha)).mpr hb⟩

/-- So many lines are enough exactly if they have room for all bytes. -/
lemma minimumNeeded_le_iff {lanes n : ℕ} :
    minimumNeeded lanes size line ≤ n ↔ lanes * size ≤ n * line.bytes := by
  have hpos := line.bytes_pos
  rw [minimumNeeded, ← Nat.lt_succ_iff, Nat.div_lt_iff_lt_mul hpos, Nat.succ_mul]
  omega

/-! ## Lanes that share no byte -/

/-- Accesses of the given size at the addresses have no byte in common and end by the highest
address. -/
structure AreSeparate (addresses : List ℕ) (size : ℕ) : Prop where
  apart : addresses.Pairwise fun a b => a + size ≤ b ∨ b + size ≤ a
  inside : ∀ a ∈ addresses, a + size ≤ maxAddress + 1

/-- Accesses whose ranges of bytes are disjoint have no byte in common. -/
lemma areSeparate_of_disjoint
    (hdisjoint : addresses.Pairwise fun a b =>
      Disjoint (Set.Ico a (a + size)) (Set.Ico b (b + size)))
    (hinside : ∀ a ∈ addresses, a + size ≤ maxAddress + 1) : AreSeparate addresses size := by
  refine ⟨?_, hinside⟩
  apply hdisjoint.imp
  intro a b hab
  rw [Set.Ico_disjoint_Ico] at hab
  omega

/-- The line of a byte that an access reaches is touched. -/
lemma div_mem_touched (h : AreSeparate addresses size) (line : LineSize) {a b : ℕ}
    (ha : a ∈ addresses) (hb : b ∈ List.range' a size) :
    b / line.bytes ∈ touched addresses size line := by
  rw [List.mem_range'_1] at hb
  have hinside := h.inside a ha
  rw [mem_touched]
  refine ⟨a, ha, mem_linesOf.mpr ⟨?_, ?_⟩⟩
  · exact Nat.div_le_div_right hb.1
  · apply Nat.div_le_div_right
    rw [lastByte]
    omega

/-- Accesses that share no byte use as many lines as they need, or more: so many bytes do not fit
into fewer. -/
lemma needed_le_used (h : AreSeparate addresses size) (line : LineSize) :
    (usage addresses size line).needed ≤ (usage addresses size line).used := by
  have hbytes : (addresses.flatMap (List.range' · size)).Nodup := by
    rw [List.nodup_flatMap]
    apply And.intro (fun a _ => List.nodup_range')
    apply h.apart.imp
    intro a b hapart n hna hnb
    rw [List.mem_range'_1] at hna hnb
    omega
  have hsubset : addresses.flatMap (List.range' · size) ⊆
      (touched addresses size line).flatMap fun n => List.range' (n * line.bytes) line.bytes := by
    intro b hb
    obtain ⟨a, ha, hba⟩ := List.mem_flatMap.mp hb
    rw [List.mem_flatMap]
    refine ⟨b / line.bytes, div_mem_touched h line ha hba, List.mem_range'_1.mpr ⟨?_, ?_⟩⟩
    · exact Nat.div_mul_le_self b line.bytes
    · exact Nat.lt_div_mul_add line.bytes_pos
  have hlength := (hbytes.subperm hsubset).length_le
  simp only [List.length_flatMap, List.length_range', List.map_const', List.sum_replicate_nat]
    at hlength
  exact minimumNeeded_le_iff.mpr hlength

/-- The touched lines are exactly those of the bytes from each address to the end of its access, or
of the address space if that comes first; they are listed in ascending order, and a usage counts
them. The lines that are needed are the fewest with room for all bytes. Accesses that share no byte
and end by the highest address use no fewer. -/
theorem touched_lines_of_bytes (addresses : List UInt64) (size : UInt16) (line : LineSize) :
    let starts := addresses.map UInt64.toNat
    let lines := touched starts size.toNat line
    let u := usage starts size.toNat line
    (∀ n, n ∈ lines ↔ ∃ a ∈ starts, ∃ b, a ≤ b ∧
        b ≤ min (a + max size.toNat 1 - 1) (2 ^ 64 - 1) ∧ b / line.bytes = n) ∧
      lines.Pairwise (· < ·) ∧ u.used = lines.length ∧
      (∀ n, u.needed ≤ n ↔ starts.length * size.toNat ≤ n * line.bytes) ∧
      ((starts.Pairwise fun a b =>
          Disjoint (Set.Ico a (a + size.toNat)) (Set.Ico b (b + size.toNat))) →
        (∀ a ∈ starts, a + size.toNat ≤ 2 ^ 64) → u.needed ≤ u.used) := by
  intro starts lines u
  have hstarts : ∀ a ∈ starts, a ≤ maxAddress := by
    intro a ha
    obtain ⟨address, -, rfl⟩ := List.mem_map.mp ha
    exact Nat.le_of_lt_succ address.toNat_lt
  refine ⟨?_, pairwise_touched _ _ _, rfl, ?_, ?_⟩
  · intro n
    exact mem_touched_iff_byte hstarts
  · intro n
    exact minimumNeeded_le_iff
  · intro hdisjoint hinside
    exact needed_le_used (areSeparate_of_disjoint hdisjoint hinside) line

/-- Of three reads of eight bytes, one lies across the end of a line and one ends with the address
space. -/
theorem touched_lines_of_bytes_of_three_reads :
    let starts := [124, 0xfffffffffffffff8, 132].map UInt64.toNat
    let lines := touched starts 8 ⟨128, by decide⟩
    0 ∈ lines ∧ 1 ∈ lines ∧ 2 ∉ lines ∧ (2 ^ 64 - 1) / 128 ∈ lines ∧
      (usage starts 8 ⟨128, by decide⟩).needed ≤ (usage starts 8 ⟨128, by decide⟩).used := by
  intro starts lines
  obtain ⟨hlines, -, -, -, hneeded⟩ :=
    touched_lines_of_bytes [124, 0xfffffffffffffff8, 132] 8 ⟨128, by decide⟩
  dsimp only [lines]
  refine ⟨?_, ?_, ?_, ?_, ?_⟩
  · exact (hlines 0).mpr ⟨124, by simp, 124, by decide⟩
  · exact (hlines 1).mpr ⟨124, by simp, 128, by decide⟩
  · intro h
    obtain ⟨a, ha, b, hb⟩ := (hlines 2).mp h
    simp only [List.map_cons, List.map_nil, List.mem_cons, List.not_mem_nil, or_false] at ha
    rcases ha with rfl | rfl | rfl <;> simp at hb <;> omega
  · exact (hlines _).mpr ⟨0xfffffffffffffff8, by simp, 2 ^ 64 - 1, by decide⟩
  · apply hneeded
    · simp [Set.Ico_disjoint_Ico]
    · simp

end WaveAccess.CacheLine
