import Mathlib.Data.List.Sort
import WaveAccess.Proofs.CacheLine.Bytes
import WaveAccess.Proofs.CacheLine.Words

/-!
# Growing accesses

More lanes, more bytes for each of them and shorter lines never lower the number of lines that are
needed, and further addresses or wider accesses never take a touched line away. Which lines are
touched depends on the set of the addresses alone, and two accesses together neither touch nor need
more lines than both do one after the other.

Needed lines are counted in words, which have room for the bytes of an access of up to 2^48 lanes.
Where they have room for an access, they have room for all smaller ones.
-/

namespace WaveAccess.CacheLine

variable {addresses others : List ℕ} {lanes more size wider n : ℕ} {line longer : LineSize}

/-! ## Needed lines -/

/-- A larger access has more bytes to put into lines, and longer lines have more room. -/
lemma minimumNeeded_mono (hlanes : lanes ≤ more) (hsize : size ≤ wider)
    (hline : line.bytes ≤ longer.bytes) :
    minimumNeeded lanes size longer ≤ minimumNeeded more wider line := by
  rw [minimumNeeded_le_iff]
  calc lanes * size ≤ more * wider := Nat.mul_le_mul hlanes hsize
    _ ≤ minimumNeeded more wider line * line.bytes := minimumNeeded_le_iff.mp le_rfl
    _ ≤ minimumNeeded more wider line * longer.bytes := Nat.mul_le_mul_left _ hline

/-- The lines that two accesses need have room for the bytes of both. -/
lemma minimumNeeded_add_le (lanes more size : ℕ) (line : LineSize) :
    minimumNeeded (lanes + more) size line ≤
      minimumNeeded lanes size line + minimumNeeded more size line := by
  rw [minimumNeeded_le_iff, Nat.add_mul, Nat.add_mul]
  exact Nat.add_le_add (minimumNeeded_le_iff.mp le_rfl) (minimumNeeded_le_iff.mp le_rfl)

/-- If words have room for an access, they have room for a smaller one, which needs at most as many
lines. -/
lemma neededInWords?_mono {m : ℕ} (hlanes : lanes ≤ more) (hsize : size ≤ wider)
    (hline : line.bytes ≤ longer.bytes) (h : neededInWords? more wider line.bytes = some m) :
    ∃ n ≤ m, neededInWords? lanes size longer.bytes = some n := by
  obtain ⟨hfits, rfl⟩ := neededInWords?_eq_some_iff.mp h
  have hsmaller : lanes * size ≤ maxAddress := (Nat.mul_le_mul hlanes hsize).trans hfits
  exact ⟨_, minimumNeeded_mono hlanes hsize hline, neededInWords?_eq_some_iff.mpr ⟨hsmaller, rfl⟩⟩

/-- If words have room for two accesses together, they have room for each. -/
lemma neededInWords?_add {m : ℕ} (h : neededInWords? (lanes + more) size line.bytes = some m) :
    ∃ n k, neededInWords? lanes size line.bytes = some n ∧
      neededInWords? more size line.bytes = some k ∧ m ≤ n + k := by
  obtain ⟨n, -, hn⟩ := neededInWords?_mono (Nat.le_add_right lanes more) le_rfl le_rfl h
  obtain ⟨k, -, hk⟩ := neededInWords?_mono (Nat.le_add_left more lanes) le_rfl le_rfl h
  obtain ⟨-, rfl⟩ := neededInWords?_eq_some_iff.mp h
  refine ⟨n, k, hn, hk, ?_⟩
  obtain ⟨-, rfl⟩ := neededInWords?_eq_some_iff.mp hn
  obtain ⟨-, rfl⟩ := neededInWords?_eq_some_iff.mp hk
  exact minimumNeeded_add_le lanes more size line

/-! ## Touched lines -/

/-- A wider access ends no earlier. -/
lemma lastByte_mono (address : ℕ) (h : size ≤ wider) :
    lastByte address size ≤ lastByte address wider := by
  rw [lastByte, lastByte]
  omega

/-- A wider access overlaps the lines of a narrower one at its address. -/
lemma mem_linesOf_mono {address : ℕ} (hsize : size ≤ wider) (h : n ∈ linesOf size line address) :
    n ∈ linesOf wider line address := by
  rw [mem_linesOf] at h ⊢
  exact ⟨h.1, h.2.trans (Nat.div_le_div_right (lastByte_mono address hsize))⟩

/-- Further addresses and wider accesses touch further lines. -/
lemma touched_mono (haddresses : addresses ⊆ others) (hsize : size ≤ wider) (line : LineSize) :
    touched addresses size line ⊆ touched others wider line := by
  intro n hn
  obtain ⟨a, ha, hn⟩ := mem_touched.mp hn
  exact mem_touched.mpr ⟨a, haddresses ha, mem_linesOf_mono hsize hn⟩

/-- Two accesses together touch the lines that one of them touches. -/
lemma mem_touched_append : n ∈ touched (addresses ++ others) size line ↔
    n ∈ touched addresses size line ∨ n ∈ touched others size line := by
  simp only [mem_touched, List.mem_append, or_and_right, exists_or]

/-- Each touched line is listed once, and lists of the same lines are the same. -/
lemma touched_congr (h : ∀ a, a ∈ addresses ↔ a ∈ others) (size : ℕ) (line : LineSize) :
    touched addresses size line = touched others size line := by
  apply (pairwise_touched addresses size line).eq_of_mem_iff (pairwise_touched others size line)
  intro n
  simp only [mem_touched, h]

/-- An access uses at most as many lines as are listed somewhere with all that it touches. -/
lemma used_le_length {lines : List ℕ} (h : touched addresses size line ⊆ lines) :
    (usage addresses size line).used ≤ lines.length := by
  have hnodup : (touched addresses size line).Nodup :=
    (pairwise_touched addresses size line).imp Nat.ne_of_lt
  exact (hnodup.subperm h).length_le

/-- The lines of both accesses have room for those that they touch together. -/
lemma used_append_le (addresses others : List ℕ) (size : ℕ) (line : LineSize) :
    (usage (addresses ++ others) size line).used ≤
      (usage addresses size line).used + (usage others size line).used := by
  have hsubset : touched (addresses ++ others) size line ⊆
      touched addresses size line ++ touched others size line := by
    intro n hn
    exact List.mem_append.mpr (mem_touched_append.mp hn)
  exact (used_le_length hsubset).trans_eq List.length_append

/-- If words have room for two accesses together, the uses of both bound theirs. -/
lemma usageInWords?_append {both : CacheUsage}
    (h : usageInWords? (addresses ++ others) size line.bytes = some both) :
    ∃ u v, usageInWords? addresses size line.bytes = some u ∧
      usageInWords? others size line.bytes = some v ∧
      both.used ≤ u.used + v.used ∧ both.needed ≤ u.needed + v.needed := by
  obtain ⟨hfits, rfl⟩ := usageInWords?_eq_some_iff.mp h
  rw [List.length_append, Nat.add_mul] at hfits
  have hneeded := minimumNeeded_add_le addresses.length others.length size line
  rw [← List.length_append] at hneeded
  exact ⟨_, _, usageInWords?_eq line ((Nat.le_add_right _ _).trans hfits),
    usageInWords?_eq line ((Nat.le_add_left _ _).trans hfits),
    used_append_le addresses others size line, hneeded⟩

/-- Words count the needed lines exactly if they have room for the bytes of all lanes, which they do
for up to 2^48 lanes. More lanes, more bytes for each and shorter lines take no needed line away,
further addresses and wider accesses take no touched line away, neither the order nor the repetition
of addresses matters, and two accesses together use and need at most as many lines as both do on
their own. -/
theorem lines_grow_with_accesses (line : LineSize) :
    (∀ lanes size : ℕ, neededInWords? lanes size line.bytes =
      if lanes * size < 2 ^ 64 then some ((lanes * size + line.bytes - 1) / line.bytes) else none) ∧
    (∀ lanes size : ℕ, lanes ≤ 2 ^ 48 → size < 2 ^ 16 →
      (neededInWords? lanes size line.bytes).isSome) ∧
    (∀ (lanes more size wider m : ℕ) (longer : LineSize), lanes ≤ more → size ≤ wider →
      line.bytes ≤ longer.bytes → neededInWords? more wider line.bytes = some m →
        ∃ n ≤ m, neededInWords? lanes size longer.bytes = some n) ∧
    (∀ lanes more size m : ℕ, neededInWords? (lanes + more) size line.bytes = some m →
      ∃ n k, neededInWords? lanes size line.bytes = some n ∧
        neededInWords? more size line.bytes = some k ∧ m ≤ n + k) ∧
    (∀ (addresses others : List ℕ) (size wider : ℕ), addresses ⊆ others → size ≤ wider →
      touched addresses size line ⊆ touched others wider line ∧
        (usage addresses size line).used ≤ (usage others wider line).used) ∧
    (∀ (addresses others : List ℕ) (size : ℕ), (∀ a, a ∈ addresses ↔ a ∈ others) →
      touched addresses size line = touched others size line ∧
        (usage addresses size line).used = (usage others size line).used) ∧
    (∀ (addresses others : List ℕ) (size : ℕ),
      (usage (addresses ++ others) size line).used ≤
        (usage addresses size line).used + (usage others size line).used) ∧
    ∀ (addresses others : List ℕ) (size : ℕ) (both : CacheUsage),
      usageInWords? (addresses ++ others) size line.bytes = some both →
        ∃ u v, usageInWords? addresses size line.bytes = some u ∧
          usageInWords? others size line.bytes = some v ∧
          both.used ≤ u.used + v.used ∧ both.needed ≤ u.needed + v.needed := by
  refine ⟨?_, ?_, ?_, ?_, ?_, ?_, ?_, ?_⟩
  · intro lanes size
    have hfits : lanes * size < 2 ^ 64 ↔ lanes * size ≤ maxAddress := Nat.lt_succ_iff
    simp only [neededInWords?_eq, minimumNeeded, hfits]
  · intro lanes size hlanes hsize
    have hbytes : lanes * size ≤ maxAddress :=
      (Nat.mul_le_mul hlanes (Nat.le_pred_of_lt hsize)).trans (by decide)
    rw [neededInWords?_eq, if_pos hbytes, Option.isSome_some]
  · intro lanes more size wider m longer hlanes hsize hline
    exact neededInWords?_mono hlanes hsize hline
  · intro lanes more size m
    exact neededInWords?_add
  · intro addresses others size wider haddresses hsize
    have hlines := touched_mono haddresses hsize line
    exact ⟨hlines, used_le_length hlines⟩
  · intro addresses others size hsame
    have hlines := touched_congr hsame size line
    exact ⟨hlines, congrArg List.length hlines⟩
  · intro addresses others size
    exact used_append_le addresses others size line
  · intro addresses others size both
    exact usageInWords?_append

/-- Lines of 96 bytes are no power of two, and the accesses end with the address space. The wider
ones reach the line of the last byte, which is none of the narrow ones'. -/
theorem lines_grow_with_accesses_at_last_address :
    let line : LineSize := ⟨96, by decide⟩
    let narrow := [0xffffffffffffff90, 0]
    let wide := [0, 0xffffffffffffff90, 96, 0]
    neededInWords? 4 200 line.bytes = some 9 ∧ neededInWords? 2 8 128 = some 1 ∧
      (∃ n ≤ 9, neededInWords? 2 8 128 = some n) ∧
      neededInWords? (2 ^ 63) 2 line.bytes = none ∧
      touched narrow 8 line ⊆ touched wide 200 line ∧
      (usage narrow 8 line).used ≤ (usage wide 200 line).used ∧
      touched [0, 96, 0, 96] 8 line = touched [96, 0] 8 line := by
  have hmembers : ∀ a : ℕ, a ∈ [0, 96, 0, 96] ↔ a ∈ [96, 0] := by grind
  intro line narrow wide
  have hwide : neededInWords? 4 200 line.bytes = some 9 := by decide
  obtain ⟨-, -, hmono, -, hused, hsame, -⟩ := lines_grow_with_accesses line
  obtain ⟨hlines, hle⟩ := hused narrow wide 8 200 (by decide) (by decide)
  refine ⟨hwide, by decide, ?_, by decide, hlines, hle, (hsame _ _ 8 hmembers).1⟩
  exact hmono 2 4 8 200 9 ⟨128, by decide⟩ (by decide) (by decide) (by decide) hwide

end WaveAccess.CacheLine
