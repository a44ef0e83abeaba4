import Mathlib.Tactic.Lemma
import WaveAccess.CacheLine

/-!
# Cache lines in machine words

The counts of cache lines are stated over natural numbers, but a machine computes them in words of
64 bits, where a sum or product may not fit and a divisor may be zero. `usageInWords?` is the same
computation with operations that have no result in these cases. It has one for all addresses up to
the last and all sizes, and it is the stated count.
-/

namespace WaveAccess

/-! ## Arithmetic in words -/

namespace Word

/-- A sum, if it fits a word. -/
def add? (a b : Nat) : Option Nat :=
  if a + b ≤ maxAddress then some (a + b) else none

/-- A difference, if it is not negative. -/
def sub? (a b : Nat) : Option Nat :=
  if b ≤ a then some (a - b) else none

/-- A product, if it fits a word. -/
def mul? (a b : Nat) : Option Nat :=
  if a * b ≤ maxAddress then some (a * b) else none

/-- A quotient, if the divisor is not zero. -/
def div? (a b : Nat) : Option Nat :=
  if b = 0 then none else some (a / b)

/-- A quotient rounded up: one more than the quotient if there is a remainder. -/
def ceilDiv? (a b : Nat) : Option Nat := do
  let quotient ← div? a b
  if a % b = 0 then some quotient else add? quotient 1

/-- A quotient rounded up fits a word if its dividend does. -/
lemma ceilDiv?_eq {a b : Nat} (ha : a ≤ maxAddress) (hb : 0 < b) :
    ceilDiv? a b = some ((a + b - 1) / b) := by
  have hdiv : b * (a / b) + a % b = a := Nat.div_add_mod a b
  have hmod : a % b < b := Nat.mod_lt a hb
  rw [ceilDiv?, div?, if_neg (Nat.ne_of_gt hb)]
  by_cases hr : a % b = 0
  · have hup : (a + b - 1) / b = a / b := by
      rw [show a + b - 1 = (b - 1) + b * (a / b) by omega, Nat.add_mul_div_left _ _ hb,
        Nat.div_eq_of_lt (by omega), Nat.zero_add]
    rw [Option.bind_eq_bind, Option.bind_some, if_pos hr, hup]
  · have hup : (a + b - 1) / b = a / b + 1 := by
      rw [show a + b - 1 = (a % b - 1) + b * (a / b + 1) by rw [Nat.mul_add]; omega,
        Nat.add_mul_div_left _ _ hb, Nat.div_eq_of_lt (by omega), Nat.zero_add]
    have hfits : a / b + 1 ≤ maxAddress := by
      -- a remainder needs a divisor of two at least, which halves the quotient
      have htwo : 2 * (a / b) ≤ b * (a / b) := Nat.mul_le_mul_right _ (by omega)
      unfold maxAddress at ha ⊢
      omega
    rw [Option.bind_eq_bind, Option.bind_some, if_neg hr, hup, add?, if_pos hfits]

end Word

namespace CacheLine
open Word

/-! ## Lines of an access -/

/-- The lines that an access overlaps, computed in words. The sum of an address and a size stays at
the last address if it would run past it. -/
def linesInWords? (size line address : Nat) : Option (List Nat) := do
  let width ← sub? (max size 1) 1
  let first ← div? address line
  let last ← div? (min (address + width) maxAddress) line
  some ((List.range (last + 1 - first)).map (first + ·))

/-- The fewest lines that hold `size` bytes for each of `lanes` lanes, computed in words. -/
def neededInWords? (lanes size line : Nat) : Option Nat := do
  let bytes ← mul? lanes size
  ceilDiv? bytes line

/-- The cache line use of a wavefront's access, computed in words. -/
def usageInWords? (addresses : List Nat) (size line : Nat) : Option CacheUsage := do
  let needed ← neededInWords? addresses.length size line
  let lines ← addresses.mapM (linesInWords? size line)
  some ⟨needed, (dropRepeats (lines.flatten.mergeSort (· ≤ ·))).length⟩

/-- An access overlaps the same lines in words. -/
lemma linesInWords?_eq (size : Nat) (line : LineSize) (address : Nat) :
    linesInWords? size line.bytes address = some (linesOf size line address) := by
  have hwidth : address + (max size 1 - 1) = address + max size 1 - 1 := by omega
  have hline : line.bytes ≠ 0 := Nat.ne_of_gt line.bytes_pos
  rw [linesInWords?, sub?, if_pos (Nat.le_max_right size 1)]
  simp only [div?, if_neg hline, Option.bind_eq_bind, Option.bind_some, hwidth]
  rfl

/-- So do all accesses of a wavefront. -/
lemma mapM_linesInWords? (size : Nat) (line : LineSize) (addresses : List Nat) :
    addresses.mapM (linesInWords? size line.bytes) = some (addresses.map (linesOf size line)) := by
  induction addresses with
  | nil => rfl
  | cons a rest ih => simp [linesInWords?_eq, ih]

/-- The needed lines have a number in words exactly if the bytes of all lanes have one. -/
lemma neededInWords?_eq (lanes size : Nat) (line : LineSize) :
    neededInWords? lanes size line.bytes =
      if lanes * size ≤ maxAddress then some (minimumNeeded lanes size line) else none := by
  rw [neededInWords?, mul?]
  split
  · next h => exact ceilDiv?_eq h line.bytes_pos
  · rfl

/-- The needed lines that are computed in words are the stated number of lines. -/
lemma neededInWords?_eq_some_iff {lanes size n : Nat} {line : LineSize} :
    neededInWords? lanes size line.bytes = some n ↔
      lanes * size ≤ maxAddress ∧ n = minimumNeeded lanes size line := by
  rw [neededInWords?_eq]
  split <;> grind

/-- Apart from the needed lines, nothing stands in the way of computing the use of an access. -/
lemma usageInWords?_eq_map (addresses : List Nat) (size : Nat) (line : LineSize) :
    usageInWords? addresses size line.bytes =
      (neededInWords? addresses.length size line.bytes).map fun needed =>
        ⟨needed, (usage addresses size line).used⟩ := by
  rw [usageInWords?, mapM_linesInWords?]
  cases neededInWords? addresses.length size line.bytes <;> rfl

/-- The cache line use of an access has a result in words exactly if the number of its bytes has
one, and then it is the stated use. -/
lemma usageInWords?_eq_some_iff {addresses : List Nat} {size : Nat} {line : LineSize}
    {u : CacheUsage} :
    usageInWords? addresses size line.bytes = some u ↔
      addresses.length * size ≤ maxAddress ∧ u = usage addresses size line := by
  rw [usageInWords?_eq_map, neededInWords?_eq]
  split
  · next h =>
    rw [Option.map_some, Option.some_inj, eq_comm, and_iff_right h]
    rfl
  · next h => simp [h]

/-- The cache line use of an access has a result in words if the number of its bytes has one. -/
lemma usageInWords?_eq {addresses : List Nat} {size : Nat} (line : LineSize)
    (h : addresses.length * size ≤ maxAddress) :
    usageInWords? addresses size line.bytes = some (usage addresses size line) :=
  usageInWords?_eq_some_iff.mpr ⟨h, rfl⟩

/-- The lowest address on a line that an access overlaps is an address. -/
lemma lowest_le_maxAddress {size : Nat} {line : LineSize} {addresses : List Nat} {n : Nat}
    (h : n ∈ touched addresses size line) : n * line.bytes ≤ maxAddress := by
  obtain ⟨address, -, hn⟩ := mem_touched.mp h
  have hlast : n ≤ lastByte address size / line.bytes := (mem_linesOf.mp hn).2
  calc n * line.bytes ≤ lastByte address size / line.bytes * line.bytes :=
        Nat.mul_le_mul_right _ hlast
    _ ≤ lastByte address size := Nat.div_mul_le_self _ _
    _ ≤ maxAddress := Nat.min_le_right _ _

end CacheLine

end WaveAccess
