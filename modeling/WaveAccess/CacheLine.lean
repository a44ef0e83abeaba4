import WaveAccess.Architecture

/-!
# Cache line use

How many cache lines a wavefront's access touches, compared with the fewest lines that could hold so
many bytes. An access that straddles a line boundary touches every line that it overlaps, and one
that would run past the end of the address space touches the lines up to the last.
-/

namespace WaveAccess

/-- The highest address. -/
def maxAddress : Nat := 0xffffffffffffffff

/-- The cache lines of accesses: the fewest possible, and those actually touched. -/
structure CacheUsage where
  needed : Nat
  used : Nat
  deriving DecidableEq, Repr

namespace CacheUsage

/-- Whether exactly the fewest possible lines are touched. -/
def isEfficient (u : CacheUsage) : Bool :=
  u.used == u.needed

/-- The number of lines touched beyond the fewest possible. -/
def excess (u : CacheUsage) : Nat :=
  u.used - u.needed

/-- The usage of two groups of accesses together. -/
def add (u v : CacheUsage) : CacheUsage :=
  ⟨u.needed + v.needed, u.used + v.used⟩

end CacheUsage

namespace CacheLine

/-- The fewest lines that hold `size` bytes for each of `lanes` lanes. The number of bytes is exact
here; `neededInWords?` computes the same in words of 64 bits, wherever it fits one. -/
def minimumNeeded (lanes size : Nat) (line : LineSize) : Nat :=
  (lanes * size + line.bytes - 1) / line.bytes

/-- The last byte of an access that starts at an address; an access of no bytes counts as one. -/
def lastByte (address size : Nat) : Nat :=
  min (address + max size 1 - 1) maxAddress

/-- The lines that an access overlaps, in ascending order. -/
def linesOf (size : Nat) (line : LineSize) (address : Nat) : List Nat :=
  let first := address / line.bytes
  let last := lastByte address size / line.bytes
  (List.range (last + 1 - first)).map (first + ·)

/-- An access overlaps the lines from that of its first byte to that of its last byte. -/
theorem mem_linesOf {size : Nat} {line : LineSize} {address n : Nat} :
    n ∈ linesOf size line address ↔
      address / line.bytes ≤ n ∧ n ≤ lastByte address size / line.bytes := by
  simp only [linesOf, List.mem_map, List.mem_range]
  constructor
  · rintro ⟨i, hi, rfl⟩
    omega
  · rintro ⟨hfirst, hlast⟩
    exact ⟨n - address / line.bytes, by omega, by omega⟩

/-- An ascending list without its repetitions. -/
def dropRepeats : List Nat → List Nat
  | [] => []
  | [n] => [n]
  | m :: n :: rest => if m = n then dropRepeats (n :: rest) else m :: dropRepeats (n :: rest)

/-- Dropping repetitions loses no number. -/
@[simp]
theorem mem_dropRepeats {n : Nat} {ns : List Nat} : n ∈ dropRepeats ns ↔ n ∈ ns := by
  fun_induction dropRepeats ns with
  | case1 => rfl
  | case2 => rfl
  | case3 m rest ih => rw [ih]; simp
  | case4 m k rest _ ih => rw [List.mem_cons, ih, ← List.mem_cons]

/-- What remains of an ascending list is strictly ascending. -/
theorem pairwise_dropRepeats {ns : List Nat} (h : ns.Pairwise (· ≤ ·)) :
    (dropRepeats ns).Pairwise (· < ·) := by
  fun_induction dropRepeats ns with
  | case1 => exact .nil
  | case2 n => exact List.pairwise_singleton _ n
  | case3 m rest ih => exact ih (List.pairwise_cons.mp h).2
  | case4 m k rest hne ih =>
    obtain ⟨hm, hrest⟩ := List.pairwise_cons.mp h
    refine List.pairwise_cons.mpr ⟨fun n hn => ?_, ih hrest⟩
    have hk : m < k := Nat.lt_of_le_of_ne (hm k (List.mem_cons_self ..)) hne
    rcases List.mem_cons.mp (mem_dropRepeats.mp hn) with rfl | hn
    · exact hk
    · exact Nat.lt_of_lt_of_le hk ((List.pairwise_cons.mp hrest).1 n hn)

/-- The lines that accesses at the given addresses touch, in ascending order. -/
def touched (addresses : List Nat) (size : Nat) (line : LineSize) : List Nat :=
  dropRepeats ((addresses.flatMap (linesOf size line)).mergeSort (· ≤ ·))

/-- A line is touched exactly if one of the accesses overlaps it. -/
theorem mem_touched {addresses : List Nat} {size : Nat} {line : LineSize} {n : Nat} :
    n ∈ touched addresses size line ↔ ∃ address ∈ addresses, n ∈ linesOf size line address := by
  simp [touched]

/-- Touched lines are listed in ascending order, each of them once. -/
theorem pairwise_touched (addresses : List Nat) (size : Nat) (line : LineSize) :
    (touched addresses size line).Pairwise (· < ·) := by
  apply pairwise_dropRepeats
  have htrans : ∀ a b c : Nat, decide (a ≤ b) = true → decide (b ≤ c) = true →
      decide (a ≤ c) = true := by
    intro a b c
    simp only [decide_eq_true_eq]
    exact Nat.le_trans
  have htotal : ∀ a b : Nat, (decide (a ≤ b) || decide (b ≤ a)) = true := by
    intro a b
    simp only [Bool.or_eq_true, decide_eq_true_eq]
    exact Nat.le_total a b
  have h := List.pairwise_mergeSort htrans htotal (addresses.flatMap (linesOf size line))
  exact h.imp (by simp)

/-- The cache line use of a wavefront's access. -/
def usage (addresses : List Nat) (size : Nat) (line : LineSize) : CacheUsage where
  needed := minimumNeeded addresses.length size line
  used := (touched addresses size line).length

/-- Whether a usage is one that comes from fusing narrow accesses into a wide one: the addresses are
those of the narrow accesses, which makes the wide access seem to touch one line too many. -/
def comesFromFusion (u : CacheUsage) (sizeCorrected : Bool) : Bool :=
  sizeCorrected && u.used == u.needed + 1

end CacheLine

end WaveAccess
