import WaveAccess.Proofs.Bank.Requests

/-!
# Every word of an access

Tables register the first word of an access only, although an access of eight or sixteen bytes wants
two or four words from as many banks. This loses no conflict: an aligned access of such a size
starts at a multiple of its number of words, so what it wants from the banks after its first one
is a shifted copy of what it wants from the first, and no bank is busier than those.
-/

namespace WaveAccess

namespace Bank

/-! ## Words of an access -/

/-- The words that the bytes of an access lie in. -/
def wordsOf (size address : Nat) : Finset Nat :=
  (Finset.range size).image fun i => (address + i) / 4

/-- The distinct words that lanes of a group want from a bank, with whichever of their bytes. -/
def fullDemand (size : Nat) (group : List Nat) (accesses : Finset LaneAddress) (bank : Nat) :
    Finset Nat :=
  ((accesses.filter fun a => a.lane.toNat ∈ group).biUnion fun a =>
    wordsOf size a.address.toNat).filter fun word => word % 32 = bank

/-- The number of words that the busiest bank has to serve if every word is registered. -/
def fullPeak (size : Nat) (group : List Nat) (accesses : Finset LaneAddress) : Nat :=
  (Finset.range 32).sup fun bank => (fullDemand size group accesses bank).card

/-- The number of words that an aligned access of a size overlaps. -/
def wordSpan (size : Nat) : Nat :=
  (size + 3) / 4

variable {size bank : Nat} {group : List Nat} {accesses : Finset LaneAddress}

/-- The words of an aligned access are those that are rounded down to its first word. -/
lemma mem_wordsOf_iff (hsize : size ∈ [1, 2, 4, 8, 16]) {address word : Nat}
    (haligned : size ∣ address) :
    word ∈ wordsOf size address ↔ word - word % wordSpan size = address / 4 := by
  obtain ⟨n, rfl⟩ := haligned
  simp only [wordsOf, Finset.mem_image, Finset.mem_range]
  constructor
  · rintro ⟨i, hi, rfl⟩
    simp only [List.mem_cons, List.not_mem_nil, or_false] at hsize
    rcases hsize with rfl | rfl | rfl | rfl | rfl <;> simp only [wordSpan] <;> omega
  · intro hword
    -- the byte at which the word begins, or the first byte if the access begins behind it
    refine ⟨4 * word - size * n, ?_⟩
    simp only [List.mem_cons, List.not_mem_nil, or_false] at hsize
    rcases hsize with rfl | rfl | rfl | rfl | rfl <;> simp only [wordSpan] at hword <;> omega

/-- A bank is asked for the words in the spans of aligned accesses that it serves. -/
lemma mem_fullDemand (hsize : size ∈ [1, 2, 4, 8, 16])
    (haligned : ∀ a ∈ accesses, size ∣ a.address.toNat) {word : Nat} :
    word ∈ fullDemand size group accesses bank ↔
      (∃ a ∈ accesses, a.lane.toNat ∈ group ∧ word - word % wordSpan size = a.address.toNat / 4) ∧
        word % 32 = bank := by
  simp only [fullDemand, Finset.mem_filter, Finset.mem_biUnion, and_assoc]
  refine and_congr_left fun _ => exists_congr fun a => and_congr_right fun ha => ?_
  rw [mem_wordsOf_iff hsize (haligned a ha)]

/-! ## Shifted copies -/

/-- An access spans one, two or four words. -/
lemma wordSpan_cases (hsize : size ∈ [1, 2, 4, 8, 16]) :
    wordSpan size = 1 ∨ wordSpan size = 2 ∨ wordSpan size = 4 := by
  simp only [List.mem_cons, List.not_mem_nil, or_false] at hsize
  rcases hsize with rfl | rfl | rfl | rfl | rfl <;> decide

/-- An aligned access begins at a multiple of the words that it overlaps. -/
lemma wordSpan_dvd (hsize : size ∈ [1, 2, 4, 8, 16]) {address : Nat} (haligned : size ∣ address) :
    wordSpan size ∣ address / 4 := by
  obtain ⟨n, rfl⟩ := haligned
  simp only [List.mem_cons, List.not_mem_nil, or_false] at hsize
  rcases hsize with rfl | rfl | rfl | rfl | rfl <;> simp only [wordSpan] <;> omega

/-- What a group wants from a bank is a shifted copy of the first words that it wants from the bank
in which accesses that reach this one begin. -/
lemma fullDemand_eq_image (hsize : size ∈ [1, 2, 4, 8, 16])
    (haligned : ∀ a ∈ accesses, size ∣ a.address.toNat) (hbank : bank < 32) :
    fullDemand size group accesses bank =
      (demand group accesses (bank - bank % wordSpan size)).image
        (· + bank % wordSpan size) := by
  ext word
  rw [mem_fullDemand hsize haligned]
  simp only [demand, Finset.mem_image, Finset.mem_filter, and_assoc]
  constructor
  · rintro ⟨⟨a, ha, hlane, hfirst⟩, hword⟩
    refine ⟨word - word % wordSpan size, ⟨a, ha, hlane, hfirst.symm⟩, ?_, ?_⟩
    · rcases wordSpan_cases hsize with hspan | hspan | hspan <;> rw [hspan] <;> omega
    · rcases wordSpan_cases hsize with hspan | hspan | hspan <;> rw [hspan] <;> omega
  · rintro ⟨first, ⟨a, ha, hlane, rfl⟩, hfirst, rfl⟩
    have hdvd := wordSpan_dvd hsize (haligned a ha)
    refine ⟨⟨a, ha, hlane, ?_⟩, ?_⟩
    · rcases wordSpan_cases hsize with hspan | hspan | hspan <;> rw [hspan] at hdvd ⊢ <;> omega
    · rcases wordSpan_cases hsize with hspan | hspan | hspan <;> rw [hspan] at hfirst ⊢ <;> omega

/-- The first word of an access is one of all its words. -/
lemma demand_subset_fullDemand (hsize : 0 < size) :
    demand group accesses bank ⊆ fullDemand size group accesses bank := by
  intro word hword
  simp only [demand, Finset.mem_filter, Finset.mem_image] at hword
  obtain ⟨⟨a, ⟨ha, hlane⟩, hfirst⟩, hbank⟩ := hword
  simp only [fullDemand, wordsOf, Finset.mem_filter, Finset.mem_biUnion, Finset.mem_image,
    Finset.mem_range]
  exact ⟨⟨a, ⟨ha, hlane⟩, 0, hsize, hfirst⟩, hbank⟩

/-- The busiest bank has no more words to serve than it has first words. -/
lemma fullPeak_eq_peak (hsize : size ∈ [1, 2, 4, 8, 16])
    (haligned : ∀ a ∈ accesses, size ∣ a.address.toNat) :
    fullPeak size group accesses = peak group accesses := by
  apply le_antisymm
  · apply Finset.sup_le
    intro bank hbank
    have hbank' : bank < 32 := Finset.mem_range.mp hbank
    -- the bank in which the accesses begin has as many words
    have hbegin : bank - bank % wordSpan size ∈ Finset.range 32 := by
      rw [Finset.mem_range]
      omega
    calc (fullDemand size group accesses bank).card
        = (demand group accesses (bank - bank % wordSpan size)).card := by
          rw [fullDemand_eq_image hsize haligned hbank']
          exact Finset.card_image_of_injective _ (add_left_injective _)
      _ ≤ peak group accesses :=
          Finset.le_sup (f := fun bank => (demand group accesses bank).card) hbegin
  · have hpos : 0 < size := by
      apply Nat.pos_of_ne_zero
      rintro rfl
      revert hsize
      decide
    apply Finset.sup_mono_fun
    intro bank _
    exact Finset.card_le_card (demand_subset_fullDemand hpos)

/-- First words do not suffice for twelve bytes. These accesses begin in different banks, but both
want a word from bank 0. -/
example : peak [0, 1] {⟨0, 0⟩, ⟨1, 252⟩} = 1 ∧ fullPeak 12 [0, 1] {⟨0, 0⟩, ⟨1, 252⟩} = 2 := by
  decide

end Bank

namespace LanePartition
open Bank

/-- The conflicts of the accesses in a set if every word of them is registered. -/
def fullConflictsOf (p : LanePartition) (accesses : Finset LaneAddress) : Nat :=
  (p.groups.map fun group => fullPeak p.size.toNat group accesses - 1).sum

/-- Registering the first words alone loses no conflict. -/
lemma fullConflictsOf_eq {p : LanePartition} (hsize : p.size.toNat ∈ [1, 2, 4, 8, 16])
    {accesses : Finset LaneAddress} (haligned : ∀ a ∈ accesses, p.size.toNat ∣ a.address.toNat) :
    p.fullConflictsOf accesses = p.conflictsOf accesses := by
  rw [fullConflictsOf, conflictsOf]
  congr 1
  apply List.map_congr_left
  intro group _
  rw [fullPeak_eq_peak hsize haligned]

end LanePartition

namespace BankTables
open LanePartition

/-- The conflicts that the tables of the hardware count for an aligned access of a supported size,
of which they register the first words, are those of the hardware, in which every word that a lane
accesses with one of its bytes has to be served by its bank. -/
theorem countConflicts_of_every_word {size : UInt16} (supported : hardware.supports size = true)
    {accesses : List LaneAddress} (aligned : ∀ a ∈ accesses, size.toNat ∣ a.address.toNat) :
    ∃ p ∈ LanePartition.hardware, p.size = size ∧ ∃ uncovered,
      hardware.countConflicts size accesses =
        .ok ⟨p.fullConflictsOf accesses.toFinset, uncovered, hardware⟩ := by
  rw [supports, hardware, tables?_ofPartitions, Option.isSome_map] at supported
  have hsize : size ∈ [1, 2, 4, 8, 16] := isSome_lastOf?_hardware.mp supported
  obtain ⟨p, hp⟩ := Option.isSome_iff_exists.mp supported
  obtain ⟨hmem, rfl⟩ := mem_of_lastOf? hp
  have hstands : ∀ a ∈ accesses, breakdown? p.size a = none := by
    intro a ha
    refine (breakdown?_eq_none_iff ?_).mpr (aligned a ha)
    intro hzero
    rw [hzero] at hsize
    revert hsize
    decide
  obtain ⟨uncovered, hcount⟩ :=
    countConflicts_of_lastOf? (fun _ => isAccepted_of_mem_hardware) hp hstands
  have hfull : p.fullConflictsOf accesses.toFinset = p.conflictsOf accesses.toFinset := by
    apply fullConflictsOf_eq
    · exact List.mem_map_of_mem (f := UInt16.toNat) hsize
    · intro a ha
      exact aligned a (List.mem_toFinset.mp ha)
  refine ⟨p, hmem, rfl, uncovered, ?_⟩
  rw [hfull]
  exact hcount

/-- Lane 1 wants four other words than lane 0 from the same banks. Lane 21 is served with them by
other banks, and lane 5, which reads up to the last address, is served in another group. -/
theorem countConflicts_of_every_word_of_sixteen_bytes :
    let accesses : List LaneAddress := [⟨0, 0⟩, ⟨1, 512⟩, ⟨21, 16⟩, ⟨5, 0xfffffffffffffff0⟩]
    hardware.supports 16 = true ∧ (∀ a ∈ accesses, (16 : UInt16).toNat ∣ a.address.toNat) ∧
      ∃ p ∈ LanePartition.hardware, p.size = 16 ∧ p.fullConflictsOf accesses.toFinset = 1 := by
  intro accesses
  have supported : hardware.supports 16 = true := by decide
  have aligned : ∀ a ∈ accesses, (16 : UInt16).toNat ∣ a.address.toNat := by decide
  obtain ⟨p, hmem, hsize, uncovered, hcount⟩ := countConflicts_of_every_word supported aligned
  have hone : hardware.countConflicts 16 accesses = .ok ⟨1, [], hardware⟩ := by rfl
  rw [hone] at hcount
  simp only [Except.ok.injEq, ConflictCount.mk.injEq] at hcount
  exact ⟨supported, aligned, p, hmem, hsize, hcount.1.symm⟩

end BankTables

end WaveAccess
