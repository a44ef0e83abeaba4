import WaveAccess.Proofs.Bank.Requests

/-!
# Accesses at an offset

An offset of whole words that is added to all addresses of an access moves every word to another
bank, and all words of a bank to the same one. The banks trade places and none becomes busier than
the busiest was, so the conflicts depend on how the lanes' addresses lie to each other and not on
where in the local data share the data begins.
-/

namespace WaveAccess

/-- The access of a lane to an address that lies behind its own by an offset. -/
def LaneAddress.movedBy (offset : Nat) (a : LaneAddress) : LaneAddress :=
  { a with address := .ofNat (a.address.toNat + offset) }

/-- Addresses do not run past the last one if they are moved. -/
lemma LaneAddress.toNat_address_movedBy {offset : Nat} {a : LaneAddress}
    (h : a.address.toNat + offset < 2 ^ 64) :
    (a.movedBy offset).address.toNat = a.address.toNat + offset :=
  UInt64.toNat_ofNat_of_lt' h

namespace Bank

variable {group : List Nat} {accesses : Finset LaneAddress} {offset : Nat}

/-- The banks trade places if all of them move on by some words. -/
lemma image_rotate_range (words : Nat) :
    (Finset.range 32).image (fun bank => (bank + words) % 32) = Finset.range 32 := by
  ext bank
  simp only [Finset.mem_image, Finset.mem_range]
  constructor
  · rintro ⟨from', -, rfl⟩
    exact Nat.mod_lt _ (by decide)
  · intro hbank
    exact ⟨(bank + (32 - words % 32)) % 32, Nat.mod_lt _ (by decide), by omega⟩

/-- A group wants the same words from a bank as before from the bank that has moved there, each at
the offset. -/
lemma demand_movedBy (hwords : 4 ∣ offset)
    (hfits : ∀ a ∈ accesses, a.address.toNat + offset < 2 ^ 64) {bank : Nat} (hbank : bank < 32) :
    demand group (accesses.image (.movedBy offset)) ((bank + offset / 4) % 32) =
      (demand group accesses bank).image (· + offset / 4) := by
  obtain ⟨words, rfl⟩ := hwords
  ext word
  simp only [demand, Finset.mem_filter, Finset.mem_image]
  constructor
  · rintro ⟨⟨_, ⟨⟨a, ha, rfl⟩, hlane⟩, rfl⟩, hword⟩
    rw [LaneAddress.toNat_address_movedBy (hfits a ha)] at hword ⊢
    exact ⟨a.address.toNat / 4, ⟨⟨a, ⟨ha, hlane⟩, rfl⟩, by omega⟩, by omega⟩
  · rintro ⟨_, ⟨⟨a, ⟨ha, hlane⟩, rfl⟩, hword⟩, rfl⟩
    refine ⟨⟨a.movedBy (4 * words), ⟨⟨a, ha, rfl⟩, hlane⟩, ?_⟩, by omega⟩
    rw [LaneAddress.toNat_address_movedBy (hfits a ha)]
    omega

/-- The busiest bank has as many words to serve at an offset as without it. -/
lemma peak_movedBy (hwords : 4 ∣ offset)
    (hfits : ∀ a ∈ accesses, a.address.toNat + offset < 2 ^ 64) :
    peak group (accesses.image (.movedBy offset)) = peak group accesses := by
  rw [peak, ← image_rotate_range (offset / 4), Finset.sup_image]
  apply Finset.sup_congr rfl
  intro bank hbank
  rw [Function.comp_apply, demand_movedBy hwords hfits (Finset.mem_range.mp hbank)]
  exact Finset.card_image_of_injective _ (add_left_injective _)

end Bank

namespace LanePartition
open Bank

/-- The groups have the same conflicts at an offset. -/
lemma conflictsOf_movedBy (p : LanePartition) {accesses : Finset LaneAddress} {offset : Nat}
    (hwords : 4 ∣ offset) (hfits : ∀ a ∈ accesses, a.address.toNat + offset < 2 ^ 64) :
    p.conflictsOf (accesses.image (.movedBy offset)) = p.conflictsOf accesses := by
  rw [conflictsOf, conflictsOf]
  congr 1
  apply List.map_congr_left
  intro group _
  rw [peak_movedBy hwords hfits]

end LanePartition

namespace BankTables
open LanePartition

/-- Moving all addresses leaves the same lanes outside all groups. -/
lemma lanesOutside_movedBy (groups : List (List Nat)) (offset : Nat)
    (accesses : List LaneAddress) :
    lanesOutside groups (accesses.map (.movedBy offset)) = lanesOutside groups accesses := by
  rw [lanesOutside, lanesOutside, List.map_map]
  rfl

/-- After any requests, an aligned access of a supported size is answered at an offset as it is
answered itself: what its lanes have in conflict does not depend on where the data lies. -/
theorem countConflicts_at_offset {requests : List Request}
    {answers : List (Except UnsupportedSize Nat)} {t : BankTables}
    (answered : hardware.answerAll requests = .ok (answers, t)) {size : UInt16}
    (supported : t.supports size = true) {accesses : List LaneAddress}
    (aligned : ∀ a ∈ accesses, size.toNat ∣ a.address.toNat) {offset : Nat}
    (wholeWords : 4 ∣ offset) (keepsAligned : size.toNat ∣ offset)
    (fits : ∀ a ∈ accesses, a.address.toNat + offset < 2 ^ 64) :
    ∃ count, t.countConflicts size accesses = .ok count ∧
      t.countConflicts size (accesses.map (.movedBy offset)) = .ok count := by
  have ht : t = hardware := answerAll_ok (fun _ => isAccepted_of_mem_hardware) answered
  subst ht
  obtain ⟨p, -, -, hcount⟩ := countConflicts_hardware supported
  have hmoved : ∀ a ∈ accesses.map (LaneAddress.movedBy offset),
      size.toNat ∣ a.address.toNat := by
    intro _ hm
    obtain ⟨a, ha, rfl⟩ := List.mem_map.mp hm
    rw [LaneAddress.toNat_address_movedBy (fits a ha)]
    exact Nat.dvd_add (aligned a ha) keepsAligned
  have hpairs : (accesses.map (LaneAddress.movedBy offset)).toFinset =
      accesses.toFinset.image (.movedBy offset) := by
    ext a
    simp
  have hfits : ∀ a ∈ accesses.toFinset, a.address.toNat + offset < 2 ^ 64 := by
    intro a ha
    exact fits a (List.mem_toFinset.mp ha)
  refine ⟨_, hcount accesses aligned, ?_⟩
  rw [hcount _ hmoved, hpairs, conflictsOf_movedBy p wholeWords hfits, lanesOutside_movedBy]

/-- Lanes 0 and 1 want two words from one bank. So they do six banks further on, where lane 20 reads
the last eight bytes there are, after another access has been counted and one was turned away. -/
theorem countConflicts_at_offset_of_six_words :
    let accesses : List LaneAddress := [⟨1, 128⟩, ⟨0, 0⟩, ⟨20, 0xffffffffffffffe0⟩, ⟨70, 8⟩]
    ∃ (t : BankTables) (count : ConflictCount),
      hardware.answerAll [⟨4, [⟨2, 256⟩, ⟨3, 384⟩]⟩, ⟨12, [⟨0, 5⟩]⟩] =
          .ok ([.ok 1, .error ⟨12⟩], t) ∧
        t.supports 8 = true ∧ (∀ a ∈ accesses, (8 : UInt16).toNat ∣ a.address.toNat) ∧
        (∀ a ∈ accesses, a.address.toNat + 24 < 2 ^ 64) ∧ count.conflicts = 1 ∧
        t.countConflicts 8 (accesses.map (.movedBy 24)) = .ok count := by
  intro accesses
  have answered : hardware.answerAll [⟨4, [⟨2, 256⟩, ⟨3, 384⟩]⟩, ⟨12, [⟨0, 5⟩]⟩] =
      .ok ([.ok 1, .error ⟨12⟩], hardware) := by rfl
  have supported : hardware.supports 8 = true := by decide
  have aligned : ∀ a ∈ accesses, (8 : UInt16).toNat ∣ a.address.toNat := by decide
  have fits : ∀ a ∈ accesses, a.address.toNat + 24 < 2 ^ 64 := by decide
  obtain ⟨count, hcount, hmoved⟩ :=
    countConflicts_at_offset answered supported aligned (by decide) (by decide) fits
  have hone : hardware.countConflicts 8 accesses = .ok ⟨1, [70], hardware⟩ := by rfl
  rw [hone] at hcount
  cases hcount
  exact ⟨hardware, _, answered, supported, aligned, fits, rfl, hmoved⟩

end BankTables

end WaveAccess
