import Mathlib.Algebra.Order.BigOperators.Group.List
import Mathlib.Algebra.Order.Group.Nat
import WaveAccess.Proofs.Bank.Requests

/-!
# Bounds on conflicts

What the words that the lanes of a group access say about the group's conflicts. There are none if
no bank has to serve two of the words, there are most if one bank has to serve them all, and further
accesses take none away.
-/

namespace WaveAccess

namespace Bank

/-- The distinct words that lanes of a group access. -/
def words (group : List Nat) (accesses : Finset LaneAddress) : Finset Nat :=
  (accesses.filter fun a => a.lane.toNat ∈ group).image fun a => a.address.toNat / 4

variable {group : List Nat} {accesses others : Finset LaneAddress} {word bank : Nat}

/-- The words of a group are those at the addresses of its lanes. -/
lemma mem_words : word ∈ words group accesses ↔
    ∃ a ∈ accesses, a.lane.toNat ∈ group ∧ a.address.toNat / 4 = word := by
  simp only [words, Finset.mem_image, Finset.mem_filter, and_assoc]

/-- A bank is asked for those words of a group that it serves. -/
lemma mem_demand : word ∈ demand group accesses bank ↔
    word ∈ words group accesses ∧ word % 32 = bank :=
  Finset.mem_filter

/-- No bank is asked for more words than the busiest one. -/
lemma card_demand_le_peak (bank : Nat) (h : bank < 32) :
    (demand group accesses bank).card ≤ peak group accesses :=
  Finset.le_sup (f := fun bank => (demand group accesses bank).card) (Finset.mem_range.mpr h)

/-- There is a busiest bank. -/
lemma exists_card_demand_eq_peak (group : List Nat) (accesses : Finset LaneAddress) :
    ∃ bank < 32, (demand group accesses bank).card = peak group accesses := by
  obtain ⟨bank, hbank, hsup⟩ := Finset.exists_mem_eq_sup (Finset.range 32) ⟨0, by decide⟩
    fun bank => (demand group accesses bank).card
  exact ⟨bank, Finset.mem_range.mp hbank, hsup.symm⟩

/-- The busiest bank is asked for no more words than the group has. -/
lemma peak_le_card_words : peak group accesses ≤ (words group accesses).card := by
  obtain ⟨bank, -, hpeak⟩ := exists_card_demand_eq_peak group accesses
  rw [← hpeak]
  exact Finset.card_le_card (Finset.filter_subset _ _)

/-- Further accesses never leave the busiest bank with less to do. -/
lemma peak_mono (h : accesses ⊆ others) : peak group accesses ≤ peak group others := by
  apply Finset.sup_mono_fun
  intro bank _
  apply Finset.card_le_card
  intro word hword
  rw [mem_demand, mem_words] at hword ⊢
  obtain ⟨⟨a, ha, hlane, hword⟩, hbank⟩ := hword
  exact ⟨⟨a, h ha, hlane, hword⟩, hbank⟩

/-- No bank has two words to serve exactly if lanes of the group that come to one bank come for the
same word. -/
lemma peak_le_one_iff : peak group accesses ≤ 1 ↔
    ∀ a ∈ accesses, ∀ b ∈ accesses, a.lane.toNat ∈ group → b.lane.toNat ∈ group →
      a.address.toNat / 4 % 32 = b.address.toNat / 4 % 32 →
        a.address.toNat / 4 = b.address.toNat / 4 := by
  constructor
  · intro hpeak a ha b hb hla hlb hbank
    have hcard := (card_demand_le_peak (b.address.toNat / 4 % 32)
      (Nat.mod_lt _ (by decide))).trans hpeak
    apply Finset.card_le_one.mp hcard
    · exact mem_demand.mpr ⟨mem_words.mpr ⟨a, ha, hla, rfl⟩, hbank⟩
    · exact mem_demand.mpr ⟨mem_words.mpr ⟨b, hb, hlb, rfl⟩, rfl⟩
  · intro hsame
    obtain ⟨bank, -, hpeak⟩ := exists_card_demand_eq_peak group accesses
    rw [← hpeak]
    apply Finset.card_le_one.mpr
    intro v hv w hw
    obtain ⟨hv, hvbank⟩ := mem_demand.mp hv
    obtain ⟨hw, hwbank⟩ := mem_demand.mp hw
    obtain ⟨a, ha, hla, rfl⟩ := mem_words.mp hv
    obtain ⟨b, hb, hlb, rfl⟩ := mem_words.mp hw
    exact hsame a ha b hb hla hlb (hvbank.trans hwbank.symm)

/-- The busiest bank has all words to serve, but for a group that accesses none, exactly if the
lanes of the group all come to one bank. -/
lemma peak_sub_one_eq_iff : peak group accesses - 1 = (words group accesses).card - 1 ↔
    ∃ bank, ∀ a ∈ accesses, a.lane.toNat ∈ group → a.address.toNat / 4 % 32 = bank := by
  constructor
  · intro heq
    obtain ⟨bank, -, hpeak⟩ := exists_card_demand_eq_peak group accesses
    by_cases hle : (words group accesses).card ≤ (demand group accesses bank).card
    · -- the bank serves as many words as there are, so these are its words
      have hall := Finset.eq_of_subset_of_card_le (Finset.filter_subset _ _) hle
      refine ⟨bank, fun a ha hla => ?_⟩
      have hword := mem_words.mpr ⟨a, ha, hla, rfl⟩
      rw [← hall] at hword
      exact (mem_demand.mp hword).2
    · -- a single word is in a single bank
      have hone : (words group accesses).card = 1 := by omega
      obtain ⟨word, hword⟩ := Finset.card_eq_one.mp hone
      refine ⟨word % 32, fun a ha hla => ?_⟩
      have hmem := mem_words.mpr ⟨a, ha, hla, rfl⟩
      rw [hword, Finset.mem_singleton] at hmem
      rw [hmem]
  · rintro ⟨bank, hbank⟩
    have hle : peak group accesses ≤ (words group accesses).card := peak_le_card_words
    rcases (words group accesses).eq_empty_or_nonempty with hnone | ⟨word, hword⟩
    · rw [hnone, Finset.card_empty] at hle ⊢
      omega
    · have hin : ∀ w ∈ words group accesses, w % 32 = bank := by
        intro w hw
        obtain ⟨a, ha, hla, rfl⟩ := mem_words.mp hw
        exact hbank a ha hla
      have hall : demand group accesses bank = words group accesses := Finset.filter_true_of_mem hin
      have hlt : bank < 32 := hin word hword ▸ Nat.mod_lt _ (by decide)
      have hge : (demand group accesses bank).card ≤ peak group accesses :=
        card_demand_le_peak bank hlt
      rw [hall] at hge
      omega

end Bank

namespace LanePartition
open Bank

variable (p : LanePartition) {accesses others : Finset LaneAddress}

/-- The conflicts that there are at most, with the words that lanes of each group access. -/
def conflictBound (accesses : Finset LaneAddress) : Nat :=
  (p.groups.map fun group => (words group accesses).card - 1).sum

/-- There is no conflict exactly if no bank of any group is asked for two words. -/
lemma conflictsOf_eq_zero_iff : p.conflictsOf accesses = 0 ↔
    ∀ group ∈ p.groups, peak group accesses ≤ 1 := by
  rw [conflictsOf, List.sum_eq_zero_iff]
  simp only [List.mem_map, forall_exists_index, and_imp, forall_apply_eq_imp_iff₂,
    Nat.sub_eq_zero_iff_le]

/-- Each group has at most one conflict less than it has words. -/
lemma conflictsOf_le_conflictBound : p.conflictsOf accesses ≤ p.conflictBound accesses := by
  apply List.sum_le_sum
  intro group _
  exact Nat.sub_le_sub_right peak_le_card_words 1

/-- The bound is reached if every group reaches its own. -/
lemma conflictsOf_eq_conflictBound_iff : p.conflictsOf accesses = p.conflictBound accesses ↔
    ∀ group ∈ p.groups, peak group accesses - 1 = (words group accesses).card - 1 := by
  have hle : ∀ group ∈ p.groups, peak group accesses - 1 ≤ (words group accesses).card - 1 :=
    fun group _ => Nat.sub_le_sub_right peak_le_card_words 1
  constructor
  · intro heq group hg
    by_contra hne
    -- one group below its bound keeps the sum below the bound
    have hlt : p.conflictsOf accesses < p.conflictBound accesses :=
      List.sum_lt_sum _ _ hle ⟨group, hg, lt_of_le_of_ne (hle group hg) hne⟩
    exact absurd heq (Nat.ne_of_lt hlt)
  · intro heq
    rw [conflictsOf, conflictBound, List.map_congr_left heq]

/-- Further accesses never take a conflict away. -/
lemma conflictsOf_mono (h : accesses ⊆ others) :
    p.conflictsOf accesses ≤ p.conflictsOf others := by
  apply List.sum_le_sum
  intro group _
  exact Nat.sub_le_sub_right (peak_mono h) 1

end LanePartition

namespace BankTables
open Bank LanePartition

/-- After any requests, an aligned access of a supported size has no conflict exactly if no two
lanes of a group access different words of one bank, it has at most as many as each group accesses
words after its first, with equality exactly if the words of every group are in one bank, and it has
none the less with further aligned accesses. -/
theorem conflicts_by_words {requests : List Request}
    {answers : List (Except UnsupportedSize Nat)} {t : BankTables}
    (answered : hardware.answerAll requests = .ok (answers, t)) {size : UInt16}
    (supported : t.supports size = true) {accesses : List LaneAddress}
    (aligned : ∀ a ∈ accesses, size.toNat ∣ a.address.toNat) :
    ∃ p ∈ LanePartition.hardware, p.size = size ∧
      ∃ count, t.countConflicts size accesses = .ok count ∧
        (count.conflicts = 0 ↔ ∀ group ∈ p.groups, ∀ a ∈ accesses, ∀ b ∈ accesses,
          a.lane.toNat ∈ group → b.lane.toNat ∈ group →
            a.address.toNat / 4 % 32 = b.address.toNat / 4 % 32 →
              a.address.toNat / 4 = b.address.toNat / 4) ∧
        count.conflicts ≤ p.conflictBound accesses.toFinset ∧
        (count.conflicts = p.conflictBound accesses.toFinset ↔
          ∀ group ∈ p.groups, ∃ bank, ∀ a ∈ accesses, a.lane.toNat ∈ group →
            a.address.toNat / 4 % 32 = bank) ∧
        ∀ others : List LaneAddress, accesses ⊆ others →
          (∀ a ∈ others, size.toNat ∣ a.address.toNat) →
            ∃ more, t.countConflicts size others = .ok more ∧
              count.conflicts ≤ more.conflicts := by
  have ht : t = hardware := answerAll_ok (fun _ => isAccepted_of_mem_hardware) answered
  subst ht
  obtain ⟨p, hmem, hsize, hcount⟩ := countConflicts_hardware supported
  refine ⟨p, hmem, hsize, _, hcount accesses aligned, ?_, conflictsOf_le_conflictBound p, ?_, ?_⟩
  · simp only [conflictsOf_eq_zero_iff, peak_le_one_iff, List.mem_toFinset]
  · simp only [conflictsOf_eq_conflictBound_iff, peak_sub_one_eq_iff, List.mem_toFinset]
  · intro others hsubset hothers
    refine ⟨_, hcount others hothers, conflictsOf_mono p fun a ha => ?_⟩
    exact List.mem_toFinset.mpr (hsubset (List.mem_toFinset.mp ha))

/-- Lanes 0 and 1 want two words of bank 0. Lane 3 takes its word from another bank, which keeps the
conflicts below their bound, and lane 33 is in another half. With lane 2, bank 0 has three words. -/
theorem conflicts_by_words_of_four_lanes :
    let accesses : List LaneAddress := [⟨0, 0⟩, ⟨1, 128⟩, ⟨3, 4⟩, ⟨33, 256⟩]
    ∃ (t : BankTables) (p : LanePartition) (count more : ConflictCount),
      hardware.answerAll [⟨8, [⟨0, 0⟩, ⟨1, 256⟩]⟩] = .ok ([.ok 1], t) ∧
        t.supports 4 = true ∧ (∀ a ∈ accesses, (4 : UInt16).toNat ∣ a.address.toNat) ∧
        p ∈ LanePartition.hardware ∧ p.size = 4 ∧
        t.countConflicts 4 accesses = .ok count ∧ count.conflicts = 1 ∧
        p.conflictBound accesses.toFinset = 2 ∧
        t.countConflicts 4 (⟨2, 256⟩ :: accesses) = .ok more ∧ more.conflicts = 2 := by
  intro accesses
  have answered : hardware.answerAll [⟨8, [⟨0, 0⟩, ⟨1, 256⟩]⟩] = .ok ([.ok 1], hardware) := by rfl
  have supported : hardware.supports 4 = true := by decide
  have aligned : ∀ a ∈ accesses, (4 : UInt16).toNat ∣ a.address.toNat := by decide
  obtain ⟨p, hmem, hsize, count, hcount, -, -, -, hmono⟩ :=
    conflicts_by_words answered supported aligned
  obtain ⟨more, hmore, -⟩ :=
    hmono (⟨2, 256⟩ :: accesses) (List.subset_cons_self _ _) (by decide)
  have hone : hardware.countConflicts 4 accesses = .ok ⟨1, [], hardware⟩ := by rfl
  have htwo : hardware.countConflicts 4 (⟨2, 256⟩ :: accesses) = .ok ⟨2, [], hardware⟩ := by rfl
  rw [hone] at hcount
  rw [htwo] at hmore
  cases hcount
  cases hmore
  have hbound : ∀ p ∈ LanePartition.hardware, p.size = 4 →
      p.conflictBound accesses.toFinset = 2 := by decide
  exact ⟨hardware, p, _, _, answered, supported, aligned, hmem, hsize, hone, rfl,
    hbound p hmem hsize, htwo, rfl⟩

end BankTables

end WaveAccess
