import Mathlib.Algebra.GroupWithZero.Nat
import WaveAccess.Proofs.Bank.Registration

/-!
# Demand on banks

The conflicts of a wavefront's access, counted from the set of its lane and address pairs alone: a
bank has to serve the distinct words that lanes of one group want from it, and every word of the
busiest bank after the first is a conflict. Neither the order of the lanes nor a repeated pair can
matter to such a count, and lanes beyond the wavefront belong to no group.
-/

namespace WaveAccess

namespace Bank

/-- The distinct words that lanes of a group want from a bank. -/
def demand (group : List Nat) (accesses : Finset LaneAddress) (bank : Nat) : Finset Nat :=
  ((accesses.filter fun a => a.lane.toNat ∈ group).image fun a => a.address.toNat / 4).filter
    fun word => word % 32 = bank

/-- The number of words that the busiest bank has to serve. -/
def peak (group : List Nat) (accesses : Finset LaneAddress) : Nat :=
  (Finset.range 32).sup fun bank => (demand group accesses bank).card

/-- The demand of a group does not see the lanes outside of it. -/
lemma demand_congr {group : List Nat} {accesses others : Finset LaneAddress}
    (h : ∀ a, a.lane.toNat ∈ group → (a ∈ accesses ↔ a ∈ others)) (bank : Nat) :
    demand group accesses bank = demand group others bank := by
  have hfilter : (accesses.filter fun a => a.lane.toNat ∈ group) =
      others.filter fun a => a.lane.toNat ∈ group := by
    ext a
    rw [Finset.mem_filter, Finset.mem_filter]
    constructor
    · rintro ⟨hm, hl⟩
      exact ⟨(h a hl).mp hm, hl⟩
    · rintro ⟨hm, hl⟩
      exact ⟨(h a hl).mpr hm, hl⟩
  rw [demand, demand, hfilter]

end Bank

namespace BankTable
open Bank

/-- What a table has absorbed for a bank is what its group demands of it. -/
lemma filter_words_absorb (group : List Nat) (accesses : List LaneAddress) (bank : Nat) :
    (((ofLanes group).absorb accesses).words.toFinset.filter fun w => ofWord w = bank) =
      demand group accesses.toFinset bank := by
  ext w
  simp only [demand, Finset.mem_filter, List.mem_toFinset, mem_words_absorb, Finset.mem_image,
    and_assoc]
  constructor
  · rintro ⟨hw | ⟨a, ha, hl, rfl⟩, hb⟩
    · cases hw
    · exact ⟨⟨a, ha, hl, rfl⟩, hb⟩
  · rintro ⟨⟨a, ha, hl, rfl⟩, hb⟩
    exact ⟨.inr ⟨a, ha, hl, rfl⟩, hb⟩

/-- The conflicts of an empty table that absorbs accesses. -/
lemma conflicts_absorb (group : List Nat) (accesses : List LaneAddress) :
    ((ofLanes group).absorb accesses).conflicts = peak group accesses.toFinset - 1 := by
  have hnodup : ((ofLanes group).absorb accesses).words.Nodup :=
    nodup_words_absorb List.nodup_nil accesses
  have hload : ((ofLanes group).absorb accesses).bankLoad =
      fun bank => (demand group accesses.toFinset bank).card := by
    funext bank
    rw [bankLoad_eq_card hnodup, filter_words_absorb]
  rw [conflicts, maxLoad_eq_sup, hload]
  rfl

end BankTable

namespace LanePartition
open Bank

/-- The conflicts of the accesses in a set, summed over the groups of lanes. -/
def conflictsOf (p : LanePartition) (accesses : Finset LaneAddress) : Nat :=
  (p.groups.map fun group => peak group accesses - 1).sum

/-- Lanes beyond the wavefront have no part in the conflicts of an accepted partition. -/
lemma IsAccepted.conflictsOf_congr {p : LanePartition} (hp : p.IsAccepted)
    {accesses others : Finset LaneAddress}
    (h : ∀ a : LaneAddress, a.lane.toNat < waveLanes → (a ∈ accesses ↔ a ∈ others)) :
    p.conflictsOf accesses = p.conflictsOf others := by
  rw [conflictsOf, conflictsOf]
  congr 1
  apply List.map_congr_left
  intro group hg
  have hdemand : demand group accesses = demand group others :=
    funext (demand_congr fun a hl => h a (hp.lane_lt hg hl))
  rw [peak, peak, hdemand]

end LanePartition

end WaveAccess
