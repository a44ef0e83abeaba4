import Mathlib.Tactic.Lemma
import WaveAccess.Bank.Partition

/-!
# Accepted partitions

A partition that was built from ranges without a fault has every lane of the wavefront in exactly
one group and no other lane in any. The partitions of the hardware are accepted.
-/

namespace WaveAccess.LanePartition

/-- A partition that is built from ranges without a fault. -/
def IsAccepted (p : LanePartition) : Prop :=
  ∃ groups, ofRanges p.size groups = .ok p

/-- No lane is in two of the groups. -/
def Separate (groups : List (List Nat)) : Prop :=
  ∀ lane, groups.countP (·.contains lane) ≤ 1

/-- A lane is no reason for a refusal exactly if one group has it. -/
lemma laneFault?_eq_none_iff {size : UInt16} {groups : List (List Nat)} {lane : Nat} :
    laneFault? size groups lane = none ↔ groups.countP (·.contains lane) = 1 := by
  unfold laneFault?
  split
  · next h =>
    refine ⟨nofun, fun hone => ?_⟩
    rw [h] at hone
    cases hone
  · next h => exact ⟨fun _ => h, fun _ => rfl⟩
  · next _ h => exact ⟨nofun, fun hone => absurd hone h⟩

/-- What the groups of ranges without a fault are. -/
lemma ofRanges_ok {size : UInt16} {ranges : List (List LaneRange)} {p : LanePartition}
    (h : ofRanges size ranges = .ok p) :
    p.groups = ranges.map lanesOf ∧
      ∀ lane < waveLanes, p.groups.countP (·.contains lane) = 1 := by
  unfold ofRanges at h
  split at h
  · cases h
  · dsimp only at h
    split at h
    · cases h
    · next hfault =>
      cases h
      refine ⟨rfl, ?_⟩
      intro lane hlane
      have hnone := List.findSome?_eq_none_iff.mp hfault lane (List.mem_range.mpr hlane)
      exact laneFault?_eq_none_iff.mp hnone

/-- The groups of an accepted partition have no lanes beyond the wavefront. -/
lemma IsAccepted.lane_lt {p : LanePartition} (hp : p.IsAccepted) {group : List Nat}
    (hg : group ∈ p.groups) {lane : Nat} (hl : lane ∈ group) : lane < waveLanes := by
  obtain ⟨ranges, h⟩ := hp
  rw [(ofRanges_ok h).1] at hg
  obtain ⟨r, _, rfl⟩ := List.mem_map.mp hg
  exact (mem_lanesOf.mp hl).1

/-- Two groups of an accepted partition have no lane in common. -/
lemma IsAccepted.separate {p : LanePartition} (hp : p.IsAccepted) : Separate p.groups := by
  intro lane
  by_cases hlane : lane < waveLanes
  · obtain ⟨ranges, h⟩ := hp
    exact Nat.le_of_eq ((ofRanges_ok h).2 lane hlane)
  · have hnone : p.groups.countP (·.contains lane) = 0 := by
      apply List.countP_eq_zero.mpr
      intro group hg hc
      exact hlane (hp.lane_lt hg (List.contains_iff_mem.mp hc))
    omega

/-- The partitions of the hardware are accepted as they are listed. -/
lemma ofRanges_hardwareRanges :
    ∀ r ∈ hardwareRanges, ofRanges r.1 r.2 = .ok ⟨r.1, r.2.map lanesOf⟩ := by
  simp only [hardwareRanges, List.forall_mem_cons]
  exact ⟨rfl, rfl, rfl, rfl, rfl, nofun⟩

/-- The partitions of the hardware are accepted. -/
lemma isAccepted_of_mem_hardware {p : LanePartition} (hp : p ∈ hardware) : p.IsAccepted := by
  obtain ⟨r, hmem, rfl⟩ := List.mem_map.mp hp
  exact ⟨r.2, ofRanges_hardwareRanges r hmem⟩

end WaveAccess.LanePartition
