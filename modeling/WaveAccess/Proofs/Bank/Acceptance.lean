import Mathlib.Logic.ExistsUnique
import Mathlib.Tactic.ByContra
import WaveAccess.Proofs.Bank.Partition

/-!
# Which groups of ranges are partitions

Groups of ranges are accepted exactly if every range is sound and every lane of the wavefront is in
exactly one group, where the ranges of one group may overlap. A refusal names the first range that
is not sound, in the order in which the groups list them, or else the lowest lane that is in no
group or in several.
-/

namespace WaveAccess

/-! ## Positions in lists -/

/-- A list has a member of a kind at a position. -/
def HasAt {α : Type} (p : α → Prop) (l : List α) (i : Nat) : Prop :=
  ∃ a, l[i]? = some a ∧ p a

section Positions

variable {α β : Type} {p : α → Prop} {l : List α}

/-- A predicate holds somewhere in a list exactly if it holds of one of its members. -/
lemma exists_hasAt_iff : (∃ i, HasAt p l i) ↔ ∃ a ∈ l, p a := by
  constructor
  · rintro ⟨i, a, hi, ha⟩
    exact ⟨a, List.mem_of_getElem? hi, ha⟩
  · rintro ⟨a, hmem, ha⟩
    obtain ⟨i, hi⟩ := List.mem_iff_getElem?.mp hmem
    exact ⟨i, a, hi, ha⟩

/-- At the first position, a predicate holds if it holds of the head. -/
lemma hasAt_cons_zero {a : α} : HasAt p (a :: l) 0 ↔ p a := by
  simp [HasAt]

/-- At any later position, a predicate holds if it does so in the tail. -/
lemma hasAt_cons_succ {a : α} {i : Nat} : HasAt p (a :: l) (i + 1) ↔ HasAt p l i := by
  simp [HasAt]

/-- More than one member is counted exactly if two positions have one. -/
lemma one_lt_countP_iff [DecidablePred p] :
    1 < l.countP (p ·) ↔ ∃ i j, i < j ∧ HasAt p l i ∧ HasAt p l j := by
  induction l with
  | nil => simp [HasAt]
  | cons a l ih =>
    by_cases ha : p a
    · have hpos : 1 < (a :: l).countP (p ·) ↔ ∃ j, HasAt p l j := by
        rw [List.countP_cons, if_pos (decide_eq_true ha), Nat.lt_add_left_iff_pos,
          List.countP_pos_iff, exists_hasAt_iff]
        simp only [decide_eq_true_eq]
      rw [hpos]
      constructor
      · rintro ⟨j, hj⟩
        exact ⟨0, j + 1, Nat.succ_pos j, hasAt_cons_zero.mpr ha, hasAt_cons_succ.mpr hj⟩
      · rintro ⟨i, j, hij, -, hj⟩
        cases j with
        | zero => cases hij
        | succ j => exact ⟨j, hasAt_cons_succ.mp hj⟩
    · rw [List.countP_cons, if_neg (by simpa using ha), Nat.add_zero, ih]
      constructor
      · rintro ⟨i, j, hij, hi, hj⟩
        exact ⟨i + 1, j + 1, Nat.succ_lt_succ hij, hasAt_cons_succ.mpr hi, hasAt_cons_succ.mpr hj⟩
      · rintro ⟨i, j, hij, hi, hj⟩
        cases j with
        | zero => cases hij
        | succ j =>
          cases i with
          | zero => exact absurd (hasAt_cons_zero.mp hi) ha
          | succ i =>
            exact ⟨i, j, Nat.lt_of_succ_lt_succ hij, hasAt_cons_succ.mp hi, hasAt_cons_succ.mp hj⟩

/-- One member counts exactly if there is one position at which the predicate holds. -/
lemma countP_eq_one_iff [DecidablePred p] : l.countP (p ·) = 1 ↔ ∃! i, HasAt p l i := by
  have hpos : 0 < l.countP (p ·) ↔ ∃ i, HasAt p l i := by
    rw [List.countP_pos_iff, exists_hasAt_iff]
    simp only [decide_eq_true_eq]
  constructor
  · intro hone
    obtain ⟨i, hi⟩ := hpos.mp (hone ▸ Nat.one_pos)
    refine ⟨i, hi, ?_⟩
    intro j hj
    by_contra hne
    -- two positions with a member would count for two
    have htwo : 1 < l.countP (p ·) := by
      rcases Nat.lt_or_gt_of_ne hne with hlt | hlt
      · exact one_lt_countP_iff.mpr ⟨j, i, hlt, hj, hi⟩
      · exact one_lt_countP_iff.mpr ⟨i, j, hlt, hi, hj⟩
    omega
  · rintro ⟨i, hi, hunique⟩
    have hfirst := hpos.mpr ⟨i, hi⟩
    have hsecond : ¬1 < l.countP (p ·) := by
      intro htwo
      obtain ⟨j, k, hjk, hj, hk⟩ := one_lt_countP_iff.mp htwo
      rw [hunique j hj, hunique k hk] at hjk
      exact Nat.lt_irrefl i hjk
    omega

/-- The first answer on an initial stretch of numbers is that of the lowest number with one. -/
lemma findSome?_range_eq_some_iff {f : Nat → Option β} {n : Nat} {b : β} :
    (List.range n).findSome? f = some b ↔ ∃ a < n, f a = some b ∧ ∀ j < a, f j = none := by
  induction n with
  | zero => simp
  | succ n ih =>
    rw [List.range_succ, List.findSome?_append, Option.or_eq_some_iff, ih]
    constructor
    · rintro (⟨a, ha, hb⟩ | ⟨hnone, hlast⟩)
      · exact ⟨a, Nat.lt_succ_of_lt ha, hb⟩
      · have hlower := List.findSome?_eq_none_iff.mp hnone
        refine ⟨n, Nat.lt_succ_self n, by simpa using hlast, ?_⟩
        intro j hj
        exact hlower j (List.mem_range.mpr hj)
    · rintro ⟨a, ha, hb, hlower⟩
      rcases Nat.lt_succ_iff_lt_or_eq.mp ha with hlt | rfl
      · exact .inl ⟨a, hlt, hb, hlower⟩
      · refine .inr ⟨?_, by simpa using hb⟩
        rw [List.findSome?_eq_none_iff]
        intro j hj
        exact hlower j (List.mem_range.mp hj)

end Positions

namespace LanePartition

/-! ## Faults -/

/-- A range holds a lane, and no lanes beyond the wavefront. -/
def IsSound (r : LaneRange) : Prop :=
  r.start < r.stop ∧ r.stop ≤ waveLanes

/-- A range of the group holds the lane. -/
def IsIn (lane : Nat) (group : List LaneRange) : Prop :=
  ∃ r ∈ group, r.start ≤ lane ∧ lane < r.stop

/-- Why groups of ranges are refused. -/
inductive IsRefusedFor (size : UInt16) (groups : List (List LaneRange)) :
    PartitionFault → Prop where
  | emptyRange {before r after} : groups.flatten = before ++ r :: after →
    (∀ earlier ∈ before, IsSound earlier) → r.stop ≤ r.start →
    IsRefusedFor size groups (.emptyRange size r.start r.stop)
  | laneOutOfRange {before r after} : groups.flatten = before ++ r :: after →
    (∀ earlier ∈ before, IsSound earlier) → r.start < r.stop → waveLanes < r.stop →
    IsRefusedFor size groups (.laneOutOfRange size (r.stop - 1))
  | gap {lane} : (∀ r ∈ groups.flatten, IsSound r) → lane < waveLanes →
    (∀ lower < lane, ∃! i, HasAt (IsIn lower) groups i) → (∀ i, ¬HasAt (IsIn lane) groups i) →
    IsRefusedFor size groups (.gap size lane)
  | overlap {lane i j} : (∀ r ∈ groups.flatten, IsSound r) → lane < waveLanes →
    (∀ lower < lane, ∃! i, HasAt (IsIn lower) groups i) → i < j → HasAt (IsIn lane) groups i →
    HasAt (IsIn lane) groups j → IsRefusedFor size groups (.overlap size lane)

variable {size : UInt16} {groups : List (List LaneRange)} {lane : Nat} {fault : PartitionFault}

/-- A range is sound exactly if it is refused for nothing. -/
lemma isSound_iff (size : UInt16) {r : LaneRange} : IsSound r ↔ rangeFault? size r = none := by
  unfold rangeFault?
  split
  · next h => exact iff_of_false (fun hr => Nat.not_lt.mpr h hr.1) nofun
  · next hstart =>
    split
    · next h => exact iff_of_false (fun hr => Nat.not_lt.mpr hr.2 h) nofun
    · next hstop => exact iff_of_true ⟨Nat.not_le.mp hstart, Nat.not_lt.mp hstop⟩ rfl

/-- A range is refused for being empty or, if it is not, for going beyond the last lane. -/
lemma rangeFault?_eq_some_iff {r : LaneRange} :
    rangeFault? size r = some fault ↔
      fault = .emptyRange size r.start r.stop ∧ r.stop ≤ r.start ∨
        fault = .laneOutOfRange size (r.stop - 1) ∧ r.start < r.stop ∧ waveLanes < r.stop := by
  unfold rangeFault?
  split
  · next h => simp [h, Nat.not_lt.mpr h, eq_comm]
  · next hstart =>
    have hlt : r.start < r.stop := Nat.not_le.mp hstart
    split
    · next h => simp [hstart, hlt, h, eq_comm]
    · next h => simp [hstart, h]

/-- A group has the lanes of the wavefront that lie in one of its ranges. -/
lemma contains_lanesOf (hlane : lane < waveLanes) (group : List LaneRange) :
    (lanesOf group).contains lane = true ↔ IsIn lane group := by
  rw [List.contains_iff_mem, mem_lanesOf, and_iff_right hlane]
  simp [LaneRange.holds, IsIn]

instance (lane : Nat) : DecidablePred (IsIn lane) :=
  fun group => inferInstanceAs (Decidable (∃ r ∈ group, r.start ≤ lane ∧ lane < r.stop))

/-- As many groups have a lane as there are groups with a range that it lies in. -/
lemma countP_contains (hlane : lane < waveLanes) (groups : List (List LaneRange)) :
    (groups.map lanesOf).countP (·.contains lane) = groups.countP (IsIn lane ·) := by
  rw [List.countP_map]
  apply List.countP_congr
  intro group _
  rw [Function.comp_apply, contains_lanesOf hlane, decide_eq_true_eq]

/-- A lane is no reason for a refusal exactly if it lies in one group. -/
lemma laneFault?_lanesOf (hlane : lane < waveLanes) :
    laneFault? size (groups.map lanesOf) lane = none ↔ ∃! i, HasAt (IsIn lane) groups i := by
  rw [laneFault?_eq_none_iff, countP_contains hlane, countP_eq_one_iff]

/-- A lane is refused for lying in no group, or for lying in two. -/
lemma laneFault?_eq_some_iff (hlane : lane < waveLanes) :
    laneFault? size (groups.map lanesOf) lane = some fault ↔
      fault = .gap size lane ∧ (∀ i, ¬HasAt (IsIn lane) groups i) ∨
        fault = .overlap size lane ∧
          ∃ i j, i < j ∧ HasAt (IsIn lane) groups i ∧ HasAt (IsIn lane) groups j := by
  have hnone : (∀ i, ¬HasAt (IsIn lane) groups i) ↔ groups.countP (IsIn lane ·) = 0 := by
    rw [← not_exists, exists_hasAt_iff, List.countP_eq_zero]
    simp
  rw [← one_lt_countP_iff, hnone, laneFault?, countP_contains hlane]
  split
  · next h => simp [h, eq_comm]
  · next h => simp [h]
  · next hzero hone =>
    have hmany : 1 < groups.countP (IsIn lane ·) :=
      Nat.lt_of_le_of_ne (Nat.pos_of_ne_zero hzero) (Ne.symm hone)
    simp [hmany, Nat.ne_of_gt (Nat.pos_of_ne_zero hzero), eq_comm]

/-! ## Acceptance -/

/-- Groups of ranges are accepted exactly if all are sound and each lane lies in one group. -/
lemma ofRanges_eq_ok_iff {p : LanePartition} :
    ofRanges size groups = .ok p ↔
      (∀ r ∈ groups.flatten, IsSound r) ∧
        (∀ lane < waveLanes, ∃! i, HasAt (IsIn lane) groups i) ∧
          p = ⟨size, groups.map lanesOf⟩ := by
  have hsound : (∀ r ∈ groups.flatten, IsSound r) ↔
      groups.flatten.findSome? (rangeFault? size) = none := by
    simp only [List.findSome?_eq_none_iff, isSound_iff size]
  have hlanes : (∀ lane < waveLanes, ∃! i, HasAt (IsIn lane) groups i) ↔
      (List.range waveLanes).findSome? (laneFault? size (groups.map lanesOf)) = none := by
    rw [List.findSome?_eq_none_iff]
    simp only [List.mem_range]
    exact forall₂_congr fun lane hlane => (laneFault?_lanesOf hlane).symm
  rw [hsound, hlanes, ofRanges]
  split
  · next hfault => simp [hfault]
  · next hfault =>
    dsimp only
    split
    · next hlane => simp [hlane]
    · next hlane => simp [hfault, hlane, eq_comm]

/-! ## Refusal -/

/-- Faults of ranges come before faults of lanes, and the first of them counts. -/
lemma ofRanges_eq_error_iff_findSome? :
    ofRanges size groups = .error fault ↔
      groups.flatten.findSome? (rangeFault? size) = some fault ∨
        (∀ r ∈ groups.flatten, IsSound r) ∧ ∃ lane < waveLanes,
          laneFault? size (groups.map lanesOf) lane = some fault ∧
            ∀ lower < lane, ∃! i, HasAt (IsIn lower) groups i := by
  have hlanes : (List.range waveLanes).findSome? (laneFault? size (groups.map lanesOf)) =
      some fault ↔ ∃ lane < waveLanes, laneFault? size (groups.map lanesOf) lane = some fault ∧
        ∀ lower < lane, ∃! i, HasAt (IsIn lower) groups i := by
    rw [findSome?_range_eq_some_iff]
    refine exists_congr fun lane => and_congr_right fun hlane => and_congr_right fun _ => ?_
    exact forall₂_congr fun lower hlower => laneFault?_lanesOf (Nat.lt_trans hlower hlane)
  rw [← hlanes, forall₂_congr fun r _ => isSound_iff size, ← List.findSome?_eq_none_iff, ofRanges]
  split
  · next hfault => simp [hfault]
  · next hfault =>
    dsimp only
    split
    · next hlane => simp [hfault, hlane]
    · next hlane => simp [hfault, hlane]

/-- Groups of ranges are refused for the fault that comes first. -/
lemma ofRanges_eq_error_iff :
    ofRanges size groups = .error fault ↔ IsRefusedFor size groups fault := by
  rw [ofRanges_eq_error_iff_findSome?, List.findSome?_eq_some_iff]
  constructor
  · rintro (⟨before, r, after, hflatten, hr, hbefore⟩ | ⟨hsound, lane, hlane, hfault, hlower⟩)
    · have hearlier : ∀ earlier ∈ before, IsSound earlier :=
        fun earlier hmem => (isSound_iff size).mpr (hbefore earlier hmem)
      rcases rangeFault?_eq_some_iff.mp hr with ⟨rfl, hempty⟩ | ⟨rfl, hstart, hstop⟩
      · exact .emptyRange hflatten hearlier hempty
      · exact .laneOutOfRange hflatten hearlier hstart hstop
    · rcases (laneFault?_eq_some_iff hlane).mp hfault with ⟨rfl, hnone⟩ | ⟨rfl, i, j, hij, hi, hj⟩
      · exact .gap hsound hlane hlower hnone
      · exact .overlap hsound hlane hlower hij hi hj
  · intro h
    cases h with
    | emptyRange hflatten hearlier hempty =>
      refine .inl ⟨_, _, _, hflatten, rangeFault?_eq_some_iff.mpr (.inl ⟨rfl, hempty⟩), ?_⟩
      exact fun earlier hmem => (isSound_iff size).mp (hearlier earlier hmem)
    | laneOutOfRange hflatten hearlier hstart hstop =>
      refine .inl ⟨_, _, _, hflatten, rangeFault?_eq_some_iff.mpr (.inr ⟨rfl, hstart, hstop⟩), ?_⟩
      exact fun earlier hmem => (isSound_iff size).mp (hearlier earlier hmem)
    | gap hsound hlane hlower hnone =>
      exact .inr ⟨hsound, _, hlane, (laneFault?_eq_some_iff hlane).mpr (.inl ⟨rfl, hnone⟩), hlower⟩
    | overlap hsound hlane hlower hij hi hj =>
      exact .inr ⟨hsound, _, hlane,
        (laneFault?_eq_some_iff hlane).mpr (.inr ⟨rfl, _, _, hij, hi, hj⟩), hlower⟩

/-! ## Groups of lanes -/

/-- A lane of the wavefront is found in the one group that holds it. -/
lemma groupOf?_of_existsUnique (hlane : lane < waveLanes)
    (hone : ∃! i, HasAt (IsIn lane) groups i) :
    ∃ i, groupOf? ⟨size, groups.map lanesOf⟩ lane = some i ∧
      ∀ j, HasAt (IsIn lane) groups j ↔ j = i := by
  obtain ⟨i, ⟨group, hi, hgroup⟩, hunique⟩ := hone
  obtain ⟨hlength, rfl⟩ := List.getElem?_eq_some_iff.mp hi
  refine ⟨i, ?_, ?_⟩
  · rw [groupOf?, List.findIdx?_eq_some_iff_getElem]
    refine ⟨by simpa using hlength, ?_, ?_⟩
    · rw [List.getElem_map]
      exact (contains_lanesOf hlane _).mpr hgroup
    · intro j hj hcontains
      rw [List.getElem_map, contains_lanesOf hlane] at hcontains
      have hat : HasAt (IsIn lane) groups j :=
        ⟨groups[j], List.getElem?_eq_getElem (Nat.lt_trans hj hlength), hcontains⟩
      exact Nat.ne_of_lt hj (hunique j hat)
  · intro j
    constructor
    · exact hunique j
    · rintro rfl
      exact ⟨_, hi, hgroup⟩

/-- A lane beyond the wavefront is in no group. -/
lemma groupOf?_of_le (hlane : waveLanes ≤ lane) :
    groupOf? ⟨size, groups.map lanesOf⟩ lane = none := by
  rw [groupOf?, List.findIdx?_eq_none_iff]
  intro group hgroup
  obtain ⟨ranges, -, rfl⟩ := List.mem_map.mp hgroup
  rw [← Bool.not_eq_true, List.contains_iff_mem, mem_lanesOf]
  exact fun h => Nat.not_lt.mpr hlane h.1

/-- Groups of ranges are accepted exactly if every range is sound and every lane of the wavefront is
in exactly one group. Of an accepted partition each lane of the wavefront is in the one group that
holds it, and no other lane is in any. A refusal is for the first range that is not sound, which may
be empty or else hold lanes beyond the wavefront, or if all are sound for the lowest lane that no
group or several groups hold. -/
theorem ofRanges_accepts_partitions (size : UInt16) (groups : List (List LaneRange)) :
    ((∃ p, ofRanges size groups = .ok p) ↔
      (∀ group ∈ groups, ∀ r ∈ group, r.start < r.stop ∧ r.stop ≤ 64) ∧
        ∀ lane < 64, ∃! i, HasAt (IsIn lane) groups i) ∧
    (∀ p, ofRanges size groups = .ok p →
      p.size = size ∧
        (∀ lane < 64, ∃ i, p.groupOf? lane = some i ∧
          ∀ j, HasAt (IsIn lane) groups j ↔ j = i) ∧
        ∀ lane, 64 ≤ lane → p.groupOf? lane = none) ∧
    ∀ fault, ofRanges size groups = .error fault ↔ IsRefusedFor size groups fault := by
  have hsound : (∀ r ∈ groups.flatten, IsSound r) ↔
      ∀ group ∈ groups, ∀ r ∈ group, r.start < r.stop ∧ r.stop ≤ 64 :=
    List.forall_mem_flatten
  refine ⟨?_, ?_, fun fault => ofRanges_eq_error_iff⟩
  · rw [← hsound]
    constructor
    · rintro ⟨p, hp⟩
      obtain ⟨hranges, hlanes, -⟩ := ofRanges_eq_ok_iff.mp hp
      exact ⟨hranges, hlanes⟩
    · rintro ⟨hranges, hlanes⟩
      exact ⟨_, ofRanges_eq_ok_iff.mpr ⟨hranges, hlanes, rfl⟩⟩
  · intro p hp
    obtain ⟨-, hlanes, rfl⟩ := ofRanges_eq_ok_iff.mp hp
    refine ⟨rfl, ?_, ?_⟩
    · intro lane hlane
      exact groupOf?_of_existsUnique hlane (hlanes lane hlane)
    · intro lane hlane
      exact groupOf?_of_le hlane

/-- Ranges of one group may overlap, as for lane 35 here. Of two ranges that are not sound the first
is refused, though only the second is empty and lanes are in two groups. -/
theorem ofRanges_accepts_overlapping_ranges :
    (∃ p, ofRanges 4 [[⟨0, 40⟩, ⟨30, 48⟩], [⟨48, 64⟩]] = .ok p ∧
      p.groupOf? 35 = some 0 ∧ p.groupOf? 64 = none) ∧
    ofRanges 4 [[⟨0, 33⟩, ⟨32, 65⟩], [⟨7, 7⟩]] = .error (.laneOutOfRange 4 64) := by
  constructor
  · have hp : ofRanges 4 [[⟨0, 40⟩, ⟨30, 48⟩], [⟨48, 64⟩]] =
        .ok ⟨4, [[⟨0, 40⟩, ⟨30, 48⟩], [⟨48, 64⟩]].map lanesOf⟩ := by rfl
    obtain ⟨-, hlanes, hbeyond⟩ := (ofRanges_accepts_partitions _ _).2.1 _ hp
    refine ⟨_, hp, ?_, hbeyond 64 (Nat.le_refl 64)⟩
    obtain ⟨i, hi, hunique⟩ := hlanes 35 (by decide)
    have hfirst : HasAt (IsIn 35) [[⟨0, 40⟩, ⟨30, 48⟩], [⟨48, 64⟩]] 0 := ⟨_, rfl, by decide⟩
    rw [hi, (hunique 0).mp hfirst]
  · have hflatten : [[⟨0, 33⟩, ⟨32, 65⟩], [⟨7, 7⟩]].flatten =
        [(⟨0, 33⟩ : LaneRange)] ++ ⟨32, 65⟩ :: [⟨7, 7⟩] := rfl
    apply ((ofRanges_accepts_partitions _ _).2.2 _).mpr
    apply IsRefusedFor.laneOutOfRange hflatten
    · intro earlier hmem
      rw [List.mem_singleton.mp hmem]
      exact ⟨by decide, by decide⟩
    · decide
    · decide

end LanePartition

end WaveAccess
