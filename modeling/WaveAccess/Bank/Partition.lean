import WaveAccess.LaneMask

/-!
# Lane partitions

The lanes of a wavefront are not all served in the same cycle. For each access size they are
partitioned into groups that are served together, and only lanes of one group can conflict. A
partition is built from half-open ranges of lanes and is refused unless every lane is in exactly one
group.
-/

namespace WaveAccess

/-- The lanes from `start` up to and without `stop`. -/
structure LaneRange where
  start : Nat
  stop : Nat
  deriving DecidableEq, Repr

/-- Whether a range holds a lane. -/
def LaneRange.holds (r : LaneRange) (lane : Nat) : Bool :=
  decide (r.start ≤ lane) && decide (lane < r.stop)

/-- Why groups of ranges are no partition. -/
inductive PartitionFault where
  | emptyRange (size : UInt16) (start stop : Nat)
  | laneOutOfRange (size : UInt16) (lane : Nat)
  | overlap (size : UInt16) (lane : Nat)
  | gap (size : UInt16) (lane : Nat)
  deriving DecidableEq, Repr

/-- The text of a fault. -/
def PartitionFault.message : PartitionFault → String
  | .emptyRange size start stop =>
    s!"empty lane range {start}..{stop} for {size.toNat}-byte accesses"
  | .laneOutOfRange size lane => s!"lane {lane} is out of range for {size.toNat}-byte accesses"
  | .overlap size lane =>
    s!"lane {lane} is in more than one conflict set for {size.toNat}-byte accesses"
  | .gap size lane => s!"lane {lane} is in no conflict set for {size.toNat}-byte accesses"

/-- Groups of lanes that are served together, for accesses of one size. Each group lists its lanes
in ascending order. -/
structure LanePartition where
  size : UInt16
  groups : List (List Nat)
  deriving DecidableEq, Repr

namespace LanePartition

/-- The fault of a single range, if it has one. -/
def rangeFault? (size : UInt16) (r : LaneRange) : Option PartitionFault :=
  if r.stop ≤ r.start then some (.emptyRange size r.start r.stop)
  else if waveLanes < r.stop then some (.laneOutOfRange size (r.stop - 1))
  else none

/-- The lanes of a group given by ranges, in ascending order. -/
def lanesOf (ranges : List LaneRange) : List Nat :=
  (List.range waveLanes).filter fun lane => ranges.any (·.holds lane)

/-- A group has the lanes of the wavefront that one of its ranges holds. -/
@[simp]
theorem mem_lanesOf {ranges : List LaneRange} {lane : Nat} :
    lane ∈ lanesOf ranges ↔ lane < waveLanes ∧ ∃ r ∈ ranges, r.holds lane = true := by
  simp [lanesOf]

/-- The fault of a lane that is not in exactly one group. -/
def laneFault? (size : UInt16) (groups : List (List Nat)) (lane : Nat) : Option PartitionFault :=
  match groups.countP (·.contains lane) with
  | 0 => some (.gap size lane)
  | 1 => none
  | _ => some (.overlap size lane)

/-- The partition with the given groups of ranges. Faults of ranges come before faults of lanes, and
among each kind the first one counts. -/
def ofRanges (size : UInt16) (groups : List (List LaneRange)) :
    Except PartitionFault LanePartition :=
  match groups.flatten.findSome? (rangeFault? size) with
  | some fault => .error fault
  | none =>
    let lanes := groups.map lanesOf
    match (List.range waveLanes).findSome? (laneFault? size lanes) with
    | some fault => .error fault
    | none => .ok ⟨size, lanes⟩

/-- The position of the group that holds a lane. -/
def groupOf? (p : LanePartition) (lane : Nat) : Option Nat :=
  p.groups.findIdx? (·.contains lane)

/-! ## The hardware's partitions -/

/-- The group of the lanes in one range. -/
def single (start stop : Nat) : List LaneRange :=
  [⟨start, stop⟩]

/-- The two halves of a wavefront. -/
def halves : List (List LaneRange) :=
  [single 0 32, single 32 64]

/-- The four quarters of a wavefront. -/
def quarters : List (List LaneRange) :=
  [single 0 16, single 16 32, single 32 48, single 48 64]

/-- Eight groups of lanes whose accesses of four words fall into complementary banks. -/
def eighths : List (List LaneRange) :=
  [[⟨0, 4⟩, ⟨20, 24⟩], [⟨4, 8⟩, ⟨16, 20⟩], [⟨8, 12⟩, ⟨28, 32⟩], [⟨12, 16⟩, ⟨24, 28⟩],
    [⟨32, 36⟩, ⟨52, 56⟩], [⟨36, 40⟩, ⟨48, 52⟩], [⟨40, 44⟩, ⟨60, 64⟩], [⟨44, 48⟩, ⟨56, 60⟩]]

/-- The groups of the hardware by access size. -/
def hardwareRanges : List (UInt16 × List (List LaneRange)) :=
  [(1, halves), (2, halves), (4, halves), (8, quarters), (16, eighths)]

/-- The partitions of the hardware. -/
def hardware : List LanePartition :=
  hardwareRanges.map fun (size, groups) => ⟨size, groups.map lanesOf⟩

end LanePartition

end WaveAccess
