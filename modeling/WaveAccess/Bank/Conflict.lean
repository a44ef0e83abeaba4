import WaveAccess.Bank.Partition
import WaveAccess.Bank.Table
import WaveAccess.Message.Basic
import WaveAccess.Text.Basic

/-!
# Bank conflicts of an access

The bank tables of all access sizes, and the conflicts of a wavefront's access to the local data
share: the access is registered in the tables of its size, lane by lane, the tables are counted, and
they are cleared for the next access. Addresses must be aligned to the access size; one that is not
means that the instrumentation is broken, and ends the analysis.
-/

namespace WaveAccess

/-- There is no partition for accesses of a size. -/
structure UnsupportedSize where
  size : UInt16
  deriving DecidableEq, Repr

/-- The text about a size without partition. -/
def UnsupportedSize.message (e : UnsupportedSize) : String :=
  s!"bank conflict handling of {e.size.toNat}-byte accesses not supported"

/-- An access that no analysis can go on from. -/
inductive Breakdown where
  /-- A lane's address is no multiple of the access size. -/
  | misaligned (access : LaneAddress) (size : UInt16)
  /-- Alignment to no bytes at all. -/
  | zeroSize
  deriving DecidableEq, Repr

/-- The text of a breakdown, if it has one. -/
def Breakdown.message? : Breakdown → Option String
  | .misaligned access size =>
    let address := Text.hexLiteral access.address.toNat
    some s!"lane {access.lane.toNat}: address {address} is not aligned to {size.toNat} bytes"
  | .zeroSize => none

/-- Why the conflicts of an access are not counted. -/
inductive ConflictRefusal where
  | unsupported (e : UnsupportedSize)
  | breakdown (b : Breakdown)
  deriving DecidableEq, Repr

/-- The bank tables of every supported access size. -/
structure BankTables where
  bySize : List (UInt16 × List BankTable)
  deriving DecidableEq, Repr

/-- The counted conflicts of an access. -/
structure ConflictCount where
  conflicts : Nat
  /-- The lanes that belong to no group. -/
  uncovered : List UInt64
  /-- The tables for the next access. -/
  tables : BankTables

namespace BankTables

/-- Tables under a size in place of those that were there. -/
def put (size : UInt16) (tables : List BankTable) :
    List (UInt16 × List BankTable) → List (UInt16 × List BankTable)
  | [] => [(size, tables)]
  | entry :: rest =>
    if entry.1 = size then (size, tables) :: rest else entry :: put size tables rest

/-- The empty tables of partitions, of which the last counts for each size. -/
def ofPartitions (partitions : List LanePartition) : BankTables :=
  ⟨partitions.foldl (fun entries p => put p.size (p.groups.map BankTable.ofLanes) entries) []⟩

/-- The empty tables of the hardware. -/
def hardware : BankTables :=
  ofPartitions LanePartition.hardware

/-- The tables of a size. -/
def tables? (t : BankTables) (size : UInt16) : Option (List BankTable) :=
  t.bySize.lookup size

/-- Whether there are tables of a size. -/
def supports (t : BankTables) (size : UInt16) : Bool :=
  (t.tables? size).isSome

/-- Registers an access in the first table whose group has the lane, if there is one. -/
def registerFirst? (lane address : Nat) : List BankTable → Option (List BankTable)
  | [] => none
  | table :: rest =>
    match table.register? lane address with
    | some table => some (table :: rest)
    | none => (registerFirst? lane address rest).map (table :: ·)

/-- What stands against the alignment of an access, if anything does. -/
def breakdown? (size : UInt16) (access : LaneAddress) : Option Breakdown :=
  if size = 0 then some .zeroSize
  else if access.address.toNat % size.toNat = 0 then none
  else some (.misaligned access size)

/-- Registers accesses one after the other, and lists the lanes that belong to no group. -/
def registerAll (size : UInt16) (tables : List BankTable) :
    List LaneAddress → Except Breakdown (List BankTable × List UInt64)
  | [] => .ok (tables, [])
  | access :: rest =>
    match breakdown? size access with
    | some b => .error b
    | none =>
      match registerFirst? access.lane.toNat access.address.toNat tables with
      | some tables => registerAll size tables rest
      | none => do
        let (tables, uncovered) ← registerAll size tables rest
        .ok (tables, access.lane :: uncovered)

/-- The total bank conflicts of a wavefront's access. -/
def countConflicts (t : BankTables) (size : UInt16) (accesses : List LaneAddress) :
    Except ConflictRefusal ConflictCount :=
  match t.tables? size with
  | none => .error (.unsupported ⟨size⟩)
  | some tables =>
    match registerAll size tables accesses with
    | .error b => .error (.breakdown b)
    | .ok (tables, uncovered) =>
      .ok {
        conflicts := (tables.map BankTable.conflicts).foldr (· + ·) 0
        uncovered
        tables := ⟨put size (tables.map BankTable.clear) t.bySize⟩ }

end BankTables

end WaveAccess
