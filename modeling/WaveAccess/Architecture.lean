import WaveAccess.Text.Basic

/-!
# GPU architectures

The architectures whose second-level cache is known, by the id that message headers carry and by the
name that devices report.
-/

namespace WaveAccess

/-- A number of bytes per cache line. -/
structure LineSize where
  bytes : Nat
  bytes_pos : 0 < bytes
  deriving DecidableEq, Repr

/-- The line size of so many bytes, which must not be zero. -/
def LineSize.ofNat? (bytes : Nat) : Option LineSize :=
  if h : 0 < bytes then some ⟨bytes, h⟩ else none

/-- A GPU architecture. -/
inductive Architecture where
  | gfx906
  | gfx908
  | gfx90a
  | gfx940
  | gfx941
  | gfx942
  deriving DecidableEq, Repr

namespace Architecture

/-- All architectures in the order of their ids. -/
def all : List Architecture :=
  [gfx906, gfx908, gfx90a, gfx940, gfx941, gfx942]

/-- The id in message headers. -/
def id : Architecture → UInt8
  | gfx906 => 1
  | gfx908 => 2
  | gfx90a => 3
  | gfx940 => 4
  | gfx941 => 5
  | gfx942 => 6

/-- The architecture of an id. Other ids are hardware that is not supported. -/
def ofId? (n : UInt8) : Option Architecture :=
  all.find? (·.id == n)

/-- The name of an architecture. -/
def name : Architecture → String
  | gfx906 => "gfx906"
  | gfx908 => "gfx908"
  | gfx90a => "gfx90a"
  | gfx940 => "gfx940"
  | gfx941 => "gfx941"
  | gfx942 => "gfx942"

/-- The architecture of a device name, whose features after a colon are ignored. -/
def ofName? (device : String) : Option Architecture :=
  let base := Text.trim (String.ofList (device.toList.takeWhile (· ≠ ':')))
  all.find? (·.name == base)

/-- The line size of the second-level cache. -/
def lineSize : Architecture → LineSize
  | gfx906 | gfx908 => ⟨64, by decide⟩
  | gfx90a | gfx940 | gfx941 | gfx942 => ⟨128, by decide⟩

/-- The name reported when no architecture is known. -/
def unknownName : String := "unknown"

/-- The line size reported when no architecture is known. -/
def defaultLineSize : LineSize := ⟨128, by decide⟩

end Architecture

/-- The line size of the hardware with the given id, if it is supported. -/
def lineSizeOfId? (id : UInt8) : Option LineSize :=
  (Architecture.ofId? id).map Architecture.lineSize

end WaveAccess
