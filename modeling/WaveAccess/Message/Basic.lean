import WaveAccess.LaneMask

/-!
# Access messages

One memory instruction executed by a wavefront: which memory it went to and in which direction, how
many bytes each lane accessed, the address of every active lane, and where in the source the
instruction stands.
-/

namespace WaveAccess

/-- The address space of an access. -/
inductive AddressSpace where
  | flat
  | global
  | gds
  /-- The local data share of a workgroup. -/
  | shared
  | constant
  | scratch
  | undefined
  deriving DecidableEq, Repr

namespace AddressSpace

/-- The tag of a space in a message header. -/
def tag : AddressSpace → Nat
  | flat => 0
  | global => 1
  | gds => 2
  | shared => 3
  | constant => 4
  | scratch => 5
  | undefined => 15

/-- The space of a tag. Not every tag names a space. -/
def ofTag? : Nat → Option AddressSpace
  | 0 => some flat
  | 1 => some global
  | 2 => some gds
  | 3 => some shared
  | 4 => some constant
  | 5 => some scratch
  | 15 => some undefined
  | _ => none

/-- The tag of an address space names it. -/
@[simp]
theorem ofTag?_tag (space : AddressSpace) : ofTag? space.tag = some space := by
  cases space <;> rfl

/-- The name of a space. -/
def name : AddressSpace → String
  | flat => "flat"
  | global => "global"
  | gds => "gds"
  | shared => "shared"
  | constant => "constant"
  | scratch => "scratch"
  | undefined => "undefined"

/-- All spaces. -/
def all : List AddressSpace :=
  [flat, global, gds, shared, constant, scratch, undefined]

/-- The space of a name. -/
def ofName? (s : String) : Option AddressSpace :=
  all.find? (·.name == s)

/-- The name of an address space names it. -/
@[simp]
theorem ofName?_name (space : AddressSpace) : ofName? space.name = some space := by
  cases space <;> rfl

end AddressSpace

/-- The direction of an access. -/
inductive Direction where
  | undefined
  | read
  | write
  | readWrite
  deriving DecidableEq, Repr

namespace Direction

/-- The tag of a direction in a message header. -/
def tag : Direction → Nat
  | undefined => 0
  | read => 1
  | write => 2
  | readWrite => 3

/-- The direction of the two lowest bits of a number. -/
def ofTag (n : Nat) : Direction :=
  match n % 4 with
  | 1 => read
  | 2 => write
  | 3 => readWrite
  | _ => undefined

/-- The tag of a direction names it. -/
@[simp]
theorem ofTag_tag (direction : Direction) : ofTag direction.tag = direction := by
  cases direction <;> rfl

/-- The name of a direction in data. -/
def name : Direction → String
  | undefined => "undefined"
  | read => "read"
  | write => "write"
  | readWrite => "read_write"

/-- The words for a direction in reports. -/
def description : Direction → String
  | undefined => "unspecified memory operation"
  | read => "read"
  | write => "write"
  | readWrite => "read/write"

/-- All directions. -/
def all : List Direction :=
  [undefined, read, write, readWrite]

/-- The direction of a name in data. -/
def ofName? (s : String) : Option Direction :=
  all.find? (·.name == s)

/-- The name of a direction names it. -/
@[simp]
theorem ofName?_name (direction : Direction) : ofName? direction.name = some direction := by
  cases direction <;> rfl

end Direction

/-- The address that a lane accessed. -/
structure LaneAddress where
  lane : UInt64
  address : UInt64
  deriving DecidableEq, Repr

/-- A memory access of a whole wavefront. -/
structure Message where
  /-- The address space, unless its tag names none. -/
  space : Option AddressSpace
  direction : Direction
  /-- Bytes per lane, as the instrumentation saw the access. -/
  size : UInt16
  exec : LaneMask
  /-- The active lanes with their addresses. -/
  lanes : List LaneAddress
  /-- The hash of the source file's name. -/
  fileHash : UInt64
  line : UInt32
  column : UInt32
  /-- The id of the GPU architecture. -/
  arch : UInt8
  deriving DecidableEq, Repr

/-- The number of addresses is not the number of active lanes. -/
structure LaneCountMismatch where
  active : Nat
  addresses : Nat
  deriving DecidableEq, Repr

/-- The text of a mismatch. -/
def LaneCountMismatch.message (e : LaneCountMismatch) : String :=
  s!"{e.active} active lanes but {e.addresses} addresses"

namespace Message

/-- The message in which each active lane has the address at its position, with no location and no
architecture. -/
def ofAddresses (space : Option AddressSpace) (direction : Direction) (size : UInt16)
    (exec : LaneMask) (addresses : List UInt64) : Except LaneCountMismatch Message :=
  if exec.activeCount = addresses.length then
    .ok {
      space, direction, size, exec
      lanes := exec.lanes.zipWith (fun lane address => ⟨UInt64.ofNat lane, address⟩) addresses
      fileHash := 0, line := 0, column := 0, arch := 0 }
  else .error ⟨exec.activeCount, addresses.length⟩

/-- The number of lanes that the message lists. -/
def numLanes (m : Message) : Nat :=
  m.lanes.length

/-- The addresses that the message lists. -/
def addresses (m : Message) : List Nat :=
  m.lanes.map (·.address.toNat)

end Message

end WaveAccess
