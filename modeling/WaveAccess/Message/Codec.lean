import WaveAccess.Json.Decode
import WaveAccess.Message.Packet

/-!
# Messages in JSON

The JSON form of messages and packets. Every message that is written is read back as it was, whether
or not its lanes fit its execution mask.
-/

namespace WaveAccess

/-- Reads the name of an address space. -/
def AddressSpace.ofJson? (j : Json) : Option AddressSpace :=
  j.choice?.bind ofName?

/-- Reads the name of a direction. -/
def Direction.ofJson? (j : Json) : Option Direction :=
  j.choice?.bind ofName?

namespace LaneAddress

/-- The JSON form of a lane's access. -/
def toJson (access : LaneAddress) : Json :=
  .ofMembers [("lane", .ofNat access.lane.toNat), ("address", .ofNat access.address.toNat)]

/-- Reads a lane's access. -/
def ofJson? (j : Json) : Option LaneAddress := do
  match ← j.fields? ["lane", "address"] 0 with
  | [lane, address] =>
    some ⟨← Json.required Json.uint64? lane, ← Json.required Json.uint64? address⟩
  | _ => none

end LaneAddress

namespace Message

/-- The fields of a message in JSON, in their order. -/
def fieldNames : List String :=
  ["memory_space", "direction", "access_size", "exec", "lanes", "file_name_hash", "line", "column",
    "arch"]

/-- The JSON form of a message. -/
def toJson (m : Message) : Json :=
  .ofMembers [
    ("memory_space", .ofOption (fun space => .ofText space.name) m.space),
    ("direction", .ofText m.direction.name),
    ("access_size", .ofNat m.size.toNat),
    ("exec", m.exec.toJson),
    ("lanes", .ofList LaneAddress.toJson m.lanes),
    ("file_name_hash", .ofNat m.fileHash.toNat),
    ("line", .ofNat m.line.toNat),
    ("column", .ofNat m.column.toNat),
    ("arch", .ofNat m.arch.toNat)]

/-- Reads a message. Its lanes are taken as they are. -/
def ofJson? (j : Json) : Option Message := do
  match ← j.fields? fieldNames 0 with
  | [space, direction, size, exec, lanes, fileHash, line, column, arch] =>
    some {
      space := ← Json.optional AddressSpace.ofJson? space
      direction := ← Json.required Direction.ofJson? direction
      size := ← Json.required Json.uint16? size
      exec := ← Json.required LaneMask.ofJson? exec
      lanes := ← Json.required (Json.list? LaneAddress.ofJson?) lanes
      fileHash := ← Json.required Json.uint64? fileHash
      line := ← Json.required Json.uint32? line
      column := ← Json.required Json.uint32? column
      arch := ← Json.required Json.uint8? arch }
  | _ => none

/-- The JSON form of a list of messages. -/
def listToJson (messages : List Message) : Json :=
  .ofList toJson messages

/-- Reads a list of messages. -/
def listOfJson? (j : Json) : Option (List Message) :=
  j.list? ofJson?

end Message

/-- Reads the header of a packet. -/
def PacketHeader.ofJson? (j : Json) : Option PacketHeader := do
  let names := ["exec", "user_type", "user_data", "data_item_size", "arch", "dwarf_fname_hash",
    "dwarf_line", "dwarf_column"]
  match ← j.fields? names 0 with
  | [exec, userType, userData, itemSize, arch, fileHash, line, column] =>
    some {
      exec := ← Json.required Json.uint64? exec
      userType := ← Json.required Json.uint32? userType
      userData := ← Json.required Json.uint32? userData
      itemSize := ← Json.required Json.uint32? itemSize
      arch := ← Json.required Json.uint8? arch
      fileHash := ← Json.required Json.uint64? fileHash
      line := ← Json.required Json.uint32? line
      column := ← Json.required Json.uint32? column }
  | _ => none

/-- Reads a packet. -/
def Packet.ofJson? (j : Json) : Option Packet := do
  match ← j.fields? ["header", "data"] 0 with
  | [header, payload] =>
    some ⟨← Json.required PacketHeader.ofJson? header,
      ← Json.required (Json.list? Json.uint8?) payload⟩
  | _ => none

end WaveAccess
