import WaveAccess.Message.Basic
import WaveAccess.Text.Basic

/-!
# Packets

The form in which the device delivers a message: a header of words, and the payload as bytes. Of the
header's packed word, bits 0 and 1 are the direction, bits 2 to 5 the tag of the address space and
bits 6 to 21 the bytes per lane. The payload of an address message holds one little-endian 64-bit
address per active lane. `Packet.decode` reads that form and `Message.pack` writes it.
-/

namespace WaveAccess

/-- The header of a packet. -/
structure PacketHeader where
  exec : UInt64
  userType : UInt32
  userData : UInt32
  itemSize : UInt32
  arch : UInt8
  fileHash : UInt64
  line : UInt32
  column : UInt32
  deriving DecidableEq, Repr

/-- A message as the device delivers it. -/
structure Packet where
  header : PacketHeader
  payload : List UInt8
  deriving DecidableEq, Repr

/-- Why a packet holds no message. -/
inductive DecodeError where
  | notAnAddress (userType : UInt32)
  | itemSize (bytes : UInt32)
  | truncatedPayload (bytes : Nat)
  | laneCount (mismatch : LaneCountMismatch)
  deriving DecidableEq, Repr

/-- The text of a decoding error. -/
def DecodeError.message : DecodeError → String
  | .notAnAddress userType =>
    s!"message of user type {Text.hexLiteral userType.toNat} is not an address message"
  | .itemSize bytes => s!"address messages carry 8-byte data items, got {bytes.toNat}"
  | .truncatedPayload bytes => s!"payload of {bytes} bytes is not a multiple of the data item size"
  | .laneCount mismatch => mismatch.message

/-- The user type of address messages. -/
def addressUserType : UInt32 := 1

/-- The bytes of an address. -/
def addressBytes : Nat := 8

namespace PacketHeader

/-- The direction in the packed word. -/
def direction (h : PacketHeader) : Direction :=
  .ofTag h.userData.toNat

/-- The address space in the packed word, if its tag names one. -/
def space? (h : PacketHeader) : Option AddressSpace :=
  AddressSpace.ofTag? (h.userData.toNat / 4 % 16)

/-- The bytes per lane in the packed word. -/
def size (h : PacketHeader) : UInt16 :=
  .ofNat (h.userData.toNat / 64)

end PacketHeader

/-! ## Payloads -/

/-- The number whose bytes are given, the lowest first. -/
def ofLittleEndian (bytes : List UInt8) : Nat :=
  bytes.foldr (fun b n => b.toNat + 256 * n) 0

/-- The lowest bytes of a number, the lowest first. -/
def toLittleEndian : Nat → Nat → List UInt8
  | 0, _ => []
  | count + 1, n => UInt8.ofNat n :: toLittleEndian count (n / 256)

/-- A word has as many bytes as are asked for. -/
@[simp]
theorem length_toLittleEndian (count n : Nat) : (toLittleEndian count n).length = count := by
  induction count generalizing n with
  | zero => rfl
  | succ count ih => rw [toLittleEndian, List.length_cons, ih]

/-- A number that fits its bytes is the number of these bytes. -/
theorem ofLittleEndian_toLittleEndian {count n : Nat} (h : n < Nat.pow 256 count) :
    ofLittleEndian (toLittleEndian count n) = n := by
  induction count generalizing n with
  | zero =>
    have hn : n = 0 := Nat.lt_one_iff.mp h
    rw [hn]
    rfl
  | succ count ih =>
    have hdiv : n / 256 < Nat.pow 256 count := by
      apply Nat.div_lt_of_lt_mul
      rw [Nat.mul_comm]
      exact h
    have hrest := ih hdiv
    rw [ofLittleEndian] at hrest
    rw [toLittleEndian, ofLittleEndian, List.foldr_cons, hrest]
    have hbyte : (UInt8.ofNat n).toNat = n % 256 := rfl
    rw [hbyte]
    omega

/-- The addresses of a payload. Bytes that are too few for an address are left out. -/
def addressesOf : List UInt8 → List UInt64
  | b0 :: b1 :: b2 :: b3 :: b4 :: b5 :: b6 :: b7 :: rest =>
    UInt64.ofNat (ofLittleEndian [b0, b1, b2, b3, b4, b5, b6, b7]) :: addressesOf rest
  | _ => []

/-- The message that a packet holds. -/
def Packet.decode (packet : Packet) : Except DecodeError Message :=
  let h := packet.header
  if h.userType ≠ addressUserType then .error (.notAnAddress h.userType)
  else if h.itemSize.toNat ≠ addressBytes then .error (.itemSize h.itemSize)
  else if packet.payload.length % addressBytes ≠ 0 then
    .error (.truncatedPayload packet.payload.length)
  else
    match Message.ofAddresses h.space? h.direction h.size ⟨h.exec⟩
        (addressesOf packet.payload) with
    | .error mismatch => .error (.laneCount mismatch)
    | .ok m => .ok { m with
        fileHash := h.fileHash, line := h.line, column := h.column, arch := h.arch }

/-- The tag of an address space in a header. No space has the tag 6. -/
def tagOfSpace : Option AddressSpace → Nat
  | some space => space.tag
  | none => 6

/-- The packet of a message. -/
def Message.pack (m : Message) : Packet where
  header := {
    exec := m.exec.bits
    userType := addressUserType
    userData := .ofNat (m.direction.tag + 4 * tagOfSpace m.space + 64 * m.size.toNat)
    itemSize := .ofNat addressBytes
    arch := m.arch
    fileHash := m.fileHash
    line := m.line
    column := m.column }
  payload := m.lanes.flatMap fun access => toLittleEndian addressBytes access.address.toNat

end WaveAccess
