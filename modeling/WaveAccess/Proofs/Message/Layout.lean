import Mathlib.Algebra.BigOperators.Group.Finset.Basic
import Mathlib.Algebra.BigOperators.Ring.Finset
import Mathlib.Data.Nat.Nth
import Mathlib.Tactic.Lemma
import WaveAccess.Message.Packet

/-!
# The layout of packets

A packet is read by its bits and bytes: the fields of the packed word, the set bits of the execution
mask from the lowest on, and the payload as words of eight bytes, of which the lowest comes first.
`Packet.Decodes` says in these terms what a packet is decoded to: the first of four faults, or the
message that the packet holds. The packet that a message is packed into holds that message.
-/

namespace WaveAccess

/-! ## Set bits -/

/-- The numbers below a bound that have a property are, one after the other, the first that have
it. -/
lemma getElem_filter_range {p : ℕ → Bool} (n : ℕ) {i : ℕ}
    (h : i < ((List.range n).filter p).length) :
    ((List.range n).filter p)[i] = Nat.nth (p · = true) i := by
  induction n with
  | zero => exact absurd h (Nat.not_lt_zero i)
  | succ n ih =>
    have hcount : ((List.range n).filter p).length = Nat.count (p · = true) n := by
      simp [Nat.count, List.countP_eq_length_filter]
    simp only [List.range_succ, List.filter_append] at h ⊢
    by_cases hi : i < ((List.range n).filter p).length
    · rw [List.getElem_append_left hi]
      exact ih hi
    · -- only the last number is left, so all others that have the property come before it
      rw [List.getElem_append_right (Nat.not_lt.mp hi)]
      cases hp : p n with
      | false => simp [hp] at h; exact absurd h hi
      | true =>
        have hlast : i = Nat.count (p · = true) n := by
          simp [hp] at h
          omega
        simp [hp, hlast, Nat.nth_count (p := (p · = true)) hp]

namespace LaneMask

/-- The ones of a number are its set bits. -/
lemma countOnes_eq_count (width n : ℕ) :
    countOnes width n = Nat.count (n.testBit · = true) width := by
  induction width generalizing n with
  | zero => rfl
  | succ width ih =>
    have hrest : ∀ k, (n / 2).testBit k = n.testBit (k + 1) := fun k => (n.testBit_succ k).symm
    rw [countOnes, ih, Nat.count_succ', Nat.add_comm]
    simp only [hrest, Nat.testBit_zero, decide_eq_true_eq]
    split
    · next h => rw [h]
    · next h => rw [Nat.mod_two_ne_one.mp h]

variable (mask : LaneMask)

/-- A mask has as many active lanes as bits that are set. -/
lemma activeCount_eq_count :
    mask.activeCount = Nat.count (mask.bits.toNat.testBit · = true) waveLanes :=
  countOnes_eq_count _ _

/-- A mask lists its active lanes. -/
lemma length_lanes : mask.lanes.length = mask.activeCount := by
  rw [activeCount_eq_count, Nat.count, List.countP_eq_length_filter]
  simp only [lanes, Bool.decide_eq_true]
  rfl

/-- The lanes of a mask are listed in the order of its set bits. -/
lemma getElem_lanes {i : ℕ} (h : i < mask.lanes.length) :
    mask.lanes[i] = Nat.nth (mask.bits.toNat.testBit · = true) i :=
  getElem_filter_range waveLanes h

/-- Lanes are below 64, so a word holds them. -/
lemma toNat_ofNat_getElem_lanes {i : ℕ} (h : i < mask.lanes.length) :
    (UInt64.ofNat mask.lanes[i]).toNat = Nat.nth (mask.bits.toNat.testBit · = true) i := by
  have hlt : mask.lanes[i] < 64 := (mem_lanes.mp (List.getElem_mem h)).1
  rw [UInt64.toNat_ofNat_of_lt' (Nat.lt_trans hlt (by decide)), getElem_lanes]

end LaneMask

/-! ## Words of a payload -/

/-- The word of eight bytes at a position of a payload. -/
def wordAt (payload : List UInt8) (i : ℕ) : ℕ :=
  ∑ j ∈ Finset.range 8, 256 ^ j * (payload.getD (8 * i + j) 0).toNat

/-- Bytes are the digits of their value in base 256, the least significant first. -/
lemma ofLittleEndian_eq_sum (bytes : List UInt8) :
    ofLittleEndian bytes = ∑ j ∈ Finset.range bytes.length, 256 ^ j * (bytes.getD j 0).toNat := by
  induction bytes with
  | nil => rfl
  | cons b rest ih =>
    have hcons : ofLittleEndian (b :: rest) = b.toNat + 256 * ofLittleEndian rest := rfl
    rw [hcons, ih, List.length_cons, Finset.sum_range_succ', Finset.mul_sum, Nat.add_comm]
    simp [Nat.pow_succ, Nat.mul_assoc, Nat.mul_comm]

/-- Bytes have room for all values below a power of 256. -/
lemma ofLittleEndian_lt (bytes : List UInt8) : ofLittleEndian bytes < 256 ^ bytes.length := by
  induction bytes with
  | nil => decide
  | cons b rest ih =>
    have hcons : ofLittleEndian (b :: rest) = b.toNat + 256 * ofLittleEndian rest := rfl
    have hb : b.toNat < 256 := b.toNat_lt
    rw [hcons, List.length_cons, Nat.pow_succ]
    omega

section Words

variable {chunk : List UInt8} (h : chunk.length = 8) (rest : List UInt8)

include h

/-- The first word of a payload is the value of its first eight bytes. -/
lemma wordAt_append_zero : wordAt (chunk ++ rest) 0 = ofLittleEndian chunk := by
  rw [ofLittleEndian_eq_sum, h, wordAt]
  apply Finset.sum_congr rfl
  intro j hj
  have hlt : j < chunk.length := by rw [h]; exact Finset.mem_range.mp hj
  rw [Nat.mul_zero, Nat.zero_add, List.getD_append _ _ _ _ hlt]

/-- The words behind the first are those of the rest. -/
lemma wordAt_append_succ (i : ℕ) : wordAt (chunk ++ rest) (i + 1) = wordAt rest i := by
  apply Finset.sum_congr rfl
  intro j _
  have hle : chunk.length ≤ 8 * (i + 1) + j := by omega
  have hindex : 8 * (i + 1) + j - chunk.length = 8 * i + j := by omega
  rw [List.getD_append_right _ _ _ _ hle, hindex]

end Words

/-- There is an address for every eight bytes. -/
lemma length_addressesOf (payload : List UInt8) :
    (addressesOf payload).length = payload.length / 8 := by
  fun_induction addressesOf payload with
  | case1 b0 b1 b2 b3 b4 b5 b6 b7 rest ih =>
    simp only [List.length_cons, ih]
    omega
  | case2 payload hshort =>
    have hlt : payload.length < 8 := by
      rcases payload with _ | ⟨b0, _ | ⟨b1, _ | ⟨b2, _ | ⟨b3, _ | ⟨b4, _ | ⟨b5, _ | ⟨b6, _ | ⟨b7, rest⟩⟩⟩⟩⟩⟩⟩⟩
      case cons.cons.cons.cons.cons.cons.cons.cons =>
        exact (hshort b0 b1 b2 b3 b4 b5 b6 b7 rest rfl).elim
      all_goals simp
    rw [Nat.div_eq_of_lt hlt]
    rfl

/-- The addresses of a payload are its words. -/
lemma getElem_addressesOf {payload : List UInt8} {i : ℕ} (h : i < (addressesOf payload).length) :
    (addressesOf payload)[i].toNat = wordAt payload i := by
  fun_induction addressesOf payload generalizing i with
  | case1 b0 b1 b2 b3 b4 b5 b6 b7 rest ih =>
    have hchunk : [b0, b1, b2, b3, b4, b5, b6, b7].length = 8 := rfl
    cases i with
    | zero =>
      have hlt := ofLittleEndian_lt [b0, b1, b2, b3, b4, b5, b6, b7]
      rw [hchunk, ← Nat.pow_mul 2 8 8] at hlt
      rw [List.getElem_cons_zero, UInt64.toNat_ofNat', Nat.mod_eq_of_lt hlt]
      exact (wordAt_append_zero hchunk rest).symm
    | succ i => exact (ih _).trans (wordAt_append_succ hchunk rest i).symm
  | case2 => exact absurd h (Nat.not_lt_zero i)

/-! ## Decoding -/

/-- So many bits of the packed word from a position on, as a number. -/
def PacketHeader.field (h : PacketHeader) (start width : ℕ) : ℕ :=
  (h.userData.toBitVec.extractLsb' start width).toNat

/-- The number of set bits of the execution mask. -/
def PacketHeader.active (h : PacketHeader) : ℕ :=
  Nat.count (h.exec.toNat.testBit · = true) 64

/-- A packet holds a message. -/
structure Packet.Holds (p : Packet) (m : Message) : Prop where
  exec : m.exec.bits = p.header.exec
  active : m.lanes.length = p.header.active
  length : p.payload.length = 8 * m.lanes.length
  /-- The lanes are the set bits from the lowest on. -/
  lane : ∀ i (h : i < m.lanes.length),
    m.lanes[i].lane.toNat = Nat.nth (p.header.exec.toNat.testBit · = true) i
  address : ∀ i (h : i < m.lanes.length), m.lanes[i].address.toNat = wordAt p.payload i
  direction : m.direction.tag = p.header.field 0 2
  space : ∀ space, m.space = some space ↔ space.tag = p.header.field 2 4
  size : m.size.toNat = p.header.field 6 16
  fileHash : m.fileHash = p.header.fileHash
  line : m.line = p.header.line
  column : m.column = p.header.column
  arch : m.arch = p.header.arch

/-- What a packet is decoded to: the first fault that it has, or the message that it holds. -/
inductive Packet.Decodes (p : Packet) : Except DecodeError Message → Prop where
  | notAnAddress : p.header.userType ≠ 1 →
    p.Decodes (.error (.notAnAddress p.header.userType))
  | itemSize : p.header.userType = 1 → p.header.itemSize ≠ 8 →
    p.Decodes (.error (.itemSize p.header.itemSize))
  | truncatedPayload : p.header.userType = 1 → p.header.itemSize = 8 → ¬8 ∣ p.payload.length →
    p.Decodes (.error (.truncatedPayload p.payload.length))
  | laneCount : p.header.userType = 1 → p.header.itemSize = 8 → 8 ∣ p.payload.length →
    p.header.active ≠ p.payload.length / 8 →
    p.Decodes (.error (.laneCount ⟨p.header.active, p.payload.length / 8⟩))
  | message {m} : p.header.userType = 1 → p.header.itemSize = 8 → p.Holds m → p.Decodes (.ok m)

/-- A bit field is what remains of the user data after a shift and a mask. -/
lemma PacketHeader.field_eq (h : PacketHeader) (start width : ℕ) :
    h.field start width = h.userData.toNat / 2 ^ start % 2 ^ width := by
  rw [field, BitVec.extractLsb'_toNat, Nat.shiftRight_eq_div_pow]
  rfl

/-- The tag of a direction is what its two bits say. -/
lemma Direction.tag_ofTag (n : ℕ) : (ofTag n).tag = n % 4 := by
  have hlt : n % 4 < 4 := Nat.mod_lt n (by decide)
  rw [ofTag]
  generalize n % 4 = tag at hlt
  match tag with
  | 0 | 1 | 2 | 3 => rfl
  | _ + 4 => omega

/-- Different directions have different tags. -/
lemma Direction.tag_injective {d d' : Direction} (h : d.tag = d'.tag) : d = d' := by
  rw [← ofTag_tag d, h, ofTag_tag]

/-- The tag of a direction fits its two bits. -/
lemma Direction.tag_lt (direction : Direction) : direction.tag < 4 := by
  cases direction <;> decide

/-- The tag of an address space fits its four bits. -/
lemma tagOfSpace_lt (space : Option AddressSpace) : tagOfSpace space < 16 := by
  cases space with
  | none => decide
  | some space => cases space <;> decide

/-- A tag stands for the address space that has it. -/
lemma AddressSpace.ofTag?_eq_some_iff {n : ℕ} {space : AddressSpace} :
    ofTag? n = some space ↔ space.tag = n := by
  constructor
  · intro h
    unfold ofTag? at h
    split at h <;> cases h <;> rfl
  · rintro rfl
    exact ofTag?_tag space

namespace Packet

variable {p : Packet}

/-- A packet holds one message at most. -/
lemma Holds.unique {m m' : Message} (h : p.Holds m) (h' : p.Holds m') : m = m' := by
  have hlanes : m.lanes = m'.lanes := by
    apply List.ext_getElem
    · rw [h.active, h'.active]
    · intro i hi hi'
      have hlane : m.lanes[i].lane = m'.lanes[i].lane := by
        rw [← UInt64.toNat_inj, h.lane, h'.lane]
      have haddress : m.lanes[i].address = m'.lanes[i].address := by
        rw [← UInt64.toNat_inj, h.address, h'.address]
      exact congrArg₂ LaneAddress.mk hlane haddress
  have hspace : m.space = m'.space := by
    apply Option.ext
    intro space
    rw [h.space, h'.space]
  have hdirection := Direction.tag_injective (h.direction.trans h'.direction.symm)
  have hsize := UInt16.toNat_inj.mp (h.size.trans h'.size.symm)
  have hexec : m.exec = m'.exec := congrArg LaneMask.mk (h.exec.trans h'.exec.symm)
  have hfields : ∀ m : Message, m = ⟨m.space, m.direction, m.size, m.exec, m.lanes, m.fileHash,
      m.line, m.column, m.arch⟩ := fun _ => rfl
  rw [hfields m, hfields m', hspace, hdirection, hsize, hexec, hlanes, h.fileHash, h.line, h.column,
    h.arch, h'.fileHash, h'.line, h'.column, h'.arch]

/-- A packet of addresses is decoded to the message of its words, or to their mismatch. -/
lemma decode_of_words (htype : p.header.userType = 1) (hitem : p.header.itemSize = 8)
    (hpayload : 8 ∣ p.payload.length) :
    p.decode = if p.header.active = p.payload.length / 8 then
      .ok {
        space := p.header.space?, direction := p.header.direction, size := p.header.size
        exec := ⟨p.header.exec⟩
        lanes := (LaneMask.mk p.header.exec).lanes.zipWith
          (fun lane address => ⟨UInt64.ofNat lane, address⟩) (addressesOf p.payload)
        fileHash := p.header.fileHash, line := p.header.line, column := p.header.column
        arch := p.header.arch }
    else .error (.laneCount ⟨p.header.active, p.payload.length / 8⟩) := by
  have hbytes : p.header.itemSize.toNat = addressBytes := by rw [hitem]; rfl
  have hmod : p.payload.length % addressBytes = 0 := Nat.mod_eq_zero_of_dvd hpayload
  have hmask : (LaneMask.mk p.header.exec).activeCount = p.header.active :=
    LaneMask.activeCount_eq_count _
  by_cases hcount : p.header.active = p.payload.length / 8
  all_goals simp only [decode, htype, addressUserType, hbytes, hmod, Message.ofAddresses, hmask,
    length_addressesOf, hcount, ne_eq, not_true_eq_false, if_false, if_true]

/-- A packet of addresses with a word for every active lane is decoded to a message that it
holds. -/
lemma holds_of_decode (htype : p.header.userType = 1) (hitem : p.header.itemSize = 8)
    (hpayload : 8 ∣ p.payload.length) (hcount : p.header.active = p.payload.length / 8) :
    ∃ m, p.decode = .ok m ∧ p.Holds m := by
  have hlanes : (LaneMask.mk p.header.exec).lanes.length = p.header.active := by
    rw [LaneMask.length_lanes, LaneMask.activeCount_eq_count]
    rfl
  have haddresses : (addressesOf p.payload).length = p.header.active := by
    rw [length_addressesOf, hcount]
  rw [decode_of_words htype hitem hpayload, if_pos hcount]
  apply Exists.intro _
  apply And.intro rfl
  constructor
  case exec => rfl
  case active => rw [List.length_zipWith, hlanes, haddresses, Nat.min_self]
  case length =>
    rw [List.length_zipWith, hlanes, haddresses, Nat.min_self, hcount]
    exact (Nat.mul_div_cancel' hpayload).symm
  case lane =>
    intro i hi
    rw [List.getElem_zipWith, LaneMask.toNat_ofNat_getElem_lanes]
  case address =>
    intro i hi
    rw [List.getElem_zipWith, getElem_addressesOf]
  case direction =>
    rw [PacketHeader.field_eq, PacketHeader.direction, Direction.tag_ofTag]
    simp
  case space =>
    intro space
    rw [PacketHeader.field_eq]
    exact AddressSpace.ofTag?_eq_some_iff
  case size =>
    rw [PacketHeader.field_eq, PacketHeader.size]
    exact UInt16.toNat_ofNat'
  all_goals rfl

/-- The payload of a packet that holds a message consists of whole addresses. -/
lemma Holds.dvd_length {m : Message} (h : p.Holds m) : 8 ∣ p.payload.length :=
  Dvd.intro _ h.length.symm

/-- A packet that holds a message announces as many active lanes as it has addresses. -/
lemma Holds.active_eq {m : Message} (h : p.Holds m) :
    p.header.active = p.payload.length / 8 := by
  rw [h.length, h.active, Nat.mul_div_cancel_left _ (by decide)]

/-- A packet is decoded to what the layout says. -/
lemma Decodes.decode_eq {r : Except DecodeError Message} (h : p.Decodes r) : p.decode = r := by
  cases h with
  | notAnAddress htype => exact if_pos htype
  | itemSize htype hitem =>
    have hbytes : p.header.itemSize.toNat ≠ addressBytes := fun h =>
      hitem (UInt32.toNat_inj.mp h)
    simp only [decode, htype, addressUserType, hbytes, ne_eq, not_true_eq_false, if_false,
      not_false_eq_true, if_true]
  | truncatedPayload htype hitem hpayload =>
    have hbytes : p.header.itemSize.toNat = addressBytes := by rw [hitem]; rfl
    have hmod : p.payload.length % addressBytes ≠ 0 := fun h =>
      hpayload (Nat.dvd_of_mod_eq_zero h)
    simp only [decode, htype, addressUserType, hbytes, hmod, ne_eq, not_true_eq_false, if_false,
      not_false_eq_true, if_true]
  | laneCount htype hitem hpayload hcount =>
    rw [decode_of_words htype hitem hpayload, if_neg hcount]
  | message htype hitem hm =>
    obtain ⟨m', hdecode, hm'⟩ := holds_of_decode htype hitem hm.dvd_length hm.active_eq
    rw [hdecode, hm'.unique hm]

/-- A packet has one of the faults, or it holds a message. -/
lemma exists_decodes (p : Packet) : ∃ r, p.Decodes r := by
  by_cases htype : p.header.userType = 1
  case neg => exact ⟨_, .notAnAddress htype⟩
  by_cases hitem : p.header.itemSize = 8
  case neg => exact ⟨_, .itemSize htype hitem⟩
  by_cases hpayload : 8 ∣ p.payload.length
  case neg => exact ⟨_, .truncatedPayload htype hitem hpayload⟩
  by_cases hcount : p.header.active = p.payload.length / 8
  case neg => exact ⟨_, .laneCount htype hitem hpayload hcount⟩
  obtain ⟨m, -, hm⟩ := holds_of_decode htype hitem hpayload hcount
  exact ⟨_, .message htype hitem hm⟩

/-- The layout says of every packet what it is decoded to, and nothing else. -/
lemma decode_eq_iff_decodes {r : Except DecodeError Message} : p.decode = r ↔ p.Decodes r := by
  constructor
  · intro h
    obtain ⟨r', hr'⟩ := exists_decodes p
    rw [← h, hr'.decode_eq]
    exact hr'
  · exact Decodes.decode_eq

end Packet

/-! ## Packing -/

/-- The words of a payload are the numbers whose bytes it lists. -/
lemma wordAt_flatMap {α : Type} {f : α → ℕ} (hf : ∀ a, f a < 256 ^ 8) (as : List α) {i : ℕ}
    (h : i < as.length) :
    wordAt (as.flatMap fun a => toLittleEndian addressBytes (f a)) i = f as[i] := by
  induction as generalizing i with
  | nil => exact absurd h (Nat.not_lt_zero i)
  | cons a as ih =>
    have hchunk : (toLittleEndian addressBytes (f a)).length = 8 := length_toLittleEndian _ _
    rw [List.flatMap_cons]
    cases i with
    | zero =>
      rw [wordAt_append_zero hchunk]
      exact ofLittleEndian_toLittleEndian (hf a)
    | succ i =>
      rw [wordAt_append_succ hchunk]
      exact ih (Nat.lt_of_succ_lt_succ h)

namespace Message

variable {m : Message}

/-- A packed message has eight bytes for each lane. -/
lemma length_pack_payload (m : Message) : m.pack.payload.length = 8 * m.lanes.length := by
  simp [pack, addressBytes, List.length_flatMap, Nat.mul_comm]

/-- The packed word as a number: no part of it reaches into the next. -/
lemma toNat_pack_userData (m : Message) :
    m.pack.header.userData.toNat = m.direction.tag + 4 * tagOfSpace m.space + 64 * m.size.toNat := by
  have hdirection := m.direction.tag_lt
  have hspace := tagOfSpace_lt m.space
  have hsize : m.size.toNat < 2 ^ 16 := m.size.toNat_lt
  have hlt : m.direction.tag + 4 * tagOfSpace m.space + 64 * m.size.toNat < 2 ^ 32 := by omega
  exact UInt32.toNat_ofNat_of_lt' hlt

/-- A message of a named space whose lanes are those of its mask is held by its packet. -/
lemma pack_holds {space : AddressSpace} (hspace : m.space = some space)
    (hlanes : m.lanes.map (·.lane.toNat) = m.exec.lanes) : m.pack.Holds m where
  exec := rfl
  active := by
    rw [← List.length_map (·.lane.toNat), hlanes, LaneMask.length_lanes,
      LaneMask.activeCount_eq_count]
    rfl
  length := length_pack_payload m
  lane := by
    intro i hi
    have hi' : i < m.exec.lanes.length := by rw [← hlanes, List.length_map]; exact hi
    have hlane := m.exec.getElem_lanes hi'
    simp only [← hlanes, List.getElem_map] at hlane
    exact hlane
  address := by
    intro i hi
    have hlt : ∀ access : LaneAddress, access.address.toNat < 256 ^ 8 := fun access =>
      access.address.toNat_lt
    exact (wordAt_flatMap hlt m.lanes hi).symm
  direction := by
    have hdirection := m.direction.tag_lt
    rw [PacketHeader.field_eq, toNat_pack_userData]
    omega
  space := by
    intro space'
    have hdirection := m.direction.tag_lt
    have htag := tagOfSpace_lt m.space
    have hfield : m.pack.header.field 2 4 = tagOfSpace m.space := by
      rw [PacketHeader.field_eq, toNat_pack_userData]
      omega
    rw [hfield, hspace, tagOfSpace, ← AddressSpace.ofTag?_eq_some_iff, AddressSpace.ofTag?_tag]
  size := by
    have hdirection := m.direction.tag_lt
    have htag := tagOfSpace_lt m.space
    have hsize : m.size.toNat < 2 ^ 16 := m.size.toNat_lt
    rw [PacketHeader.field_eq, toNat_pack_userData]
    omega
  fileHash := rfl
  line := rfl
  column := rfl
  arch := rfl

/-- A message that is made of addresses is to the given space, and by the active lanes. -/
lemma lanes_of_ofAddresses {space : Option AddressSpace} {direction : Direction} {size : UInt16}
    {exec : LaneMask} {addresses : List UInt64}
    (h : ofAddresses space direction size exec addresses = .ok m) :
    m.space = space ∧ m.lanes.map (·.lane.toNat) = m.exec.lanes := by
  rw [ofAddresses] at h
  split at h
  case isFalse => cases h
  case isTrue hcount =>
    cases h
    apply And.intro rfl
    have hlength : exec.lanes.length = addresses.length := by rw [LaneMask.length_lanes, hcount]
    apply List.ext_getElem
    · rw [List.length_map, List.length_zipWith, hlength, Nat.min_self]
    · intro i hi hi'
      rw [List.getElem_map, List.getElem_zipWith, LaneMask.toNat_ofNat_getElem_lanes,
        LaneMask.getElem_lanes]

end Message

/-- A packet is decoded to the first of the four faults that it has, or else to the message that it
holds. Every message of a named space, wherever it comes from, is packed into a packet that holds it
and is decoded to it. -/
theorem Packet.decode_follows_layout :
    (∀ (p : Packet) (r : Except DecodeError Message), p.decode = r ↔ p.Decodes r) ∧
    ∀ (space : AddressSpace) (direction : Direction) (size : UInt16) (exec : LaneMask)
      (addresses : List UInt64) (m : Message),
      Message.ofAddresses (some space) direction size exec addresses = .ok m →
      ∀ (fileHash : UInt64) (line column : UInt32) (arch : UInt8),
        let located := { m with fileHash, line, column, arch }
        located.pack.Decodes (.ok located) ∧ located.pack.decode = .ok located := by
  apply And.intro (fun p r => decode_eq_iff_decodes)
  intro space direction size exec addresses m hm fileHash line column arch located
  obtain ⟨hspace, hlanes⟩ := Message.lanes_of_ofAddresses hm
  have hdecodes : located.pack.Decodes (.ok located) :=
    .message rfl rfl (Message.pack_holds (m := located) hspace hlanes)
  exact ⟨hdecodes, hdecodes.decode_eq⟩

/-- A write of four bytes to shared memory by the lanes 1 and 3. -/
def twoLaneWrite : Message where
  space := some .shared
  direction := .write
  size := 4
  exec := ⟨10⟩
  lanes := [⟨1, 0x1122334455667788⟩, ⟨3, 5⟩]
  fileHash := 7
  line := 30
  column := 12
  arch := 2

/-- Addresses stand in a payload least significant byte first. Three bytes are no address. -/
theorem Packet.decode_follows_layout_of_two_lanes :
    twoLaneWrite.pack.decode = .ok twoLaneWrite ∧
    twoLaneWrite.pack.payload =
      [0x88, 0x77, 0x66, 0x55, 0x44, 0x33, 0x22, 0x11, 5, 0, 0, 0, 0, 0, 0, 0] ∧
    { twoLaneWrite.pack with payload := [1, 2, 3] }.decode = .error (.truncatedPayload 3) := by
  refine ⟨?_, rfl, ?_⟩
  · exact (decode_follows_layout.2 .shared .write 4 ⟨10⟩ [0x1122334455667788, 5]
      { twoLaneWrite with fileHash := 0, line := 0, column := 0, arch := 0 } rfl 7 30 12 2).2
  · exact (decode_follows_layout.1 _ _).mpr (.truncatedPayload rfl rfl (by decide))

end WaveAccess
