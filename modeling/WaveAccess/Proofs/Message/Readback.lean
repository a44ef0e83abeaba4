import Mathlib.Data.Nat.BitIndices
import WaveAccess.Command.Files
import WaveAccess.Proofs.FileTree.Replacement
import WaveAccess.Proofs.Json.Records
import WaveAccess.Proofs.Json.RoundTrip

/-!
# Messages are read as they are written

Each field of a message is decoded to what it was encoded from, whether or not the lanes fit the
execution mask. A mask is written as the integer whose bits are its active lanes, and integers keep
all their digits. So a file that messages were written to gives these messages.
-/

namespace WaveAccess

/-! ## Masks -/

namespace LaneMask

/-- The active lanes are the places of ones in the binary digits of the mask. -/
lemma lanes_eq_bitIndices (mask : LaneMask) : mask.lanes = mask.toNat.bitIndices := by
  have hlt : mask.toNat < 2 ^ waveLanes := mask.bits.toNat_lt
  apply List.SortedLT.eq_of_mem_iff mask.pairwise_lanes.sortedLT Nat.bitIndices_sorted
  intro lane
  rw [mem_lanes, Nat.mem_bitIndices, isActive]
  constructor
  · exact And.right
  · intro hlane
    exact ⟨(Nat.pow_lt_pow_iff_right (by decide)).mp
      ((Nat.ge_two_pow_of_testBit hlane).trans_lt hlt), hlane⟩

/-- As an integer, a mask is the sum of the powers of two of its active lanes. -/
lemma sum_two_pow_lanes (mask : LaneMask) : (mask.lanes.map (2 ^ ·)).sum = mask.toNat := by
  rw [lanes_eq_bitIndices]
  exact Nat.sum_map_two_pow_bitIndices _

/-- A mask is read back. -/
lemma ofJson?_toJson (mask : LaneMask) : ofJson? mask.toJson = some mask := by
  rw [ofJson?, toJson, toNat, Json.uint64?_ofNat, Option.map_some]

end LaneMask

/-! ## Messages -/

/-- The name of an address space is read back. -/
lemma AddressSpace.ofJson?_ofText (space : AddressSpace) :
    ofJson? (.ofText space.name) = some space := by
  rw [ofJson?, Json.choice?_ofText, Option.bind_some, ofName?_name]

/-- The name of a direction is read back. -/
lemma Direction.ofJson?_ofText (direction : Direction) :
    ofJson? (.ofText direction.name) = some direction := by
  rw [ofJson?, Json.choice?_ofText, Option.bind_some, ofName?_name]

/-- The address of a lane is read back. -/
lemma LaneAddress.ofJson?_toJson (a : LaneAddress) : ofJson? a.toJson = some a := by
  rw [ofJson?, toJson, Json.fields?_ofMembers]
  · simp [Json.required]
  · rfl
  · decide

namespace Message

/-- A message is decoded, be its lanes those of its mask or not. -/
lemma ofJson?_toJson (m : Message) : ofJson? m.toJson = some m := by
  have hspace : (Json.ofOption (fun space => .ofText space.name) m.space).optional?
      AddressSpace.ofJson? = some m.space :=
    Json.optional?_ofOption AddressSpace.ofJson?_ofText (fun _ => nofun) m.space
  rw [ofJson?, toJson, Json.fields?_ofMembers]
  · simp [Json.required, Json.optional, hspace, Direction.ofJson?_ofText,
      LaneMask.ofJson?_toJson, Json.list?_ofList LaneAddress.ofJson?_toJson]
  · rfl
  · decide

/-- A list of messages is read back. -/
lemma listOfJson?_listToJson (messages : List Message) :
    listOfJson? (listToJson messages) = some messages :=
  Json.list?_ofList ofJson?_toJson messages

/-- The text of messages, in any layout and with any white space behind it. -/
def textOf (layout : Json.Layout) (blanks : List Char) (messages : List Message) : String :=
  String.ofList (Json.render layout (listToJson messages) ++ blanks)

variable {blanks : List Char}

/-- The text of a list of messages is read back, whatever blanks follow it. -/
lemma ofText?_textOf (layout : Json.Layout) (messages : List Message)
    (hblanks : ∀ c ∈ blanks, Json.Token.isSpace c = true) :
    (Json.ofText? (textOf layout blanks messages)).bind listOfJson? = some messages := by
  have hread := Json.ofPieces?_render layout (listToJson messages) blanks hblanks
  rw [Json.ofText?, Json.piecesOf, textOf, String.toList_ofList, hread, Option.bind_some,
    listOfJson?_listToJson]

/-- Messages are read from the file that their text was written to. -/
lemma readMessages_of_lookup {t : FileTree} {p : Path} {layout : Json.Layout}
    {messages : List Message} (hblanks : ∀ c ∈ blanks, Json.Token.isSpace c = true)
    (h : t.lookup p = .ok (.file (textOf layout blanks messages).toUTF8)) :
    t.readMessages p = .ok messages := by
  have hread := ofText?_textOf layout messages hblanks
  rw [FileTree.readMessages, FileTree.load?, FileTree.openAt, h]
  simp only [Json.ofBytes?_toUTF8, hread]

/-- Messages that were written to a file as JSON are read from it as they were: as one line or as
many, with or without white space at the end, and whatever was in the file before. Nothing is lost
of a mask, as it is written as the integer that has a one for each active lane. -/
theorem written_messages_read_back (messages : List Message) (layout : Json.Layout)
    (hblanks : ∀ c ∈ blanks, Json.Token.isSpace c = true) :
    (Json.ofText? (textOf layout blanks messages)).bind listOfJson? = some messages ∧
      (∀ t p, t.lookup p = .ok (.file (textOf layout blanks messages).toUTF8) →
        FileTree.readMessages t p = .ok messages) ∧
      (∀ t p t', FileTree.replace t p (textOf layout blanks messages).toUTF8 = (t', none) →
        t'.readMessages p = .ok messages) ∧
      ∀ m ∈ messages,
        let bits := (m.exec.lanes.map (2 ^ ·)).sum
        m.exec.toJson = .ofNat bits ∧ LaneMask.ofJson? (.ofNat bits) = some m.exec := by
  refine ⟨ofText?_textOf layout messages hblanks, ?_, ?_, ?_⟩
  · intro t p h
    exact readMessages_of_lookup hblanks h
  · intro t p t' h
    exact readMessages_of_lookup hblanks (FileTree.lookup_of_replace h)
  · intro m _ bits
    have hbits : bits = m.exec.toNat := m.exec.sum_two_pow_lanes
    rw [hbits]
    exact ⟨rfl, LaneMask.ofJson?_toJson m.exec⟩

/-- A message of no known space whose lanes are not those of its mask, with the greatest numbers. -/
def sampleMessage : Message where
  space := none
  direction := .readWrite
  size := 0xffff
  exec := ⟨0x8000000000000001⟩
  lanes := [⟨64, 0xffffffffffffffff⟩, ⟨0, 0x20000000000001⟩, ⟨0, 0⟩]
  fileHash := 0xffffffffffffffff
  line := 0xffffffff
  column := 0
  arch := 0xff

/-- The message is read from a new file. -/
theorem written_messages_read_back_from_new_file :
    (∀ c ∈ ['\n'], Json.Token.isSpace c = true) ∧
      ∃ t', FileTree.replace (.empty []) ⟨"messages.json"⟩
          (textOf .compact ['\n'] [sampleMessage]).toUTF8 = (t', none) ∧
        t'.readMessages ⟨"messages.json"⟩ = .ok [sampleMessage] := by
  have hblanks : ∀ c ∈ ['\n'], Json.Token.isSpace c = true := List.forall_mem_singleton.mpr rfl
  have hfault : ((FileTree.empty []).replace ⟨"messages.json"⟩
      (textOf .compact ['\n'] [sampleMessage]).toUTF8).2 = none := by
    decide +kernel
  obtain ⟨-, -, hreplaced, -⟩ := written_messages_read_back [sampleMessage] .compact hblanks
  rcases hwritten : (FileTree.empty []).replace ⟨"messages.json"⟩
      (textOf .compact ['\n'] [sampleMessage]).toUTF8 with ⟨t', fault⟩
  rw [hwritten] at hfault
  cases hfault
  exact ⟨hblanks, t', rfl, hreplaced _ _ t' hwritten⟩

end Message

end WaveAccess
