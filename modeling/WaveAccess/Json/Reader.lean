import WaveAccess.Json.Token

/-!
# Reading JSON

The grammar of JSON as a machine that takes one token at a time. Its state says what may come next
and which arrays and objects are still open, so a text is accepted exactly if its tokens lead from
the initial state to a finished value.
-/

namespace WaveAccess.Json

/-- An array or object that is still open, with what it holds so far in reverse order. -/
inductive Frame where
  | array (items : List Json)
  /-- An object that waits for the value of `name`. -/
  | object (members : List (List Piece × Json)) (name : List Piece)

/-- What a reader expects next, inside the frames that are open around it. -/
inductive Reader where
  | value (frames : List Frame)
  /-- The first item of an array, or its end. -/
  | itemOrEnd (frames : List Frame)
  /-- The first member of an object, or its end. -/
  | memberOrEnd (frames : List Frame)
  /-- A further member of an object. -/
  | member (members : List (List Piece × Json)) (frames : List Frame)
  /-- The colon after a member's name. -/
  | colon (members : List (List Piece × Json)) (name : List Piece) (frames : List Frame)
  /-- A comma or the end of an array. -/
  | afterItem (items : List Json) (frames : List Frame)
  /-- A comma or the end of an object. -/
  | afterMember (members : List (List Piece × Json)) (frames : List Frame)
  /-- Nothing: the value is complete. -/
  | finished (value : Json)

namespace Reader

/-- A value is complete: it goes into the innermost open frame. -/
def complete (value : Json) : List Frame → Reader
  | [] => .finished value
  | .array items :: frames => .afterItem (value :: items) frames
  | .object members name :: frames => .afterMember ((name, value) :: members) frames

/-- The token that a value begins with. -/
def beginValue? (frames : List Frame) : Token → Option Reader
  | .null => some (complete .null frames)
  | .bool b => some (complete (.bool b) frames)
  | .number n => some (complete (.number n) frames)
  | .string s => some (complete (.string s) frames)
  | .openArray => some (.itemOrEnd frames)
  | .openObject => some (.memberOrEnd frames)
  | _ => none

/-- Takes one token, if the grammar allows it here. -/
def step? : Reader → Token → Option Reader
  | .value frames, token => beginValue? frames token
  | .itemOrEnd frames, .closeArray => some (complete (.array []) frames)
  | .itemOrEnd frames, token => beginValue? (.array [] :: frames) token
  | .memberOrEnd frames, .closeObject => some (complete (.object []) frames)
  | .memberOrEnd frames, .string name => some (.colon [] name frames)
  | .member members frames, .string name => some (.colon members name frames)
  | .colon members name frames, .colon => some (.value (.object members name :: frames))
  | .afterItem items frames, .comma => some (.value (.array items :: frames))
  | .afterItem items frames, .closeArray => some (complete (.array items.reverse) frames)
  | .afterMember members frames, .comma => some (.member members frames)
  | .afterMember members frames, .closeObject => some (complete (.object members.reverse) frames)
  | _, _ => none

end Reader

/-- The value that tokens spell, if they spell exactly one. -/
def ofTokens? (tokens : List Token) : Option Json :=
  match tokens.foldlM Reader.step? (.value []) with
  | some (.finished value) => some value
  | _ => none

/-- The value that a text in pieces spells. -/
def ofPieces? (input : List Piece) : Option Json :=
  (Token.scan? input).bind ofTokens?

/-! ## Bytes -/

/-- The pieces of the bytes from position `i` on, where a byte that begins no character counts as a
piece of its own. Each piece takes a byte at least, so as much fuel as there are bytes is enough. -/
def decodeFrom (bytes : ByteArray) : Nat → Nat → List Piece
  | 0, _ => []
  | fuel + 1, i =>
    if i < bytes.size then
      match bytes.utf8DecodeChar? i with
      | some c => some c :: decodeFrom bytes fuel (i + c.utf8Size)
      | none => none :: decodeFrom bytes fuel (i + 1)
    else []

/-- The pieces of a file's content: the characters of UTF-8 text, and the bytes that are none. -/
def decode (bytes : ByteArray) : List Piece :=
  match String.fromUTF8? bytes with
  | some text => piecesOf text
  | none => decodeFrom bytes bytes.size 0

/-- The value that a file's content spells. -/
def ofBytes? (bytes : ByteArray) : Option Json :=
  ofPieces? (decode bytes)

/-- The value that a text spells. -/
def ofText? (text : String) : Option Json :=
  ofPieces? (piecesOf text)

end WaveAccess.Json
