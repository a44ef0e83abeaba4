/-!
# JSON values

A value keeps what its text said: a number is a literal and not a rounded quantity, an object lists
its members in order and may repeat a name, and a string is a list of pieces, where a piece that
denotes no character (a lone surrogate escape, a byte outside UTF-8) is kept as `none`. Whether such
a literal, name or piece is acceptable is for the decoder that uses it to say, so a value that
nobody looks at is only held to the grammar.
-/

namespace WaveAccess

/-- A piece of a JSON string: the character that it denotes, if it denotes one. -/
abbrev Json.Piece := Option Char

/-- A number as it was written. -/
inductive Json.Number where
  /-- A literal without fraction and exponent. -/
  | integer (negative : Bool) (magnitude : Nat)
  /-- The literal's digits as an integer, to be scaled by a power of ten. -/
  | decimal (negative : Bool) (digits : Nat) (exponent : Int)
  deriving DecidableEq, Repr

/-- A JSON value. -/
inductive Json where
  | null
  | bool (value : Bool)
  | number (value : Json.Number)
  | string (pieces : List Json.Piece)
  | array (items : List Json)
  | object (members : List (List Json.Piece × Json))
  deriving Repr

namespace Json

/-- The pieces of a text: each of its characters. -/
def piecesOf (text : String) : List Piece :=
  text.toList.map some

/-- The text that pieces denote, if each of them denotes a character. -/
def textOf? (pieces : List Piece) : Option String :=
  (pieces.mapM id).map String.ofList

/-- A text as a value. -/
def ofText (text : String) : Json :=
  .string (piecesOf text)

/-- A natural number as a value. -/
def ofNat (n : Nat) : Json :=
  .number (.integer false n)

/-- An optional value, where `null` stands for none. -/
def ofOption {α : Type} (encode : α → Json) : Option α → Json
  | none => .null
  | some a => encode a

/-- A list as an array. -/
def ofList {α : Type} (encode : α → Json) (items : List α) : Json :=
  .array (items.map encode)

/-- An object from the names and values of its members. -/
def ofMembers (members : List (String × Json)) : Json :=
  .object (members.map fun (name, value) => (piecesOf name, value))

/-- A list of characters is the list of its pieces. -/
theorem mapM_id_map_some (cs : List Char) : (cs.map some).mapM id = some cs := by
  induction cs with
  | nil => rfl
  | cons c cs ih => simp [List.mapM_cons, ih]

/-- A text is the text of its pieces. -/
@[simp]
theorem textOf?_piecesOf (text : String) : textOf? (piecesOf text) = some text := by
  rw [textOf?, piecesOf, mapM_id_map_some, Option.map_some, String.ofList_toList]

end Json

end WaveAccess
