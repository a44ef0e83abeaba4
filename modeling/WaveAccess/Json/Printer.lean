import WaveAccess.Json.Basic
import WaveAccess.Text.Basic

/-!
# Writing JSON

Values are written in one of two layouts: on a single line without blanks, or with every item and
member on a line of its own, indented by two blanks for each array or object around it. An empty
array or object is written without a line break in both. The quote, the backslash and the controls
of ASCII are escaped and all other characters stand for themselves.
-/

namespace WaveAccess.Json

/-- How a value is laid out. -/
inductive Layout where
  | compact
  /-- One line per item, inside `depth` arrays and objects. -/
  | indented (depth : Nat)

namespace Layout

/-- The layout of the items inside an array or object. -/
def deeper : Layout → Layout
  | .compact => .compact
  | .indented depth => .indented (depth + 1)

/-- What stands before an item or a closing bracket. -/
def lineBreak : Layout → List Char
  | .compact => []
  | .indented depth => '\n' :: List.replicate (2 * depth) ' '

/-- What stands between a member's name and its value. -/
def colon : Layout → List Char
  | .compact => [':']
  | .indented _ => [':', ' ']

end Layout

/-- A `\u` escape of a code unit. -/
def escapeCode (n : Nat) : List Char :=
  ['\\', 'u', Text.hexDigit (n / 4096 % 16), Text.hexDigit (n / 256 % 16),
    Text.hexDigit (n / 16 % 16), Text.hexDigit (n % 16)]

/-- A character as it is written inside a string. -/
def escapeChar (c : Char) : List Char :=
  if c = '"' then ['\\', '"']
  else if c = '\\' then ['\\', '\\']
  else if c = '\n' then ['\\', 'n']
  else if c = '\r' then ['\\', 'r']
  else if c = '\t' then ['\\', 't']
  else if c.toNat = 8 then ['\\', 'b']
  else if c.toNat = 12 then ['\\', 'f']
  else if c.toNat < 0x20 then escapeCode c.toNat
  else [c]

/-- A piece as it is written inside a string. A piece that denotes no character is written as half
of a surrogate pair, which denotes none either. -/
def escapePiece : Piece → List Char
  | some c => escapeChar c
  | none => escapeCode 0xd800

/-- A string literal. -/
def renderString (pieces : List Piece) : List Char :=
  '"' :: pieces.flatMap escapePiece ++ ['"']

/-- The sign of a number. -/
def renderSign (negative : Bool) : List Char :=
  if negative then ['-'] else []

/-- A number literal. -/
def renderNumber : Number → List Char
  | .integer negative n => renderSign negative ++ Text.decimal n
  | .decimal negative digits exponent =>
    renderSign negative ++ Text.decimal digits ++
      'e' :: renderSign (exponent < 0) ++ Text.decimal exponent.natAbs

mutual

/-- The text of a value. -/
def render (layout : Layout) : Json → List Char
  | .null => ['n', 'u', 'l', 'l']
  | .bool true => ['t', 'r', 'u', 'e']
  | .bool false => ['f', 'a', 'l', 's', 'e']
  | .number n => renderNumber n
  | .string pieces => renderString pieces
  | .array [] => ['[', ']']
  | .array (item :: items) =>
    '[' :: layout.deeper.lineBreak ++ render layout.deeper item ++
      renderItems layout.deeper items ++ layout.lineBreak ++ [']']
  | .object [] => ['\x7b', '\x7d']
  | .object ((name, value) :: members) =>
    '\x7b' :: layout.deeper.lineBreak ++ renderString name ++ layout.colon ++
      render layout.deeper value ++ renderMembers layout.deeper members ++
      layout.lineBreak ++ ['\x7d']

/-- The items of an array after the first. -/
def renderItems (layout : Layout) : List Json → List Char
  | [] => []
  | item :: items =>
    ',' :: layout.lineBreak ++ render layout item ++ renderItems layout items

/-- The members of an object after the first. -/
def renderMembers (layout : Layout) : List (List Piece × Json) → List Char
  | [] => []
  | (name, value) :: members =>
    ',' :: layout.lineBreak ++ renderString name ++ layout.colon ++ render layout value ++
      renderMembers layout members

end

/-- A value on one line. -/
def compact (value : Json) : String :=
  String.ofList (render .compact value)

/-- A value with one line per item. -/
def pretty (value : Json) : String :=
  String.ofList (render (.indented 0) value)

end WaveAccess.Json
