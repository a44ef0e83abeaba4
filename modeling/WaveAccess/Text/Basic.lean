/-!
# Texts

Blanks are the characters of the Unicode property `White_Space`, which are cut off at both ends of a
text. A line ends before a line feed, and a carriage return directly before that line feed belongs
to the line end. What follows the last line feed is a line of its own unless it is empty, and keeps
its carriage return. Numerals are decimal or hexadecimal without leading zeros, or set flush right
in a column.
-/

namespace WaveAccess.Text

/-! ## Blanks -/

/-- Whether a character has the Unicode property `White_Space`. -/
def isBlank (c : Char) : Bool :=
  let n := c.toNat
  (9 ≤ n && n ≤ 13) || n == 0x20 || n == 0x85 || n == 0xa0 || n == 0x1680 ||
    (0x2000 ≤ n && n ≤ 0x200a) || n == 0x2028 || n == 0x2029 || n == 0x202f || n == 0x205f ||
    n == 0x3000

/-- The text between the first and the last character that is no blank. -/
def trim (text : String) : String :=
  let start := text.toList.dropWhile isBlank
  String.ofList (start.reverse.dropWhile isBlank).reverse

/-! ## Lines -/

/-- The lines of a list of characters, without their line ends. -/
def linesOf : List Char → List (List Char)
  | [] => []
  | '\n' :: rest => [] :: linesOf rest
  | '\r' :: '\n' :: rest => [] :: linesOf rest
  | c :: rest =>
    match linesOf rest with
    | [] => [[c]]
    | line :: lines => (c :: line) :: lines

/-- The lines of a text, without their line ends. -/
def lines (text : String) : List String :=
  (linesOf text.toList).map String.ofList

/-- A text with every tab replaced by eight spaces. -/
def expandTabs (text : String) : String :=
  String.ofList (text.toList.flatMap fun c => if c = '\t' then List.replicate 8 ' ' else [c])

/-! ## Numerals -/

/-- The decimal digit of a number below ten. -/
def digitChar (d : Nat) : Char :=
  Char.ofNat ('0'.toNat + d)

/-- The decimal digits of a number, most significant first. -/
def decimal (n : Nat) : List Char :=
  if n < 10 then [digitChar n] else decimal (n / 10) ++ [digitChar (n % 10)]

/-- The hexadecimal digit of a number below sixteen, in lower case. -/
def hexDigit (d : Nat) : Char :=
  if d < 10 then digitChar d else Char.ofNat ('a'.toNat + (d - 10))

/-- The hexadecimal digits of a number, most significant first. -/
def hexadecimal (n : Nat) : List Char :=
  if n < 16 then [hexDigit n] else hexadecimal (n / 16) ++ [hexDigit (n % 16)]

/-- A number as a hexadecimal numeral with its mark, such as `0x1f`. -/
def hexLiteral (n : Nat) : String :=
  String.ofList ('0' :: 'x' :: hexadecimal n)

/-- A number in decimal, with blanks before it up to a width of two. -/
def twoColumns (n : Nat) : String :=
  String.ofList (if n < 10 then ' ' :: decimal n else decimal n)

end WaveAccess.Text
