import WaveAccess.Json.Basic

/-!
# JSON tokens

The lexical level of JSON. A text is read as pieces; `Token.scan?` cuts them into brackets, commas,
colons, words, numbers and strings and drops the white space between them. Two tokens that touch are
still two tokens: whether they may stand side by side is for the grammar.
-/

namespace WaveAccess.Json

/-- A lexical unit of JSON. -/
inductive Token where
  | openArray
  | closeArray
  | openObject
  | closeObject
  | comma
  | colon
  | null
  | bool (value : Bool)
  | number (value : Number)
  | string (pieces : List Piece)
  deriving DecidableEq, Repr

namespace Token

/-- White space between tokens. -/
def isSpace (c : Char) : Bool :=
  c = ' ' || c = '\n' || c = '\t' || c = '\r'

/-- The value of a decimal digit. -/
def digit? (c : Char) : Option Nat :=
  if '0' ≤ c ∧ c ≤ '9' then some (c.toNat - '0'.toNat) else none

/-- The value of a hexadecimal digit in either case. -/
def hexDigit? (c : Char) : Option Nat :=
  if '0' ≤ c ∧ c ≤ '9' then some (c.toNat - '0'.toNat)
  else if 'a' ≤ c ∧ c ≤ 'f' then some (c.toNat - 'a'.toNat + 10)
  else if 'A' ≤ c ∧ c ≤ 'F' then some (c.toNat - 'A'.toNat + 10)
  else none

/-! ## Strings -/

/-- What one element of a string literal stands for before surrogates are joined. -/
inductive Element where
  | piece (p : Piece)
  /-- The UTF-16 code unit of a `\u` escape. -/
  | code (n : Nat)

/-- Whether a code unit is the first half of a surrogate pair. -/
def isHighSurrogate (n : Nat) : Bool :=
  0xd800 ≤ n && n < 0xdc00

/-- Whether a code unit is the second half of a surrogate pair. -/
def isLowSurrogate (n : Nat) : Bool :=
  0xdc00 ≤ n && n < 0xe000

/-- The piece of a code unit that stands alone: a character, unless it is half of a pair. -/
def pieceOfCode (n : Nat) : Piece :=
  if isHighSurrogate n || isLowSurrogate n then none else some (Char.ofNat n)

/-- The character of a surrogate pair. -/
def pieceOfPair (high low : Nat) : Piece :=
  some (Char.ofNat (0x10000 + (high - 0xd800) * 0x400 + (low - 0xdc00)))

/-- The pieces of elements given in reverse order, put before `after`. -/
def joinReversed : List Element → List Piece → List Piece
  | [], after => after
  | .piece p :: before, after => joinReversed before (p :: after)
  | [.code n], after => pieceOfCode n :: after
  | .code n :: .piece p :: before, after => joinReversed before (p :: pieceOfCode n :: after)
  | .code low :: .code high :: before, after =>
    if isHighSurrogate high && isLowSurrogate low then
      joinReversed before (pieceOfPair high low :: after)
    else joinReversed (.code high :: before) (pieceOfCode low :: after)

/-- The character of a one-letter escape. -/
def unescape? (c : Char) : Option Char :=
  if c = '"' then some '"'
  else if c = '\\' then some '\\'
  else if c = '/' then some '/'
  else if c = 'b' then some (Char.ofNat 8)
  else if c = 'f' then some (Char.ofNat 12)
  else if c = 'n' then some '\n'
  else if c = 'r' then some '\r'
  else if c = 't' then some '\t'
  else none

/-- How far the reading of a string literal has come. -/
inductive StringMode where
  | plain
  /-- A backslash has been read. -/
  | escape
  /-- Of a `\u` escape, `count` digits with the value `value` have been read. -/
  | hex (count value : Nat)

/-- Reads a string literal after its opening quote: its elements in reverse order, and the rest. -/
def scanElements? (elements : List Element) :
    StringMode → List Piece → Option (List Element × List Piece)
  | _, [] => none
  | .plain, p :: rest =>
    if p = some '"' then some (elements, rest)
    else if p = some '\\' then scanElements? elements .escape rest
    else if p.any (·.toNat < 0x20) then none
    else scanElements? (.piece p :: elements) .plain rest
  | .escape, p :: rest =>
    if p = some 'u' then scanElements? elements (.hex 0 0) rest
    else
      match p.bind unescape? with
      | some c => scanElements? (.piece (some c) :: elements) .plain rest
      | none => none
  | .hex count value, p :: rest =>
    match p.bind hexDigit? with
    | none => none
    | some d =>
      if count = 3 then scanElements? (.code (value * 16 + d) :: elements) .plain rest
      else scanElements? elements (.hex (count + 1) (value * 16 + d)) rest

/-- Reads a string literal after its opening quote. -/
def scanString? (input : List Piece) : Option (Token × List Piece) :=
  (scanElements? [] .plain input).map fun (elements, rest) =>
    (.string (joinReversed elements []), rest)

/-! ## Numbers and words -/

/-- The digits that a text begins with, and the rest. -/
def spanDigits : List Piece → List Nat × List Piece
  | [] => ([], [])
  | p :: rest =>
    match p.bind digit? with
    | some d => let (ds, after) := spanDigits rest; (d :: ds, after)
    | none => ([], p :: rest)

/-- The number that decimal digits denote. -/
def valueOfDigits (ds : List Nat) : Nat :=
  ds.foldl (fun n d => n * 10 + d) 0

/-- Reads an optional sign out of those that are allowed: whether it is a minus, and the rest. -/
def spanSign (plusAllowed : Bool) : List Piece → Bool × List Piece
  | some '-' :: rest => (true, rest)
  | some '+' :: rest => if plusAllowed then (false, rest) else (false, some '+' :: rest)
  | input => (false, input)

/-- Reads the fraction of a number, if one follows: its digits, and the rest. -/
def scanFraction? : List Piece → Option (Option (List Nat) × List Piece)
  | some '.' :: rest =>
    match spanDigits rest with
    | ([], _) => none
    | (ds, after) => some (some ds, after)
  | input => some (none, input)

/-- Reads the exponent of a number, if one follows. -/
def scanExponent? : List Piece → Option (Option Int × List Piece)
  | some c :: rest =>
    if c = 'e' ∨ c = 'E' then
      let (negative, digits) := spanSign true rest
      match spanDigits digits with
      | ([], _) => none
      | (ds, after) =>
        let n : Int := valueOfDigits ds
        some (some (if negative then -n else n), after)
    else some (none, some c :: rest)
  | input => some (none, input)

/-- Whether digits can be the whole part of a number: there is one, and no idle zero leads. -/
def isWholePart : List Nat → Bool
  | [] => false
  | [_] => true
  | d :: _ => d != 0

/-- Reads a number. -/
def scanNumber? (input : List Piece) : Option (Token × List Piece) := do
  let (negative, unsigned) := spanSign false input
  let (whole, afterWhole) := spanDigits unsigned
  if !isWholePart whole then none
  let (fraction, afterFraction) ← scanFraction? afterWhole
  let (exponent, rest) ← scanExponent? afterFraction
  let number :=
    match fraction, exponent with
    | none, none => Number.integer negative (valueOfDigits whole)
    | _, _ =>
      let decimals := fraction.getD []
      .decimal negative (valueOfDigits (whole ++ decimals)) (exponent.getD 0 - decimals.length)
  some (.number number, rest)

/-- The rest after a given word, if the text begins with it. -/
def afterWord? : List Char → List Piece → Option (List Piece)
  | [], input => some input
  | c :: word, p :: rest => if p = some c then afterWord? word rest else none
  | _ :: _, [] => none

/-- The token of a single character. -/
def punctuation? (c : Char) : Option Token :=
  if c = '[' then some .openArray
  else if c = ']' then some .closeArray
  else if c = '\x7b' then some .openObject
  else if c = '\x7d' then some .closeObject
  else if c = ',' then some .comma
  else if c = ':' then some .colon
  else none

/-- Reads the token that begins with `c`. -/
def next? (c : Char) (rest : List Piece) : Option (Token × List Piece) :=
  match punctuation? c with
  | some token => some (token, rest)
  | none =>
    if c = '"' then scanString? rest
    else if c = 'n' then (afterWord? ['u', 'l', 'l'] rest).map (.null, ·)
    else if c = 't' then (afterWord? ['r', 'u', 'e'] rest).map (.bool true, ·)
    else if c = 'f' then (afterWord? ['a', 'l', 's', 'e'] rest).map (.bool false, ·)
    else scanNumber? (some c :: rest)

/-- Cuts a text into tokens, which come out behind `tokens` in reverse order. Every token takes at
least one piece, so as much fuel as there are pieces is enough. -/
def scanFrom? : Nat → List Token → List Piece → Option (List Token)
  | _, tokens, [] => some tokens.reverse
  | 0, _, _ :: _ => none
  | _ + 1, _, none :: _ => none
  | fuel + 1, tokens, some c :: rest =>
    if isSpace c then scanFrom? fuel tokens rest
    else
      match next? c rest with
      | some (token, after) => scanFrom? fuel (token :: tokens) after
      | none => none

/-- The tokens of a text. -/
def scan? (input : List Piece) : Option (List Token) :=
  scanFrom? input.length [] input

end Token

end WaveAccess.Json
