import WaveAccess.Text.Basic

/-!
# Binary floating point numbers

Magnitudes of 64-bit floating point numbers as an integer times a power of two: the one that a
decimal literal denotes, and the shortest decimal fraction that is nearer to it than to its
neighbours, in positional or in scientific notation. Everything is exact arithmetic on natural
numbers.
-/

namespace WaveAccess

/-- The magnitude `mantissa * 2 ^ exponent`. -/
structure Binary64 where
  mantissa : Nat
  exponent : Int
  deriving DecidableEq, Repr

namespace Binary64

/-- The bits of a full mantissa. -/
def mantissaBits : Nat := 53

/-- The least exponent. -/
def minExponent : Int := -1074

/-- The numerator of a power with an integer exponent. -/
def powerAbove (base : Nat) (e : Int) : Nat :=
  Nat.pow base e.toNat

/-- The denominator of a power with an integer exponent. -/
def powerBelow (base : Nat) (e : Int) : Nat :=
  Nat.pow base (-e).toNat

/-- The quotient rounded to the nearest integer, and to the even one of two that are as near. -/
def roundDiv (n d : Nat) : Nat :=
  let q := n / d
  let twice := 2 * (n % d)
  if twice < d ∨ (twice = d ∧ q % 2 = 0) then q else q + 1

/-- The mantissa of a quotient for a given exponent. -/
def mantissaAt (n d : Nat) (e : Int) : Nat :=
  roundDiv (n * powerBelow 2 e) (d * powerAbove 2 e)

/-- The magnitude nearest to a quotient. -/
def nearestQuotient (n d : Nat) : Binary64 :=
  let magnitude : Int := (Nat.log2 n : Int) - Nat.log2 d
  let e := max (magnitude - mantissaBits) minExponent
  let m := mantissaAt n d e
  if m < Nat.pow 2 mantissaBits then ⟨m, e⟩
  else
    let m := mantissaAt n d (e + 1)
    if m < Nat.pow 2 mantissaBits then ⟨m, e + 1⟩ else ⟨m / 2, e + 2⟩

/-- The quotient of two natural numbers that a magnitude is. -/
def quotient (b : Binary64) : Nat × Nat :=
  (b.mantissa * powerAbove 2 b.exponent, powerBelow 2 b.exponent)

/-- The magnitude nearest to a natural number. -/
def ofNat (n : Nat) : Binary64 :=
  nearestQuotient n 1

/-- The magnitude nearest to a product. -/
def times (a b : Binary64) : Binary64 :=
  nearestQuotient (a.quotient.1 * b.quotient.1) (a.quotient.2 * b.quotient.2)

/-- The magnitude nearest to a quotient of magnitudes. -/
def dividedBy (a b : Binary64) : Binary64 :=
  nearestQuotient (a.quotient.1 * b.quotient.2) (a.quotient.2 * b.quotient.1)

/-! ## Decimal literals -/

/-- The greatest power of ten that is a magnitude. -/
def maxPower : Nat := 308

/-- The greatest exponent of a full mantissa. -/
def maxExponent : Int := 971

/-- The leading digits of a number that fit 64 bits, and how many digits follow them. -/
def leading (n : Nat) : Nat × Nat :=
  if n < 0x10000000000000000 then (n, 0)
  else
    let (m, dropped) := leading (n / 10)
    (m, dropped + 1)

/-- A magnitude over a power of ten, in steps of at most the greatest power. Two full steps leave
nothing of a number of 64 bits. -/
def scaleDown (b : Binary64) (k : Nat) : Binary64 :=
  if k ≤ maxPower then b.dividedBy (ofNat (Nat.pow 10 k))
  else if k ≤ 2 * maxPower then
    (b.dividedBy (ofNat (Nat.pow 10 maxPower))).dividedBy (ofNat (Nat.pow 10 (k - maxPower)))
  else ⟨0, minExponent⟩

/-- The magnitude that a literal with the value `digits * 10 ^ exponent` denotes, unless it is too
great. The literal is read in two roundings: its leading digits are rounded to a magnitude, which is
then scaled by the power of ten. -/
def ofDecimal? (digits : Nat) (exponent : Int) : Option Binary64 :=
  let (significand, dropped) := leading digits
  let exponent := exponent + dropped
  if significand = 0 then some ⟨0, minExponent⟩
  else if exponent < 0 then some ((ofNat significand).scaleDown exponent.natAbs)
  else if maxPower < exponent.natAbs then none
  else
    let b := (ofNat significand).times (ofNat (Nat.pow 10 exponent.natAbs))
    if b.exponent ≤ maxExponent then some b else none

/-! ## Shortest decimal fractions -/

/-- The quarters of the last mantissa bit to which a magnitude extends downwards and upwards. -/
def reach (b : Binary64) : Nat × Nat :=
  if b.mantissa = Nat.pow 2 (mantissaBits - 1) ∧ minExponent < b.exponent then (1, 2) else (2, 2)

/-- Whether the multiple `c` of `10 ^ p` is no nearer to a neighbour than to the magnitude itself;
halfway belongs to even mantissas. -/
def owns (b : Binary64) (p : Int) (c : Nat) : Bool :=
  let quarter := b.exponent - 2
  let value := c * powerAbove 10 p * powerBelow 2 quarter
  let scale := powerAbove 2 quarter * powerBelow 10 p
  let low := (4 * b.mantissa - b.reach.1) * scale
  let high := (4 * b.mantissa + b.reach.2) * scale
  if b.mantissa % 2 = 0 then decide (low ≤ value ∧ value ≤ high)
  else decide (low < value ∧ value < high)

/-- The multiple of `10 ^ p` that stands for a magnitude, if there is one. -/
def multiple? (b : Binary64) (p : Int) : Option Nat :=
  let n := b.mantissa * powerAbove 2 b.exponent * powerBelow 10 p
  let d := powerBelow 2 b.exponent * powerAbove 10 p
  let floor := n / d
  let near := roundDiv n d
  let far := if near = floor then floor + 1 else floor
  [near, far].find? fun c => c ≠ 0 && b.owns p c

/-- The powers of ten that grids are tried for, the coarsest first. -/
def gridExponents : List Int :=
  (List.range 660).map fun (i : Nat) => 310 - (i : Int)

/-- The shortest decimal fraction that stands for a magnitude: its digits and the power of ten that
scales them. -/
def shortest (b : Binary64) : Nat × Int :=
  if b.mantissa = 0 then (0, 0)
  else
    let found := gridExponents.findSome? fun p => (b.multiple? p).map fun c => (c, p)
    found.getD (0, 0)

/-- A decimal fraction in positional notation, with one decimal place at least. -/
def positional (digits : Nat) (exponent : Int) : List Char :=
  let ds := Text.decimal digits
  if 0 ≤ exponent then ds ++ List.replicate exponent.toNat '0' ++ ['.', '0']
  else
    let places := (-exponent).toNat
    let padded := List.replicate (places + 1 - ds.length) '0' ++ ds
    let whole := padded.length - places
    padded.take whole ++ '.' :: padded.drop whole

/-- A decimal fraction as a number with one digit before the point, if it has more digits, and a
signed power of ten. -/
def scientific (digits : Nat) (power : Int) : List Char :=
  let sign := if power < 0 then '-' else '+'
  let scale := 'e' :: sign :: Text.decimal power.natAbs
  match Text.decimal digits with
  | first :: second :: rest => first :: '.' :: second :: rest ++ scale
  | ds => ds ++ scale

/-- Which powers of ten of the leading digit are written in positional notation. -/
structure PositionalRange where
  lowest : Int
  highest : Int
  deriving DecidableEq, Repr

/-- A magnitude in positional notation if its leading digit is in range, and else in scientific
notation. -/
def text (range : PositionalRange) (b : Binary64) : List Char :=
  let (digits, exponent) := b.shortest
  let power := exponent + (Text.decimal digits).length - 1
  if range.lowest ≤ power ∧ power ≤ range.highest then positional digits exponent
  else scientific digits power

end Binary64

end WaveAccess
