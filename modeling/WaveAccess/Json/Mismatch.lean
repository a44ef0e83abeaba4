import WaveAccess.Binary64
import WaveAccess.LaneMask
import WaveAccess.Text.Quoted

/-!
# Mismatches between values and masks

The message about a JSON value that is no execution mask names the kind of the value, and the value
itself if it is a scalar. A number is an integer if it was written as one and fits 64 bits with its
sign; every other number is shown as the floating point number that it denotes, if there is one.
-/

namespace WaveAccess.Json

/-- What a number is taken for. -/
inductive Quantity where
  | unsigned (n : Nat)
  | negative (n : Nat)
  | floating (negative : Bool) (magnitude : Binary64)
  | tooGreat

/-- A literal that is taken for a floating point number. -/
def Quantity.ofDecimal (negative : Bool) (digits : Nat) (exponent : Int) : Quantity :=
  match Binary64.ofDecimal? digits exponent with
  | some magnitude => .floating negative magnitude
  | none => .tooGreat

/-- What a literal is taken for. -/
def Number.quantity : Number → Quantity
  | .integer false n =>
    if n < 0x10000000000000000 then .unsigned n else .ofDecimal false n 0
  | .integer true n =>
    if 0 < n ∧ n ≤ 0x8000000000000000 then .negative n else .ofDecimal true n 0
  | .decimal negative digits exponent => .ofDecimal negative digits exponent

/-- Floating point numbers are shown positionally from the fifth decimal place up to sixteen digits
before the point, and with a power of ten otherwise. -/
def shownPositionally : Binary64.PositionalRange where
  lowest := -5
  highest := 15

/-- The text of a floating point number. -/
def floatText (negative : Bool) (magnitude : Binary64) : String :=
  let digits := magnitude.text shownPositionally
  String.ofList (if negative then '-' :: digits else digits)

/-- What a reader of execution masks expects. -/
def expectedMask : String := "expected an unsigned 64-bit integer"

/-- Why a value is no execution mask. -/
def maskMismatch : Json → String
  | .null => s!"invalid type: null, {expectedMask}"
  | .bool true => s!"invalid type: boolean `true`, {expectedMask}"
  | .bool false => s!"invalid type: boolean `false`, {expectedMask}"
  | .string pieces =>
    let text := (textOf? pieces).getD ""
    s!"invalid type: string {Text.quote text}, {expectedMask}"
  | .array _ => s!"invalid type: sequence, {expectedMask}"
  | .object _ => s!"invalid type: map, {expectedMask}"
  | .number n =>
    match n.quantity with
    | .unsigned n => s!"invalid type: integer `{n}`, {expectedMask}"
    | .negative n => s!"invalid value: integer `-{n}`, {expectedMask}"
    | .floating negative magnitude =>
      s!"invalid type: floating point `{floatText negative magnitude}`, {expectedMask}"
    | .tooGreat => "number out of range"

end WaveAccess.Json

namespace WaveAccess

/-- Reads a mask, or says why the value is none. -/
def LaneMask.ofJson (j : Json) : Except String LaneMask :=
  match ofJson? j with
  | some mask => .ok mask
  | none => .error j.maskMismatch

end WaveAccess
