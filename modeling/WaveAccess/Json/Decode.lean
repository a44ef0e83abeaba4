import WaveAccess.Json.Basic

/-!
# Decoding JSON values

Decoders of the scalar types and the one rule for records. A record may be an object, whose members
come in any order, are not repeated, and may be accompanied by unknown members with any values, or
an array of exactly its fields in their order. A field that is optional may be missing from the
object; the last fields of an array may be missing if they have a default.
-/

namespace WaveAccess.Json

/-! ## Scalars -/

/-- A natural number below `bound`. -/
def nat? (bound : Nat) : Json → Option Nat
  | .number (.integer false n) => if n < bound then some n else none
  | _ => none

/-- An unsigned number of 8 bits. -/
def uint8? (j : Json) : Option UInt8 :=
  (j.nat? UInt8.size).map UInt8.ofNat

/-- An unsigned number of 16 bits. -/
def uint16? (j : Json) : Option UInt16 :=
  (j.nat? UInt16.size).map UInt16.ofNat

/-- An unsigned number of 32 bits. -/
def uint32? (j : Json) : Option UInt32 :=
  (j.nat? UInt32.size).map UInt32.ofNat

/-- An unsigned number of 64 bits. -/
def uint64? (j : Json) : Option UInt64 :=
  (j.nat? UInt64.size).map UInt64.ofNat

/-- A text. -/
def text? : Json → Option String
  | .string pieces => textOf? pieces
  | _ => none

/-- A name out of a fixed choice, which may also be the only member of an object, with `null`. -/
def choice? : Json → Option String
  | .string pieces => textOf? pieces
  | .object [(name, .null)] => textOf? name
  | _ => none

/-- A value or `null`. -/
def optional? {α : Type} (decode? : Json → Option α) : Json → Option (Option α)
  | .null => some none
  | j => (decode? j).map some

/-- An array of values of one type. -/
def list? {α : Type} (decode? : Json → Option α) : Json → Option (List α)
  | .array items => items.mapM decode?
  | _ => none

/-- An object whose members are values of one type, with their names. -/
def members? {α : Type} (decode? : Json → Option α) : Json → Option (List (String × α))
  | .object members =>
    members.mapM fun (name, value) => do some (← textOf? name, ← decode? value)
  | _ => none

/-! ## Records -/

/-- The values of the members with the given name. -/
def valuesOf (name : String) (members : List (String × Json)) : List Json :=
  (members.filter fun member => member.1 == name).map Prod.snd

/-- The value of the only member with a name, if there is one; a repeated name is refused. -/
def uniqueValue? (members : List (String × Json)) (name : String) : Option (Option Json) :=
  match valuesOf name members with
  | [] => some none
  | [value] => some (some value)
  | _ => none

/-- The values of a record's fields in their order, where `none` is a field that is missing. The
last `defaulted` fields may be missing from an array. -/
def fields? (names : List String) (defaulted : Nat) : Json → Option (List (Option Json))
  | .object members => do
    let named ← members.mapM fun (name, value) => (textOf? name).map (·, value)
    names.mapM (uniqueValue? named)
  | .array items =>
    let missing := names.length - items.length
    if items.length ≤ names.length ∧ missing ≤ defaulted then
      some (items.map some ++ List.replicate missing none)
    else none
  | _ => none

/-- The value of a field that must be there. -/
def required {α : Type} (decode? : Json → Option α) (field : Option Json) : Option α :=
  field.bind decode?

/-- The value of a field that may be missing or `null`. -/
def optional {α : Type} (decode? : Json → Option α) : Option Json → Option (Option α)
  | none => some none
  | some j => j.optional? decode?

end WaveAccess.Json
