import WaveAccess.Architecture
import WaveAccess.Report.Destination

/-!
# Arguments of the command

The parameters of the command line and how their values are read. A parameter can be given once.
-/

namespace WaveAccess.Command

/-- Why a command line is refused. -/
inductive UsageError where
  /-- An argument is no parameter of the command. -/
  | unknownArgument
  /-- A parameter has no value, or an empty one where a path is needed. -/
  | emptyValue
  /-- A value is none of the parameter's values. -/
  | invalidValue
  /-- A flag has a value. -/
  | unexpectedValue
  /-- A parameter is given twice. -/
  | repeated
  /-- The file of messages is not given. -/
  | missingMessages
  deriving DecidableEq, Repr

/-- Why a command line leads to no analysis. -/
inductive Stop where
  | help
  | version
  | refused (e : UsageError)
  deriving DecidableEq, Repr

/-- A parameter with a value. -/
inductive Parameter where
  | messages
  | symbols
  | kernel
  | dispatchId
  | location
  | format
  | arch
  deriving DecidableEq, Repr

/-- A parameter without a value. -/
inductive Flag where
  | verbose
  | help
  | version
  deriving DecidableEq, Repr

/-- The parameter of a long name. -/
def Parameter.ofName? (name : String) : Option Parameter :=
  [("symbols", symbols), ("kernel", kernel), ("dispatch-id", dispatchId), ("location", location),
    ("format", format), ("arch", arch)].lookup name

/-- The flag of a long name. -/
def Flag.ofName? (name : String) : Option Flag :=
  [("verbose", verbose), ("help", help), ("version", version)].lookup name

/-- The flag of a letter. -/
def Flag.ofLetter? (letter : Char) : Option Flag :=
  [('v', verbose), ('h', help), ('V', version)].lookup letter

/-- The values given so far. -/
structure Draft where
  messages : Option Path := none
  symbols : Option Path := none
  kernel : Option String := none
  dispatchId : Option UInt64 := none
  location : Option Destination := none
  verbose : Option Bool := none
  format : Option ReportFormat := none
  arch : Option Architecture := none
  deriving DecidableEq, Repr

/-! ## Values -/

/-- A path, which must not be empty. -/
def readPath (text : String) : Except UsageError Path :=
  if text = "" then .error .emptyValue else .ok ⟨text⟩

/-- A value that may be one of the parameter's or not. -/
def readChoice {α : Type} : Option α → Except UsageError α
  | some a => .ok a
  | none => .error .invalidValue

/-- The number that decimal digits spell; there must be one at least. -/
def ofDigits? (digits : List Char) : Option Nat :=
  if digits.isEmpty || !digits.all (fun c => decide ('0' ≤ c ∧ c ≤ '9')) then none
  else some (digits.foldl (fun n c => n * 10 + (c.toNat - '0'.toNat)) 0)

/-- A number of 64 bits in decimal, which may begin with a plus. -/
def number? (text : String) : Option UInt64 := do
  let digits := match text.toList with | '+' :: rest => rest | all => all
  let n ← ofDigits? digits
  if n < UInt64.size then some (.ofNat n) else none

/-- A capital letter of ASCII as a small one. -/
def lowerLetter (c : Char) : Char :=
  if 'A' ≤ c ∧ c ≤ 'Z' then Char.ofNat (c.toNat + 32) else c

/-- The texts that turn a switch off. -/
def offTexts : List String :=
  ["", "n", "no", "f", "false", "off", "0"]

/-- Whether the text of a switch turns it on, as every text does but those that say no. -/
def isOn (text : String) : Bool :=
  !offTexts.contains (String.ofList (text.toList.map lowerLetter))

namespace Draft

/-- Sets a value that must not be there yet. The value is only read if that is so. -/
def once {α : Type} (old : Option α) (read : Except UsageError α) : Except UsageError (Option α) :=
  match old with
  | some _ => .error .repeated
  | none => read.map some

/-- Gives a parameter a value. -/
def assign (d : Draft) (parameter : Parameter) (text : String) : Except UsageError Draft :=
  match parameter with
  | .messages => return { d with messages := ← once d.messages (readPath text) }
  | .symbols => return { d with symbols := ← once d.symbols (readPath text) }
  | .kernel => return { d with kernel := ← once d.kernel (.ok text) }
  | .dispatchId => return { d with dispatchId := ← once d.dispatchId (readChoice (number? text)) }
  | .location => return { d with location := ← once d.location (.ok (.ofText text)) }
  | .format => return { d with format := ← once d.format (readChoice (ReportFormat.ofName? text)) }
  | .arch => return { d with arch := ← once d.arch (readChoice (Architecture.ofName? text)) }

/-- Raises a flag. -/
def raise (d : Draft) : Flag → Except Stop Draft
  | .help => .error .help
  | .version => .error .version
  | .verbose =>
    match once d.verbose (.ok true) with
    | .ok verbose => .ok { d with verbose }
    | .error e => .error (.refused e)

end Draft

end WaveAccess.Command
