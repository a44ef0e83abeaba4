import WaveAccess.Command.Argument
import WaveAccess.Log
import WaveAccess.Report.Basic

/-!
# Settings of the command

A command line is read from left to right. The value of a parameter stands behind an equals sign or
in the next argument, unless that looks like a parameter itself; two dashes end the parameters. A
value that stands in an argument of its own is only examined when the next parameter, value or the
end is reached, so an unknown argument is reported before a bad value directly in front of it.
Parameters that are not given take their value from the environment, if one is set there, or else a
default.
-/

namespace WaveAccess.Command

/-- What the command is asked to do. -/
structure Settings where
  messages : Path
  symbols : Option Path
  kernel : KernelDispatch
  location : Destination
  format : ReportFormat
  verbose : Bool
  arch : Option Architecture
  deriving DecidableEq, Repr

/-- The level down to which log records are shown. -/
def Settings.logLevel (o : Settings) : Log.Level :=
  if o.verbose then .debug else .warn

/-- The environment that settings are taken from. -/
structure Environment where
  location : Option String
  verbose : Option String
  format : Option String
  deriving DecidableEq, Repr

/-- How far the reading of a command line has come. -/
structure Reading where
  draft : Draft := {}
  /-- A parameter that is not examined yet, and its value if that has been read. -/
  pending : Option (Parameter × Option String) := none
  /-- Whether the file of messages has been given. -/
  hasMessages : Bool := false
  /-- Whether two dashes have been read. -/
  onlyValues : Bool := false

namespace Reading

/-- Examines what is pending. -/
def settle (r : Reading) : Except Stop Reading :=
  match r.pending with
  | none => .ok r
  | some (_, none) => .error (.refused .emptyValue)
  | some (parameter, some text) =>
    match r.draft.assign parameter text with
    | .ok draft => .ok { r with draft, pending := none }
    | .error e => .error (.refused e)

/-- Takes a flag. -/
def flag (r : Reading) (f : Flag) : Except Stop Reading := do
  let r ← r.settle
  return { r with draft := ← r.draft.raise f }

/-- Takes a parameter with the value attached to it, if there is one. -/
def parameter (r : Reading) (p : Parameter) (attached : Option String) : Except Stop Reading := do
  let r ← r.settle
  let r := { r with pending := some (p, attached) }
  if attached.isSome then r.settle else return r

/-- Takes an argument that begins with two dashes, given its name and the value attached to it. -/
def long (r : Reading) (name : String) (attached : Option String) : Except Stop Reading :=
  match Parameter.ofName? name, Flag.ofName? name, attached with
  | some p, _, _ => r.parameter p attached
  | none, some f, none => r.flag f
  | none, some _, some _ => .error (.refused .unexpectedValue)
  | none, none, _ => .error (.refused .unknownArgument)

/-- Takes the letters of an argument that begins with one dash. -/
def short (r : Reading) (letters : List Char) : Except Stop Reading :=
  letters.foldlM (fun r letter =>
    match Flag.ofLetter? letter with
    | some f => r.flag f
    | none => .error (.refused .unknownArgument)) r

/-- Takes an argument that is no parameter. -/
def value (r : Reading) (text : String) : Except Stop Reading :=
  match r.pending, r.onlyValues with
  | some (p, none), false => .ok { r with pending := some (p, some text) }
  | _, _ =>
    if r.hasMessages then .error (.refused .unknownArgument)
    else do
      let r ← r.settle
      return { r with pending := some (.messages, some text), hasMessages := true }

/-- The name of a parameter and the value attached to it. -/
def splitAttached (chars : List Char) : String × Option String :=
  match chars.dropWhile (· ≠ '=') with
  | [] => (String.ofList chars, none)
  | _ :: attached => (String.ofList (chars.takeWhile (· ≠ '=')), some (String.ofList attached))

/-- Takes an argument. -/
def argument (r : Reading) (text : String) : Except Stop Reading :=
  if r.onlyValues then r.value text
  else
    match text.toList with
    | ['-', '-'] => .ok { r with onlyValues := true }
    | '-' :: '-' :: chars => let (name, attached) := splitAttached chars; r.long name attached
    | '-' :: letter :: letters => r.short (letter :: letters)
    | _ => r.value text

/-- Takes the values of the environment for the parameters that are not given. -/
def environment (d : Draft) (env : Environment) : Except UsageError Draft := do
  let d ←
    match d.location, env.location with
    | none, some text => d.assign .location text
    | _, _ => pure d
  let d := { d with verbose := d.verbose <|> env.verbose.map isOn }
  match d.format, env.format with
  | none, some text => d.assign .format text
  | _, _ => pure d

end Reading

/-- The settings that a draft amounts to. -/
def Settings.ofDraft (d : Draft) : Except UsageError Settings :=
  match d.messages with
  | none => .error .missingMessages
  | some messages => .ok {
      messages
      symbols := d.symbols
      kernel := ⟨d.kernel.getD "", d.dispatchId.getD 0⟩
      location := d.location.getD .console
      format := d.format.getD .text
      verbose := d.verbose.getD false
      arch := d.arch }

/-- The settings of a command line. -/
def Settings.ofArguments (arguments : List String) (env : Environment) : Except Stop Settings := do
  let r ← arguments.foldlM Reading.argument {}
  let r ← r.settle
  let settings := do Settings.ofDraft (← Reading.environment r.draft env)
  settings.mapError .refused

end WaveAccess.Command
