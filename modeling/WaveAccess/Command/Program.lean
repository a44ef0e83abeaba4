import WaveAccess.Command.Files
import WaveAccess.Command.Settings
import WaveAccess.Session.Report

/-!
# The program

What the command does, as a function from its arguments, its environment, the files and the time to
the status it ends with, what it prints, and the files it leaves.
-/

namespace WaveAccess.Command

/-- The status that the command ends with. -/
inductive Status where
  | success
  /-- A file cannot be read or a report cannot be delivered. -/
  | failure
  /-- The arguments are refused. -/
  | usage
  /-- An access broke the analysis off. -/
  | breakdown
  deriving DecidableEq, Repr

/-- The exit code of a status. -/
def Status.code : Status → UInt8
  | success => 0
  | failure => 1
  | usage => 2
  | breakdown => 101

/-- What the command leaves behind. -/
structure Outcome where
  status : Status
  /-- What goes to the standard output. -/
  output : String
  /-- What goes to the standard error output. -/
  complaint : String
  records : List Log.Record
  tree : FileTree

/-- The name and version of the program. -/
def versionLine : String := "memanalysis 0.1.0\n"

/-- How the program is used. -/
def helpText : String :=
  "Memory access analysis of a traced GPU kernel dispatch\n\n" ++
    "Usage: memanalysis [OPTIONS] <MESSAGES>\n\n" ++
    "Arguments:\n" ++
    "  <MESSAGES>  JSON file with the access messages of one kernel dispatch\n\n" ++
    "Options:\n" ++
    "      --symbols <SYMBOLS>          JSON instruction database of the compiled kernels\n" ++
    "      --kernel <KERNEL>            name of the analyzed kernel\n" ++
    "      --dispatch-id <DISPATCH_ID>  dispatch id of the analyzed kernel\n" ++
    "      --location <LOCATION>        \"console\" or path of the report file\n" ++
    "  -v, --verbose                    report all accesses and log per access diagnostics\n" ++
    "      --format <FORMAT>            report format (text or json)\n" ++
    "      --arch <ARCH>                device architecture reported when no message names one\n" ++
    "  -h, --help                       Print help\n" ++
    "  -V, --version                    Print version\n"

/-- The text about a refused command line. -/
def UsageError.message : UsageError → String
  | unknownArgument => "unexpected argument"
  | emptyValue => "a value is required"
  | invalidValue => "invalid value"
  | unexpectedValue => "unexpected value for a flag"
  | repeated => "an argument cannot be used multiple times"
  | missingMessages => "the file of messages was not provided"

/-- The text about an input file that gives nothing. -/
def loadMessage (what : String) (p : Path) : LoadError → String
  | .files fault => s!"failed to load {what} from {p.text}: {fault.message}"
  | .malformed => s!"failed to load {what} from {p.text}"

/-- The outcome of a run that ends before an analysis. -/
def ended (t : FileTree) (status : Status) (output complaint : String) : Outcome :=
  ⟨status, output, complaint, [], t⟩

/-- Analyzes the messages and reports the results. -/
def analyze (o : Settings) (around : Surroundings) (symbols : Option SymbolTable)
    (messages : List Message) : Outcome :=
  let session := Session.start o.kernel o.verbose (.create o.location o.format) o.arch
  match session.run around symbols messages with
  | .error b => ended around.tree .breakdown "" (b.message?.getD "")
  | .ok ran =>
    let reported := ran.value.reported
    match reported.fault with
    | none => ⟨.success, reported.console, "", ran.records, reported.tree⟩
    | some fault =>
      let complaint := s!"failed to write report to {o.location.text}: {fault.message}"
      ⟨.failure, reported.console, complaint, ran.records, reported.tree⟩

/-- Reads the symbols, if there are any to read. -/
def loadSymbols (t : FileTree) : Option Path → Except String (Option SymbolTable)
  | none => .ok none
  | some p =>
    match t.readSymbols p with
    | .ok symbols => .ok (some symbols)
    | .error e => .error (loadMessage "symbols" p e)

/-- What the command does with its settings. -/
def perform (o : Settings) (around : Surroundings) : Outcome :=
  match around.tree.readMessages o.messages with
  | .error e => ended around.tree .failure "" (loadMessage "messages" o.messages e)
  | .ok messages =>
    match loadSymbols around.tree o.symbols with
    | .error complaint => ended around.tree .failure "" complaint
    | .ok symbols => analyze o around symbols messages

/-- What the command does. -/
def run (arguments : List String) (env : Environment) (around : Surroundings) : Outcome :=
  match Settings.ofArguments arguments env with
  | .ok o => perform o around
  | .error .help => ended around.tree .success helpText ""
  | .error .version => ended around.tree .success versionLine ""
  | .error (.refused e) => ended around.tree .usage "" e.message

end WaveAccess.Command
