import Std.Time.Format
import WaveAccess.Command.Files
import WaveAccess.Command.Program

/-!
# The command line

The outer layer of the program. It copies the files that the command looks at into a file tree, runs
the command on the tree, and carries the report file back.
-/

namespace WaveAccess.Command

/-- The environment of the process. -/
def readEnvironment : IO Environment := do
  return {
    location := ← IO.getEnv "LOGDUR_LOG_LOCATION"
    verbose := ← IO.getEnv "LOGDUR_VERBOSE"
    format := ← IO.getEnv "LOGDUR_LOG_FORMAT" }

/-- The local time as reports show it. -/
def readClock : IO String := do
  let now ← Std.Time.PlainDateTime.now
  return now.format "uuuu-MM-dd HH:mm:ss"

/-- What is at a path. A directory can be opened but not read. -/
def probe (p : Path) : IO (Option Node) := do
  if let .ok content ← (IO.FS.readBinFile p.text).toBaseIO then
    return some (.file content)
  if let .ok _ ← (IO.FS.Handle.mk p.text .read).toBaseIO then
    return some .directory
  return none

/-- Copies what is at a path and above it into a tree. -/
def survey (t : FileTree) (p : Path) : IO FileTree :=
  (p.ancestors.reverse ++ [p]).foldlM (fun t p => return t.admit p (← probe p)) t

/-- Creates the directories above a path that a tree has and an earlier tree does not have. -/
def carryDirectories (p : Path) (earlier later : FileTree) : IO Unit :=
  p.ancestors.reverse.forM fun directory =>
    if later.isDirectory directory && !earlier.isDirectory directory then
      IO.FS.createDir directory.text
    else pure ()

/-- Carries the file at a path from a tree to the disk, where an earlier tree holds what is there. A
listing goes behind the others, a document takes the place of the old one in one step. -/
def carryFile (format : ReportFormat) (p : Path) (earlier later : FileTree) : IO Unit := do
  let old := earlier.content? p
  let new := later.content? p
  if old == new then return
  let content := new.getD ByteArray.empty
  match format with
  | .text =>
    let size := (old.getD ByteArray.empty).size
    let handle ← IO.FS.Handle.mk p.text .append
    handle.write (content.extract size content.size)
  | .json =>
    let temporary := p.text ++ ".tmp"
    IO.FS.writeBinFile temporary content
    IO.FS.rename temporary p.text

/-- Writes what the command says, and answers its exit code. -/
def conclude (level : Log.Level) (outcome : Outcome) : IO UInt32 := do
  (outcome.records.filter (·.level.detail ≤ level.detail)).forM fun r =>
    IO.eprintln (r.level.name ++ " " ++ r.text)
  IO.print outcome.output
  if outcome.complaint ≠ "" then IO.eprintln outcome.complaint
  return outcome.status.code.toUInt32

/-- Runs the command with the given arguments. -/
def execute (arguments : List String) : IO UInt32 := do
  let env ← readEnvironment
  let directory ← IO.currentDir
  let here := Path.mk s!"{directory}"
  let start := FileTree.empty here.names.reverse
  match Settings.ofArguments arguments env with
  | .error _ => conclude .warn (run arguments env ⟨start, ""⟩)
  | .ok o =>
    let withInputs ← o.inputs.foldlM survey start
    let tree ← (o.reportFiles withInputs).foldlM survey withInputs
    let outcome := run arguments env ⟨tree, ← readClock⟩
    match o.location with
    | .console => pure ()
    | .file p =>
      carryDirectories p tree outcome.tree
      carryFile o.format p tree outcome.tree
    conclude o.logLevel outcome

end WaveAccess.Command

/-- The program. -/
def main (arguments : List String) : IO UInt32 :=
  WaveAccess.Command.execute arguments
