import WaveAccess.Command.Settings
import WaveAccess.FileTree.Operations
import WaveAccess.Json.Reader
import WaveAccess.Message.Codec
import WaveAccess.Session.Basic
import WaveAccess.Symbols.Table

/-!
# Files of a command line

Messages and symbols are read from JSON files. These and those that a report needs are the files
that the command looks at: whoever runs the command on real files puts what is found at their paths
into a file tree, and the command sees nothing else.
-/

namespace WaveAccess

/-! ## Input files -/

/-- Why an input file gives nothing. -/
inductive LoadError where
  | files (fault : FileFault)
  /-- The file cannot be read, or its content is not in the expected form. -/
  | malformed
  deriving DecidableEq, Repr

namespace FileTree

/-- Reads a file and decodes its JSON value. -/
def load? {α : Type} (t : FileTree) (decode? : Json → Option α) (p : Path) : Except LoadError α :=
  match t.openAt p with
  | .error fault => .error (.files fault)
  | .ok .directory => .error .malformed
  | .ok (.file content) =>
    match (Json.ofBytes? content).bind decode? with
    | some a => .ok a
    | none => .error .malformed

/-- Reads the messages of a file. -/
def readMessages (t : FileTree) (p : Path) : Except LoadError (List Message) :=
  t.load? Message.listOfJson? p

/-- Reads the symbols of a file. -/
def readSymbols (t : FileTree) (p : Path) : Except LoadError SymbolTable :=
  t.load? SymbolTable.ofJson? p

end FileTree

/-! ## Files to look at -/

/-- The source files of all kernels. -/
def SymbolTable.sourceFiles (t : SymbolTable) : List Path :=
  (t.kernels.flatMap fun kernel => kernel.2.files.map Path.mk).eraseDups

/-- Puts what was found at a path into a tree. -/
def FileTree.admit (t : FileTree) (p : Path) : Option Node → FileTree
  | none => t
  | some .directory => (t.makeDirectories p).1
  | some (.file content) => t.put p content

namespace Command.Settings

/-- The files that the command reads before anything else. -/
def inputs (o : Settings) : List Path :=
  o.messages :: o.symbols.toList

/-- The files that a report of the command looks at, given a tree with the inputs: the source files,
also the one that stands for unknown ones, the version, and the report file. -/
def reportFiles (o : Settings) (t : FileTree) : List Path :=
  let sources :=
    match o.symbols.map t.readSymbols with
    | some (.ok symbols) => symbols.sourceFiles
    | _ => []
  let destination :=
    match o.location with
    | .console => []
    | .file p => [p]
  sources ++ ⟨unknownSourceFile⟩ :: (Path.mk ".").child "VERSION" :: destination

end Command.Settings

end WaveAccess
