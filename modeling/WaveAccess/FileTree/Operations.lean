import WaveAccess.FileTree.Resolve
import WaveAccess.Text.Quoted

/-!
# Operations on a file tree

Reading, appending to a file, creating directories, and replacing a file's content in one step: the
new content goes to a temporary file in the same directory, which then takes the place of the old
file, so that the old content is there until the new one is complete.
-/

namespace WaveAccess

/-- Why an operation on a path failed. -/
inductive FileFault where
  | openFile (path : Path)
  | createDirectories (path : Path)
  | persist (path : Path)
  deriving DecidableEq, Repr

/-- The text of a failure. -/
def FileFault.message : FileFault → String
  | .openFile p => "could not open file " ++ Text.quote p.text
  | .createDirectories p => "could not create directories " ++ Text.quote p.text
  | .persist p => "could not replace " ++ Text.quote p.text

namespace FileTree

/-- Opens what a path names for reading. A directory can be opened but has no content to read. -/
def openAt (t : FileTree) (p : Path) : Except FileFault Node :=
  match t.lookup p with
  | .ok node => .ok node
  | .error _ => .error (.openFile p)

/-- The content of the file at a path, if it is a file. -/
def content? (t : FileTree) (p : Path) : Option ByteArray :=
  match t.lookup p with
  | .ok (.file content) => some content
  | _ => none

/-- Changes the content of the file at a path, which is created without content if it is missing. -/
def update (t : FileTree) (p : Path) (change : ByteArray → ByteArray) :
    Except FileFault FileTree :=
  match t.place p with
  | .error _ => .error (.openFile p)
  | .ok place =>
    let old :=
      match t.node (place.name :: place.parent) with
      | some (.file old) => old
      | _ => ByteArray.empty
    match place.asDirectory, t.writeFile place.parent place.name (change old) with
    | false, .ok t' => .ok t'
    | _, _ => .error (.openFile p)

/-- Puts content behind the content of the file at a path, which is created if it is missing. -/
def append (t : FileTree) (p : Path) (content : ByteArray) : Except FileFault FileTree :=
  t.update p (· ++ content)

/-! ## Directories -/

/-- Creates one directory in a directory that exists. -/
def makeDirectory (t : FileTree) (p : Path) : Except Refusal FileTree :=
  match t.place p with
  | .error .busy => .error .exists
  | .error refusal => .error refusal
  | .ok place => t.addDirectory place.parent place.name

/-- Accepts a refusal to create a directory if there is a directory already. -/
def settle (t : FileTree) (p : Path) : Except Refusal FileTree → FileTree × Option Refusal
  | .ok t' => (t', none)
  | .error refusal => (t, if t.isDirectory p then none else some refusal)

/-- Creates the first of the given paths, where each path is followed by the one it lies in, and
creates the others only as far as they are missing. -/
def makeChain (t : FileTree) : List Path → FileTree × Option Refusal
  | [] => (t, some .missing)
  | p :: above =>
    if p.text = "" then (t, none)
    else
      match t.makeDirectory p with
      | .error .missing =>
        match t.makeChain above with
        | (t', none) => t'.settle p (t'.makeDirectory p)
        | (t', some refusal) => (t', some refusal)
      | result => t.settle p result

/-- Creates a directory and the directories it lies in. That the path exists is no failure. -/
def makeDirectories (t : FileTree) (p : Path) : FileTree × Option FileFault :=
  match t.makeChain (p :: p.ancestors) with
  | (t', none) => (t', none)
  | (t', some .exists) => (t', none)
  | (t', some _) => (t', some (.createDirectories p))

/-! ## Replacement -/

/-- How many names are tried for a temporary file. -/
def temporaryAttempts : Nat := 65536

/-- The first name that the process tries from the one at `i` on that is not taken in a directory
and is another one than the name of the file to be replaced. -/
def freeName? (t : FileTree) (parent : Location) (replaced : Option String) :
    Nat → Nat → Option String
  | 0, _ => none
  | attempts + 1, i =>
    let name := t.process.temporaryName i
    if (t.node (name :: parent)).isNone && replaced != some name then some name
    else t.freeName? parent replaced attempts (i + 1)

/-- The path from the root of a name in a directory. A temporary file is created under such a path,
so that its path does not depend on the working directory; it may be too long where that of the
directory is not. -/
def pathFromRoot (t : FileTree) (directory : Path) (name : String) : Path :=
  if directory.isAbsolute then directory.child name
  else ((Path.ofParts true t.process.workingDirectory.reverse).child directory.text).child name

/-- Creates a temporary file in a directory, to replace a file by the given name. -/
def createTemporary (t : FileTree) (directory : Path) (replaced : Option String)
    (content : ByteArray) : Option (Location × FileTree) :=
  match t.locate directory with
  | .error _ => none
  | .ok parent =>
    match t.freeName? parent replaced temporaryAttempts 0 with
    | none => none
    | some name =>
      match pathRefusal? (t.pathFromRoot directory name), t.writeFile parent name content with
      | none, .ok t' => some (name :: parent, t')
      | _, _ => none

/-- Moves a file to the place of a path, in place of the file that is there. -/
def moveFile (t : FileTree) (source : Location) (p : Path) : Except Refusal FileTree :=
  match t.node source, t.place p with
  | some (.file content), .ok place =>
    if t.isDirectoryAt (place.name :: place.parent) then .error .isDirectory
    else if place.asDirectory then .error .notDirectory
    else (t.removeFile source).writeFile place.parent place.name content
  | _, .error refusal => .error refusal
  | _, _ => .error .missing

/-- The directory that a path's last component lies in. -/
def directoryOf (p : Path) : Path :=
  match p.parent? with
  | some parent => if parent.text = "" then ⟨"."⟩ else parent
  | none => ⟨"."⟩

/-- Replaces the content of a file by way of a temporary file in the same directory. -/
def replace (t : FileTree) (p : Path) (content : ByteArray) : FileTree × Option FileFault :=
  let directory := directoryOf p
  match t.makeDirectories directory with
  | (t, some fault) => (t, some fault)
  | (t, none) =>
    match t.createTemporary directory p.names.getLast? content with
    | none => (t, some (.openFile directory))
    | some (temporary, t) =>
      match t.moveFile temporary p with
      | .ok t => (t, none)
      | .error _ => (t.removeFile temporary, some (.persist p))

/-- Puts content into the file at a path, whatever was there, and creates the directories it lies
in. A tree that cannot hold such a file stays as it is. -/
def put (t : FileTree) (p : Path) (content : ByteArray) : FileTree :=
  match t.makeDirectories (directoryOf p) with
  | (t', none) => (t'.update p fun _ => content).toOption.getD t
  | (_, some _) => t

end FileTree

end WaveAccess
