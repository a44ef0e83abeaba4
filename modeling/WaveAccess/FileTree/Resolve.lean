import WaveAccess.FileTree.Basic
import WaveAccess.Path

/-!
# Paths in a file tree

A path is resolved by a walk that starts at the root or at the working directory and enters one name
after the other. An operation that creates something resolves all names but the last.
-/

namespace WaveAccess.FileTree

/-- The longest name in bytes. -/
def maxNameBytes : Nat := 255

/-- The longest path in bytes. -/
def maxPathBytes : Nat := 4095

/-- Where the walk along a path starts. -/
def start (t : FileTree) (p : Path) : Location :=
  if p.isAbsolute then [] else t.process.workingDirectory

/-- Enters a name from a location. -/
def enter (t : FileTree) (location : Location) (name : String) : Except Refusal Location :=
  match t.node location with
  | none => .error .missing
  | some (.file _) => .error .notDirectory
  | some .directory =>
    if name = "." then .ok location
    else if name = ".." then .ok location.tail
    else if maxNameBytes < name.utf8ByteSize then .error .nameTooLong
    else if (t.node (name :: location)).isNone then .error .missing
    else .ok (name :: location)

/-- Why a path is refused whatever the tree holds, if it is. -/
def pathRefusal? (p : Path) : Option Refusal :=
  if p.text = "" then some .missing
  else if p.text.toList.any (·.toNat == 0) then some .unusable
  else if maxPathBytes < p.text.utf8ByteSize then some .nameTooLong
  else none

/-- The location of what a path names. -/
def locate (t : FileTree) (p : Path) : Except Refusal Location :=
  match pathRefusal? p with
  | some refusal => .error refusal
  | none =>
    match p.names.foldlM t.enter (t.start p) with
    | .error refusal => .error refusal
    | .ok location =>
      if p.endsInSlash && !t.isDirectoryAt location then .error .notDirectory else .ok location

/-- What a path names. -/
def lookup (t : FileTree) (p : Path) : Except Refusal Node :=
  match t.locate p with
  | .error refusal => .error refusal
  | .ok location =>
    match t.node location with
    | some node => .ok node
    | none => .error .missing

/-- Whether a path names a directory. -/
def isDirectory (t : FileTree) (p : Path) : Bool :=
  match t.lookup p with
  | .ok .directory => true
  | _ => false

/-- The place that the last name of a path speaks of, whether or not something is there. -/
structure Place where
  parent : Location
  name : String
  /-- A slash follows the name. -/
  asDirectory : Bool

/-- The place of a path's last name. A path that ends in `.` or `..` or is the root has none. -/
def place (t : FileTree) (p : Path) : Except Refusal Place :=
  match pathRefusal? p with
  | some refusal => .error refusal
  | none =>
    match p.names.reverse with
    | [] => .error .busy
    | last :: before =>
      match before.reverse.foldlM t.enter (t.start p) with
      | .error refusal => .error refusal
      | .ok parent =>
        if !t.isDirectoryAt parent then .error .notDirectory
        else if last = "." ∨ last = ".." then .error .busy
        else if maxNameBytes < last.utf8ByteSize then .error .nameTooLong
        else .ok ⟨parent, last, p.endsInSlash⟩

end WaveAccess.FileTree
