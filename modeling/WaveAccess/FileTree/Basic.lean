import WaveAccess.Text.Basic

/-!
# File trees

A tree of directories and regular files without links, as a process sees it: the process has a
directory that its relative paths start from, and names that it tries for temporary files. A
location lists the names from a node up to the root, the node's own name first, so that the parent
of a location is its tail. Every tree keeps three invariants: the root and the working directory are
directories, and whatever exists lies in a directory.
-/

namespace WaveAccess

/-- The names from a node up to the root, the node's own name first. -/
abbrev Location := List String

/-- What a location holds. -/
inductive Node where
  | directory
  | file (content : ByteArray)

instance : DecidableEq Node
  | .directory, .directory => isTrue rfl
  | .directory, .file _ => isFalse nofun
  | .file _, .directory => isFalse nofun
  | .file content, .file other =>
    match ByteArray.decEq content other with
    | isTrue h => isTrue (congrArg Node.file h)
    | isFalse h => isFalse fun e => h (Node.file.inj e)

/-- What a process brings to the files: the directory that its relative paths start from, and the
names that it tries for a temporary file, one after the other. -/
structure ProcessContext where
  workingDirectory : Location
  temporaryName : Nat → String

/-- Directories and regular files, and the process that sees them. -/
structure FileTree where
  node : Location → Option Node
  process : ProcessContext
  root_directory : node [] = some .directory
  working_directory : node process.workingDirectory = some .directory
  parent_directory : ∀ {name parent}, (node (name :: parent)).isSome → node parent = some .directory

/-- Why the file tree refuses an operation. -/
inductive Refusal where
  | missing
  | exists
  | notDirectory
  | isDirectory
  | nameTooLong
  /-- The path holds a character that no name can hold. -/
  | unusable
  /-- The path names a directory by way of `.`, `..` or the root. -/
  | busy
  deriving DecidableEq, Repr

namespace FileTree

/-- Numbered names for temporary files. Six digits follow a mark. -/
def numberedName (i : Nat) : String :=
  let digits := Text.decimal i
  ".tmp" ++ String.ofList (List.replicate (6 - digits.length) '0' ++ digits)

/-- The tree that holds nothing but the directories down to the working directory. -/
def empty (workingDirectory : Location) : FileTree where
  node location := if location.isSuffixOf workingDirectory then some .directory else none
  process := ⟨workingDirectory, numberedName⟩
  root_directory := by simp
  working_directory := by simp
  parent_directory := by
    intro name parent h
    split at h
    · next hs =>
      have hs := List.isSuffixOf_iff_suffix.mp hs
      simp [List.isSuffixOf_iff_suffix.mpr ((List.suffix_cons name parent).trans hs)]
    · cases h

/-- Whether a location is a directory. -/
def isDirectoryAt (t : FileTree) (location : Location) : Bool :=
  t.node location == some .directory

/-- Puts a file with the given content into a directory, in place of the file of that name. -/
def writeFile (t : FileTree) (parent : Location) (name : String) (content : ByteArray) :
    Except Refusal FileTree :=
  if hp : t.node parent = some .directory then
    if hn : t.node (name :: parent) = some .directory then .error .isDirectory
    else
      .ok {
        node := fun location =>
          if location = name :: parent then some (.file content) else t.node location
        process := t.process
        root_directory := by simp [t.root_directory]
        working_directory := by
          split
          · next h => exact absurd (h ▸ t.working_directory) hn
          · exact t.working_directory
        parent_directory := by
          intro child directory h
          split
          · next hd =>
            subst hd
            split at h
            · next hc => simp at hc
            · exact absurd (t.parent_directory h) hn
          · split at h
            · next hc => cases hc; exact hp
            · exact t.parent_directory h }
  else .error .missing

/-- A written file is at its location, and everything else is as it was. -/
theorem node_writeFile {t t' : FileTree} {parent : Location} {name : String} {content : ByteArray}
    (h : t.writeFile parent name content = .ok t') (location : Location) :
    t'.node location =
      if location = name :: parent then some (.file content) else t.node location := by
  unfold writeFile at h
  split at h
  · split at h
    · cases h
    · cases h
      rfl
  · cases h

/-- Puts an empty directory into a directory. -/
def addDirectory (t : FileTree) (parent : Location) (name : String) : Except Refusal FileTree :=
  if hp : t.node parent = some .directory then
    if t.node (name :: parent) = none then
      .ok {
        node := fun location =>
          if location = name :: parent then some .directory else t.node location
        process := t.process
        root_directory := by simp [t.root_directory]
        working_directory := by
          split
          · rfl
          · exact t.working_directory
        parent_directory := by
          intro child directory h
          split
          · rfl
          · split at h
            · next hc => cases hc; exact hp
            · exact t.parent_directory h }
    else .error .exists
  else .error .missing

/-- A new directory is at its location, and everything else is as it was. -/
theorem node_addDirectory {t t' : FileTree} {parent : Location} {name : String}
    (h : t.addDirectory parent name = .ok t') (location : Location) :
    t'.node location = if location = name :: parent then some .directory else t.node location := by
  unfold addDirectory at h
  split at h
  · split at h
    · cases h
      rfl
    · cases h
  · cases h

/-- Takes a file out of the tree; anything else stays. -/
def removeFile (t : FileTree) (location : Location) : FileTree :=
  match hf : t.node location with
  | some (.file _) => {
      node := fun other => if other = location then none else t.node other
      process := t.process
      root_directory := by
        split
        · next h => subst h; rw [t.root_directory] at hf; cases hf
        · exact t.root_directory
      working_directory := by
        split
        · next h => subst h; rw [t.working_directory] at hf; cases hf
        · exact t.working_directory
      parent_directory := by
        intro child directory h
        split at h
        · cases h
        · have hd := t.parent_directory h
          split
          · next he => subst he; rw [hd] at hf; cases hf
          · exact hd }
  | _ => t

/-- Taking a file out changes nothing else. -/
theorem node_removeFile_of_ne {t : FileTree} {location other : Location} (h : other ≠ location) :
    (t.removeFile location).node other = t.node other := by
  unfold removeFile
  split
  · exact if_neg h
  · rfl

end FileTree

end WaveAccess
