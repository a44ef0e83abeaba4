/-!
# Paths

A path is a text in which slashes separate names. Two readings of it matter. A file tree walks
through its names one by one, where `.` stays and `..` goes up. As a value, a path is the list of
its components: repeated slashes and a `.` count for nothing, except for a `.` that a relative path
begins with. Two paths are the same path if their components agree.
-/

namespace WaveAccess

/-- A path as it was written. -/
structure Path where
  text : String
  deriving DecidableEq, Repr

namespace Path

/-! ## Names between slashes -/

/-- The parts of a list of characters between its slashes, of which there is always one. -/
def splitSlashes : List Char → List (List Char)
  | [] => [[]]
  | c :: rest =>
    if c = '/' then [] :: splitSlashes rest
    else
      match splitSlashes rest with
      | [] => [[c]]
      | part :: parts => (c :: part) :: parts

/-- Parts with a slash between neighbours. -/
def joinSlashes : List (List Char) → List Char
  | [] => []
  | [part] => part
  | part :: parts => part ++ '/' :: joinSlashes parts

/-- There is always a part between slashes. -/
theorem splitSlashes_ne_nil (cs : List Char) : splitSlashes cs ≠ [] := by
  cases cs with
  | nil => simp [splitSlashes]
  | cons c rest =>
    unfold splitSlashes
    split
    · simp
    · split <;> simp

/-- The parts between slashes make up the text again. -/
theorem joinSlashes_splitSlashes (cs : List Char) : joinSlashes (splitSlashes cs) = cs := by
  induction cs with
  | nil => rfl
  | cons c rest ih =>
    unfold splitSlashes
    split
    · next hc =>
      subst hc
      cases hs : splitSlashes rest with
      | nil => exact absurd hs (splitSlashes_ne_nil rest)
      | cons part parts => rw [joinSlashes, ← hs, ih, List.nil_append]; simp
    · split
      · next hs => exact absurd hs (splitSlashes_ne_nil rest)
      · next part parts hs =>
        rw [hs] at ih
        cases parts with
        | nil => rw [joinSlashes] at ih ⊢; rw [ih]
        | cons next others =>
          rw [joinSlashes] at ih ⊢
          · rw [← ih, List.cons_append]
          · simp
          · simp

/-- Whether a path begins at the root. -/
def isAbsolute (p : Path) : Bool :=
  p.text.toList.head? == some '/'

/-- Whether a path ends in a slash, and so can only name a directory. -/
def endsInSlash (p : Path) : Bool :=
  p.text.toList.getLast? == some '/'

/-- The parts between slashes, without the empty part before the slash of the root. -/
def parts (p : Path) : List String :=
  let all := (splitSlashes p.text.toList).map String.ofList
  if p.isAbsolute then all.tail else all

/-- The names that a walk along the path passes through. -/
def names (p : Path) : List String :=
  p.parts.filter (· ≠ "")

/-- The path of the given parts. -/
def ofParts (absolute : Bool) (parts : List String) : Path :=
  let body := joinSlashes (parts.map String.toList)
  ⟨String.ofList (if absolute then '/' :: body else body)⟩

/-- The path of a name in the directory that a path names. -/
def child (p : Path) (name : String) : Path :=
  if p.text = "" then ⟨name⟩
  else if p.endsInSlash then ⟨p.text ++ name⟩
  else ⟨p.text ++ "/" ++ name⟩

/-! ## Components -/

/-- A step of a path as a value. -/
inductive Component where
  | root
  /-- The `.` that a relative path begins with. -/
  | here
  | up
  | name (name : String)
  deriving DecidableEq, Repr

/-- The component of a part that is not the first part of a relative path. -/
def innerComponent? (part : String) : Option Component :=
  if part = "" ∨ part = "." then none
  else if part = ".." then some .up
  else some (.name part)

/-- The components of a path. -/
def components (p : Path) : List Component :=
  if p.isAbsolute then .root :: p.parts.filterMap innerComponent?
  else
    match p.parts with
    | "." :: rest => .here :: rest.filterMap innerComponent?
    | parts => parts.filterMap innerComponent?

/-- Whether two paths agree component by component. -/
def isSame (p q : Path) : Bool :=
  p.components == q.components

/-! ## Ancestors -/

/-- Whether a part adds no component, given the parts before it in reverse order. -/
def isFiller (absolute : Bool) (part : String) (before : List String) : Bool :=
  part == "" || (part == "." && (absolute || !before.isEmpty))

/-- Parts in reverse order without the fillers at their end. -/
def dropFillers (absolute : Bool) : List String → List String
  | [] => []
  | part :: before =>
    if isFiller absolute part before then dropFillers absolute before else part :: before

/-- The ancestors of a path given by its parts in reverse order. -/
def ancestorsOf (absolute : Bool) : List String → List Path
  | [] => []
  | part :: before =>
    if isFiller absolute part before then ancestorsOf absolute before
    else ofParts absolute (dropFillers absolute before).reverse :: ancestorsOf absolute before

/-- The paths that remain when components are taken off the end one after the other, the nearest
first. The last of them is the root, or the empty path if the path is relative. -/
def ancestors (p : Path) : List Path :=
  ancestorsOf p.isAbsolute p.parts.reverse

/-- The path without its last component, if it has one to lose. -/
def parent? (p : Path) : Option Path :=
  p.ancestors.head?

/-! ## Normal form -/

/-- Takes a component into a stack of names, the innermost on top. At the bottom, going up stays. -/
def pushComponent (stack : List String) : Component → List String
  | .root | .here => stack
  | .up => stack.tail
  | .name n => n :: stack

/-- The path with the same beginning in which every `..` has cancelled the name before it. -/
def normalize (p : Path) : Path :=
  ofParts p.isAbsolute (p.components.foldl pushComponent []).reverse

end Path

end WaveAccess
