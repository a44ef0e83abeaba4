import WaveAccess.FileTree.Operations
import WaveAccess.Log
import WaveAccess.Tally
import WaveAccess.Text.Basic

/-!
# What reports are made from

The results of an analysis: the dispatch, how much to report, and the tallies of its accesses.

Reports quote the source line of an access. They are ordered by file, so the lines of the file that
was read last are kept in a slot and serve all queries up to the first one for another file. Paths
that agree component by component are the same file. A file that cannot be read has no lines, and
takes the slot like any other.
-/

namespace WaveAccess

/-! ## Results -/

/-- A dispatch of a kernel. -/
structure KernelDispatch where
  name : String
  number : UInt64
  deriving DecidableEq, Repr

/-- The results of an analysis. -/
structure Results where
  kernel : KernelDispatch
  /-- Whether a listing shows efficient accesses too. -/
  verbose : Bool
  /-- The architecture of the accesses, if it is known. -/
  arch : Option Architecture
  global : Tally CacheUsage
  shared : Tally ConflictTotal
  /-- The number of kernels in the symbol table, if there is one. -/
  kernelsFound : Option Nat

/-! ## Source lines -/

/-- The lines of the file that was read last. -/
structure SourceSlot where
  path : Option Path
  lines : List String
  deriving DecidableEq, Repr

/-- A computation that queries source lines. -/
abbrev SourceReading := StateT SourceSlot Logged

namespace SourceSlot

/-- The slot before any file has been read. -/
def empty : SourceSlot := ⟨none, []⟩

/-- Whether the slot holds the lines of a file. -/
def holds (slot : SourceSlot) (p : Path) : Bool :=
  slot.path.any (·.isSame p)

/-- A line by its number from 1 on. -/
def line? (slot : SourceSlot) (number : Nat) : Option String :=
  if number = 0 then none else slot.lines[number - 1]?

end SourceSlot

namespace FileTree

/-- The lines of a text file, or the reason why there are none. -/
def readLines (t : FileTree) (p : Path) : Except String (List String) :=
  match t.openAt p with
  | .error fault => .error fault.message
  | .ok .directory => .error s!"failed to read {p.text}: Is a directory (os error 21)"
  | .ok (.file content) =>
    match String.fromUTF8? content with
    | some text => .ok (Text.lines text)
    | none => .error s!"failed to read {p.text}: stream did not contain valid UTF-8"

/-- Reads a file into a slot, unless its lines are there already. -/
def load (t : FileTree) (p : Path) (slot : SourceSlot) : Logged SourceSlot :=
  if slot.holds p then pure slot
  else
    match t.readLines p with
    | .ok lines => pure ⟨some p, lines⟩
    | .error reason => do
      Logged.note .warn reason
      pure ⟨some p, []⟩

/-- A source line, if it exists. -/
def sourceLine (t : FileTree) (p : Path) (number : Nat) : SourceReading (Option String) :=
  fun slot => do
    let slot ← t.load p slot
    pure (slot.line? number, slot)

/-- A line with its tabs expanded, and below it a caret under the column; column 0 has none. -/
def excerptOf (column : Nat) (line : String) : String :=
  let caret := if column = 0 then [] else List.replicate (column - 1) ' ' ++ ['^', '\n']
  Text.expandTabs line ++ "\n" ++ String.ofList caret

/-- The excerpt of a source location, if its line exists. -/
def excerpt (t : FileTree) (p : Path) (number column : Nat) : SourceReading (Option String) := do
  let line ← t.sourceLine p number
  pure (line.map (excerptOf column))

/-- A source line with its tabs expanded and without blanks at its ends, or nothing. -/
def context (t : FileTree) (p : Path) (number : Nat) : SourceReading String := do
  match ← t.sourceLine p number with
  | some line => pure (Text.trim (Text.expandTabs line))
  | none => pure ""

end FileTree

end WaveAccess
