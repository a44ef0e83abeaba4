import WaveAccess.Log
import WaveAccess.Symbols.Table
import WaveAccess.Text.Basic

/-!
# Finding the instruction of an access

The instrumentation sees accesses before optimization, and the optimizer may fuse several narrow
ones into one wide instruction. The instruction that was compiled for an access's source location
tells its true width. The first instruction of the line decides whose file, line and column are
those of the access and whose mnemonic is a known memory instruction of the same direction. An
access whose line has no instructions, or one of an unknown file before the deciding one, was fused
with an access on another line and is counted there.
-/

namespace WaveAccess

/-- The instruction that an access was compiled to. -/
structure FoundInstruction where
  fileName : String
  mnemonic : String
  /-- Bytes per lane. -/
  size : UInt16
  deriving DecidableEq, Repr

/-- What the symbols say about an access. -/
inductive Finding where
  /-- The access was fused with one on another line. -/
  | elsewhere
  /-- Nothing is known, and the access is taken as it is. -/
  | unknown
  | found (instruction : FoundInstruction)
  deriving DecidableEq, Repr

namespace Finding

/-- The instruction of an access, if it is known. -/
def instruction? : Finding → Option FoundInstruction
  | .found i => some i
  | _ => none

/-- The bytes per lane of an access's instruction, or 0 if it is not known. -/
def size (f : Finding) : UInt16 :=
  match f.instruction? with
  | some i => i.size
  | none => 0

/-- The mnemonic of an access's instruction, or nothing if it is not known. -/
def mnemonic (f : Finding) : String :=
  match f.instruction? with
  | some i => i.mnemonic
  | none => ""

/-- The source file of an access, if it is known. -/
def fileName? (f : Finding) : Option String :=
  f.instruction?.map (·.fileName)

end Finding

/-- The symbol table and the kernel to which accesses belong. -/
structure KernelScope where
  kernel : String
  symbols : SymbolTable

namespace KernelScope

/-- Whether an instruction of the given file stands at the location of an access. -/
def isAt (m : Message) (file : String) (i : Instruction) : Bool :=
  fnv1a file == m.fileHash && i.line == m.line && i.column == m.column

/-- The instruction of an access, if a candidate at its location is it. -/
def accept? (m : Message) (file : String) (i : Instruction) : Option FoundInstruction :=
  match widthOf? i.mnemonic with
  | some (size, direction) =>
    if direction = m.direction then some ⟨file, i.mnemonic, size⟩ else none
  | none => none

/-- Goes through candidates up to the first that decides. -/
def firstMatch (scope : KernelScope) (m : Message) : List Instruction → Logged Finding
  | [] => pure .unknown
  | i :: rest => do
    Logged.note .trace s!"checking {i.mnemonic}"
    match scope.symbols.fileName? scope.kernel i.pathId with
    | none =>
      Logged.note .trace s!"no file name for path id {i.pathId.toNat}"
      pure .elsewhere
    | some file =>
      if isAt m file i then
        Logged.note .trace s!"source location {file}:{i.line.toNat}:{i.column.toNat}"
        match accept? m file i with
        | some instruction => pure (.found instruction)
        | none => scope.firstMatch m rest
      else scope.firstMatch m rest

/-- What the symbols of a kernel say about an access. -/
def find (scope : KernelScope) (m : Message) : Logged Finding := do
  let hash := Text.hexLiteral m.fileHash.toNat
  Logged.note .trace
    s!"correlating file hash {hash} line {m.line.toNat} column {m.column.toNat}"
  match scope.symbols.instructionsOfLine scope.kernel m.line with
  | .ok candidates => scope.firstMatch m candidates
  | .error e =>
    Logged.note .trace e.message
    pure .elsewhere

end KernelScope

/-- What is known about an access, with or without symbols. -/
def Finding.ofMessage (m : Message) : Option KernelScope → Logged Finding
  | some scope => scope.find m
  | none => pure .unknown

end WaveAccess
