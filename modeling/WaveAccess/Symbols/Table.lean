import WaveAccess.Json.Decode
import WaveAccess.Message.Basic
import WaveAccess.Text.Quoted

/-!
# Symbol tables

Instructions of compiled kernels have a place in the source and a mnemonic, for some of which width
and direction are known. The debug information of compiled kernels is, for each kernel, its source
files, which messages name by a hash, and its instructions. Kernels are kept in the order of their
names, and a name that is entered again replaces what was there.
-/

namespace WaveAccess

/-! ## Memory instructions -/

/-- An instruction and the source location that debug information gives it. -/
structure Instruction where
  mnemonic : String
  /-- The position of the source file among the files of the kernel. -/
  pathId : UInt64
  line : UInt32
  column : UInt32
  deriving DecidableEq, Repr

/-- The bytes per lane and the direction of the known memory instructions. -/
def instructionWidths : List (String × UInt16 × Direction) := [
  ("global_load_dword", 4, .read),
  ("global_load_dwordx2", 8, .read),
  ("global_load_dwordx3", 12, .read),
  ("global_load_dwordx4", 16, .read),
  ("global_store_dword", 4, .write),
  ("global_store_dwordx2", 8, .write),
  ("global_store_dwordx3", 12, .write),
  ("global_store_dwordx4", 16, .write)]

/-- The bytes per lane and the direction of a mnemonic, if it is known. -/
def widthOf? (mnemonic : String) : Option (UInt16 × Direction) :=
  instructionWidths.lookup mnemonic

/-- The FNV-1a hash of a file name's UTF-8 bytes in 64 bits. -/
def fnv1a (name : String) : UInt64 :=
  name.toUTF8.toList.foldl (fun hash b => (hash ^^^ b.toUInt64) * 0x100000001b3) 0xcbf29ce484222325

/-! ## Tables -/

/-- The debug information of one kernel. -/
structure DebugInfo where
  files : List String
  instructions : List Instruction
  deriving DecidableEq, Repr

/-- The debug information of kernels by name. -/
structure SymbolTable where
  kernels : List (String × DebugInfo)
  deriving DecidableEq, Repr

/-- Why no instructions are found. -/
inductive LookupFault where
  | unknownKernel (kernel : String)
  | noInstructions (kernel : String) (line : UInt32)
  deriving DecidableEq, Repr

/-- The text of a failed search. -/
def LookupFault.message : LookupFault → String
  | .unknownKernel kernel => "unknown kernel " ++ Text.quote kernel
  | .noInstructions kernel line =>
    s!"no instructions for line {line.toNat} of kernel " ++ Text.quote kernel

namespace SymbolTable

/-- The table without kernels. -/
def empty : SymbolTable := ⟨[]⟩

/-- Puts a kernel among others that are in the order of their names. -/
def insertInto (name : String) (symbols : DebugInfo) :
    List (String × DebugInfo) → List (String × DebugInfo)
  | [] => [(name, symbols)]
  | kernel :: rest =>
    if kernel.1 = name then (name, symbols) :: rest
    else if name < kernel.1 then (name, symbols) :: kernel :: rest
    else kernel :: insertInto name symbols rest

/-- Enters a kernel, in place of one of the same name. -/
def insert (t : SymbolTable) (name : String) (symbols : DebugInfo) : SymbolTable :=
  ⟨insertInto name symbols t.kernels⟩

/-- The table of the given kernels, of which the last counts for each name. -/
def ofList (kernels : List (String × DebugInfo)) : SymbolTable :=
  kernels.foldl (fun t kernel => t.insert kernel.1 kernel.2) empty

/-- The names of all kernels. -/
def names (t : SymbolTable) : List String :=
  t.kernels.map Prod.fst

/-- The kernel of a name. -/
def kernel? (t : SymbolTable) (name : String) : Option DebugInfo :=
  t.kernels.lookup name

/-- The instructions of a source line of a kernel, of which there must be one. -/
def instructionsOfLine (t : SymbolTable) (kernel : String) (line : UInt32) :
    Except LookupFault (List Instruction) :=
  match t.kernel? kernel with
  | none => .error (.unknownKernel kernel)
  | some symbols =>
    match symbols.instructions.filter (·.line == line) with
    | [] => .error (.noInstructions kernel line)
    | instructions => .ok instructions

/-- The source file at a position of a kernel's files. -/
def fileName? (t : SymbolTable) (kernel : String) (pathId : UInt64) : Option String :=
  (t.kernel? kernel).bind fun symbols => symbols.files[pathId.toNat]?

end SymbolTable

/-! ## JSON -/

/-- The JSON form of an instruction. -/
def Instruction.toJson (i : Instruction) : Json :=
  .ofMembers [("mnemonic", .ofText i.mnemonic), ("path_id", .ofNat i.pathId.toNat),
    ("line", .ofNat i.line.toNat), ("column", .ofNat i.column.toNat)]

/-- Reads an instruction. -/
def Instruction.ofJson? (j : Json) : Option Instruction := do
  match ← j.fields? ["mnemonic", "path_id", "line", "column"] 0 with
  | [mnemonic, pathId, line, column] =>
    some {
      mnemonic := ← Json.required Json.text? mnemonic
      pathId := ← Json.required Json.uint64? pathId
      line := ← Json.required Json.uint32? line
      column := ← Json.required Json.uint32? column }
  | _ => none

/-- The JSON form of a kernel's debug information. -/
def DebugInfo.toJson (symbols : DebugInfo) : Json :=
  .ofMembers [("files", .ofList Json.ofText symbols.files),
    ("instructions", .ofList Instruction.toJson symbols.instructions)]

/-- Reads a kernel's debug information. -/
def DebugInfo.ofJson? (j : Json) : Option DebugInfo := do
  match ← j.fields? ["files", "instructions"] 0 with
  | [files, instructions] =>
    some ⟨← Json.required (Json.list? Json.text?) files,
      ← Json.required (Json.list? Instruction.ofJson?) instructions⟩
  | _ => none

/-- The JSON form of a symbol table. -/
def SymbolTable.toJson (t : SymbolTable) : Json :=
  .ofMembers [("kernels", .ofMembers (t.kernels.map fun (name, symbols) => (name, symbols.toJson)))]

/-- Reads a symbol table. -/
def SymbolTable.ofJson? (j : Json) : Option SymbolTable := do
  match ← j.fields? ["kernels"] 0 with
  | [kernels] =>
    some (.ofList (← Json.required (Json.members? DebugInfo.ofJson?) kernels))
  | _ => none

end WaveAccess
