import WaveAccess.Json.Decode
import WaveAccess.Json.Printer
import WaveAccess.Json.Reader
import WaveAccess.Report.Document.Basic

/-!
# Report documents in JSON

How documents are written to files and read from them. Reading accepts records in every form that
JSON records may take and answers `none` for anything else; a document that is written is read back
as it was.
-/

namespace WaveAccess

namespace CacheAccessInfo

/-- The JSON form of what is said about cache lines. -/
def toJson (i : CacheAccessInfo) : Json :=
  .ofMembers [
    ("type", .ofText i.kind),
    ("execution_count", .ofNat i.executions.toNat),
    ("ir_bytes", .ofNat i.irBytes.toNat),
    ("isa_bytes", .ofNat i.isaBytes.toNat),
    ("isa_instruction", .ofText i.instruction),
    ("cache_lines", .ofMembers [("needed", .ofNat i.needed.toNat), ("used", .ofNat i.used.toNat)])]

/-- Reads a pair of cache line counts. -/
def linesOfJson? (j : Json) : Option (UInt64 × UInt64) := do
  match ← j.fields? ["needed", "used"] 0 with
  | [needed, used] =>
    some (← Json.required Json.uint64? needed, ← Json.required Json.uint64? used)
  | _ => none

/-- Reads what is said about cache lines. -/
def ofJson? (j : Json) : Option CacheAccessInfo := do
  let names :=
    ["type", "execution_count", "ir_bytes", "isa_bytes", "isa_instruction", "cache_lines"]
  match ← j.fields? names 0 with
  | [kind, executions, irBytes, isaBytes, instruction, lines] =>
    let kind ← Json.required Json.text? kind
    let executions ← Json.required Json.uint64? executions
    let irBytes ← Json.required Json.uint16? irBytes
    let isaBytes ← Json.required Json.uint16? isaBytes
    let instruction ← Json.required Json.text? instruction
    let (needed, used) ← Json.required linesOfJson? lines
    some { kind, executions, irBytes, isaBytes, instruction, needed, used }
  | _ => none

end CacheAccessInfo

namespace ConflictAccessInfo

/-- The JSON form of what is said about bank conflicts. -/
def toJson (i : ConflictAccessInfo) : Json :=
  .ofMembers [
    ("type", .ofText i.kind),
    ("execution_count", .ofNat i.executions.toNat),
    ("ir_bytes", .ofNat i.irBytes.toNat),
    ("total_conflicts", .ofNat i.conflicts.toNat)]

/-- Reads what is said about bank conflicts. -/
def ofJson? (j : Json) : Option ConflictAccessInfo := do
  match ← j.fields? ["type", "execution_count", "ir_bytes", "total_conflicts"] 0 with
  | [kind, executions, irBytes, conflicts] =>
    some {
      kind := ← Json.required Json.text? kind
      executions := ← Json.required Json.uint64? executions
      irBytes := ← Json.required Json.uint16? irBytes
      conflicts := ← Json.required Json.uint64? conflicts }
  | _ => none

end ConflictAccessInfo

namespace SourcePosition

/-- The JSON form of a location. -/
def toJson (l : SourcePosition) : Json :=
  .ofMembers [("file", .ofText l.file), ("line", .ofNat l.line.toNat),
    ("column", .ofNat l.column.toNat)]

/-- Reads a location. -/
def ofJson? (j : Json) : Option SourcePosition := do
  match ← j.fields? ["file", "line", "column"] 0 with
  | [file, line, column] =>
    some {
      file := ← Json.required Json.text? file
      line := ← Json.required Json.uint32? line
      column := ← Json.required Json.uint32? column }
  | _ => none

end SourcePosition

namespace AccessRecord

/-- The JSON form of an access. -/
def toJson {I : Type} (encode : I → Json) (r : AccessRecord I) : Json :=
  .ofMembers [("source_location", r.location.toJson), ("code_context", .ofText r.context),
    ("access_info", encode r.info)]

/-- Reads an access. -/
def ofJson? {I : Type} (decode? : Json → Option I) (j : Json) : Option (AccessRecord I) := do
  match ← j.fields? ["source_location", "code_context", "access_info"] 0 with
  | [location, context, info] =>
    some {
      location := ← Json.required SourcePosition.ofJson? location
      context := ← Json.required Json.text? context
      info := ← Json.required decode? info }
  | _ => none

/-- The JSON form of a list of accesses. -/
def listToJson {I : Type} (encode : I → Json) (records : List (AccessRecord I)) : Json :=
  .ofMembers [("accesses", .ofList (toJson encode) records)]

/-- Reads a list of accesses. -/
def listOfJson? {I : Type} (decode? : Json → Option I) (j : Json) :
    Option (List (AccessRecord I)) := do
  match ← j.fields? ["accesses"] 0 with
  | [accesses] => Json.required (Json.list? (ofJson? decode?)) accesses
  | _ => none

end AccessRecord

namespace KernelDispatch

/-- The JSON form of a dispatch. -/
def toJson (k : KernelDispatch) : Json :=
  .ofMembers [("name", .ofText k.name), ("dispatch_id", .ofNat k.number.toNat)]

/-- Reads a dispatch. -/
def ofJson? (j : Json) : Option KernelDispatch := do
  match ← j.fields? ["name", "dispatch_id"] 0 with
  | [name, number] =>
    some ⟨← Json.required Json.text? name, ← Json.required Json.uint64? number⟩
  | _ => none

end KernelDispatch

namespace DispatchAnalysis

/-- The JSON form of an analysis. -/
def toJson (a : DispatchAnalysis) : Json :=
  .ofMembers [
    ("kernel_info", a.kernel.toJson),
    ("cache_analysis", AccessRecord.listToJson CacheAccessInfo.toJson a.cache),
    ("bank_conflicts", AccessRecord.listToJson ConflictAccessInfo.toJson a.conflicts)]

/-- Reads an analysis. -/
def ofJson? (j : Json) : Option DispatchAnalysis := do
  match ← j.fields? ["kernel_info", "cache_analysis", "bank_conflicts"] 0 with
  | [kernel, cache, conflicts] =>
    some {
      kernel := ← Json.required KernelDispatch.ofJson? kernel
      cache := ← Json.required (AccessRecord.listOfJson? CacheAccessInfo.ofJson?) cache
      conflicts := ← Json.required (AccessRecord.listOfJson? ConflictAccessInfo.ofJson?) conflicts }
  | _ => none

end DispatchAnalysis

namespace Provenance

/-- The JSON form of the data about an analysis. -/
def toJson (m : Provenance) : Json :=
  .ofMembers [
    ("version", .ofOption Json.ofText m.version),
    ("timestamp", .ofText m.timestamp),
    ("gpu_info", .ofMembers [("architecture", .ofText m.architecture),
      ("cache_line_size", .ofNat m.lineSize.toNat)]),
    ("kernels_found", .ofOption (fun n => .ofNat n.toNat) m.kernelsFound)]

/-- Reads an architecture and its line size. -/
def gpuOfJson? (j : Json) : Option (String × UInt32) := do
  match ← j.fields? ["architecture", "cache_line_size"] 0 with
  | [architecture, lineSize] =>
    some (← Json.required Json.text? architecture, ← Json.required Json.uint32? lineSize)
  | _ => none

/-- Reads the data about an analysis. The number of kernels may be missing altogether. -/
def ofJson? (j : Json) : Option Provenance := do
  match ← j.fields? ["version", "timestamp", "gpu_info", "kernels_found"] 1 with
  | [version, timestamp, gpu, kernelsFound] =>
    let version ← Json.optional Json.text? version
    let timestamp ← Json.required Json.text? timestamp
    let (architecture, lineSize) ← Json.required gpuOfJson? gpu
    let kernelsFound ← Json.optional Json.uint64? kernelsFound
    some { version, timestamp, architecture, lineSize, kernelsFound }
  | _ => none

end Provenance

namespace Document

/-- The JSON form of a document. -/
def toJson (d : Document) : Json :=
  .ofMembers [("kernel_analyses", .ofList DispatchAnalysis.toJson d.analyses),
    ("metadata", d.provenance.toJson)]

/-- Reads a document. -/
def ofJson? (j : Json) : Option Document := do
  match ← j.fields? ["kernel_analyses", "metadata"] 0 with
  | [analyses, provenance] =>
    some {
      analyses := ← Json.required (Json.list? DispatchAnalysis.ofJson?) analyses
      provenance := ← Json.required Provenance.ofJson? provenance }
  | _ => none

/-- The text of a document, which ends in a line feed. -/
def text (d : Document) : String :=
  d.toJson.pretty ++ "\n"

/-- The document that a file's content holds, if it holds one. -/
def ofBytes? (content : ByteArray) : Option Document :=
  (Json.ofBytes? content).bind ofJson?

end Document

end WaveAccess
