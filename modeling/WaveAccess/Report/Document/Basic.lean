import WaveAccess.Report.Basic

/-!
# Report documents

The report for programs: a JSON document with the analyses of kernel dispatches, all of whose
accesses are listed, and with data about the last of them.
-/

namespace WaveAccess

/-- The cache lines of an access, summed over its executions. -/
structure CacheAccessInfo where
  kind : String
  executions : UInt64
  irBytes : UInt16
  isaBytes : UInt16
  instruction : String
  needed : UInt64
  used : UInt64
  deriving DecidableEq, Repr

/-- The bank conflicts of an access, summed over its executions. -/
structure ConflictAccessInfo where
  kind : String
  executions : UInt64
  irBytes : UInt16
  conflicts : UInt64
  deriving DecidableEq, Repr

/-- An access in a document. -/
structure AccessRecord (I : Type) where
  location : SourcePosition
  /-- The source line of the access, or nothing. -/
  context : String
  info : I
  deriving DecidableEq, Repr

/-- The accesses of a kernel dispatch. -/
structure DispatchAnalysis where
  kernel : KernelDispatch
  cache : List (AccessRecord CacheAccessInfo)
  conflicts : List (AccessRecord ConflictAccessInfo)
  deriving DecidableEq, Repr

/-- Where and when the last analysis was made. -/
structure Provenance where
  version : Option String
  timestamp : String
  architecture : String
  lineSize : UInt32
  kernelsFound : Option UInt64
  deriving DecidableEq, Repr

/-- The analyses in a report file. -/
structure Document where
  analyses : List DispatchAnalysis
  provenance : Provenance
  deriving DecidableEq, Repr

/-! ## From results to documents -/

/-- What a document says about the cache lines of an access. -/
def CacheAccessInfo.ofEntry (e : TallyEntry CacheUsage) : CacheAccessInfo where
  kind := e.direction.description
  executions := .ofNat e.count
  irBytes := e.irSize
  isaBytes := e.isaSize
  instruction := e.instruction
  needed := .ofNat e.statistic.needed
  used := .ofNat e.statistic.used

/-- What a document says about the bank conflicts of an access. -/
def ConflictAccessInfo.ofEntry (e : TallyEntry ConflictTotal) : ConflictAccessInfo where
  kind := e.direction.description
  executions := .ofNat e.count
  irBytes := e.irSize
  conflicts := .ofNat e.statistic.total

/-- The record of a tally's entry. -/
def AccessRecord.ofEntry {M I : Type} (t : FileTree) (describe : TallyEntry M → I)
    (entry : SourcePosition × TallyEntry M) : SourceReading (AccessRecord I) := do
  let (location, e) := entry
  let context ← t.context ⟨location.file⟩ location.line.toNat
  pure { location, context, info := describe e }

/-- The analysis of a dispatch, with all accesses whether verbose or not. -/
def DispatchAnalysis.ofResults (t : FileTree) (s : Results) : SourceReading DispatchAnalysis := do
  let cache ← s.global.entries.mapM (AccessRecord.ofEntry t CacheAccessInfo.ofEntry)
  let conflicts ← s.shared.entries.mapM (AccessRecord.ofEntry t ConflictAccessInfo.ofEntry)
  pure { kernel := s.kernel, cache, conflicts }

/-- The first line of the file `VERSION` in a directory, without blanks at its ends. -/
def FileTree.version? (t : FileTree) (directory : Path) : Option String := do
  let content ← t.content? (directory.child "VERSION")
  let text ← String.fromUTF8? content
  let line ← (Text.lines text).head?
  let version := Text.trim line
  if version = "" then none else some version

/-- The data about an analysis made at a time. -/
def Provenance.ofResults (s : Results) (version : Option String) (timestamp : String) :
    Provenance where
  version := version
  timestamp := timestamp
  architecture := s.arch.elim Architecture.unknownName Architecture.name
  lineSize := .ofNat (s.arch.elim Architecture.defaultLineSize Architecture.lineSize).bytes
  kernelsFound := s.kernelsFound.map .ofNat

namespace Document

/-- The document of one analysis. -/
def single (analysis : DispatchAnalysis) (provenance : Provenance) : Document :=
  ⟨[analysis], provenance⟩

/-- Adds an analysis and takes over its data. A known number of kernels is kept if the new data has
none. -/
def append (d : Document) (analysis : DispatchAnalysis) (provenance : Provenance) : Document where
  analyses := d.analyses ++ [analysis]
  provenance :=
    { provenance with kernelsFound := provenance.kernelsFound <|> d.provenance.kernelsFound }

end Document

end WaveAccess
