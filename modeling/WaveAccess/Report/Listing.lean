import WaveAccess.Report.Basic

/-!
# Listings

The report for readers: a section on cache lines and one on bank conflicts. A section lists a block
per entry, with the location, the source line if it can be read, and the counts. A listing that is
not verbose leaves out the blocks of efficient entries and the line that names the kernel.
-/

namespace WaveAccess.Listing

/-- The block of an entry: where the access is, and what is said about it. -/
def block {M : Type} (t : FileTree) (describe : TallyEntry M → String)
    (entry : SourcePosition × TallyEntry M) : SourceReading String := do
  let (location, e) := entry
  let excerpt ← t.excerpt ⟨location.file⟩ location.line.toNat location.column.toNat
  pure (location.text ++ "\n" ++ excerpt.getD "" ++ describe e)

/-- The blocks of entries in their order. -/
def blocks {M : Type} (t : FileTree) (describe : TallyEntry M → String)
    (entries : List (SourcePosition × TallyEntry M)) : SourceReading (List String) :=
  entries.mapM (block t describe)

/-- The first and the last line of a section, and the line that stands for no blocks. -/
structure Frame where
  opening : String
  closing : String
  nothing : String

/-- A section: its blocks between its first and its last line. -/
def layOut (frame : Frame) (blocks : List String) : String :=
  let body := if blocks.isEmpty then frame.nothing ++ "\n" else String.join blocks
  "\n" ++ frame.opening ++ "\n" ++ body ++ frame.closing ++ "\n"

/-! ## Cache lines -/

/-- The section on cache lines. -/
def cacheFrame : Frame where
  opening := "=== L2 cache line use report ======================"
  closing := "=== End of L2 cache line use report ==============="
  nothing := "No excess cache lines used for global memory accesses"

/-- What is said about the cache lines of an access. -/
def describeCacheUse (e : TallyEntry CacheUsage) : String :=
  s!"\t{e.direction.description} of {e.irSize.toNat} bytes at IR level " ++
    s!"({e.isaSize.toNat} bytes at ISA level: \"{e.instruction}\")\n" ++
    s!"\texecuted {e.count} times, {e.statistic.needed} cache lines needed, " ++
    s!"{e.statistic.used} cache lines used\n"

/-! ## Bank conflicts -/

/-- The section on bank conflicts. -/
def conflictFrame : Frame where
  opening := "=== Bank conflicts report ========================="
  closing := "=== End of bank conflicts report ===================="
  nothing := "No bank conflicts found"

/-- What is said about the bank conflicts of an access. -/
def describeConflicts (e : TallyEntry ConflictTotal) : String :=
  s!"\t{e.direction.description} of {e.irSize.toNat} bytes at IR level\n" ++
    s!"\texecuted {e.count} times, {e.statistic.total} bank conflicts in total\n"

/-! ## The listing -/

/-- The line that names the kernel. -/
def heading (kernel : KernelDispatch) : String :=
  s!"Memory analysis for {kernel.name} dispatch_id[{kernel.number.toNat}]\n"

/-- The listing of results. -/
def render (t : FileTree) (s : Results) : SourceReading String := do
  let cacheBlocks ← blocks t describeCacheUse (s.global.worthReporting s.verbose)
  let conflictBlocks ← blocks t describeConflicts (s.shared.worthReporting s.verbose)
  let first := if s.verbose then heading s.kernel else ""
  pure (first ++ layOut cacheFrame cacheBlocks ++ layOut conflictFrame conflictBlocks)

end WaveAccess.Listing
