import WaveAccess.Report.Destination
import WaveAccess.Report.Document.Codec
import WaveAccess.Report.Listing

/-!
# Outlets

An outlet renders results in its format and delivers them to its destination. The console gets the
text as it is. In a file, listings follow each other, while documents are merged: the analysis is
added to the document that is there, a file that holds no document is replaced, and the new content
takes the file's place in one step. A failed delivery changes no file that existed.
-/

namespace WaveAccess

/-- Why a report could not be delivered. -/
inductive ReportFault where
  /-- The report file cannot be read. -/
  | access (path : Path)
  | files (fault : FileFault)
  deriving DecidableEq, Repr

/-- The text of a failed delivery. -/
def ReportFault.message : ReportFault → String
  | .access p => "failed to access report file " ++ Text.quote p.text
  | .files fault => fault.message

/-- Where reports are delivered, and in which format. -/
structure Outlet where
  destination : Destination
  format : ReportFormat
  sources : SourceSlot
  deriving DecidableEq, Repr

/-- What a delivery leaves behind. -/
structure Delivery where
  outlet : Outlet
  tree : FileTree
  /-- What was written to the console. -/
  console : String
  fault : Option ReportFault

/-- Where and when a report is made: the files it can see, and the time. -/
structure Surroundings where
  tree : FileTree
  time : String

namespace Document

/-- The document in a report file. A missing or empty file has none, nor has one that holds anything
else. -/
def existing (t : FileTree) (p : Path) : Except ReportFault (Logged (Option Document)) :=
  match t.lookup p with
  | .error .missing => .ok (pure none)
  | .error _ | .ok .directory => .error (.access p)
  | .ok (.file content) =>
    if content.size = 0 then .ok (pure none)
    else
      match ofBytes? content with
      | some d => .ok (pure (some d))
      | none => .ok do
        Logged.note .warn s!"replacing {p.text} which is not a memory analysis report"
        pure none

/-- Adds an analysis to the document in a report file: the tree afterwards, and the document. -/
def mergeInto (t : FileTree) (p : Path) (analysis : DispatchAnalysis) (provenance : Provenance) :
    Logged (FileTree × Except ReportFault Document) :=
  match existing t p with
  | .error fault => pure (t, .error fault)
  | .ok old => do
    let document :=
      match ← old with
      | some d => d.append analysis provenance
      | none => single analysis provenance
    match t.replace p document.text.toUTF8 with
    | (t, some fault) => pure (t, .error (.files fault))
    | (t, none) => pure (t, .ok document)

end Document

namespace Outlet

/-- The outlet that has read no source file yet. -/
def create (destination : Destination) (format : ReportFormat) : Outlet :=
  ⟨destination, format, .empty⟩

/-- The analysis that results amount to, and the data that go with it. -/
def analysisOf (around : Surroundings) (results : Results) :
    SourceReading (DispatchAnalysis × Provenance) := do
  let analysis ← DispatchAnalysis.ofResults around.tree results
  pure (analysis, .ofResults results (around.tree.version? ⟨"."⟩) around.time)

/-- The text of a report. -/
def renderIn (format : ReportFormat) (around : Surroundings) (results : Results) :
    SourceReading String :=
  match format with
  | .text => Listing.render around.tree results
  | .json => do
    let (analysis, provenance) ← analysisOf around results
    pure (Document.single analysis provenance).text

/-- The text of a report, and the outlet that has read its source files. -/
def render (outlet : Outlet) (around : Surroundings) (results : Results) :
    Logged (String × Outlet) := do
  let (text, sources) ← renderIn outlet.format around results outlet.sources
  pure (text, { outlet with sources })

/-- Delivers a listing to the file at a path. -/
def deliverListing (outlet : Outlet) (around : Surroundings) (p : Path) (results : Results) :
    Logged Delivery := do
  let (text, outlet) ← outlet.render around results
  match around.tree.append p text.toUTF8 with
  | .ok tree => pure ⟨outlet, tree, "", none⟩
  | .error fault => pure ⟨outlet, around.tree, "", some (.files fault)⟩

/-- Delivers an analysis to the document in the file at a path. -/
def deliverAnalysis (outlet : Outlet) (around : Surroundings) (p : Path) (results : Results) :
    Logged Delivery := do
  let ((analysis, provenance), sources) ← analysisOf around results outlet.sources
  let outlet := { outlet with sources }
  match ← Document.mergeInto around.tree p analysis provenance with
  | (tree, .error fault) => pure ⟨outlet, tree, "", some fault⟩
  | (tree, .ok document) =>
    Logged.note .debug s!"{p.text} contains {document.analyses.length} kernel analyses"
    pure ⟨outlet, tree, "", none⟩

/-- Creates the directory that a report file lies in. -/
def prepare (t : FileTree) (p : Path) : FileTree × Option FileFault :=
  match p.parent? with
  | some directory => if directory.text = "" then (t, none) else t.makeDirectories directory
  | none => (t, none)

/-- Delivers results. -/
def deliver (outlet : Outlet) (around : Surroundings) (results : Results) : Logged Delivery :=
  match outlet.destination with
  | .console => do
    let (text, outlet) ← outlet.render around results
    pure ⟨outlet, around.tree, text, none⟩
  | .file p =>
    match prepare around.tree p with
    | (tree, some fault) => pure ⟨outlet, tree, "", some (.files fault)⟩
    | (tree, none) =>
      match outlet.format with
      | .text => outlet.deliverListing { around with tree } p results
      | .json => outlet.deliverAnalysis { around with tree } p results

end Outlet

end WaveAccess
