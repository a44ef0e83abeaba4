import WaveAccess.Proofs.FileTree.Contents
import WaveAccess.Proofs.Report.Documents
import WaveAccess.Proofs.Report.Readings
import WaveAccess.Session.Report

/-!
# Documents accumulate analyses

A report in JSON adds its analysis to the document in the report file. As a document is read back as
it was written, no analysis is lost from one report to the next, whichever sessions the reports are
of and whatever else happens to the files in between.
-/

namespace WaveAccess

namespace Document

/-- The document that a node is, if it is a file with one. Nothing, an empty file and foreign
content are none. -/
def ofNode? : Option Node → Option Document
  | some (.file content) => ofBytes? content
  | _ => none

/-- The document that an analysis is added to, or else that of the analysis alone. -/
def extend (old : Option Document) (analysis : DispatchAnalysis) (provenance : Provenance) :
    Document :=
  match old with
  | some d => d.append analysis provenance
  | none => single analysis provenance

/-- The analyses of a document, of which there are none without one. -/
def analysesOf (d : Option Document) : List DispatchAnalysis :=
  d.elim [] analyses

/-- The number of kernels that a document knows of, if there is a document and it does. -/
def kernelsOf (d : Option Document) : Option UInt64 :=
  d.bind fun d => d.provenance.kernelsFound

/-- Extending a document adds the analysis behind those that it has. -/
lemma analysesOf_extend (old : Option Document) (analysis : DispatchAnalysis)
    (provenance : Provenance) :
    analysesOf (some (extend old analysis provenance)) = analysesOf old ++ [analysis] := by
  cases old <;> rfl

/-- Extending a document takes over the data about the analysis, but for the number of kernels. -/
lemma provenance_extend (old : Option Document) (analysis : DispatchAnalysis)
    (provenance : Provenance) :
    (extend old analysis provenance).provenance =
      { provenance with kernelsFound := provenance.kernelsFound.or (kernelsOf old) } := by
  cases old with
  | none => simp [extend, single, kernelsOf]
  | some d => cases h : provenance.kernelsFound <;> simp [extend, append, kernelsOf, h]

/-- Extending a document keeps a number of kernels that the new data lack. -/
lemma kernelsOf_extend (old : Option Document) (analysis : DispatchAnalysis)
    (provenance : Provenance) :
    kernelsOf (some (extend old analysis provenance)) =
      provenance.kernelsFound.or (kernelsOf old) := by
  rw [kernelsOf, Option.bind_some, provenance_extend]

/-- The existing document is that of the node which the path leads to, provided that nothing is
there if the path is missing. -/
lemma value_existing {t : FileTree} {p : Path} {old : Logged (Option Document)}
    (hmissing : t.lookup p = .error .missing → t.node (t.target p) = none)
    (h : existing t p = .ok old) : old.value = ofNode? (t.node (t.target p)) := by
  unfold existing at h
  split at h
  · next hlookup =>
    cases h
    rw [hmissing hlookup]
    rfl
  · cases h
  · cases h
  · next content hlookup =>
    rw [(FileTree.lookup_ok hlookup).1, ofNode?]
    split at h
    · next hsize =>
      cases h
      rw [ofBytes?_empty hsize]
      rfl
    · split at h
      · next d hd =>
        cases h
        rw [hd]
        rfl
      · next hd =>
        cases h
        rw [hd]
        rfl

/-- A file may hold a document or not, but it can be read. -/
lemma existing_of_file {t : FileTree} {p : Path} {content : ByteArray}
    (h : t.lookup p = .ok (.file content)) : ∃ old, existing t p = .ok old := by
  unfold existing
  rw [h]
  dsimp only
  split
  · exact ⟨_, rfl⟩
  · split <;> exact ⟨_, rfl⟩

/-- A document is merged into a file by replacing the file with the extended document. -/
lemma value_mergeInto {t : FileTree} {p : Path} {old : Logged (Option Document)}
    (h : existing t p = .ok old) (analysis : DispatchAnalysis) (provenance : Provenance) :
    (mergeInto t p analysis provenance).value =
      let d := extend old.value analysis provenance
      let outcome := t.replace p d.text.toUTF8
      (outcome.1, match outcome.2 with
        | some fault => .error (.files fault)
        | none => .ok d) := by
  simp only [mergeInto, h, Logged.value_bind]
  cases old.value with
  | none =>
    dsimp only [extend]
    rcases t.replace p (single analysis provenance).text.toUTF8 with ⟨t', _ | fault⟩ <;> rfl
  | some d =>
    dsimp only [extend]
    rcases t.replace p (d.append analysis provenance).text.toUTF8 with ⟨t', _ | fault⟩ <;> rfl

/-- A merge that succeeds has read the file and replaced it with the extended document. -/
lemma replace_of_mergeInto {t t' : FileTree} {p : Path} {analysis : DispatchAnalysis}
    {provenance : Provenance} {d : Document}
    (h : (mergeInto t p analysis provenance).value = (t', .ok d)) :
    ∃ old, existing t p = .ok old ∧ d = extend old.value analysis provenance ∧
      t.replace p d.text.toUTF8 = (t', none) := by
  cases hold : existing t p with
  | error fault =>
    rw [mergeInto, hold] at h
    cases h
  | ok old =>
    rw [value_mergeInto hold] at h
    rcases hreplace : t.replace p (extend old.value analysis provenance).text.toUTF8 with
      ⟨t₁, _ | fault⟩
    · simp only [hreplace] at h
      cases h
      exact ⟨old, rfl, rfl, hreplace⟩
    · simp only [hreplace] at h
      cases h

/-- A document that is merged into a file extends the one that was there. -/
lemma mergeInto_ok {t t' : FileTree} {p : Path} {analysis : DispatchAnalysis}
    {provenance : Provenance} {d : Document}
    (hmissing : (∃ n ∈ p.names, n ≠ ".") → p.text ≠ "" → t.lookup p = .error .missing →
      t.node (t.target p) = none)
    (h : (mergeInto t p analysis provenance).value = (t', .ok d)) :
    d = extend (ofNode? (t.node (t.target p))) analysis provenance ∧
      t'.node (t.target p) = some (.file d.text.toUTF8) := by
  obtain ⟨old, hold, rfl, hreplace⟩ := replace_of_mergeInto h
  obtain ⟨hnode, -, htext, hname⟩ := FileTree.replace_ok hreplace
  rw [value_existing (hmissing hname htext) hold] at hnode ⊢
  exact ⟨rfl, hnode⟩

end Document

/-! ## One report -/

namespace FileTree

/-- The file `VERSION` gives a version: its first line without blanks at its ends, if that is not
empty. -/
def HasVersion (t : FileTree) (v : String) : Prop :=
  ∃ content text line, t.content? ⟨"./VERSION"⟩ = some content ∧
    String.fromUTF8? content = some text ∧ (Text.lines text).head? = some line ∧
    v = Text.trim line ∧ v ≠ ""

/-- The version that is read is the one that the file gives. -/
lemma version?_eq_some_iff {t : FileTree} {v : String} :
    t.version? ⟨"."⟩ = some v ↔ t.HasVersion v := by
  have hfile : (⟨"."⟩ : Path).child "VERSION" = ⟨"./VERSION"⟩ := by decide
  have hline (line : String) :
      (if Text.trim line = "" then none else some (Text.trim line)) = some v ↔
        v = Text.trim line ∧ v ≠ "" := by
    split <;> grind
  simp only [version?, hfile, Option.bind_eq_bind, Option.bind_eq_some_iff, hline, HasVersion,
    exists_and_left]

end FileTree

/-- Preparing for a report file lets the tree grow. If it does not fail and the file is still
missing, then nothing is where its path leads. -/
lemma Outlet.prepare_grows {t t' : FileTree} {p : Path} {fault : Option FileFault}
    (h : Outlet.prepare t p = (t', fault)) :
    FileTree.Grows t t' ∧ (fault = none → (∃ n ∈ p.names, n ≠ ".") → p.text ≠ "" →
      t'.lookup p = .error .missing → t'.node (t'.target p) = none) := by
  unfold prepare Path.parent? at h
  have hchain := Path.isChain_ancestors p
  cases hancestors : p.ancestors with
  | nil =>
    rw [hancestors] at h
    cases h
    refine ⟨.refl t, ?_⟩
    rintro _ ⟨n, hn, hne⟩
    exact absurd (Path.eq_of_mem_names hancestors hn) hne
  | cons q above =>
    rw [hancestors] at h hchain
    obtain ⟨hp, -⟩ := List.isChain_cons_cons.mp hchain
    simp only [List.head?_cons] at h
    have hmissing (hq : t'.walk q ≠ .error .missing) (htext : p.text ≠ "")
        (hlookup : t'.lookup p = .error .missing) : t'.node (t'.target p) = none :=
      FileTree.node_target_of_walk_missing hp hq (FileTree.walk_of_lookup_missing htext hlookup)
    split at h
    · next hempty =>
      cases h
      refine ⟨.refl t, fun _ _ => hmissing ?_⟩
      -- a walk of no names goes nowhere
      intro hwalk
      rw [FileTree.walk, FileTree.names_of_text_eq hempty] at hwalk
      cases hwalk
    · obtain ⟨hgrows, hwalk⟩ := FileTree.makeDirectories_grows h
      exact ⟨hgrows, fun hfault _ => hmissing (hwalk hfault)⟩

/-- A tree that has grown holds the same documents. -/
lemma FileTree.Grows.ofNode?_eq {t t' : FileTree} (h : FileTree.Grows t t') (location : Location) :
    Document.ofNode? (t'.node location) = Document.ofNode? (t.node location) := by
  rcases h.node location with hsame | ⟨hnone, hdirectory⟩
  · rw [hsame]
  · rw [hnone, hdirectory]
    rfl

/-- A delivery in JSON to a file that could be prepared for merges the analysis into the document
there. -/
lemma Outlet.value_deliver {outlet : Outlet} {around : Surroundings} {results : Results} {p : Path}
    {t : FileTree} {merged : FileTree × Except ReportFault Document}
    (hdestination : outlet.destination = .file p) (hformat : outlet.format = .json)
    (hprepare : Outlet.prepare around.tree p = (t, none))
    (hmerge : (Document.mergeInto t p
      (DispatchAnalysis.ofResults t results outlet.sources).value.1
      (.ofResults results (t.version? ⟨"."⟩) around.time)).value = merged) :
    (outlet.deliver around results).value.tree = merged.1 ∧
      (outlet.deliver around results).value.fault =
        match merged.2 with
        | .error fault => some fault
        | .ok _ => none := by
  have hanalysis : (analysisOf ⟨t, around.time⟩ results outlet.sources).value.1 =
      ((DispatchAnalysis.ofResults t results outlet.sources).value.1,
        .ofResults results (t.version? ⟨"."⟩) around.time) := rfl
  unfold deliver
  rw [hdestination, hformat]
  simp only [hprepare]
  unfold deliverAnalysis
  simp only [Logged.value_bind, hanalysis]
  rw [hmerge]
  rcases merged with ⟨t', fault | d⟩ <;> exact ⟨rfl, rfl⟩

/-- A delivery to a file that does not fail could prepare for it. -/
lemma Outlet.prepare_of_deliver {outlet : Outlet} {around : Surroundings} {results : Results}
    {p : Path} (hdestination : outlet.destination = .file p)
    (h : (outlet.deliver around results).value.fault = none) :
    ∃ t, Outlet.prepare around.tree p = (t, none) := by
  rcases hprepare : prepare around.tree p with ⟨t, _ | fault⟩
  · exact ⟨t, rfl⟩
  · unfold deliver at h
    rw [hdestination] at h
    simp only [hprepare] at h
    cases h

namespace Session

/-- A report is a delivery of the session's results. -/
lemma value_report (s : Session) (around : Surroundings) (scope : Option KernelScope) :
    (s.report around scope).value =
      let kernelsFound := scope.map fun scope => scope.symbols.names.length
      let d := (s.outlet.deliver around (s.results kernelsFound)).value
      ⟨{ s with outlet := d.outlet }, d.tree, d.console, d.fault⟩ := by
  cases scope <;> rfl

/-- A report of a session, with the kernel in whose symbols its messages were looked up if there is
one. -/
structure ReportCall where
  session : Session
  around : Surroundings
  scope : Option KernelScope

namespace ReportCall

/-- What a report leaves behind. -/
def outcome (r : ReportCall) : Reported :=
  (r.session.report r.around r.scope).value

/-- The results that are reported. -/
def results (r : ReportCall) : Results :=
  r.session.results (r.scope.map fun scope => scope.symbols.names.length)

/-- The files that a report sees once it has prepared for its report file. -/
def prepared (r : ReportCall) : FileTree :=
  match r.session.outlet.destination with
  | .file p => (Outlet.prepare r.around.tree p).1
  | .console => r.around.tree

/-- The analysis of the session at the time of a report. -/
def analysis (r : ReportCall) : DispatchAnalysis :=
  (DispatchAnalysis.ofResults r.prepared r.results r.session.outlet.sources).value.1

/-- The data about the analysis at the time of a report. -/
def provenance (r : ReportCall) : Provenance :=
  .ofResults r.results (r.prepared.version? ⟨"."⟩) r.around.time

/-- The time of a report is the one at which it is made. -/
lemma provenance_timestamp (r : ReportCall) : r.provenance.timestamp = r.around.time := rfl

/-- A report names the architecture of its session and says how long its cache lines are. -/
lemma provenance_architecture (r : ReportCall) :
    (r.provenance.architecture, r.provenance.lineSize) =
      (match r.session.arch with
        | some arch => (arch.name, .ofNat arch.lineSize.bytes)
        | none => ("unknown", 128)) := by
  unfold provenance results Session.results Provenance.ofResults
  cases r.session.arch <;> rfl

/-- A report counts the kernels of the symbol table that it is given. -/
lemma provenance_kernelsFound (r : ReportCall) :
    r.provenance.kernelsFound =
      r.scope.map fun scope => UInt64.ofNat scope.symbols.names.length := by
  unfold provenance results Session.results Provenance.ofResults
  cases r.scope <;> rfl

/-- An analysis has the kernel of its session and the entries of both tallies, in their order. -/
lemma analysis_lists (r : ReportCall) :
    r.analysis.kernel = r.session.kernel ∧
      r.analysis.cache.map (fun a => (a.location, a.info)) =
        r.session.global.entries.map (fun x => (x.1, CacheAccessInfo.ofEntry x.2)) ∧
      r.analysis.conflicts.map (fun a => (a.location, a.info)) =
        r.session.shared.entries.map (fun x => (x.1, ConflictAccessInfo.ofEntry x.2)) :=
  ⟨rfl, AccessRecord.map_answer r.prepared _ (fun _ _ => rfl) _ r.session.outlet.sources,
    AccessRecord.map_answer r.prepared _ (fun _ _ => rfl) _ _⟩

/-- A report goes in JSON to a file at the given location, and can be delivered. -/
structure DeliversTo (r : ReportCall) (location : Location) : Prop where
  destination : ∃ p, r.session.outlet.destination = .file p ∧ r.around.tree.target p = location
  format : r.session.outlet.format = .json
  success : r.outcome.fault = none

/-- A report leaves the files and the fault of the delivery. -/
lemma outcome_eq (r : ReportCall) :
    let d := (r.session.outlet.deliver r.around r.results).value
    r.outcome.tree = d.tree ∧ r.outcome.fault = d.fault := by
  rw [outcome, value_report]
  exact ⟨rfl, rfl⟩

/-- A report sees the files that preparing leaves. -/
lemma prepared_of_prepare {r : ReportCall} {p : Path} {t : FileTree} {fault : Option FileFault}
    (hdestination : r.session.outlet.destination = .file p)
    (hprepare : Outlet.prepare r.around.tree p = (t, fault)) : r.prepared = t := by
  unfold prepared
  rw [hdestination]
  exact congrArg Prod.fst hprepare

/-- A report that is delivered extends the document in its file. -/
lemma DeliversTo.node_outcome {r : ReportCall} {location : Location} (h : r.DeliversTo location) :
    r.outcome.tree.node location =
      some (.file (Document.extend (Document.ofNode? (r.around.tree.node location)) r.analysis
        r.provenance).text.toUTF8) := by
  obtain ⟨⟨p, hdestination, rfl⟩, hformat, hsuccess⟩ := h
  obtain ⟨htree, hfault⟩ := r.outcome_eq
  rw [hfault] at hsuccess
  obtain ⟨t, hprepare⟩ := Outlet.prepare_of_deliver hdestination hsuccess
  obtain ⟨hgrows, hmissing⟩ := Outlet.prepare_grows hprepare
  rcases hmerge : (Document.mergeInto t p
    (DispatchAnalysis.ofResults t r.results r.session.outlet.sources).value.1
    (.ofResults r.results (t.version? ⟨"."⟩) r.around.time)).value with ⟨t', fault | d⟩
  · rw [(Outlet.value_deliver hdestination hformat hprepare hmerge).2] at hsuccess
    cases hsuccess
  have hmerged := (Outlet.value_deliver hdestination hformat hprepare hmerge).1
  obtain ⟨rfl, hnode⟩ := Document.mergeInto_ok (hmissing rfl) hmerge
  have hprepared := prepared_of_prepare hdestination hprepare
  rw [htree, hmerged, ← hgrows.target_eq, hnode, hgrows.ofNode?_eq, analysis, provenance, hprepared]

/-- A report that is delivered leaves a document that extends the one before. -/
lemma DeliversTo.ofNode?_outcome {r : ReportCall} {location : Location}
    (h : r.DeliversTo location) :
    Document.ofNode? (r.outcome.tree.node location) =
      some (Document.extend (Document.ofNode? (r.around.tree.node location)) r.analysis
        r.provenance) := by
  rw [h.node_outcome]
  exact Document.ofBytes?_text _

/-- A report in JSON to a file that is there is delivered if any content can take its place. -/
lemma deliversTo_of_file {r : ReportCall} {p : Path} {t : FileTree} {content other : ByteArray}
    (hdestination : r.session.outlet.destination = .file p)
    (hformat : r.session.outlet.format = .json)
    (hprepare : Outlet.prepare r.around.tree p = (t, none))
    (hlookup : t.lookup p = .ok (.file content)) (hreplace : (t.replace p other).2 = none) :
    r.DeliversTo (r.around.tree.target p) := by
  refine ⟨⟨p, hdestination, rfl⟩, hformat, ?_⟩
  obtain ⟨old, hold⟩ := Document.existing_of_file hlookup
  have hmerge := Document.value_mergeInto hold
    (DispatchAnalysis.ofResults t r.results r.session.outlet.sources).value.1
    (.ofResults r.results (t.version? ⟨"."⟩) r.around.time)
  rw [r.outcome_eq.2, (Outlet.value_deliver hdestination hformat hprepare hmerge).2]
  dsimp only
  rw [(t.replace_outcome p other _).1, hreplace]

end ReportCall

/-! ## Many reports -/

/-- Reports that are delivered to the file at one location, with what is there before the first and
after the last of them. Nothing else writes the file, but anything may happen to other files. -/
inductive Reports (location : Location) : Option Node → List ReportCall → Option Node → Prop where
  | none (node : Option Node) : Reports location node [] node
  | report {r rest final} : r.DeliversTo location →
    Reports location (r.outcome.tree.node location) rest final →
    Reports location (r.around.tree.node location) (r :: rest) final

/-- The document that reports amount to: each of them extends the one before. -/
def extendAll (old : Option Document) (reports : List ReportCall) : Option Document :=
  reports.foldl (fun d r => some (Document.extend d r.analysis r.provenance)) old

/-- Reports leave the document that they amount to. -/
lemma ofNode?_of_reports {location : Location} {initial final : Option Node}
    {reports : List ReportCall} (h : Reports location initial reports final) :
    Document.ofNode? final = extendAll (Document.ofNode? initial) reports := by
  induction h with
  | none => rfl
  | report hdelivers _ ih =>
    rw [ih, hdelivers.ofNode?_outcome]
    rfl

/-- Each report adds its analysis behind the others. -/
lemma analysesOf_extendAll (old : Option Document) (reports : List ReportCall) :
    Document.analysesOf (extendAll old reports) =
      Document.analysesOf old ++ reports.map ReportCall.analysis := by
  induction reports generalizing old with
  | nil => exact (List.append_nil _).symm
  | cons r rest ih =>
    rw [extendAll, List.foldl_cons, ← extendAll, ih, Document.analysesOf_extend]
    simp

/-- The last report that knows of a number of kernels decides on it. -/
lemma kernelsOf_extendAll (old : Option Document) (reports : List ReportCall) :
    Document.kernelsOf (extendAll old reports) =
      (reports.reverse.findSome? (·.provenance.kernelsFound)).or (Document.kernelsOf old) := by
  induction reports generalizing old with
  | nil => rfl
  | cons r rest ih =>
    rw [extendAll, List.foldl_cons, ← extendAll, ih, Document.kernelsOf_extend,
      List.reverse_cons, List.findSome?_append, Option.or_assoc]
    simp

/-- After reports to one file, the file holds one document. It has the analyses that were there
before, if the file held a document, and then the analysis of each report with the entries of its
session, in the order of the reports. Version, time and architecture are those of the last report,
and the number of kernels is that of the last report with symbols, or else the one that was there
before. -/
theorem documents_accumulate {location : Location} {initial final : Option Node}
    {before : List ReportCall} {last : ReportCall}
    (h : Reports location initial (before ++ [last]) final) :
    ∃ content d, final = some (.file content) ∧ Document.ofBytes? content = some d ∧
      d.analyses = Document.analysesOf (Document.ofNode? initial) ++
        (before ++ [last]).map ReportCall.analysis ∧
      (∀ r ∈ before ++ [last],
        r.analysis.kernel = r.session.kernel ∧
        r.analysis.cache.map (fun a => (a.location, a.info)) =
          r.session.global.entries.map (fun x => (x.1, CacheAccessInfo.ofEntry x.2)) ∧
        r.analysis.conflicts.map (fun a => (a.location, a.info)) =
          r.session.shared.entries.map (fun x => (x.1, ConflictAccessInfo.ofEntry x.2))) ∧
      (∀ v, d.provenance.version = some v ↔ last.prepared.HasVersion v) ∧
      d.provenance.timestamp = last.around.time ∧
      (d.provenance.architecture, d.provenance.lineSize) =
        (match last.session.arch with
          | some arch => (arch.name, .ofNat arch.lineSize.bytes)
          | none => ("unknown", 128)) ∧
      d.provenance.kernelsFound =
        ((before ++ [last]).reverse.findSome? fun r =>
          r.scope.map fun scope => UInt64.ofNat scope.symbols.names.length).or
          (Document.kernelsOf (Document.ofNode? initial)) := by
  have hfinal := ofNode?_of_reports h
  have hanalyses := analysesOf_extendAll (Document.ofNode? initial) (before ++ [last])
  have hkernels := kernelsOf_extendAll (Document.ofNode? initial) (before ++ [last])
  have hlast : extendAll (Document.ofNode? initial) (before ++ [last]) =
      some (Document.extend (extendAll (Document.ofNode? initial) before) last.analysis
        last.provenance) := by
    rw [extendAll, List.foldl_append, ← extendAll]
    rfl
  rw [← hfinal] at hanalyses hkernels
  rw [hlast] at hfinal
  rw [hfinal] at hanalyses hkernels
  -- neither nothing nor a directory holds a document
  rcases final with _ | _ | content
  · cases hfinal
  · cases hfinal
  · have hprovenance := Document.provenance_extend
      (extendAll (Document.ofNode? initial) before) last.analysis last.provenance
    refine ⟨content, _, rfl, hfinal, hanalyses, fun r _ => r.analysis_lists, ?_, ?_, ?_, ?_⟩
    · intro v
      rw [hprovenance]
      exact FileTree.version?_eq_some_iff
    · rw [hprovenance]
      exact last.provenance_timestamp
    · rw [hprovenance]
      exact last.provenance_architecture
    · rw [funext ReportCall.provenance_kernelsFound] at hkernels
      exact hkernels

/-- A report in JSON to one file, of a session with the given tally of global accesses. -/
def sampleReport (around : Surroundings) (kernel : KernelDispatch) (global : Tally CacheUsage)
    (arch : Option Architecture) (scope : Option KernelScope) : ReportCall where
  session :=
    { start kernel false (.create (.file ⟨"report.json"⟩) .json) arch with global := global }
  around := around
  scope := scope

/-- Such a report is delivered to a file that is there and can be replaced. -/
lemma sampleReport_deliversTo {around : Surroundings} {content other : ByteArray}
    (kernel : KernelDispatch) (global : Tally CacheUsage) (arch : Option Architecture)
    (scope : Option KernelScope)
    (hlookup : around.tree.lookup ⟨"report.json"⟩ = .ok (.file content))
    (hreplace : (around.tree.replace ⟨"report.json"⟩ other).2 = none) :
    (sampleReport around kernel global arch scope).DeliversTo
      (around.tree.target ⟨"report.json"⟩) :=
  ReportCall.deliversTo_of_file rfl rfl rfl hlookup hreplace

/-- The second report has no symbols, so the number of kernels remains, while the rest comes from
it. -/
theorem documents_accumulate_twice :
    let tally := Tally.empty.record ⟨"a.hip", 7, 1⟩ ⟨4, 0, .read, "", 1, (⟨1, 3⟩ : CacheUsage)⟩
    let symbols : SymbolTable := ⟨[("reduce", ⟨[], []⟩), ("scan", ⟨[], []⟩)]⟩
    let tree := FileTree.withFile "VERSION" " 1.2.0 \nnotes\n"
    let r₁ := sampleReport ⟨tree, "2024-01-01 00:00:00"⟩ ⟨"reduce", 1⟩ tally none
      (some ⟨"reduce", symbols⟩)
    let r₂ := sampleReport ⟨r₁.outcome.tree, "2024-01-01 00:00:09"⟩ ⟨"scan", 2⟩ .empty
      (some .gfx906) none
    ∃ final, Reports ["report.json", "work"] none [r₁, r₂] final ∧
      ∃ content d, final = some (.file content) ∧ Document.ofBytes? content = some d ∧
        d.analyses.map (·.kernel) = [⟨"reduce", 1⟩, ⟨"scan", 2⟩] ∧
        d.analyses.map (fun a => a.cache.map fun r => (r.location, r.info)) =
          [[(⟨"a.hip", 7, 1⟩, ⟨"read", 1, 4, 0, "", 1, 3⟩)], []] ∧
        d.provenance = ⟨some "1.2.0", "2024-01-01 00:00:09", "gfx906", 64, some 2⟩ := by
  intro tally symbols tree r₁ r₂
  have h₁ : r₁.DeliversTo ["report.json", "work"] :=
    ⟨⟨_, rfl, by decide +kernel⟩, rfl, by decide +kernel⟩
  have htree : r₁.outcome.tree = r₂.around.tree := by simp only [r₂, sampleReport]
  have hnode := h₁.node_outcome
  rw [htree] at hnode
  -- the first report left a file, and the path leads to it
  have hlocate : r₂.around.tree.locate ⟨"report.json"⟩ = .ok ["report.json", "work"] := by
    decide +kernel
  have hlookup := FileTree.lookup_of_locate hlocate hnode
  have htarget : r₂.around.tree.target ⟨"report.json"⟩ = ["report.json", "work"] := by
    decide +kernel
  have hreplace : (r₂.around.tree.replace ⟨"report.json"⟩ .empty).2 = none := by decide +kernel
  have h₂ : r₂.DeliversTo ["report.json", "work"] := by
    rw [← htarget]
    exact sampleReport_deliversTo _ _ _ _ hlookup hreplace
  have hnone : r₁.around.tree.node ["report.json", "work"] = none := by decide +kernel
  have hsecond : Reports ["report.json", "work"] (r₁.outcome.tree.node ["report.json", "work"])
      [r₂] (r₂.outcome.tree.node ["report.json", "work"]) := by
    rw [htree]
    exact .report h₂ (.none _)
  have hboth := Reports.report h₁ hsecond
  rw [hnone] at hboth
  have hreports : Reports _ none ([r₁] ++ [r₂]) _ := hboth
  obtain ⟨content, d, hfinal, hd, hanalyses, hlists, hversion, htime, harch, hkernels⟩ :=
    documents_accumulate hreports
  have hpresent : r₂.prepared.HasVersion "1.2.0" := by
    rw [← FileTree.version?_eq_some_iff]
    decide +kernel
  refine ⟨_, hboth, content, d, hfinal, hd, ?_, ?_, ?_⟩
  · rw [hanalyses]
    rfl
  · have h₁ := (hlists r₁ (by simp)).2.1
    have h₂ := (hlists r₂ (by simp)).2.1
    rw [hanalyses]
    simp only [Document.ofNode?, Document.analysesOf, Option.elim_none, List.nil_append,
      List.cons_append, List.map_cons, List.map_nil, h₁, h₂]
    decide +kernel
  · obtain ⟨harchitecture, hline⟩ := Prod.mk.inj harch
    have hfields : d.provenance = ⟨d.provenance.version, d.provenance.timestamp,
        d.provenance.architecture, d.provenance.lineSize, d.provenance.kernelsFound⟩ := rfl
    rw [hfields, (hversion _).mpr hpresent, htime, harchitecture, hline, hkernels]
    rfl

end Session

end WaveAccess
