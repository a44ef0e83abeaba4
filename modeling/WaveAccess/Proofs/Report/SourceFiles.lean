import Mathlib.Data.Set.Defs
import WaveAccess.Proofs.Report.Deliveries
import WaveAccess.Proofs.Report.SourceRuns
import WaveAccess.Proofs.Session.Calls

/-!
# Reports over source files that do not change

If the source files stay as they are, and each of them is always asked for by the same spelling,
then the slot holds nothing but what would be read anew. So what a report quotes does not depend on
the reports before it, and a report can be given in terms of its results and the source files.
-/

namespace WaveAccess

/-- Source files that do not change: the paths that they are asked for by, of which no two are the
same file, and the lines of each. A file that cannot be read has none. -/
structure SourceFiles where
  paths : Set Path
  lines : Path → List String
  alike : ∀ {p q : Path}, p ∈ paths → q ∈ paths → p.isSame q = true → p = q

variable {files : SourceFiles} {t : FileTree} {p : Path} {α β : Type}

namespace SourceFiles

/-- A line of a file by its number from 1 on. -/
def line? (files : SourceFiles) (p : Path) (number : Nat) : Option String :=
  if number = 0 then none else (files.lines p)[number - 1]?

/-- A path is that of a source file, whose lines are those in a tree. -/
def IsShownBy (files : SourceFiles) (t : FileTree) (p : Path) : Prop :=
  p ∈ files.paths ∧ t.linesRead p = files.lines p

end SourceFiles

/-! ## Reading -/

/-- A slot holds nothing, or the lines of a source file. -/
def SourceSlot.IsOf (slot : SourceSlot) (files : SourceFiles) : Prop :=
  ∀ p, slot.path = some p → p ∈ files.paths ∧ slot.lines = files.lines p

/-- A slot that holds nothing belongs to any source files. -/
lemma SourceSlot.isOf_empty (files : SourceFiles) : SourceSlot.empty.IsOf files :=
  nofun

/-- A reading gives a value whatever was read before, and again leaves a slot of source files. -/
def SourceReading.Gives (reading : SourceReading α) (files : SourceFiles) (a : α) : Prop :=
  ∀ slot : SourceSlot, slot.IsOf files →
    reading.answer slot = a ∧ (reading slot).value.2.IsOf files

namespace SourceReading

/-- A value on its own is given. -/
lemma gives_pure (files : SourceFiles) (a : α) : Gives (pure a) files a :=
  fun _ hslot => ⟨rfl, hslot⟩

/-- Two steps of reading give what the second gives of the value of the first. -/
lemma Gives.bind {reading : SourceReading α} {f : α → SourceReading β} {a : α} {b : β}
    (h : reading.Gives files a) (hf : (f a).Gives files b) : Gives (reading >>= f) files b := by
  intro slot hslot
  obtain ⟨ha, hnext⟩ := h slot hslot
  rw [answer] at ha
  rw [answer, value_bind, ha]
  exact hf _ hnext

/-- Reading for each item gives the values of all. -/
lemma gives_mapM {f : α → SourceReading β} {g : α → β} {as : List α}
    (h : ∀ a ∈ as, (f a).Gives files (g a)) : Gives (as.mapM f) files (as.map g) := by
  have := Logged.lawfulMonad
  induction as with
  | nil => exact gives_pure files []
  | cons a as ih =>
    rw [List.mapM_cons, List.map_cons]
    have hrest := ih fun a ha => h a (List.mem_cons_of_mem _ ha)
    exact (h a List.mem_cons_self).bind (hrest.bind (gives_pure files _))

end SourceReading

/-- The file that is asked for is in the slot afterwards, as it would have been read. -/
lemma SourceFiles.IsShownBy.load (h : files.IsShownBy t p) {slot : SourceSlot}
    (hslot : slot.IsOf files) :
    (t.load p slot).value.lines = files.lines p ∧ (t.load p slot).value.IsOf files := by
  cases hholds : slot.holds p with
  | true =>
    rw [FileTree.value_load_of_holds t hholds]
    refine ⟨?_, hslot⟩
    obtain ⟨q, hq, hsame⟩ := (Option.any_eq_true _ _).mp hholds
    obtain ⟨hmem, hlines⟩ := hslot q hq
    rw [hlines, files.alike hmem h.1 hsame]
  | false =>
    rw [FileTree.value_load_of_not_holds t hholds]
    refine ⟨h.2, ?_⟩
    intro q hq
    cases hq
    exact h

namespace FileTree

open SourceReading

/-- A source line is that of the source files. -/
lemma gives_sourceLine (h : files.IsShownBy t p) (number : Nat) :
    (t.sourceLine p number).Gives files (files.line? p number) := by
  intro slot hslot
  obtain ⟨hlines, hnext⟩ := h.load hslot
  refine ⟨?_, hnext⟩
  rw [SourceFiles.line?, ← hlines]
  rfl

/-- An excerpt is that of the line in the source files. -/
lemma gives_excerpt (h : files.IsShownBy t p) (number column : Nat) :
    (t.excerpt p number column).Gives files ((files.line? p number).map (excerptOf column)) :=
  (gives_sourceLine h number).bind (gives_pure files _)

/-- The context of a line from the source files. -/
def contextOver (files : SourceFiles) (p : Path) (number : Nat) : String :=
  ((files.line? p number).map fun line => Text.trim (Text.expandTabs line)).getD ""

/-- A context is that of the line in the source files. -/
lemma gives_context (h : files.IsShownBy t p) (number : Nat) :
    (t.context p number).Gives files (contextOver files p number) := by
  refine (gives_sourceLine h number).bind ?_
  rw [contextOver]
  cases files.line? p number with
  | none => exact gives_pure files _
  | some line => exact gives_pure files _

end FileTree

/-! ## Listings and analyses -/

namespace Results

/-- The locations of the accesses that results are about. -/
def locations (s : Results) : List SourcePosition :=
  s.global.entries.map (·.1) ++ s.shared.entries.map (·.1)

/-- A tree shows the source files of results. -/
def AreShownBy (s : Results) (files : SourceFiles) (t : FileTree) : Prop :=
  ∀ location ∈ s.locations, files.IsShownBy t ⟨location.file⟩

variable {s : Results}

/-- The source files of global accesses are shown. -/
lemma AreShownBy.global (h : s.AreShownBy files t) :
    ∀ entry ∈ s.global.entries, files.IsShownBy t ⟨entry.1.file⟩ :=
  fun entry hentry => h entry.1 (List.mem_append_left _ (List.mem_map_of_mem hentry))

/-- The source files of accesses to the local data share are shown. -/
lemma AreShownBy.shared (h : s.AreShownBy files t) :
    ∀ entry ∈ s.shared.entries, files.IsShownBy t ⟨entry.1.file⟩ :=
  fun entry hentry => h entry.1 (List.mem_append_right _ (List.mem_map_of_mem hentry))

end Results

namespace Listing

open SourceReading

variable {M : Type}

/-- The block of an entry from the source files. -/
def blockOver (files : SourceFiles) (describe : TallyEntry M → String)
    (entry : SourcePosition × TallyEntry M) : String :=
  let line? := files.line? ⟨entry.1.file⟩ entry.1.line.toNat
  entry.1.text ++ "\n" ++ (line?.map (FileTree.excerptOf entry.1.column.toNat)).getD "" ++
    describe entry.2

/-- The block of an entry is that from the source files. -/
lemma gives_block {entry : SourcePosition × TallyEntry M}
    (h : files.IsShownBy t ⟨entry.1.file⟩) (describe : TallyEntry M → String) :
    (block t describe entry).Gives files (blockOver files describe entry) :=
  (FileTree.gives_excerpt h _ _).bind (gives_pure files _)

/-- The listing of results from the source files. -/
def renderOver (files : SourceFiles) (s : Results) : String :=
  (if s.verbose then heading s.kernel else "") ++
    cacheText
      ((s.global.worthReporting s.verbose).map (blockOver files describeCacheUse)) ++
    conflictText
      ((s.shared.worthReporting s.verbose).map (blockOver files describeConflicts))

/-- The listing of results is that from the source files. -/
lemma gives_render {s : Results} (h : s.AreShownBy files t) :
    (render t s).Gives files (renderOver files s) := by
  rw [renderOver, ← layOut_cacheFrame, ← layOut_conflictFrame]
  refine (gives_mapM (g := blockOver files describeCacheUse) ?_).bind
    ((gives_mapM (g := blockOver files describeConflicts) ?_).bind (gives_pure files _))
  · intro entry hentry
    exact gives_block (h.global entry (List.mem_of_mem_filter hentry)) _
  · intro entry hentry
    exact gives_block (h.shared entry (List.mem_of_mem_filter hentry)) _

end Listing

/-- The record of an entry from the source files. -/
def AccessRecord.ofEntryOver {M I : Type} (files : SourceFiles) (describe : TallyEntry M → I)
    (entry : SourcePosition × TallyEntry M) : AccessRecord I where
  location := entry.1
  context := FileTree.contextOver files ⟨entry.1.file⟩ entry.1.line.toNat
  info := describe entry.2

/-- The record of an entry is that from the source files. -/
lemma AccessRecord.gives_ofEntry {M I : Type} {entry : SourcePosition × TallyEntry M}
    (h : files.IsShownBy t ⟨entry.1.file⟩) (describe : TallyEntry M → I) :
    (ofEntry t describe entry).Gives files (ofEntryOver files describe entry) :=
  (FileTree.gives_context h _).bind (SourceReading.gives_pure files _)

/-- The analysis of results from the source files. -/
def DispatchAnalysis.ofResultsOver (files : SourceFiles) (s : Results) : DispatchAnalysis where
  kernel := s.kernel
  cache := s.global.entries.map (AccessRecord.ofEntryOver files CacheAccessInfo.ofEntry)
  conflicts := s.shared.entries.map (AccessRecord.ofEntryOver files ConflictAccessInfo.ofEntry)

/-- The analysis of results is that from the source files. -/
lemma DispatchAnalysis.gives_ofResults {s : Results} (h : s.AreShownBy files t) :
    (ofResults t s).Gives files (ofResultsOver files s) := by
  refine (SourceReading.gives_mapM fun entry hentry => ?_).bind
    ((SourceReading.gives_mapM fun entry hentry => ?_).bind (SourceReading.gives_pure files _))
  · exact AccessRecord.gives_ofEntry (h.global entry hentry) _
  · exact AccessRecord.gives_ofEntry (h.shared entry hentry) _

/-! ## Deliveries -/

namespace Outlet

variable {around : Surroundings} {results : Results}

/-- The analysis of results and its data are those from the source files. -/
lemma gives_analysisOf (h : results.AreShownBy files around.tree) :
    (analysisOf around results).Gives files (.ofResultsOver files results,
      .ofResults results (around.tree.version? ⟨"."⟩) around.time) :=
  (DispatchAnalysis.gives_ofResults h).bind (SourceReading.gives_pure files _)

/-- A report has a text in either format, whatever was read before. -/
lemma gives_renderIn (h : results.AreShownBy files around.tree) (format : ReportFormat) :
    ∃ text, (renderIn format around results).Gives files text := by
  cases format with
  | text => exact ⟨_, Listing.gives_render h⟩
  | json => exact ⟨_, (gives_analysisOf h).bind (SourceReading.gives_pure files _)⟩

/-- What is delivered leaves a slot of source files. -/
lemma isOf_sources_deliver {outlet : Outlet} (hslot : outlet.sources.IsOf files)
    (h : results.AreShownBy files
      (match outlet.destination with
      | .file p => (prepare around.tree p).1
      | .console => around.tree)) :
    (outlet.deliver around results).value.outlet.sources.IsOf files := by
  have hrender (around : Surroundings) (h : results.AreShownBy files around.tree) :
      (outlet.render around results).value.2.sources.IsOf files := by
    obtain ⟨text, hgives⟩ := gives_renderIn h outlet.format
    exact (hgives outlet.sources hslot).2
  unfold deliver
  split
  · next hdestination =>
    rw [hdestination] at h
    exact hrender around h
  · next p hdestination =>
    rw [hdestination] at h
    dsimp only at h
    split
    · exact hslot
    · next t hprepare =>
      rw [hprepare] at h
      split
      · unfold deliverListing
        simp only [Logged.value_bind]
        split <;> exact hrender _ h
      · have hgives : (analysisOf ⟨t, around.time⟩ results).Gives files _ := gives_analysisOf h
        have hanalysis := (hgives outlet.sources hslot).2
        unfold deliverAnalysis
        simp only [Logged.value_bind]
        split <;> exact hanalysis

end Outlet

/-! ## Sessions -/

namespace Session

/-- The source files are as given when a report is made. -/
def ReportCall.Shows (r : ReportCall) (files : SourceFiles) : Prop :=
  r.results.AreShownBy files r.prepared

/-- A session that was started and called while the source files were as given. -/
inductive ReadsFrom (files : SourceFiles) : Session → Prop where
  | start (kernel verbose destination format arch) :
    ReadsFrom files (start kernel verbose (.create destination format) arch)
  | call {s s' c} : ReadsFrom files s → s.after c = .ok s' →
    (∀ around scope, c = .report around scope → ReportCall.Shows ⟨s, around, scope⟩ files) →
    ReadsFrom files s'

/-- A report leaves a slot of the source files. -/
lemma isOf_sources_report {r : ReportCall} (hslot : r.session.outlet.sources.IsOf files)
    (h : r.Shows files) : r.outcome.session.outlet.sources.IsOf files := by
  rw [ReportCall.outcome, value_report]
  exact Outlet.isOf_sources_deliver hslot h

namespace ReadsFrom

variable {s : Session}

/-- Calls other than reports read no source files. -/
lemma afterAll {s' : Session} {calls : List Call} (hs : ReadsFrom files s)
    (hcalls : ∀ c ∈ calls, c.isReport = false) (h : s.afterAll calls = .ok s') :
    ReadsFrom files s' := by
  refine afterAll_induction ?_ hs h
  intro s s' c hc hreads hafter
  refine .call hreads hafter ?_
  rintro around scope rfl
  cases hcalls _ hc

/-- What the outlet remembers is never out of date. -/
lemma isOf_sources (h : ReadsFrom files s) : s.outlet.sources.IsOf files := by
  induction h with
  | start => exact SourceSlot.isOf_empty files
  | @call s s' c _ hcall hshows ih =>
    cases effect_of_after hcall with
    | took _ htaken => rwa [htaken.keeps.2.2]
    | undecodable => exact ih
    | cleared => exact ih
    | @reported around scope outlet =>
      have hafter := Except.ok.inj hcall
      rw [← hafter]
      exact isOf_sources_report (r := ⟨s, around, scope⟩) ih (hshows around scope rfl)

end ReadsFrom

end Session

end WaveAccess
