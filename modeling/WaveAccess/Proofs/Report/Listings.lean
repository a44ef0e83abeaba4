import WaveAccess.Proofs.Report.Rebuilding
import WaveAccess.Proofs.Report.SourceFiles
import WaveAccess.Proofs.Session.Clearing

/-!
# What a listing leaves out, and listings in a file

A listing that is not verbose is the verbose one without the line of the kernel and without the
blocks of efficient entries. As long as the source files do not change, the blocks that remain are
the same, although their lines are looked up in another order. Listings that are reported to a file
follow each other there, behind what the file held before.
-/

namespace WaveAccess

variable {files : SourceFiles}

/-! ## Blocks over source files -/

namespace Listing

variable {M : Type}

/-- The blocks of entries over source files follow these. -/
lemma follow_blockOver (describe : TallyEntry M → String)
    (entries : List (SourcePosition × TallyEntry M)) :
    Follow (·.1) (describe ·.2) entries (entries.map (blockOver files describe)) := by
  apply List.forall₂_map_right_iff.mpr
  apply List.forall₂_same.mpr
  intro x _
  rw [blockOver]
  cases files.line? ⟨x.1.file⟩ x.1.line.toNat with
  | none =>
    rw [Option.map_none, Option.getD_none, String.append_empty]
    exact .plain
  | some line => exact .quoted line

end Listing

/-! ## Files that listings are appended to -/

namespace FileTree

/-- A tree that has grown has files of the same content. -/
lemma Grows.contentOf_eq {t t' : FileTree} (h : Grows t t') (location : Location) :
    contentOf (t'.node location) = contentOf (t.node location) := by
  rcases h.node location with hsame | ⟨hnone, hdirectory⟩
  · rw [hsame]
  · rw [hnone, hdirectory]
    rfl

end FileTree

/-! ## Reports in text -/

namespace Session

namespace ReportCall

/-- The listing that a report in text delivers. -/
def listing (r : ReportCall) : String :=
  (Listing.render r.prepared r.results).answer r.session.outlet.sources

/-- The same report in all but whether it is verbose. -/
def withVerbose (r : ReportCall) (verbose : Bool) : ReportCall :=
  { r with session := { r.session with verbose } }

/-- Whether a report is delivered. -/
def isDelivered (r : ReportCall) : Bool :=
  r.outcome.fault.isNone

/-- A report goes in text to a file at the given location. -/
structure ListsTo (r : ReportCall) (location : Location) : Prop where
  destination : ∃ p, r.session.outlet.destination = .file p ∧ r.around.tree.target p = location
  format : r.session.outlet.format = .text

variable {r : ReportCall} {location : Location}

/-- The listing of a report is that of its source files. -/
lemma listing_eq_renderOver (hslot : r.session.outlet.sources.IsOf files) (hshows : r.Shows files) :
    r.listing = Listing.renderOver files r.results :=
  (Listing.gives_render hshows _ hslot).1

/-- In text, the console gets the listing. -/
lemma console_outcome (hdestination : r.session.outlet.destination = .console)
    (hformat : r.session.outlet.format = .text) : r.outcome.console = r.listing := by
  have hprepared : r.prepared = r.around.tree := by
    unfold prepared
    rw [hdestination]
  rw [outcome, value_report, listing, hprepared]
  dsimp only
  unfold Outlet.deliver
  rw [hdestination]
  simp only [Logged.value_bind, Logged.value_pure, Outlet.render, hformat]
  rfl

/-- A report in text that is delivered puts its listing behind what the file held. One that is not
delivered leaves what the file held. -/
lemma ListsTo.outcome_cases (h : r.ListsTo location) :
    (r.isDelivered = true ∧ r.outcome.tree.node location =
        some (.file (FileTree.contentOf (r.around.tree.node location) ++ r.listing.toUTF8))) ∨
      (r.isDelivered = false ∧ FileTree.Grows r.around.tree r.outcome.tree) := by
  obtain ⟨⟨p, hdestination, rfl⟩, hformat⟩ := h
  obtain ⟨htree, hfault⟩ := r.outcome_eq
  rw [isDelivered, htree, hfault]
  rcases hprepare : Outlet.prepare r.around.tree p with ⟨t, _ | fault⟩
  · have hprepared := prepared_of_prepare hdestination hprepare
    have hgrows := (Outlet.prepare_grows hprepare).1
    obtain ⟨htree', hfault'⟩ := Outlet.value_deliver_text hdestination hformat hprepare
    rw [htree', hfault', ← hprepared, ← listing, hprepared]
    cases happend : t.append p r.listing.toUTF8 with
    | error fault =>
      exact .inr ⟨rfl, hgrows⟩
    | ok t' =>
      refine .inl ⟨rfl, ?_⟩
      rw [← hgrows.contentOf_eq, ← hgrows.target_eq]
      exact FileTree.append_ok happend
  · obtain ⟨htree', hfault'⟩ :=
      Outlet.value_deliver_of_prepare_fault r.results hdestination hprepare
    rw [htree', hfault']
    exact .inr ⟨rfl, (Outlet.prepare_grows hprepare).1⟩

/-- What a file holds after a report in text. -/
lemma ListsTo.contentOf_outcome (h : r.ListsTo location) :
    FileTree.contentOf (r.outcome.tree.node location) =
      FileTree.contentOf (r.around.tree.node location) ++
        (if r.isDelivered then r.listing else "").toUTF8 := by
  rcases h.outcome_cases with ⟨hdelivered, hnode⟩ | ⟨hfailed, hgrows⟩
  · rw [hnode, hdelivered]
    rfl
  · rw [hgrows.contentOf_eq, hfailed]
    exact ByteArray.append_empty.symm

end ReportCall

/-- Reports in text to the file at one location, with what is there before the first and after the
last of them. Nothing else writes the file, but anything may happen to other files. -/
inductive Listings (location : Location) : Option Node → List ReportCall → Option Node → Prop where
  | none (node : Option Node) : Listings location node [] node
  | report {r rest final} : r.ListsTo location →
    Listings location (r.outcome.tree.node location) rest final →
    Listings location (r.around.tree.node location) (r :: rest) final

/-- The listings of reports that are delivered follow each other. -/
lemma contentOf_of_listings {location : Location} {initial final : Option Node}
    {reports : List ReportCall} (h : Listings location initial reports final) :
    FileTree.contentOf final = FileTree.contentOf initial ++
      (String.join ((reports.filter (·.isDelivered)).map (·.listing))).toUTF8 := by
  induction h with
  | none => exact ByteArray.append_empty.symm
  | @report r rest final hlists _ ih =>
    rw [ih, hlists.contentOf_outcome, ByteArray.append_assoc]
    congr 1
    cases hdelivered : r.isDelivered with
    | true => simp [hdelivered, String.join_cons]
    | false => simp [hdelivered, ByteArray.empty_append]

/-- Over source files that do not change, a report in text that is not verbose is the verbose one
without the line of the kernel, and with exactly the blocks of inefficient entries in each section.
A section has the line that stands for no blocks exactly if it has no blocks. The console gets the
listing as it is. A file has the listings of all reports to it that were delivered, in their order,
behind what it held before. -/
theorem quiet_listing_omits_efficient {r : ReportCall} (hreads : r.session.ReadsFrom files)
    (hshows : r.Shows files) :
    let s := r.session
    let cacheBlock := Listing.blockOver files Listing.describeCacheUse
    let conflictBlock := Listing.blockOver files Listing.describeConflicts
    let cache := s.global.entries.filter fun x => x.2.statistic.used ≠ x.2.statistic.needed
    let conflicts := s.shared.entries.filter fun x => 0 < x.2.statistic.total
    (r.withVerbose true).listing =
      "Memory analysis for " ++ s.kernel.name ++ " dispatch_id[" ++
        toString s.kernel.number.toNat ++ "]\n" ++
        Listing.cacheText (s.global.entries.map cacheBlock) ++
        Listing.conflictText (s.shared.entries.map conflictBlock) ∧
    (r.withVerbose false).listing =
      Listing.cacheText (cache.map cacheBlock) ++
        Listing.conflictText (conflicts.map conflictBlock) ∧
    (∀ entries, Listing.cacheText (entries.map cacheBlock) = Listing.cacheText [] ↔
      entries = []) ∧
    (∀ entries, Listing.conflictText (entries.map conflictBlock) = Listing.conflictText [] ↔
      entries = []) ∧
    (s.outlet.destination = .console → s.outlet.format = .text →
      ∀ verbose, (r.withVerbose verbose).outcome.console = (r.withVerbose verbose).listing) ∧
    ∀ location initial reports final, Listings location initial reports final →
      FileTree.contentOf final = FileTree.contentOf initial ++
        (String.join ((reports.filter (·.isDelivered)).map (·.listing))).toUTF8 := by
  intro s cacheBlock conflictBlock cache conflicts
  have hlisting (verbose : Bool) : (r.withVerbose verbose).listing =
      Listing.renderOver files { r.results with verbose } :=
    ReportCall.listing_eq_renderOver hreads.isOf_sources hshows
  refine ⟨?_, ?_, ?_, ?_, ?_, ?_⟩
  · rw [hlisting, Listing.renderOver, Tally.worthReporting_true, Tally.worthReporting_true]
    rfl
  · have hcache : s.global.worthReporting false = cache := Tally.worthReporting_cacheUsage _
    have hconflicts : s.shared.worthReporting false = conflicts :=
      Tally.worthReporting_conflictTotal _
    rw [hlisting, Listing.renderOver, if_neg Bool.false_ne_true, String.empty_append, ← hcache,
      ← hconflicts]
    rfl
  · intro entries
    exact Listing.cacheText_eq_iff (Listing.follow_blockOver _ entries)
  · intro entries
    exact Listing.conflictText_eq_iff (Listing.follow_blockOver _ entries)
  · intro hdestination hformat verbose
    exact ReportCall.console_outcome hdestination hformat
  · intro location initial reports final hreports
    exact contentOf_of_listings hreports

/-- No source file is asked for but the unknown one, which cannot be read. -/
def noSources : SourceFiles where
  paths := {p | p = ⟨unknownSourceFile⟩}
  lines _ := []
  alike := by
    rintro p q rfl rfl _
    rfl

/-- A session after two reads, which reports without any source file. -/
lemma exists_readsFrom_twoReads (destination : Destination) (format : ReportFormat) :
    ∃ s : Session, s.ReadsFrom noSources ∧ s.outlet = .create destination format ∧
      s.verbose = false ∧
      s.global.entries = [(⟨unknownSourceFile, 7, 1⟩, ⟨4, 0, .read, "", 1, ⟨1, 1⟩⟩)] ∧
      s.shared.entries = [(⟨unknownSourceFile, 7, 1⟩, ⟨4, 0, .read, "", 1, ⟨1⟩⟩)] ∧
      ∀ r : ReportCall, r.session = s → r.prepared.linesRead ⟨unknownSourceFile⟩ = [] →
        r.Shows noSources := by
  obtain ⟨s, hs, hglobal, hshared⟩ :=
    afterAll_twoReads ⟨"reduce", 1⟩ false (.create destination format) none
  have hcalls : ∀ c ∈ twoReads, c.isReport = false := by
    intro c hc
    simp only [twoReads, List.mem_cons, List.not_mem_nil, or_false] at hc
    rcases hc with rfl | rfl <;> rfl
  refine ⟨s, (ReadsFrom.start _ _ _ _ _).afterAll hcalls hs, outlet_of_afterAll hcalls hs,
    (keeps_of_afterAll hs).2, hglobal, hshared, ?_⟩
  rintro r rfl hlines location hlocation
  have hlocations : r.results.locations =
      [⟨unknownSourceFile, 7, 1⟩, ⟨unknownSourceFile, 7, 1⟩] := by
    change r.session.global.entries.map (·.1) ++ r.session.shared.entries.map (·.1) = _
    rw [hglobal, hshared]
    rfl
  rw [hlocations, List.mem_cons, List.mem_singleton, or_self] at hlocation
  rw [hlocation]
  exact ⟨rfl, hlines⟩

/-- After a read of global memory without excess and a read of the local data share with a conflict,
the first is left out and the file gets the second. -/
theorem quiet_listing_after_two_reads :
    ∃ r : ReportCall, r.session.ReadsFrom noSources ∧ r.Shows noSources ∧
      r.session.global.size = 1 ∧ r.isDelivered = true ∧
      FileTree.contentOf (r.outcome.tree.node ["report.txt"]) =
        ("\n=== L2 cache line use report ======================\n" ++
          "No excess cache lines used for global memory accesses\n" ++
          "=== End of L2 cache line use report ===============\n" ++
          "\n=== Bank conflicts report =========================\n" ++
          "<unknown source file>:7:1\n\tread of 4 bytes at IR level\n" ++
          "\texecuted 1 times, 1 bank conflicts in total\n" ++
          "=== End of bank conflicts report ====================\n").toUTF8 := by
  let outlet : Outlet := .create (.file ⟨"report.txt"⟩) .text
  let around : Surroundings := ⟨.empty [], "2024-01-01 00:00:00"⟩
  obtain ⟨s, hreads, houtlet, hquiet, hglobal, hshared, hshown⟩ :=
    exists_readsFrom_twoReads (.file ⟨"report.txt"⟩) .text
  let r : ReportCall := ⟨s, around, none⟩
  have hshows : r.Shows noSources := by
    have hprepared : r.prepared = .empty [] := by
      rw [ReportCall.prepared, houtlet]
      rfl
    refine hshown r rfl ?_
    rw [hprepared]
    decide +kernel
  have htarget : around.tree.target ⟨"report.txt"⟩ = ["report.txt"] := by decide
  have hlists : r.ListsTo ["report.txt"] :=
    ⟨⟨⟨"report.txt"⟩, by rw [houtlet]; rfl, htarget⟩, by rw [houtlet]; rfl⟩
  have hdelivered : r.isDelivered = true := by
    -- whether the results can be delivered does not depend on them
    have hidle : (outlet.deliver around ((start ⟨"reduce", 1⟩ false outlet none).results
        none)).value.fault = none := by decide +kernel
    have hfault : r.outcome.fault = none := by
      rw [r.outcome_eq.2, houtlet, (outlet.deliver_outcome around _ r.results).1]
      exact hidle
    rw [ReportCall.isDelivered, hfault]
    rfl
  obtain ⟨-, hlisting, -, -, -, hfiles⟩ := quiet_listing_omits_efficient hreads hshows
  have hsame : r.withVerbose false = r := by
    rw [ReportCall.withVerbose, ← hquiet]
  rw [hsame, hglobal, hshared] at hlisting
  refine ⟨r, hreads, hshows, congrArg List.length hglobal, hdelivered, ?_⟩
  -- there was no file before
  have hempty : FileTree.contentOf (r.around.tree.node ["report.txt"]) = .empty := rfl
  rw [hfiles _ _ [r] _ (.report hlists (.none _)), List.filter_singleton, hdelivered, cond_true,
    List.map_singleton, hempty, ByteArray.empty_append, String.join_cons, String.join_nil,
    String.append_empty, hlisting]
  refine congrArg String.toUTF8 ?_
  decide +kernel

end Session

end WaveAccess
