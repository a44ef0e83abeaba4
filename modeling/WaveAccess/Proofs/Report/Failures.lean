import WaveAccess.Proofs.FileTree.Atomicity
import WaveAccess.Proofs.Report.Listings

/-!
# Reports that fail

A report to a file that fails leaves the session as it is but for the lines of a source file that
the outlet remembers, and the files as they are but for directories that the report file would lie
in. As neither makes a difference to a later report, that one delivers what it would have delivered
if the failed report had never been tried.
-/

namespace WaveAccess

open FileTree (directoryOf GrowsAlong Grows)

variable {files : SourceFiles} {p : Path}

/-! ## Preparing for a report file -/

/-- The directories that are created for a report file are those of its path. -/
lemma Outlet.prepare_eq (t : FileTree) (p : Path) :
    prepare t p = t.makeDirectories (directoryOf p) := by
  unfold prepare directoryOf
  cases p.parent? with
  | none => exact (t.makeDirectories_dot).symm
  | some directory =>
    dsimp only
    split
    · exact (t.makeDirectories_dot).symm
    · rfl

/-- What is appended to a file lies in a directory. -/
lemma FileTree.isDirectory_of_append_ok {t t' : FileTree} {content : ByteArray}
    (h : t.append p content = .ok t') : t.isDirectory (directoryOf p) = true := by
  unfold append update at h
  split at h
  · cases h
  · next place hplace => exact isDirectory_directoryOf hplace

namespace Document

/-- A merge that fails leaves the files as they are, apart from directories. -/
lemma fst_mergeInto_error {t t' : FileTree} {analysis : DispatchAnalysis} {provenance : Provenance}
    {fault : ReportFault}
    (h : (mergeInto t p analysis provenance).value = (t', .error fault)) :
    t' = t ∨ t' = (t.makeDirectories (directoryOf p)).1 := by
  cases hold : existing t p with
  | error fault' =>
    rw [mergeInto, hold] at h
    cases h
    exact .inl rfl
  | ok old =>
    rw [value_mergeInto hold] at h
    dsimp only at h
    obtain ⟨htree, hresult⟩ := Prod.ext_iff.mp h
    rcases t.replace_cases p (extend old.value analysis provenance).text.toUTF8 with
      ⟨-, hmade⟩ | ⟨hsuccess, -⟩
    · exact .inr (htree.symm.trans hmade)
    · dsimp only at hresult
      rw [hsuccess] at hresult
      cases hresult

/-- A merge that succeeds finds the directory of the file, or creates it. -/
lemma isDirectory_of_mergeInto_ok {t t' : FileTree} {analysis : DispatchAnalysis}
    {provenance : Provenance} {d : Document}
    (h : (mergeInto t p analysis provenance).value = (t', .ok d)) :
    (t.makeDirectories (directoryOf p)).1.isDirectory (directoryOf p) = true := by
  obtain ⟨_, -, rfl, hreplace⟩ := replace_of_mergeInto h
  rcases t.replace_cases p _ with ⟨hfailure, -⟩ | ⟨-, hexchanged⟩
  · rw [hreplace] at hfailure
    exact absurd rfl hfailure
  · exact hexchanged.isDirectory

end Document

namespace Session.ReportCall

variable {r r' : ReportCall}

section ToFile

variable (hdestination : r.session.outlet.destination = .file p)

include hdestination

/-- A report sees the files after creating the directories of its report file. -/
lemma prepared_eq : r.prepared = (r.around.tree.makeDirectories (directoryOf p)).1 :=
  prepared_of_prepare hdestination (Outlet.prepare_eq _ p)

/-- Preparing for a report creates directories above its file and nothing else. -/
lemma growsAlong_prepared : GrowsAlong p.ancestors r.around.tree r.prepared := by
  rw [prepared_eq hdestination]
  exact r.around.tree.growsAlong_directoryOf p

/-- The directories of a report file are all created at first, as far as they can be. -/
lemma fst_makeDirectories_prepared :
    (r.prepared.makeDirectories (directoryOf p)).1 = r.prepared := by
  rw [prepared_eq hdestination]
  exact r.around.tree.fst_makeDirectories_again _

/-- A report to a file leaves no more than directories, or delivers to a directory that is there. -/
lemma outcome_cases :
    (r.outcome.fault ≠ none ∧ r.outcome.tree = r.prepared) ∨
      (r.outcome.fault = none ∧ r.prepared.isDirectory (directoryOf p) = true) := by
  obtain ⟨htree, hfault⟩ := r.outcome_eq
  have hagain := fst_makeDirectories_prepared hdestination
  rw [htree, hfault]
  rcases hprepare : Outlet.prepare r.around.tree p with ⟨t, _ | fault⟩
  · rw [prepared_of_prepare hdestination hprepare] at hagain ⊢
    cases hformat : r.session.outlet.format with
    | text =>
      obtain ⟨htree', hfault'⟩ := Outlet.value_deliver_text hdestination hformat hprepare
      rw [htree', hfault']
      cases happend : t.append p
          ((Listing.render t r.results).answer r.session.outlet.sources).toUTF8 with
      | error fault => exact .inl ⟨nofun, rfl⟩
      | ok t' => exact .inr ⟨rfl, FileTree.isDirectory_of_append_ok happend⟩
    | json =>
      rcases hmerge : (Document.mergeInto t p
        (DispatchAnalysis.ofResults t r.results r.session.outlet.sources).value.1
        (.ofResults r.results (t.version? ⟨"."⟩) r.around.time)).value with ⟨t', fault | d⟩
      · obtain ⟨htree', hfault'⟩ := Outlet.value_deliver hdestination hformat hprepare hmerge
        rw [htree', hfault']
        refine .inl ⟨nofun, ?_⟩
        rcases Document.fst_mergeInto_error hmerge with hsame | hmade
        · exact hsame
        · exact hmade.trans hagain
      · obtain ⟨-, hfault'⟩ := Outlet.value_deliver hdestination hformat hprepare hmerge
        have hdirectory := Document.isDirectory_of_mergeInto_ok hmerge
        rw [hagain] at hdirectory
        rw [hfault']
        exact .inr ⟨rfl, hdirectory⟩
  · obtain ⟨htree', hfault'⟩ :=
      Outlet.value_deliver_of_prepare_fault r.results hdestination hprepare
    rw [htree', hfault', prepared_of_prepare hdestination hprepare]
    exact .inl ⟨nofun, rfl⟩

/-- A failed report leaves the files as they were once it was prepared for. -/
lemma tree_of_fault (hfailed : r.outcome.fault ≠ none) : r.outcome.tree = r.prepared := by
  rcases outcome_cases hdestination with ⟨-, htree⟩ | ⟨hsuccess, -⟩
  · exact htree
  · exact absurd hsuccess hfailed

end ToFile

/-- Reports of the same results to the same file come to the same over source files that do not
change, whatever their outlets have read, if they are prepared for in the same way. -/
lemma outcome_congr (hdestination : r.session.outlet.destination = .file p)
    (hdestination' : r'.session.outlet.destination = .file p)
    (hformat : r'.session.outlet.format = r.session.outlet.format)
    (hresults : r'.results = r.results) (htime : r'.around.time = r.around.time)
    (hprepare : Outlet.prepare r'.around.tree p = Outlet.prepare r.around.tree p)
    (hslot : r.session.outlet.sources.IsOf files) (hslot' : r'.session.outlet.sources.IsOf files)
    (hshows : r.Shows files) :
    r'.outcome.tree = r.outcome.tree ∧ r'.outcome.fault = r.outcome.fault := by
  obtain ⟨htree, hfault⟩ := r.outcome_eq
  obtain ⟨htree', hfault'⟩ := r'.outcome_eq
  rw [htree, hfault, htree', hfault']
  rcases hmake : Outlet.prepare r.around.tree p with ⟨t, _ | fault⟩
  · rw [hmake] at hprepare
    have hshown : r.results.AreShownBy files t := by
      rw [Shows, prepared_of_prepare hdestination hmake] at hshows
      exact hshows
    cases hf : r.session.outlet.format with
    | text =>
      have hlisting := (Listing.gives_render hshown _ hslot).1
      have hlisting' := (Listing.gives_render hshown _ hslot').1
      obtain ⟨h₁, h₂⟩ := Outlet.value_deliver_text hdestination hf hmake
      obtain ⟨h₁', h₂'⟩ := Outlet.value_deliver_text hdestination' (hformat.trans hf) hprepare
      rw [h₁, h₂, h₁', h₂', hresults, hlisting, hlisting']
      exact ⟨rfl, rfl⟩
    | json =>
      have hanalysis := (DispatchAnalysis.gives_ofResults hshown _ hslot).1
      have hanalysis' := (DispatchAnalysis.gives_ofResults hshown _ hslot').1
      rw [SourceReading.answer] at hanalysis hanalysis'
      obtain ⟨h₁, h₂⟩ := Outlet.value_deliver hdestination hf hmake rfl
      obtain ⟨h₁', h₂'⟩ := Outlet.value_deliver hdestination' (hformat.trans hf) hprepare rfl
      rw [h₁, h₂, h₁', h₂', hresults, htime, hanalysis, hanalysis']
      exact ⟨rfl, rfl⟩
  · rw [hmake] at hprepare
    obtain ⟨h₁, h₂⟩ := Outlet.value_deliver_of_prepare_fault r.results hdestination hmake
    obtain ⟨h₁', h₂'⟩ := Outlet.value_deliver_of_prepare_fault r'.results hdestination' hprepare
    rw [h₁, h₂, h₁', h₂']
    exact ⟨rfl, rfl⟩

end Session.ReportCall

/-! ## Calls after a failed report -/

namespace Session

variable {s s' : Session} {c : Call} {calls : List Call} {outlet : Outlet}

/-- The same session with another outlet. -/
def withOutlet (s : Session) (outlet : Outlet) : Session :=
  { s with outlet }

/-- Messages are taken in without a look at the outlet. -/
lemma map_observe_withOutlet (s : Session) (outlet : Outlet) (scope : Option KernelScope)
    (m : Message) :
    ((s.withOutlet outlet).observe scope m).map (·.value.1) =
      (s.observe scope m).map (·.value.1.withOutlet outlet) := by
  have hobserve (s : Session) (f : Session → Session) :
      (s.observe scope m).map (fun x => f x.value.1) =
        (s.analyze scope m).map (fun o => f o.value.session) := by
    unfold observe
    cases s.analyze scope m with
    | error b => rfl
    | ok o =>
      simp only [Except.map, Logged.value_bind]
      cases o.value.skipped <;> rfl
  have hanalyze : ((s.withOutlet outlet).analyze scope m).map (·.value.session) =
      (s.analyze scope m).map (·.value.session.withOutlet outlet) := by
    unfold analyze
    split
    · next hspace =>
      simp only [Except.map, session_analyzeGlobal hspace]
      cases countedUse? scope m <;> rfl
    · have htables : ((s.withOutlet outlet).noteArch m).tables = (s.noteArch m).tables := rfl
      unfold analyzeShared
      dsimp only
      rw [htables]
      split <;> rfl
    · rfl
  calc ((s.withOutlet outlet).observe scope m).map (·.value.1)
      = ((s.withOutlet outlet).analyze scope m).map (·.value.session) := hobserve _ id
    _ = (s.analyze scope m).map (·.value.session.withOutlet outlet) := hanalyze
    _ = (s.observe scope m).map (·.value.1.withOutlet outlet) :=
          (hobserve s (·.withOutlet outlet)).symm

/-- No call but a report looks at the outlet. -/
lemma after_withOutlet (hc : c.isReport = false) (h : s.after c = .ok s') :
    (s.withOutlet outlet).after c = .ok (s'.withOutlet outlet) := by
  have hobserve (scope : Option KernelScope) (m : Message)
      (h : (s.observe scope m).map (·.value.1) = .ok s') :
      ((s.withOutlet outlet).observe scope m).map (·.value.1) = .ok (s'.withOutlet outlet) := by
    rw [map_observe_withOutlet]
    cases hx : s.observe scope m with
    | error b =>
      rw [hx] at h
      cases h
    | ok x =>
      rw [hx] at h
      cases h
      rfl
  cases c with
  | message m scope => exact hobserve scope m h
  | packet packet =>
    rw [after, observePacket] at h ⊢
    cases hdecode : packet.decode with
    | error e =>
      rw [hdecode] at h
      cases h
      rfl
    | ok m =>
      rw [hdecode] at h
      exact hobserve none m h
  | report around scope => cases hc
  | clear =>
    cases h
    rfl

/-- Calls that are no reports do the same to a session with another outlet. -/
lemma afterAll_withOutlet (hcalls : ∀ c ∈ calls, c.isReport = false)
    (h : s.afterAll calls = .ok s') :
    (s.withOutlet outlet).afterAll calls = .ok (s'.withOutlet outlet) := by
  induction calls generalizing s with
  | nil =>
    cases h
    rfl
  | cons c calls ih =>
    obtain ⟨next, hc, hrest⟩ := afterAll_cons h
    have hnext := ih (fun c hc => hcalls c (List.mem_cons_of_mem _ hc)) hrest
    rw [afterAll, List.foldlM_cons, after_withOutlet (hcalls c List.mem_cons_self) hc]
    exact hnext

/-- A report leaves its session as it is, but for the lines that the outlet remembers. -/
lemma ReportCall.session_outcome (r : ReportCall) :
    r.outcome.session = r.session.withOutlet
      { r.session.outlet with sources := r.outcome.session.outlet.sources } := by
  obtain ⟨hdestination, hformat⟩ := r.session.outlet.deliver_keeps r.around r.results
  rw [outcome, value_report, withOutlet]
  dsimp only
  rw [Session.mk.injEq]
  refine ⟨rfl, rfl, rfl, rfl, rfl, rfl, rfl, ?_⟩
  rw [Outlet.mk.injEq]
  exact ⟨hdestination, hformat, rfl⟩

/-! ## Reports after a failed report -/

/-- The second tree is the first, with some of the directories in it that a report has created. -/
structure ReportCall.LeavesOver (r : ReportCall) (t t' : FileTree) : Prop where
  process : t.process = r.around.tree.process
  grows : Grows t t'
  left : ∀ location, t.node location = none → t'.node location ≠ none →
    r.around.tree.node location = none ∧ r.outcome.tree.node location ≠ none

namespace ReportCall

variable {r : ReportCall} {t t' : FileTree}

/-- What a failed report leaves over right after it. -/
lemma leavesOver (hdestination : r.session.outlet.destination = .file p)
    (hfailed : r.outcome.fault ≠ none) : r.LeavesOver r.around.tree r.outcome.tree where
  process := rfl
  grows := by
    rw [tree_of_fault hdestination hfailed]
    exact (growsAlong_prepared hdestination).toGrows
  left _ hnone hsome := ⟨hnone, hsome⟩

namespace LeavesOver

/-- The directories are still left over once a file has been removed. -/
lemma removeFile (h : r.LeavesOver t t') {location : Location} {content : ByteArray}
    (hfile : t.node location = some (.file content)) :
    r.LeavesOver (t.removeFile location) (t'.removeFile location) := by
  have hnode := FileTree.node_removeFile hfile
  have hnode' := FileTree.node_removeFile (h.grows.node_eq hfile)
  refine ⟨?_, ⟨?_, ?_⟩, ?_⟩
  · rw [FileTree.process_removeFile, h.process]
  · rw [FileTree.process_removeFile, FileTree.process_removeFile,
      h.grows.process]
  · intro other
    rw [hnode, hnode']
    split
    · exact .inl rfl
    · exact h.grows.node other
  · intro other hnone hsome
    rw [hnode] at hnone
    rw [hnode'] at hsome
    split at hsome
    · exact absurd rfl hsome
    · next hne =>
      rw [if_neg hne] at hnone
      exact h.left other hnone hsome

/-- What a report has left over lies along the path of its file. -/
lemma growsAlong (h : r.LeavesOver t t') (hdestination : r.session.outlet.destination = .file p)
    (hfailed : r.outcome.fault ≠ none) :
    GrowsAlong (directoryOf p :: (directoryOf p).ancestors) t t' := by
  refine ⟨h.grows, ?_⟩
  intro location hnone hsome
  obtain ⟨hbefore, hafter⟩ := h.left location hnone hsome
  rw [tree_of_fault hdestination hfailed, prepared_eq hdestination] at hafter
  simp only [FileTree.target_congr h.process]
  exact (r.around.tree.growsAlong_makeDirectories _).created location hbefore hafter

end LeavesOver

end ReportCall

/-- A report to a file that fails leaves its session as it is, but for the lines of a source file
that the outlet remembers. It changes nothing that exists, and leaves nothing new but directories
that the file would lie in. Over source files that do not change, and whatever the session takes in
meanwhile, the next report is then delivered exactly if it would have been delivered without the
failed one, and leaves the same files. -/
theorem failed_report_leaves_no_trace {r : ReportCall}
    (hdestination : r.session.outlet.destination = .file p) (hfailed : r.outcome.fault ≠ none) :
    r.outcome.session = { r.session with
      outlet := { r.session.outlet with sources := r.outcome.session.outlet.sources } } ∧
    (∀ location node, r.around.tree.node location = some node →
      r.outcome.tree.node location = some node) ∧
    (∀ location, r.around.tree.node location = none → r.outcome.tree.node location ≠ none →
      r.outcome.tree.node location = some .directory ∧
        ∃ q ∈ p.ancestors, r.around.tree.target q = location) ∧
    ∀ (files : SourceFiles) (more : List Call) (next : ReportCall) (t' : FileTree),
      r.session.ReadsFrom files → r.Shows files →
      (∀ c ∈ more, c.isReport = false) → r.session.afterAll more = .ok next.session →
      next.Shows files → r.LeavesOver next.around.tree t' →
        ∃ s', r.outcome.session.afterAll more = .ok s' ∧
          let retry : ReportCall := ⟨s', { next.around with tree := t' }, next.scope⟩
          (retry.outcome.fault = none ↔ next.outcome.fault = none) ∧
            (next.outcome.fault = none → retry.outcome.tree = next.outcome.tree) := by
  have hgrows := ReportCall.growsAlong_prepared hdestination
  have htree := ReportCall.tree_of_fault hdestination hfailed
  refine ⟨r.session_outcome, ?_, ?_, ?_⟩
  · intro location node hnode
    rw [htree]
    exact hgrows.node_eq hnode
  · intro location hnone hsome
    rw [htree] at hsome ⊢
    refine ⟨?_, hgrows.created location hnone hsome⟩
    rcases hgrows.node location with hsame | ⟨-, hdirectory⟩
    · exact absurd (hsame.trans hnone) hsome
    · exact hdirectory
  · intro files more next t' hreads hshows hmore hnext hshown hleft
    let outlet : Outlet := { r.session.outlet with sources := r.outcome.session.outlet.sources }
    refine ⟨next.session.withOutlet outlet, ?_, ?_⟩
    · rw [r.session_outcome]
      exact afterAll_withOutlet hmore hnext
    intro retry
    have houtlet : next.session.outlet = r.session.outlet := outlet_of_afterAll hmore hnext
    have hgrows' := hleft.growsAlong hdestination hfailed
    have hdestination' : next.session.outlet.destination = .file p := by
      rw [houtlet, hdestination]
    have hretry : retry.session.outlet.destination = .file p := hdestination
    have hslot : next.session.outlet.sources.IsOf files := by
      rw [houtlet]
      exact hreads.isOf_sources
    have hslot' : retry.session.outlet.sources.IsOf files :=
      isOf_sources_report hreads.isOf_sources hshows
    -- if one of the reports is delivered, both have been prepared for in the same way
    have hcongr (h : next.prepared.isDirectory (directoryOf p) = true ∨
        retry.prepared.isDirectory (directoryOf p) = true) :
        retry.outcome.tree = next.outcome.tree ∧ retry.outcome.fault = next.outcome.fault := by
      have hprepare : Outlet.prepare retry.around.tree p = Outlet.prepare next.around.tree p := by
        rw [ReportCall.prepared_eq hdestination', ReportCall.prepared_eq hretry] at h
        rw [Outlet.prepare_eq, Outlet.prepare_eq]
        exact FileTree.makeDirectories_congr hgrows'
          (fun _ => FileTree.eq_nil_of_names_directoryOf) h
      have hformat : retry.session.outlet.format = next.session.outlet.format := by
        rw [houtlet]
        rfl
      exact ReportCall.outcome_congr hdestination' hretry hformat rfl rfl hprepare hslot hslot'
        hshown
    rcases ReportCall.outcome_cases hdestination' with ⟨hnext', -⟩ | ⟨hnext', hdirectory⟩
    · refine ⟨⟨fun hdelivered => ?_, fun h => absurd h hnext'⟩, fun h => absurd h hnext'⟩
      rcases ReportCall.outcome_cases hretry with ⟨h, -⟩ | ⟨-, hdirectory⟩
      · exact absurd hdelivered h
      · rw [← (hcongr (.inr hdirectory)).2, hdelivered]
    · obtain ⟨hsame, hfault⟩ := hcongr (.inl hdirectory)
      rw [hfault]
      exact ⟨Iff.rfl, fun _ => hsame⟩

/-- A file lies where a directory of the report file should be. Once it has been removed, the report
is delivered as if it had never failed, although a directory has been left over. -/
theorem report_delivered_once_unblocked :
    ∃ r next retry : ReportCall, r.session.ReadsFrom noSources ∧ r.session.global.size = 1 ∧
      r.outcome.fault ≠ none ∧ r.outcome.tree.isDirectory ⟨"new"⟩ = true ∧
      next.session = r.session ∧
      next.around.tree = r.around.tree.removeFile ["f", "work"] ∧
      retry.session = r.outcome.session ∧
      retry.around.tree = r.outcome.tree.removeFile ["f", "work"] ∧
      next.outcome.fault = none ∧ retry.outcome.fault = none ∧
      retry.outcome.tree = next.outcome.tree := by
  let p : Path := ⟨"new/../f/report.txt"⟩
  let t : FileTree := .withFile "f" "x"
  let time : String := "2024-01-01 00:00:00"
  obtain ⟨s, hreads, houtlet, -, hglobal, -, hshown⟩ := exists_readsFrom_twoReads (.file p) .text
  let r : ReportCall := ⟨s, ⟨t, time⟩, none⟩
  let next : ReportCall := ⟨s, ⟨t.removeFile ["f", "work"], time⟩, none⟩
  have hdestination : r.session.outlet.destination = .file p := by
    rw [houtlet]
    rfl
  -- whether the results can be delivered does not depend on them
  let idle : Results := (start ⟨"reduce", 1⟩ false (.create (.file p) .text) none).results none
  have hfault (around : Surroundings) : (ReportCall.mk s around none).outcome.fault =
      ((Outlet.create (.file p) .text).deliver around idle).value.fault := by
    rw [ReportCall.outcome_eq _ |>.2, houtlet]
    exact (Outlet.deliver_outcome _ _ _ _).1
  have hfailed : r.outcome.fault ≠ none := by
    rw [hfault]
    decide +kernel
  have hdelivered : next.outcome.fault = none := by
    rw [hfault]
    decide +kernel
  have hlines (around : Surroundings)
      (h : (around.tree.makeDirectories (directoryOf p)).1.linesRead ⟨unknownSourceFile⟩ = []) :
      (ReportCall.mk s around none).Shows noSources := by
    have hprepared := ReportCall.prepared_eq (r := ⟨s, around, none⟩) hdestination
    refine hshown _ rfl ?_
    rw [hprepared]
    exact h
  obtain ⟨-, -, -, hretry⟩ := failed_report_leaves_no_trace hdestination hfailed
  have hleft := ReportCall.leavesOver hdestination hfailed
  have hfile : t.node ["f", "work"] = some (.file "x".toUTF8) := by decide +kernel
  obtain ⟨s', hs', hsame, htree⟩ := hretry noSources [] next _ hreads
    (hlines _ (by decide +kernel)) (by simp) rfl (hlines _ (by decide +kernel))
    (hleft.removeFile hfile)
  cases hs'
  have hnew : r.outcome.tree.isDirectory ⟨"new"⟩ = true := by
    have hmade : (t.makeDirectories (directoryOf p)).1.isDirectory ⟨"new"⟩ = true := by
      decide +kernel
    rw [ReportCall.tree_of_fault hdestination hfailed, ReportCall.prepared_eq hdestination]
    exact hmade
  exact ⟨r, next, _, hreads, congrArg List.length hglobal, hfailed, hnew, rfl, rfl, rfl, rfl,
    hdelivered, hsame.mpr hdelivered, htree hdelivered⟩

end Session

end WaveAccess
