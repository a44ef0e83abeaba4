import WaveAccess.Proofs.FileTree.Contents
import WaveAccess.Proofs.Report.Accumulation
import WaveAccess.Proofs.Report.Readings

/-!
# Deliveries of different results

Whether results can be delivered, and which files are there afterwards, does not depend on the
results. An outlet goes on delivering to the same destination in the same format.
-/

namespace WaveAccess

open FileTree (SameShape)

namespace Document

/-- Whether an analysis can be merged into a document does not depend on the analysis. -/
lemma mergeInto_outcome (t : FileTree) (p : Path) (analysis analysis' : DispatchAnalysis)
    (provenance provenance' : Provenance) :
    ∃ t₁ t₁', SameShape t₁ t₁' ∧
      ((∃ fault, (mergeInto t p analysis provenance).value = (t₁, .error fault) ∧
          (mergeInto t p analysis' provenance').value = (t₁', .error fault)) ∨
        ∃ d d', (mergeInto t p analysis provenance).value = (t₁, .ok d) ∧
          (mergeInto t p analysis' provenance').value = (t₁', .ok d')) := by
  cases hold : existing t p with
  | error fault =>
    refine ⟨t, t, .refl t, .inl ⟨fault, ?_, ?_⟩⟩
    · rw [mergeInto, hold]; rfl
    · rw [mergeInto, hold]; rfl
  | ok old =>
    rw [value_mergeInto hold, value_mergeInto hold]
    dsimp only
    obtain ⟨hfault, hshape⟩ := t.replace_outcome p
      (extend old.value analysis provenance).text.toUTF8
      (extend old.value analysis' provenance').text.toUTF8
    refine ⟨_, _, hshape, ?_⟩
    rw [hfault]
    cases (t.replace p (extend old.value analysis provenance).text.toUTF8).2 with
    | some fault => exact .inl ⟨_, rfl, rfl⟩
    | none => exact .inr ⟨_, _, rfl, rfl⟩

end Document

namespace Outlet

/-- A listing is delivered in the same way whatever the results are. -/
lemma deliverListing_outcome (outlet : Outlet) (around : Surroundings) (p : Path)
    (results results' : Results) :
    (outlet.deliverListing around p results').value.fault =
        (outlet.deliverListing around p results).value.fault ∧
      SameShape (outlet.deliverListing around p results).value.tree
        (outlet.deliverListing around p results').value.tree := by
  have happend := around.tree.append_outcome p (outlet.render around results).value.1.toUTF8
    (outlet.render around results').value.1.toUTF8
  unfold deliverListing
  simp only [Logged.value_bind]
  revert happend
  generalize around.tree.append p (outlet.render around results).value.1.toUTF8 = appended
  generalize around.tree.append p (outlet.render around results').value.1.toUTF8 = appended'
  -- both texts are appended, or neither is
  rintro (⟨h⟩ | _)
  · simp only [Logged.value_pure]
    exact ⟨trivial, h⟩
  · simp only [Logged.value_pure]
    exact ⟨trivial, .refl _⟩

/-- A delivery fails in the same way and leaves the same files, whatever the results are. -/
lemma deliver_outcome (outlet : Outlet) (around : Surroundings) (results results' : Results) :
    (outlet.deliver around results').value.fault = (outlet.deliver around results).value.fault ∧
      SameShape (outlet.deliver around results).value.tree
        (outlet.deliver around results').value.tree := by
  cases hdestination : outlet.destination with
  | console =>
    unfold deliver
    rw [hdestination]
    simp only [Logged.value_bind, Logged.value_pure]
    exact ⟨trivial, .refl _⟩
  | file p =>
    rcases hprepare : prepare around.tree p with ⟨t, _ | fault⟩
    · cases hformat : outlet.format with
      | text =>
        unfold deliver
        rw [hdestination, hformat]
        simp only [hprepare]
        exact deliverListing_outcome outlet ⟨t, around.time⟩ p results results'
      | json =>
        obtain ⟨t₁, t₁', hshape, hmerged⟩ := Document.mergeInto_outcome t p
          (DispatchAnalysis.ofResults t results outlet.sources).value.1
          (DispatchAnalysis.ofResults t results' outlet.sources).value.1
          (.ofResults results (t.version? ⟨"."⟩) around.time)
          (.ofResults results' (t.version? ⟨"."⟩) around.time)
        rcases hmerged with ⟨fault, h, h'⟩ | ⟨d, d', h, h'⟩
        · obtain ⟨htree, hfault⟩ := value_deliver hdestination hformat hprepare h
          obtain ⟨htree', hfault'⟩ := value_deliver hdestination hformat hprepare h'
          rw [htree, htree', hfault, hfault']
          exact ⟨rfl, hshape⟩
        · obtain ⟨htree, hfault⟩ := value_deliver hdestination hformat hprepare h
          obtain ⟨htree', hfault'⟩ := value_deliver hdestination hformat hprepare h'
          rw [htree, htree', hfault, hfault']
          exact ⟨rfl, hshape⟩
    · unfold deliver
      rw [hdestination]
      simp only [hprepare]
      exact ⟨trivial, .refl _⟩

/-- Nothing is delivered to a file that could not be prepared for. -/
lemma value_deliver_of_prepare_fault {outlet : Outlet} {around : Surroundings} {p : Path}
    {t : FileTree} {fault : FileFault} (results : Results)
    (hdestination : outlet.destination = .file p)
    (hprepare : prepare around.tree p = (t, some fault)) :
    (outlet.deliver around results).value.tree = t ∧
      (outlet.deliver around results).value.fault = some (.files fault) := by
  unfold deliver
  rw [hdestination]
  simp only [hprepare]
  exact ⟨rfl, rfl⟩

/-- A delivery in text to a file that could be prepared for appends the listing to the file. -/
lemma value_deliver_text {outlet : Outlet} {around : Surroundings} {results : Results} {p : Path}
    {t : FileTree} (hdestination : outlet.destination = .file p) (hformat : outlet.format = .text)
    (hprepare : prepare around.tree p = (t, none)) :
    let listing := (Listing.render t results).answer outlet.sources
    let appended := t.append p listing.toUTF8
    (outlet.deliver around results).value.tree = appended.toOption.getD t ∧
      (outlet.deliver around results).value.fault =
        match appended with
        | .error fault => some (.files fault)
        | .ok _ => none := by
  intro listing appended
  have hlisting : (outlet.render ⟨t, around.time⟩ results).value.1 = listing := by
    rw [render, hformat]
    rfl
  have happended : t.append p listing.toUTF8 = appended := rfl
  unfold deliver
  rw [hdestination, hformat]
  simp only [hprepare]
  unfold deliverListing
  simp only [Logged.value_bind, hlisting, happended]
  rcases appended with fault | t' <;> exact ⟨rfl, rfl⟩

/-- An outlet keeps its destination and its format. -/
lemma deliver_keeps (outlet : Outlet) (around : Surroundings) (results : Results) :
    (outlet.deliver around results).value.outlet.destination = outlet.destination ∧
      (outlet.deliver around results).value.outlet.format = outlet.format := by
  have hrender : ∀ around, (outlet.render around results).value.2.destination =
      outlet.destination ∧ (outlet.render around results).value.2.format = outlet.format := by
    intro around
    simp only [render, Logged.value_bind, Logged.value_pure, and_self]
  unfold deliver
  split
  · simp only [Logged.value_bind, Logged.value_pure]
    exact hrender around
  · split
    · simp only [Logged.value_pure, and_self]
    · split
      · unfold deliverListing
        simp only [Logged.value_bind]
        split
        · simp only [Logged.value_pure]
          exact hrender _
        · simp only [Logged.value_pure]
          exact hrender _
      · unfold deliverAnalysis
        simp only [Logged.value_bind]
        split
        · simp only [Logged.value_pure, and_self]
        · simp only [Logged.value_bind, Logged.value_pure, and_self]

end Outlet

end WaveAccess
