import WaveAccess.Proofs.Report.Accumulation

/-!
# Report files are read back

What a delivery writes to a report file is the document with one line per item and a line feed at
the end. Whatever the document holds, its text is read as the document again, and so is the file by
the next delivery.
-/

namespace WaveAccess.Document

/-- A file with the text of a document holds the document. -/
lemma existing_of_lookup {t : FileTree} {p : Path} {d : Document}
    (h : t.lookup p = .ok (.file d.text.toUTF8)) : existing t p = .ok (pure (some d)) := by
  have hsize : d.text.toUTF8.size ≠ 0 := by
    intro hempty
    have hnone := ofBytes?_empty hempty
    rw [ofBytes?_text] at hnone
    cases hnone
  rw [existing, h]
  simp only [if_neg hsize, ofBytes?_text]

/-- A document that was merged into a file is the content of the file. -/
lemma lookup_of_mergeInto {t t' : FileTree} {p : Path} {analysis : DispatchAnalysis}
    {provenance : Provenance} {d : Document}
    (h : (mergeInto t p analysis provenance).value = (t', .ok d)) :
    t'.lookup p = .ok (.file d.text.toUTF8) := by
  obtain ⟨_, -, rfl, hreplace⟩ := replace_of_mergeInto h
  exact FileTree.lookup_of_replace hreplace

/-- The text that is written for a document is read as the document, from the text as well as from
its bytes. It is the content of every file that the document was merged into, so the next delivery
to that file finds the document. -/
theorem written_text_reads_back :
    (∀ d : Document, (Json.ofText? (d.toJson.pretty ++ "\n")).bind ofJson? = some d ∧
      ofBytes? (d.toJson.pretty ++ "\n").toUTF8 = some d) ∧
    ∀ t p analysis provenance t' d, (mergeInto t p analysis provenance).value = (t', .ok d) →
      t'.lookup p = .ok (.file (d.toJson.pretty ++ "\n").toUTF8) ∧
        existing t' p = .ok (pure (some d)) := by
  refine ⟨?_, ?_⟩
  · intro d
    exact ⟨ofText?_text d, ofBytes?_text d⟩
  · intro t p analysis provenance t' d h
    have hlookup := lookup_of_mergeInto h
    exact ⟨hlookup, existing_of_lookup hlookup⟩

/-- An analysis whose strings need every kind of escape, with the greatest numbers. -/
def sampleAnalysis : DispatchAnalysis where
  kernel := ⟨"\"re\\duce\"\n\t\u0001\u007fé😀", 0xffffffffffffffff⟩
  cache := [⟨⟨"a.hip", 0xffffffff, 0⟩, "x[i] = \"\\\\\";",
    ⟨"read", 0xffffffffffffffff, 0xffff, 16, "global_load_dwordx4", 0, 0xffffffffffffffff⟩⟩]
  conflicts := [⟨⟨"", 0, 0⟩, "", ⟨"write", 1, 2, 3⟩⟩]

/-- Data without a version and without a number of kernels. -/
def sampleProvenance : Provenance where
  version := none
  timestamp := "2024-01-01 00:00:00"
  architecture := "unknown"
  lineSize := 128
  kernelsFound := none

/-- The analysis alone is the document that is written to a missing file, and it is found there. -/
theorem written_text_reads_back_from_report_file :
    let d := single sampleAnalysis sampleProvenance
    ∃ t', (mergeInto (.empty []) ⟨"report.json"⟩ sampleAnalysis sampleProvenance).value =
        (t', .ok d) ∧ existing t' ⟨"report.json"⟩ = .ok (pure (some d)) ∧
      ofBytes? (d.toJson.pretty ++ "\n").toUTF8 = some d := by
  intro d
  have hfault : ((FileTree.empty []).replace ⟨"report.json"⟩ d.text.toUTF8).2 = none := by
    decide +kernel
  have hmissing : existing (.empty []) ⟨"report.json"⟩ = .ok (pure none) := by rfl
  have hmerge : (mergeInto (.empty []) ⟨"report.json"⟩ sampleAnalysis sampleProvenance).value =
      (((FileTree.empty []).replace ⟨"report.json"⟩ d.text.toUTF8).1, .ok d) := by
    rw [value_mergeInto hmissing]
    exact Prod.ext rfl (by simp only [d, extend, Logged.value_pure, hfault])
  obtain ⟨hreads, hwritten⟩ := written_text_reads_back
  exact ⟨_, hmerge, (hwritten _ _ _ _ _ _ hmerge).2, (hreads d).2⟩

end WaveAccess.Document
