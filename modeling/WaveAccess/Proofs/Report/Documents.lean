import WaveAccess.Proofs.Json.Records
import WaveAccess.Proofs.Json.RoundTrip
import WaveAccess.Report.Document.Codec

/-!
# Report documents are read as they are written

Each part of a document is decoded to what it was encoded from, so a document that is written to a
file is read back from it.
-/

namespace WaveAccess

/-! ## Accesses -/

/-- What is said about the cache lines of an access is read back. -/
lemma CacheAccessInfo.ofJson?_toJson (i : CacheAccessInfo) : ofJson? i.toJson = some i := by
  have hlines : linesOfJson?
      (.ofMembers [("needed", .ofNat i.needed.toNat), ("used", .ofNat i.used.toNat)]) =
      some (i.needed, i.used) := by
    rw [linesOfJson?, Json.fields?_ofMembers]
    · simp [Json.required]
    · rfl
    · decide
  rw [ofJson?, toJson, Json.fields?_ofMembers]
  · simp [Json.required, hlines]
  · rfl
  · decide

/-- What is said about the bank conflicts of an access is read back. -/
lemma ConflictAccessInfo.ofJson?_toJson (i : ConflictAccessInfo) : ofJson? i.toJson = some i := by
  rw [ofJson?, toJson, Json.fields?_ofMembers]
  · simp [Json.required]
  · rfl
  · decide

/-- A location is read back. -/
lemma SourcePosition.ofJson?_toJson (l : SourcePosition) : ofJson? l.toJson = some l := by
  rw [ofJson?, toJson, Json.fields?_ofMembers]
  · simp [Json.required]
  · rfl
  · decide

namespace AccessRecord

variable {I : Type} {encode : I → Json} {decode? : Json → Option I}

/-- An access is decoded if what is said about it is. -/
lemma ofJson?_toJson (h : ∀ i, decode? (encode i) = some i) (r : AccessRecord I) :
    ofJson? decode? (r.toJson encode) = some r := by
  rw [ofJson?, toJson, Json.fields?_ofMembers]
  · simp [Json.required, SourcePosition.ofJson?_toJson, h]
  · rfl
  · decide

/-- A list of records is read back if what they say is. -/
lemma listOfJson?_listToJson (h : ∀ i, decode? (encode i) = some i)
    (records : List (AccessRecord I)) :
    listOfJson? decode? (listToJson encode records) = some records := by
  rw [listOfJson?, listToJson, Json.fields?_ofMembers]
  · simp [Json.required, Json.list?_ofList (ofJson?_toJson h)]
  · rfl
  · decide

end AccessRecord

/-! ## Documents -/

/-- A dispatch is read back. -/
lemma KernelDispatch.ofJson?_toJson (k : KernelDispatch) : ofJson? k.toJson = some k := by
  rw [ofJson?, toJson, Json.fields?_ofMembers]
  · simp [Json.required]
  · rfl
  · decide

/-- An analysis is read back. -/
lemma DispatchAnalysis.ofJson?_toJson (a : DispatchAnalysis) : ofJson? a.toJson = some a := by
  rw [ofJson?, toJson, Json.fields?_ofMembers]
  · simp [Json.required, KernelDispatch.ofJson?_toJson,
      AccessRecord.listOfJson?_listToJson CacheAccessInfo.ofJson?_toJson,
      AccessRecord.listOfJson?_listToJson ConflictAccessInfo.ofJson?_toJson]
  · rfl
  · decide

/-- The data about an analysis are read back. -/
lemma Provenance.ofJson?_toJson (m : Provenance) : ofJson? m.toJson = some m := by
  have hgpu : gpuOfJson? (.ofMembers [("architecture", .ofText m.architecture),
      ("cache_line_size", .ofNat m.lineSize.toNat)]) = some (m.architecture, m.lineSize) := by
    rw [gpuOfJson?, Json.fields?_ofMembers]
    · simp [Json.required]
    · rfl
    · decide
  have hversion : (Json.ofOption Json.ofText m.version).optional? Json.text? = some m.version :=
    Json.optional?_ofOption Json.text?_ofText (fun _ => nofun) m.version
  have hkernels : (Json.ofOption (fun n => .ofNat n.toNat) m.kernelsFound).optional? Json.uint64? =
      some m.kernelsFound :=
    Json.optional?_ofOption Json.uint64?_ofNat (fun _ => nofun) m.kernelsFound
  rw [ofJson?, toJson, Json.fields?_ofMembers]
  · simp [Json.required, Json.optional, hgpu, hversion, hkernels]
  · rfl
  · decide

namespace Document

/-- A document is decoded. -/
lemma ofJson?_toJson (d : Document) : ofJson? d.toJson = some d := by
  rw [ofJson?, toJson, Json.fields?_ofMembers]
  · simp [Json.required, Json.list?_ofList DispatchAnalysis.ofJson?_toJson,
      Provenance.ofJson?_toJson]
  · rfl
  · decide

/-- The text of a document is read as the document. -/
lemma ofText?_text (d : Document) : (Json.ofText? d.text).bind ofJson? = some d := by
  rw [text, Json.ofText?_pretty, Option.bind_some, ofJson?_toJson]

/-- A document that is written to a file is read back from it. -/
lemma ofBytes?_text (d : Document) : ofBytes? d.text.toUTF8 = some d := by
  rw [ofBytes?, Json.ofBytes?_toUTF8, ofText?_text]

/-- An empty file holds no document. -/
lemma ofBytes?_empty {content : ByteArray} (h : content.size = 0) : ofBytes? content = none := by
  obtain rfl : content = "".toUTF8 := ByteArray.size_eq_zero_iff.mp h
  rw [ofBytes?, Json.ofBytes?, Json.decode_toUTF8]
  rfl

end Document

end WaveAccess
