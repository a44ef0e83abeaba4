import WaveAccess.Proofs.FileTree.Creation

/-!
# Replacing a file

A replacement that succeeds leaves the new content where the path leads, and the working directory
stays what it was, so every path goes on leading where it led. As the directories stay as they are
while the file takes its place, reading the path finds the content.
-/

namespace WaveAccess.FileTree

variable {t t' : FileTree} {p : Path} {content : ByteArray} {location location' : Location}
  {names : List String}

/-! ## Trees with the same directories -/

/-- Two trees have the same directories, and differ in files only. -/
structure SameDirectories (t t' : FileTree) : Prop where
  process : t'.process = t.process
  node : ∀ location, t'.node location = some .directory ↔ t.node location = some .directory

namespace SameDirectories

/-- A walk to a directory passes through directories only. -/
lemma walk_ok (h : SameDirectories t t') (hwalk : names.foldlM t.enter location = .ok location')
    (hend : t.node location' = some .directory) :
    names.foldlM t'.enter location = .ok location' := by
  induction names generalizing location with
  | nil => exact hwalk
  | cons name names ih =>
    obtain ⟨next, hnext, hrest⟩ := walk_cons_ok hwalk
    obtain ⟨-, hdirectory, -⟩ := enter_ok hnext
    have hnode : t.node next = some .directory := by
      cases names with
      | nil => cases hrest; exact hend
      | cons _ _ =>
        obtain ⟨_, hafter, -⟩ := walk_cons_ok hrest
        exact (enter_ok hafter).2.1
    have henter : t'.enter location name = .ok next := by
      unfold enter at hnext ⊢
      rw [hdirectory] at hnext
      rw [(h.node location).mpr hdirectory]
      dsimp only at hnext ⊢
      split_ifs at hnext with hdot hup hlong hmissing
      · rw [if_pos hdot, hnext]
      · rw [if_neg hdot, if_pos hup, hnext]
      · cases hnext
        rw [if_neg hdot, if_neg hup, if_neg hlong, (h.node _).mpr hnode]
        rfl
    rw [List.foldlM_cons, henter]
    exact ih hrest

/-- A file in the place of a path is what the path names. -/
lemma lookup_eq (h : SameDirectories t t') {place : Place} (hplace : t.place p = .ok place)
    (hslash : p.endsInSlash = false) (hnode : t'.node (t.target p) = some (.file content)) :
    t'.lookup p = .ok (.file content) := by
  obtain ⟨htarget, hparent, hrefusal, before, hnames, hwalk, hdot, hup, hlong⟩ := place_ok hplace
  rw [← htarget] at hnode
  have henter : t'.enter place.parent place.name = .ok (place.name :: place.parent) := by
    rw [enter, (h.node _).mpr hparent]
    simp [hdot, hup, hlong, hnode]
  have hall : p.names.foldlM t'.enter (t'.start p) = .ok (place.name :: place.parent) := by
    rw [hnames, start, h.process, ← start, walk_append_ok (h.walk_ok hwalk hparent),
      walk_singleton, henter]
  simp [lookup, locate, hrefusal, hall, hslash, hnode]

end SameDirectories

/-! ## Writing, removing and moving files -/

/-- Writing a file leaves the process as it is. -/
lemma process_writeFile {parent : Location} {name : String}
    (h : t.writeFile parent name content = .ok t') : t'.process = t.process := by
  unfold writeFile at h
  split at h
  · split at h <;> cases h
    rfl
  · cases h

/-- Removing a file leaves the process as it is. -/
lemma process_removeFile (t : FileTree) (location : Location) :
    (t.removeFile location).process = t.process := by
  unfold removeFile
  split <;> rfl

/-- A temporary file holds its content, and the working directory stays. -/
lemma createTemporary_some {directory : Path} {replaced : Option String} {temporary : Location}
    (h : t.createTemporary directory replaced content = some (temporary, t')) :
    t'.node temporary = some (.file content) ∧ t'.process = t.process := by
  unfold createTemporary at h
  split at h
  · cases h
  · split at h
    · cases h
    · split at h
      · next hwrite =>
        cases h
        refine ⟨?_, process_writeFile hwrite⟩
        rw [node_writeFile hwrite, if_pos rfl]
      · cases h

/-- Removing a file removes no directory. -/
lemma node_removeFile_eq_directory_iff {source : Location} :
    (t.removeFile source).node location = some .directory ↔ t.node location = some .directory := by
  by_cases heq : location = source
  · subst heq
    unfold removeFile
    split
    · next hfile => simp [hfile]
    · rfl
  · rw [node_removeFile_of_ne heq]

/-- A place is meant as a directory if the path ends in a slash. -/
lemma asDirectory_of_place {place : Place} (h : t.place p = .ok place) :
    place.asDirectory = p.endsInSlash := by
  unfold FileTree.place at h
  split at h
  · cases h
  · split at h
    · cases h
    · split at h
      · cases h
      · split_ifs at h
        cases h
        rfl

/-- A file that is moved to the place of a path is where the path leads, and the directories stay as
they are. -/
lemma moveFile_ok {source : Location} (hsource : t.node source = some (.file content))
    (h : t.moveFile source p = .ok t') :
    (∃ place, t.place p = .ok place) ∧ p.endsInSlash = false ∧
      t'.node (t.target p) = some (.file content) ∧ SameDirectories t t' := by
  unfold moveFile at h
  rw [hsource] at h
  cases hplace : t.place p with
  | error refusal => rw [hplace] at h; cases h
  | ok place =>
    simp only [hplace] at h
    split_ifs at h with hdirectory hslash
    have hfile : t.node (place.name :: place.parent) ≠ some .directory := by
      simpa [isDirectoryAt] using hdirectory
    refine ⟨⟨place, rfl⟩, ?_, ?_, ?_, ?_⟩
    · rw [← asDirectory_of_place hplace]
      exact Bool.eq_false_iff.mpr hslash
    · rw [node_writeFile h, (place_ok hplace).1, if_pos rfl]
    · rw [process_writeFile h, process_removeFile]
    · intro location
      rw [node_writeFile h]
      split
      · next heq => simp [heq, hfile]
      · exact node_removeFile_eq_directory_iff

/-! ## Replacing -/

/-- The steps of a replacement that succeeds: the directories of the path are created, the content
is written to a temporary file in them, and that file is moved to the place of the path. -/
lemma replace_eq_none (h : t.replace p content = (t', none)) :
    ∃ t₁ t₂ temporary, Grows t t₁ ∧
      t₁.createTemporary (directoryOf p) p.names.getLast? content = some (temporary, t₂) ∧
      t₂.moveFile temporary p = .ok t' := by
  unfold replace at h
  dsimp only at h
  split at h
  · cases h
  · next t₁ hmake =>
    split at h
    · cases h
    · next temporary t₂ htemporary =>
      split at h
      · next hmove =>
        cases h
        exact ⟨t₁, t₂, temporary, (makeDirectories_grows hmake).1, htemporary, hmove⟩
      · cases h

/-- A replacement that succeeds leaves the content where the path leads, which has a last name. -/
lemma replace_ok (h : t.replace p content = (t', none)) :
    t'.node (t.target p) = some (.file content) ∧ t'.process = t.process ∧
      p.text ≠ "" ∧ ∃ n ∈ p.names, n ≠ "." := by
  obtain ⟨t₁, t₂, temporary, hgrows, htemporary, hmove⟩ := replace_eq_none h
  obtain ⟨hnode, hprocess⟩ := createTemporary_some htemporary
  obtain ⟨⟨place, hplace⟩, -, hcontent, hsame⟩ := moveFile_ok hnode hmove
  obtain ⟨-, -, hrefusal, before, hnames, -, hdot, -⟩ := place_ok hplace
  -- the path leads where it led before the directories and the temporary file were created
  rw [target_congr hprocess, hgrows.target_eq] at hcontent
  refine ⟨hcontent, ?_, ?_, place.name, ?_, hdot⟩
  · rw [hsame.process, hprocess, hgrows.process]
  · intro htext
    rw [pathRefusal?, if_pos htext] at hrefusal
    cases hrefusal
  · rw [hnames]
    exact List.mem_append_right _ (List.mem_singleton_self _)

/-- After a replacement that succeeds, the path names a file with the new content. -/
lemma lookup_of_replace (h : t.replace p content = (t', none)) :
    t'.lookup p = .ok (.file content) := by
  obtain ⟨t₁, t₂, temporary, -, htemporary, hmove⟩ := replace_eq_none h
  obtain ⟨⟨place, hplace⟩, hslash, hcontent, hsame⟩ :=
    moveFile_ok (createTemporary_some htemporary).1 hmove
  exact hsame.lookup_eq hplace hslash hcontent

end WaveAccess.FileTree
