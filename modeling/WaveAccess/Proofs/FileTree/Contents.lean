import WaveAccess.Proofs.FileTree.Replacement

/-!
# Contents of files

No operation looks at the contents of files but those that read them. So operations that write go
on in the same way, and fail in the same way, in trees that differ in contents only, whatever they
write.
-/

namespace WaveAccess.FileTree

/-- Two trees have the same directories and files, and differ in contents only. -/
structure SameShape (t t' : FileTree) : Prop extends SameDirectories t t' where
  missing : ∀ location, t'.node location = none ↔ t.node location = none

variable {t t' : FileTree} {p : Path} {location : Location}

namespace SameShape

/-- A tree has its own shape. -/
lemma refl (t : FileTree) : SameShape t t :=
  ⟨⟨rfl, fun _ => Iff.rfl⟩, fun _ => Iff.rfl⟩

/-- Where one tree has a file, so has the other. -/
lemma file (h : SameShape t t') {content : ByteArray}
    (hfile : t.node location = some (.file content)) :
    ∃ content', t'.node location = some (.file content') := by
  have hdirectory := h.node location
  have hmissing := h.missing location
  rw [hfile] at hdirectory hmissing
  cases hnode : t'.node location with
  | none => simp [hnode] at hmissing
  | some node =>
    cases node with
    | directory => simp [hnode] at hdirectory
    | file content' => exact ⟨content', rfl⟩

/-- Both trees have directories at the same locations. -/
lemma isDirectoryAt_eq (h : SameShape t t') (location : Location) :
    t'.isDirectoryAt location = t.isDirectoryAt location := by
  rw [Bool.eq_iff_iff, isDirectoryAt, isDirectoryAt, beq_iff_eq, beq_iff_eq, h.node]

/-- Names lead from a location to the same one in both trees. -/
lemma enter_eq (h : SameShape t t') : t'.enter = t.enter := by
  funext location name
  have hmissing : (t'.node (name :: location)).isNone = (t.node (name :: location)).isNone := by
    rw [Bool.eq_iff_iff, Option.isNone_iff_eq_none, Option.isNone_iff_eq_none, h.missing]
  unfold enter
  cases hnode : t.node location with
  | none => rw [(h.missing location).mpr hnode]
  | some node =>
    cases node with
    | directory => rw [(h.node location).mpr hnode, hmissing]
    | file content =>
      obtain ⟨content', hfile⟩ := h.file hnode
      rw [hfile]

/-- Paths lead to the same places in both trees, or are refused for the same reason. -/
lemma place_eq (h : SameShape t t') (p : Path) : t'.place p = t.place p := by
  simp only [place, start, h.process, h.enter_eq, h.isDirectoryAt_eq]

end SameShape

/-- Two operations fail in the same way, or leave trees that differ in contents only. -/
inductive SameOutcome {E : Type} : Except E FileTree → Except E FileTree → Prop where
  | ok {t t' : FileTree} : SameShape t t' → SameOutcome (.ok t) (.ok t')
  | error (e : E) : SameOutcome (.error e) (.error e)

/-! ## Files -/

/-- A file can be written into a directory unless a directory is in its place. -/
lemma writeFile_ok {parent : Location} {name : String} (hparent : t.node parent = some .directory)
    (hname : t.node (name :: parent) ≠ some .directory) (content : ByteArray) :
    ∃ t', t.writeFile parent name content = .ok t' := by
  rw [writeFile, dif_pos hparent, dif_neg hname]
  exact ⟨_, rfl⟩

namespace SameShape

variable (h : SameShape t t')

include h

/-- Whether a file can be written does not depend on its content. -/
lemma writeFile (parent : Location) (name : String) (content content' : ByteArray) :
    SameOutcome (t.writeFile parent name content) (t'.writeFile parent name content') := by
  by_cases hparent : t.node parent = some .directory
  · have hparent' := (h.node parent).mpr hparent
    by_cases hname : t.node (name :: parent) = some .directory
    · have hname' := (h.node _).mpr hname
      rw [FileTree.writeFile, dif_pos hparent, dif_pos hname, FileTree.writeFile, dif_pos hparent',
        dif_pos hname']
      exact .error _
    · have hname' := mt (h.node _).mp hname
      obtain ⟨t₁, hwrite⟩ := writeFile_ok hparent hname content
      obtain ⟨t₁', hwrite'⟩ := writeFile_ok hparent' hname' content'
      rw [hwrite, hwrite']
      refine .ok ⟨⟨?_, ?_⟩, ?_⟩
      · rw [process_writeFile hwrite, process_writeFile hwrite',
          h.process]
      · intro location
        rw [node_writeFile hwrite, node_writeFile hwrite']
        split
        · simp
        · exact h.node location
      · intro location
        rw [node_writeFile hwrite, node_writeFile hwrite']
        split
        · simp
        · exact h.missing location
  · have hparent' := mt (h.node parent).mp hparent
    rw [FileTree.writeFile, dif_neg hparent, FileTree.writeFile, dif_neg hparent']
    exact .error _

end SameShape

/-- A file is gone once it is removed, as only directories stay. -/
lemma node_removeFile_eq_none_iff :
    (t.removeFile location).node location = none ↔ t.node location ≠ some .directory := by
  unfold removeFile
  split
  · next hfile => simp [hfile]
  · next hother =>
    cases hnode : t.node location with
    | none => simp
    | some node =>
      cases node with
      | directory => simp
      | file content => exact absurd hnode (hother content)

namespace SameShape

variable (h : SameShape t t')

include h

/-- Removing the same file leaves trees of the same shape. -/
lemma removeFile (location : Location) :
    SameShape (t.removeFile location) (t'.removeFile location) := by
  refine ⟨⟨?_, ?_⟩, ?_⟩
  · rw [process_removeFile, process_removeFile, h.process]
  · intro other
    rw [node_removeFile_eq_directory_iff, node_removeFile_eq_directory_iff, h.node]
  · intro other
    by_cases hother : other = location
    · rw [hother, node_removeFile_eq_none_iff, node_removeFile_eq_none_iff, ne_eq, h.node]
    · rw [node_removeFile_of_ne hother, node_removeFile_of_ne hother, h.missing]

/-- Moving the same file has the same outcome. -/
lemma moveFile {source : Location} {content : ByteArray}
    (hsource : t.node source = some (.file content)) (p : Path) :
    SameOutcome (t.moveFile source p) (t'.moveFile source p) := by
  obtain ⟨content', hsource'⟩ := h.file hsource
  unfold FileTree.moveFile
  rw [hsource, hsource', h.place_eq]
  cases t.place p with
  | error refusal => exact .error refusal
  | ok place =>
    simp only [h.isDirectoryAt_eq]
    split_ifs
    · exact .error _
    · exact .error _
    · exact (h.removeFile source).writeFile _ _ _ _

end SameShape

/-! ## Whole operations -/

/-- Outcomes remain the same if their faults are renamed alike. -/
lemma SameOutcome.mapError {E F : Type} {outcome outcome' : Except E FileTree}
    (h : SameOutcome outcome outcome') (f : E → F) :
    SameOutcome (outcome.mapError f) (outcome'.mapError f) := by
  cases h with
  | ok h => exact .ok h
  | error e => exact .error (f e)

/-- The content of a file. What is no file has none. -/
def contentOf : Option Node → ByteArray
  | some (.file content) => content
  | _ => .empty

/-- A file is updated by writing it, unless a slash follows its name. -/
lemma update_eq {place : Place} (hplace : t.place p = .ok place) (change : ByteArray → ByteArray) :
    t.update p change =
      if place.asDirectory then .error (.openFile p)
      else (t.writeFile place.parent place.name
        (change (contentOf (t.node (place.name :: place.parent))))).mapError fun _ => .openFile p := by
  unfold update contentOf
  rw [hplace]
  dsimp only
  rcases t.node (place.name :: place.parent) with _ | _ | old <;> dsimp only
  · cases place.asDirectory <;> cases t.writeFile place.parent place.name (change .empty) <;> rfl
  · cases place.asDirectory <;> cases t.writeFile place.parent place.name (change .empty) <;> rfl
  · cases place.asDirectory <;> cases t.writeFile place.parent place.name (change old) <;> rfl

/-- Whether a file can be updated does not depend on the change. -/
lemma update_outcome (t : FileTree) (p : Path) (change change' : ByteArray → ByteArray) :
    SameOutcome (t.update p change) (t.update p change') := by
  cases hplace : t.place p with
  | error refusal =>
    rw [update, update, hplace]
    exact .error _
  | ok place =>
    rw [update_eq hplace, update_eq hplace]
    split
    · exact .error _
    · exact ((SameShape.refl t).writeFile _ _ _ _).mapError _

/-- What is appended to a file is behind what it held. -/
lemma append_ok {content : ByteArray} (h : t.append p content = .ok t') :
    t'.node (t.target p) = some (.file (contentOf (t.node (t.target p)) ++ content)) := by
  rw [append] at h
  cases hplace : t.place p with
  | error refusal =>
    rw [update, hplace] at h
    cases h
  | ok place =>
    rw [update_eq hplace] at h
    split at h
    · cases h
    · rw [(place_ok hplace).1] at h
      cases hwrite : t.writeFile place.parent place.name
          (contentOf (t.node (t.target p)) ++ content) with
      | error refusal =>
        rw [hwrite] at h
        cases h
      | ok t₁ =>
        rw [hwrite] at h
        cases h
        rw [node_writeFile hwrite, (place_ok hplace).1, if_pos rfl]

/-- Appending has the same outcome whatever is appended. -/
lemma append_outcome (t : FileTree) (p : Path) (content content' : ByteArray) :
    SameOutcome (t.append p content) (t.append p content') :=
  t.update_outcome p _ _

/-- Whether a temporary file can be created does not depend on its content. -/
lemma createTemporary_outcome (t : FileTree) (directory : Path) (replaced : Option String)
    (content content' : ByteArray) :
    (t.createTemporary directory replaced content = none ∧
        t.createTemporary directory replaced content' = none) ∨
      ∃ temporary t₁ t₁', t.createTemporary directory replaced content = some (temporary, t₁) ∧
        t.createTemporary directory replaced content' = some (temporary, t₁') ∧
        SameShape t₁ t₁' := by
  unfold createTemporary
  cases t.locate directory with
  | error refusal => exact .inl ⟨rfl, rfl⟩
  | ok parent =>
    dsimp only
    cases t.freeName? parent replaced temporaryAttempts 0 with
    | none => exact .inl ⟨rfl, rfl⟩
    | some name =>
      dsimp only
      have hwrite := (SameShape.refl t).writeFile parent name content content'
      cases pathRefusal? (t.pathFromRoot directory name) with
      | some refusal => exact .inl ⟨rfl, rfl⟩
      | none =>
        revert hwrite
        generalize t.writeFile parent name content = written
        generalize t.writeFile parent name content' = written'
        rintro (⟨h⟩ | _)
        · exact .inr ⟨_, _, _, rfl, rfl, h⟩
        · exact .inl ⟨rfl, rfl⟩

/-- Whether a file can be replaced does not depend on the new content. -/
lemma replace_outcome (t : FileTree) (p : Path) (content content' : ByteArray) :
    (t.replace p content').2 = (t.replace p content).2 ∧
      SameShape (t.replace p content).1 (t.replace p content').1 := by
  unfold replace
  dsimp only
  rcases t.makeDirectories (directoryOf p) with ⟨t, _ | fault⟩
  · dsimp only
    rcases t.createTemporary_outcome (directoryOf p) p.names.getLast? content content' with
      ⟨h, h'⟩ | ⟨temporary, t₁, t₁', h, h', hshape⟩
    · rw [h, h']
      exact ⟨rfl, .refl t⟩
    · rw [h, h']
      dsimp only
      have hmove := hshape.moveFile (createTemporary_some h).1 p
      revert hmove
      generalize t₁.moveFile temporary p = moved
      generalize t₁'.moveFile temporary p = moved'
      rintro (⟨h⟩ | _)
      · exact ⟨rfl, h⟩
      · exact ⟨rfl, hshape.removeFile temporary⟩
  · exact ⟨rfl, .refl t⟩

end WaveAccess.FileTree
