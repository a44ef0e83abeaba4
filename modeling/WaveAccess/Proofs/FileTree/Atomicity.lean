import WaveAccess.Proofs.FileTree.Contents
import WaveAccess.Proofs.FileTree.Regrowth

/-!
# Replacing a file as a whole

Once the directories of a path have been created, a replacement either leaves the tree as it is or
puts the new content where the path leads, and does nothing else. The temporary file is never left
behind: it lies where nothing was, and is either moved or removed.
-/

namespace WaveAccess.FileTree

variable {t t' t'' : FileTree} {location parent temporary : Location} {name : String}
  {names : List String} {p directory : Path} {replaced : Option String}
  {content content' : ByteArray}

/-! ## The directory of a path -/

/-- The working directory is a directory. -/
lemma isDirectory_dot (t : FileTree) : t.isDirectory ⟨"."⟩ = true := by
  have hnames : (⟨"."⟩ : Path).names = ["."] := by decide
  have hwalk : t.walk ⟨"."⟩ = .ok (t.start ⟨"."⟩) := by
    rw [walk, hnames, walk_singleton, enter, t.node_start]
    rfl
  exact isDirectory_of_walk (by decide) hwalk (t.node_start _)

/-- The working directory is there already. -/
lemma makeDirectories_dot (t : FileTree) : t.makeDirectories ⟨"."⟩ = (t, none) := by
  rw [makeDirectories_eq, makeChain_of_isDirectory t.isDirectory_dot]
  rfl

/-- A path lies in its parent, or in the working directory. -/
lemma directoryOf_cases (p : Path) :
    directoryOf p = ⟨"."⟩ ∨ (p.HasParent (directoryOf p) ∧ (directoryOf p).text ≠ "") := by
  unfold directoryOf
  split
  · next q hq =>
    split
    · exact .inl rfl
    · next hne => exact .inr ⟨Path.hasParent_of_parent? hq, hne⟩
  · exact .inl rfl

/-- The directory of a path ends in a dot only if it is nothing else. -/
lemma eq_nil_of_names_directoryOf (h : (directoryOf p).names = names ++ ["."]) : names = [] := by
  rcases directoryOf_cases p with hdot | ⟨hparent, -⟩
  · have hnames : (⟨"."⟩ : Path).names = [] ++ ["."] := by decide
    rw [hdot, hnames] at h
    exact (List.append_inj' h rfl).1.symm
  · exact hparent.ends names h

/-- If the last name of a path has a place, the path's directory is one. -/
lemma isDirectory_directoryOf {place : Place} (hplace : t.place p = .ok place) :
    t.isDirectory (directoryOf p) = true := by
  rcases directoryOf_cases p with hdot | ⟨hparent, hne⟩
  · rw [hdot]
    exact t.isDirectory_dot
  · exact isDirectory_of_place hparent hne hplace

/-- For a path, no directories are created but those that it lies in. -/
lemma growsAlong_directoryOf (t : FileTree) (p : Path) :
    GrowsAlong p.ancestors t (t.makeDirectories (directoryOf p)).1 := by
  rcases directoryOf_cases p with hdot | ⟨hparent, -⟩
  · rw [hdot, makeDirectories_dot]
    exact .refl _ t
  · rw [hparent.ancestors]
    exact t.growsAlong_makeDirectories _

/-! ## The temporary file -/

/-- Removing a file leaves nothing in its place, and everything else as it is. -/
lemma node_removeFile (h : t.node location = some (.file content)) (other : Location) :
    (t.removeFile location).node other = if other = location then none else t.node other := by
  split
  · next heq =>
    rw [heq, node_removeFile_eq_none_iff, h]
    nofun
  · next hne => exact node_removeFile_of_ne hne

/-- A name that is found for a temporary file is free, and not that of the file to be replaced. -/
lemma freeName?_some {attempts i : Nat} (h : t.freeName? parent replaced attempts i = some name) :
    t.node (name :: parent) = none ∧ replaced ≠ some name := by
  induction attempts generalizing i with
  | zero => cases h
  | succ attempts ih =>
    rw [freeName?] at h
    split_ifs at h with hfree
    · cases h
      simpa using hfree
    · exact ih h

/-- A temporary file is a new file in the directory. -/
structure IsTemporary (t : FileTree) (directory : Path) (replaced : Option String)
    (content : ByteArray) (temporary : Location) (t' : FileTree) : Prop where
  isDirectory : t.isDirectory directory = true
  free : t.node temporary = none
  process : t'.process = t.process
  node : ∀ location,
    t'.node location = if location = temporary then some (.file content) else t.node location

/-- What is created is a temporary file. -/
lemma isTemporary_of_createTemporary
    (h : t.createTemporary directory replaced content = some (temporary, t')) :
    t.IsTemporary directory replaced content temporary t' := by
  unfold createTemporary at h
  split at h
  · cases h
  · next parent hlocate =>
    split at h
    · cases h
    · next name hfree =>
      split at h
      · next hwrite =>
        cases h
        obtain ⟨hrefusal, hwalk⟩ := locate_ok hlocate
        have hparent : t.node parent = some .directory := by
          unfold writeFile at hwrite
          split at hwrite
          · assumption
          · cases hwrite
        exact ⟨isDirectory_of_walk hrefusal hwalk hparent, (freeName?_some hfree).1,
          process_writeFile hwrite, node_writeFile hwrite⟩
      · cases h

namespace IsTemporary

/-- Removing a temporary file takes its creation back. -/
lemma removeFile_eq (h : t.IsTemporary directory replaced content temporary t') :
    t'.removeFile temporary = t := by
  have hfile : t'.node temporary = some (.file content) := by rw [h.node, if_pos rfl]
  apply ext_node
  · rw [process_removeFile, h.process]
  · intro location
    rw [node_removeFile hfile, h.node]
    split
    · next heq => rw [heq, h.free]
    · rfl

/-- A temporary file adds no directory and removes none. -/
lemma sameDirectories (h : t.IsTemporary directory replaced content temporary t') :
    SameDirectories t t' := by
  refine ⟨h.process, fun location => ?_⟩
  rw [h.node]
  split
  · next heq => simp [heq, h.free]
  · rfl

end IsTemporary

/-! ## One exchange -/

/-- Replaces the content of a file in a directory that exists. -/
def exchange (t : FileTree) (p : Path) (content : ByteArray) : FileTree × Option FileFault :=
  match t.createTemporary (directoryOf p) p.names.getLast? content with
  | none => (t, some (.openFile (directoryOf p)))
  | some (temporary, t') =>
    match t'.moveFile temporary p with
    | .ok t'' => (t'', none)
    | .error _ => (t'.removeFile temporary, some (.persist p))

/-- A replacement creates the directories that the file lies in, and then exchanges the file. -/
lemma replace_eq_exchange (t : FileTree) (p : Path) (content : ByteArray) :
    t.replace p content = match t.makeDirectories (directoryOf p) with
      | (t', some fault) => (t', some fault)
      | (t', none) => t'.exchange p content := by
  unfold replace
  dsimp only
  rcases t.makeDirectories (directoryOf p) with ⟨t', _ | fault⟩ <;> rfl

/-- The file at a path has been exchanged, and nothing else has changed. -/
structure Exchanged (t : FileTree) (p : Path) (content : ByteArray) (t' : FileTree) : Prop where
  isDirectory : t.isDirectory (directoryOf p) = true
  fits : t.node (t.target p) ≠ some .directory
  process : t'.process = t.process
  node : ∀ location,
    t'.node location = if location = t.target p then some (.file content) else t.node location

/-- Moving a temporary file to a path exchanges the content there. -/
lemma IsTemporary.exchanged
    (h : t.IsTemporary (directoryOf p) replaced content temporary t')
    (hmove : t'.moveFile temporary p = .ok t'') : t.Exchanged p content t'' := by
  have hfile : t'.node temporary = some (.file content) := by rw [h.node, if_pos rfl]
  have htarget : t'.target p = t.target p := target_congr h.process p
  unfold moveFile at hmove
  rw [hfile] at hmove
  cases hplace : t'.place p with
  | error refusal =>
    rw [hplace] at hmove
    cases hmove
  | ok place =>
    simp only [hplace, h.removeFile_eq, (place_ok hplace).1, htarget] at hmove
    split_ifs at hmove with hdirectory
    refine ⟨h.isDirectory, ?_, process_writeFile hmove, ?_⟩
    · rw [ne_eq, ← h.sameDirectories.node]
      simpa [isDirectoryAt] using hdirectory
    · intro location
      rw [node_writeFile hmove, (place_ok hplace).1, htarget]

/-- An exchange fails or succeeds whatever the content is. If it fails, nothing has changed. -/
lemma exchange_cases (t : FileTree) (p : Path) :
    (∃ fault, ∀ content, t.exchange p content = (t, some fault)) ∨
      ∀ content, ∃ t', t.exchange p content = (t', none) ∧ t.Exchanged p content t' := by
  have houtcome := t.createTemporary_outcome (directoryOf p) p.names.getLast? .empty
  cases hcreate : t.createTemporary (directoryOf p) p.names.getLast? .empty with
  | none =>
    refine .inl ⟨.openFile (directoryOf p), fun content => ?_⟩
    rcases houtcome content with ⟨-, hnone⟩ | ⟨_, _, _, hsome, -⟩
    · unfold exchange
      rw [hnone]
    · rw [hcreate] at hsome
      cases hsome
  | some created =>
    obtain ⟨temporary, t₁⟩ := created
    have hcreated (content : ByteArray) : ∃ t₁', SameShape t₁ t₁' ∧
        t.createTemporary (directoryOf p) p.names.getLast? content = some (temporary, t₁') := by
      rcases houtcome content with ⟨hnone, -⟩ | ⟨_, _, t₁', hsome, hsome', hshape⟩
      · rw [hcreate] at hnone
        cases hnone
      · rw [hcreate] at hsome
        cases hsome
        exact ⟨t₁', hshape, hsome'⟩
    have hfile : t₁.node temporary = some (.file .empty) := (createTemporary_some hcreate).1
    cases hmove : t₁.moveFile temporary p with
    | error refusal =>
      refine .inl ⟨.persist p, fun content => ?_⟩
      obtain ⟨t₁', hshape, hcreate'⟩ := hcreated content
      have hmoved := hshape.moveFile hfile p
      rw [hmove] at hmoved
      generalize hmove' : t₁'.moveFile temporary p = moved at hmoved
      cases hmoved
      unfold exchange
      rw [hcreate']
      dsimp only
      rw [hmove', (isTemporary_of_createTemporary hcreate').removeFile_eq]
    | ok t₂ =>
      refine .inr fun content => ?_
      obtain ⟨t₁', hshape, hcreate'⟩ := hcreated content
      have hmoved := hshape.moveFile hfile p
      rw [hmove] at hmoved
      generalize hmove' : t₁'.moveFile temporary p = moved at hmoved
      cases hmoved with
      | @ok _ t₂' _ =>
        refine ⟨t₂', ?_, (isTemporary_of_createTemporary hcreate').exchanged hmove'⟩
        unfold exchange
        rw [hcreate']
        dsimp only
        rw [hmove']

/-- An exchange adds no directory and removes none. -/
lemma Exchanged.sameDirectories (h : t.Exchanged p content t') : SameDirectories t t' := by
  refine ⟨h.process, fun location => ?_⟩
  rw [h.node]
  split
  · next heq => simp [heq, h.fits]
  · rfl

/-! ## Exchanging twice -/

namespace SameDirectories

/-- It does not matter which of two trees comes first. -/
lemma symm (h : SameDirectories t t') : SameDirectories t' t :=
  ⟨h.process.symm, fun location => (h.node location).symm⟩

/-- Trees with the directories of a third have the same directories. -/
lemma trans (h : SameDirectories t t') (h' : SameDirectories t' t'') : SameDirectories t t'' :=
  ⟨h'.process.trans h.process,
    fun location => (h'.node location).trans (h.node location)⟩

/-- What a path names is a directory in both trees. -/
lemma isDirectory (h : SameDirectories t t') (hp : t.isDirectory p = true) :
    t'.isDirectory p = true := by
  obtain ⟨hwalk, hnode⟩ := walk_of_isDirectory hp
  refine isDirectory_of_walk (pathRefusal?_of_isDirectory hp) ?_ ((h.node _).mpr hnode)
  rw [walk, start, h.process, ← start]
  exact h.walk_ok hwalk hnode

/-- A path leads to the same place in both trees. -/
lemma place_ok (h : SameDirectories t t') {place : Place} (hplace : t.place p = .ok place) :
    t'.place p = .ok place := by
  obtain ⟨-, hparent, hrefusal, before, hnames, hwalk, hdot, hup, hlong⟩ :=
    FileTree.place_ok hplace
  have hreverse : p.names.reverse = place.name :: before.reverse := by simp [hnames]
  have hwalk' : before.foldlM t'.enter (t'.start p) = .ok place.parent := by
    rw [start, h.process, ← start]
    exact h.walk_ok hwalk hparent
  rw [FileTree.place, hrefusal, hreverse]
  dsimp only
  rw [List.reverse_reverse, hwalk']
  simp [isDirectoryAt, (h.node _).mpr hparent, hdot, hup, hlong, ← asDirectory_of_place hplace]

end SameDirectories

/-- A replacement is an exchange in the tree that the creation of its directories leaves, even if
that creation fails. -/
lemma replace_outcome_eq (t : FileTree) (p : Path) (content : ByteArray) :
    let made := (t.makeDirectories (directoryOf p)).1
    (t.replace p content).1 = (made.exchange p content).1 ∧
      ((t.replace p content).2 = none ↔ (made.exchange p content).2 = none) := by
  rw [replace_eq_exchange]
  cases hmake : t.makeDirectories (directoryOf p) with
  | mk made result =>
    cases result with
    | none => exact ⟨rfl, Iff.rfl⟩
    | some fault =>
      have hnone := isDirectory_of_fault (p := directoryOf p) (by rw [hmake])
      rw [hmake] at hnone
      rcases made.exchange_cases p with ⟨fault', hfails⟩ | hsucceeds
      · simp [hfails]
      · obtain ⟨t', -, hexchanged⟩ := hsucceeds content
        rw [hexchanged.isDirectory] at hnone
        cases hnone

/-- What a replacement comes to. -/
lemma replace_cases (t : FileTree) (p : Path) (content : ByteArray) :
    let made := (t.makeDirectories (directoryOf p)).1
    ((t.replace p content).2 ≠ none ∧ (t.replace p content).1 = made) ∨
      ((t.replace p content).2 = none ∧ made.Exchanged p content (t.replace p content).1) := by
  intro made
  obtain ⟨htree, hfault⟩ := t.replace_outcome_eq p content
  rcases made.exchange_cases p with ⟨fault, hfails⟩ | hsucceeds
  · left
    rw [hfails] at htree hfault
    refine ⟨fun hsuccess => ?_, htree⟩
    cases hfault.mp hsuccess
  · right
    obtain ⟨t', hexchange, hexchanged⟩ := hsucceeds content
    rw [hexchange] at htree hfault
    exact ⟨hfault.mpr rfl, htree ▸ hexchanged⟩

example : ((FileTree.empty ["work"]).replace ⟨"a/f"⟩ .empty).2 = none ∧
    ((withFile "f" "x").replace ⟨"f/b"⟩ .empty).2 = some (.openFile ⟨"f"⟩) ∧
    ((withFile "f" "x").replace ⟨"f/a/b"⟩ .empty).2 = some (.createDirectories ⟨"f/a"⟩) := by
  decide +kernel

end WaveAccess.FileTree
