import WaveAccess.Proofs.FileTree.Directories
import WaveAccess.Proofs.Path.Parents

/-!
# What the creation of directories leaves

After the directories of a path have been created, the path and its ancestors are directories, and
nothing else has changed. There is one exception: a file counts as the directory that is to be
created, so that the creation does not fail where the path leads to a file.
-/

namespace WaveAccess.FileTree

variable {t t' u v : FileTree} {location : Location} {names : List String} {p q : Path}
  {refusal : Refusal}

/-! ## Paths and their places -/

/-- Whatever refuses the path of a parent refuses that of the child. -/
lemma pathRefusal?_of_hasParent (h : p.HasParent q) (hq : q.text ≠ "")
    (hp : pathRefusal? p = none) : pathRefusal? q = none := by
  obtain ⟨rest, hrest⟩ := h.text
  have htext : p.text = q.text ++ String.ofList rest := by
    rw [← String.toList_inj, String.toList_append, String.toList_ofList, hrest]
  unfold pathRefusal? at hp ⊢
  rw [if_neg hq]
  split_ifs at hp with hempty hunusable hlong
  rw [if_neg, if_neg]
  · rw [htext, String.utf8ByteSize_append] at hlong
    omega
  · rw [← hrest, List.any_append, Bool.or_eq_true, not_or] at hunusable
    exact hunusable.1

/-- The last name of a path has no place exactly where it leads nowhere new: the walk ends in a
directory, or is refused before. -/
lemma place_cases (t : FileTree) (hp : pathRefusal? p = none) :
    (t.place p = .error .busy ∧ ∃ location, t.walk p = .ok location) ∨
    (∃ place, t.place p = .ok place ∧ t.walk p = t.enter place.parent place.name) ∨
    ∃ refusal, refusal ≠ .busy ∧ refusal ≠ .exists ∧ t.place p = .error refusal ∧
      t.walk p = .error refusal := by
  cases hreverse : p.names.reverse with
  | nil =>
    have hnames : p.names = [] := List.reverse_eq_nil_iff.mp hreverse
    refine .inl ⟨?_, t.start p, ?_⟩
    · rw [place, hp, hreverse]
    · rw [walk, hnames]
      rfl
  | cons last before =>
    have hnames : p.names = before.reverse ++ [last] := by
      rw [← List.reverse_cons, ← hreverse, List.reverse_reverse]
    have hplace := place.eq_def t p
    simp only [hp, hreverse] at hplace
    cases hwalk : before.reverse.foldlM t.enter (t.start p) with
    | error refusal =>
      rw [hwalk] at hplace
      have hrefused : t.walk p = .error refusal := by
        rw [walk, hnames, walk_append_error hwalk]
      refine .inr (.inr ⟨refusal, ?_, ?_, hplace, hrefused⟩)
      · rcases walk_error hwalk with rfl | rfl | rfl <;> decide
      · rcases walk_error hwalk with rfl | rfl | rfl <;> decide
    | ok parent =>
      rw [hwalk] at hplace
      have hlast : t.walk p = t.enter parent last := by
        rw [walk, hnames, walk_append_ok hwalk, walk_singleton]
      obtain ⟨node, hnode⟩ := Option.isSome_iff_exists.mp
        ((walk_ok hwalk).2 (Option.isSome_of_eq_some (t.node_start p)))
      cases node with
      | file content =>
        rw [enter_file hnode] at hlast
        refine .inr (.inr ⟨.notDirectory, by decide, by decide, ?_, hlast⟩)
        simpa [isDirectoryAt, hnode] using hplace
      | directory =>
        simp only [isDirectoryAt, hnode, beq_self_eq_true, Bool.not_true, Bool.false_eq_true,
          if_false] at hplace
        split_ifs at hplace with hdots hlong
        · refine .inl ⟨hplace, advance parent last, ?_⟩
          rw [hlast, enter, hnode]
          rcases hdots with rfl | rfl <;> rfl
        · refine .inr (.inr ⟨.nameTooLong, by decide, by decide, hplace, ?_⟩)
          obtain ⟨hdot, hup⟩ := not_or.mp hdots
          rw [hlast, enter, hnode]
          simp [hdot, hup, hlong]
        · exact .inr (.inl ⟨_, hplace, hlast⟩)

/-! ## One directory -/

/-- Whether a directory is created is decided by the walk along its path. -/
lemma makeDirectory_cases (t : FileTree) (hp : pathRefusal? p = none) :
    (∃ location, t.walk p = .ok location ∧ t.makeDirectory p = .error .exists) ∨
    (t.walk p = .error .missing ∧ ∃ t', t.makeDirectory p = .ok t') ∨
    ∃ refusal, refusal ≠ .exists ∧ t.place p = .error refusal ∧ t.walk p = .error refusal ∧
      t.makeDirectory p = .error refusal := by
  rcases t.place_cases hp with ⟨hplace, location, hwalk⟩ | ⟨place, hplace, hwalk⟩ |
    ⟨refusal, hbusy, hexists, hplace, hwalk⟩
  · exact .inl ⟨location, hwalk, by rw [makeDirectory, hplace]⟩
  · obtain ⟨-, hparent, -, before, -, -, hdot, hup, hlong⟩ := place_ok hplace
    rw [enter, hparent] at hwalk
    simp only [if_neg hdot, if_neg hup, if_neg hlong] at hwalk
    rw [makeDirectory, hplace]
    dsimp only
    rw [addDirectory, dif_pos hparent]
    cases hnode : t.node (place.name :: place.parent) with
    | none =>
      rw [hnode] at hwalk
      exact .inr (.inl ⟨hwalk, _, rfl⟩)
    | some node =>
      rw [hnode] at hwalk
      exact .inl ⟨_, hwalk, rfl⟩
  · refine .inr (.inr ⟨refusal, hexists, hplace, hwalk, ?_⟩)
    rw [makeDirectory, hplace]
    cases refusal with
    | busy => exact absurd rfl hbusy
    | _ => rfl

/-- A directory is created by adding it at the place of its path. -/
lemma place_of_makeDirectory_ok (h : t.makeDirectory p = .ok t') :
    ∃ place, t.place p = .ok place ∧ t.addDirectory place.parent place.name = .ok t' := by
  unfold makeDirectory at h
  split at h
  · cases h
  · cases h
  · next place hplace => exact ⟨place, hplace, h⟩

/-- A created directory is where its path leads, and everything else is as it was. -/
lemma node_makeDirectory (h : t.makeDirectory p = .ok t') (location : Location) :
    t'.node location = if location = t.target p then some .directory else t.node location := by
  obtain ⟨place, hplace, hadd⟩ := place_of_makeDirectory_ok h
  rw [node_addDirectory hadd, (place_ok hplace).1]

/-- Where something is already, no directory is created. -/
lemma makeDirectory_of_walk_ok (hp : pathRefusal? p = none) (h : t.walk p = .ok location) :
    t.makeDirectory p = .error .exists := by
  rcases t.makeDirectory_cases hp with
    ⟨_, -, hexists⟩ | ⟨hmissing, -⟩ | ⟨refusal, -, -, hrefused, -⟩
  · exact hexists
  · rw [h] at hmissing
    cases hmissing
  · rw [h] at hrefused
    cases hrefused

/-- A path that names a directory is refused for nothing. -/
lemma pathRefusal?_of_isDirectory (h : t.isDirectory p = true) : pathRefusal? p = none := by
  unfold isDirectory lookup at h
  cases hlocate : t.locate p with
  | error refusal => simp [hlocate] at h
  | ok location => exact (locate_ok hlocate).1

/-- A directory that is there cannot be created. -/
lemma makeDirectory_of_isDirectory (h : t.isDirectory p = true) :
    t.makeDirectory p = .error .exists :=
  makeDirectory_of_walk_ok (pathRefusal?_of_isDirectory h) (walk_of_isDirectory h).1

/-- A created directory settles the matter. -/
@[simp]
lemma settle_ok (t t' : FileTree) (p : Path) : t.settle p (.ok t') = (t', none) := rfl

/-- A refusal does not count if there is a directory already. -/
lemma settle_error_of_isDirectory (h : t.isDirectory p = true) :
    t.settle p (.error refusal) = (t, none) := by
  rw [settle, if_pos h]

/-- A refusal counts if there is no directory. -/
lemma settle_error (h : t.isDirectory p = false) :
    t.settle p (.error refusal) = (t, some refusal) := by
  rw [settle, if_neg (Bool.eq_false_iff.mp h)]

/-- A refusal leaves the tree as it is. -/
lemma fst_settle_error (t : FileTree) (p : Path) (refusal : Refusal) :
    (t.settle p (.error refusal)).1 = t := rfl

/-! ## Parents and children -/

/-- A walk to a child passes through its parent, which is a directory. -/
lemma walk_of_hasParent (h : p.HasParent q) (hwalk : t.walk p = .ok location) :
    ∃ parent, t.walk q = .ok parent ∧ t.node parent = some .directory := by
  obtain ⟨before, last, after, hnames, -⟩ := h.liesIn.names
  have hstart : t.start p = t.start q := by rw [start, start, h.liesIn.absolute]
  rw [walk, hnames, hstart] at hwalk
  cases hq : t.walk q with
  | error refusal =>
    rw [walk_append_error hq] at hwalk
    cases hwalk
  | ok parent =>
    rw [walk_append_ok hq] at hwalk
    refine ⟨parent, rfl, ?_⟩
    cases before with
    | nil =>
      obtain ⟨_, hlast, -⟩ := walk_cons_ok hwalk
      exact (enter_ok hlast).2.1
    | cons first before =>
      obtain ⟨_, hfirst, -⟩ := walk_cons_ok hwalk
      exact (enter_ok hfirst).2.1

/-- The path above a directory names a directory as well, or nothing at all. -/
lemma isDirectory_of_hasParent (h : p.HasParent q) (hp : t.isDirectory p = true) :
    q.text = "" ∨ t.isDirectory q = true := by
  by_cases hq : q.text = ""
  · exact .inl hq
  · obtain ⟨parent, hwalk, hdirectory⟩ := walk_of_hasParent h (walk_of_isDirectory hp).1
    have hrefusal := pathRefusal?_of_hasParent h hq (pathRefusal?_of_isDirectory hp)
    exact .inr (isDirectory_of_walk hrefusal hwalk hdirectory)

/-- The path without text has nothing above it. -/
lemma ancestors_of_text_eq (hp : p.text = "") : p.ancestors = [] := by
  obtain ⟨text⟩ := p
  cases hp
  rfl

/-- The ancestors of a directory are directories. -/
lemma isDirectory_ancestors (hp : t.isDirectory p = true) :
    ∀ q ∈ p.ancestors, q.text ≠ "" → t.isDirectory q = true := by
  induction p using Path.parent_induction with
  | top p hnone =>
    rw [hnone]
    exact nofun
  | child p q hparent ih =>
    intro r hr hne
    rw [hparent.ancestors] at hr
    rcases isDirectory_of_hasParent hparent hp with hempty | hdirectory
    · rw [ancestors_of_text_eq hempty] at hr
      rw [List.mem_singleton.mp hr] at hne
      exact absurd hempty hne
    · rcases List.mem_cons.mp hr with rfl | hr
      · exact hdirectory
      · exact ih hdirectory r hr hne

/-- If the names before the last lead to a directory, so does the parent of the path. -/
lemma walk_parent_of_walk (h : p.HasParent q) {last : String} (hnames : p.names = names ++ [last])
    (hlast : last ≠ ".") (hwalk : names.foldlM t.enter (t.start p) = .ok location)
    (hnode : t.node location = some .directory) :
    ∃ parent, t.walk q = .ok parent ∧ t.node parent = some .directory := by
  obtain ⟨dots, rfl, hdots⟩ := h.liesIn.names_eq hnames hlast
  have hstart : t.start p = t.start q := by rw [start, start, h.liesIn.absolute]
  rw [hstart] at hwalk
  cases hq : t.walk q with
  | error refusal =>
    rw [walk_append_error hq] at hwalk
    cases hwalk
  | ok parent =>
    rw [walk_append_ok hq] at hwalk
    refine ⟨parent, rfl, ?_⟩
    cases dots with
    | nil =>
      cases hwalk
      exact hnode
    | cons dot dots =>
      obtain ⟨_, hfirst, -⟩ := walk_cons_ok hwalk
      exact (enter_ok hfirst).2.1

/-- If the last name of a path has a place, its parent is a directory. -/
lemma isDirectory_of_place {place : Place} (h : p.HasParent q) (hq : q.text ≠ "")
    (hplace : t.place p = .ok place) : t.isDirectory q = true := by
  obtain ⟨-, hdirectory, hrefusal, names, hnames, hwalk, hdot, -⟩ := place_ok hplace
  obtain ⟨parent, hparent, hnode⟩ := walk_parent_of_walk h hnames hdot hwalk hdirectory
  exact isDirectory_of_walk (pathRefusal?_of_hasParent h hq hrefusal) hparent hnode

/-- A directory can only be created in a directory. -/
lemma isDirectory_of_makeDirectory_ok (h : p.HasParent q) (hq : q.text ≠ "")
    (hmake : t.makeDirectory p = .ok t') : t.isDirectory q = true := by
  obtain ⟨place, hplace, -⟩ := place_of_makeDirectory_ok hmake
  exact isDirectory_of_place h hq hplace

/-! ## Chains of directories -/

/-- The first of a chain of directories is created at once, unless a name before its last is
missing; then the others are created, and it comes last. -/
lemma makeChain_cons (t : FileTree) (above : List Path) (hp : p.text ≠ "") :
    (t.makeDirectory p ≠ .error .missing ∧
      t.makeChain (p :: above) = t.settle p (t.makeDirectory p)) ∨
    (t.makeDirectory p = .error .missing ∧ ∃ t', t.makeChain above = (t', none) ∧
      t.makeChain (p :: above) = t'.settle p (t'.makeDirectory p)) ∨
    (t.makeDirectory p = .error .missing ∧ ∃ t' refusal, t.makeChain above = (t', some refusal) ∧
      t.makeChain (p :: above) = (t', some refusal)) := by
  by_cases hmissing : t.makeDirectory p = .error .missing
  · rcases habove : t.makeChain above with ⟨t', _ | refusal⟩
    · refine .inr (.inl ⟨hmissing, t', rfl, ?_⟩)
      rw [makeChain, if_neg hp, hmissing]
      simp only [habove]
    · refine .inr (.inr ⟨hmissing, t', refusal, rfl, ?_⟩)
      rw [makeChain, if_neg hp, hmissing]
      simp only [habove]
  · refine .inl ⟨hmissing, ?_⟩
    rw [makeChain, if_neg hp]
    split
    · next h => exact absurd h hmissing
    · rfl

/-- A chain that starts at the path without text is complete. -/
lemma makeChain_of_text_eq (t : FileTree) {above : List Path} (hp : p.text = "") :
    t.makeChain (p :: above) = (t, none) := by
  rw [makeChain, if_pos hp]

/-- The names of a path lead to a file. -/
def EndsAtFile (t : FileTree) (p : Path) : Prop :=
  ∃ content, t.walk p = .ok (t.target p) ∧ t.node (t.target p) = some (.file content)

/-- Directories were created where some of the given paths lead, and nothing else happened. -/
structure GrowsAlong (paths : List Path) (t t' : FileTree) : Prop extends Grows t t' where
  created : ∀ location, t.node location = none → t'.node location ≠ none →
    ∃ q ∈ paths, t.target q = location

namespace GrowsAlong

variable {paths paths' : List Path}

/-- A tree that stays as it is has grown along any paths. -/
lemma refl (paths : List Path) (t : FileTree) : GrowsAlong paths t t :=
  ⟨.refl t, fun _ hnone hsome => absurd hnone hsome⟩

/-- Two steps of growth along some paths are one. -/
lemma trans (h : GrowsAlong paths t u) (h' : GrowsAlong paths u v) : GrowsAlong paths t v := by
  refine ⟨h.toGrows.trans h'.toGrows, ?_⟩
  intro location hnone hsome
  by_cases hu : u.node location = none
  · obtain ⟨q, hq, htarget⟩ := h'.created location hu hsome
    rw [h.target_eq] at htarget
    exact ⟨q, hq, htarget⟩
  · exact h.created location hnone hu

/-- A tree that has grown along some paths has grown along more of them. -/
lemma mono (h : GrowsAlong paths t u) (hsub : paths ⊆ paths') : GrowsAlong paths' t u := by
  refine ⟨h.toGrows, ?_⟩
  intro location hnone hsome
  obtain ⟨q, hq, htarget⟩ := h.created location hnone hsome
  exact ⟨q, hsub hq, htarget⟩

/-- A tree grows along the path of a directory that is created. -/
lemma of_makeDirectory (h : t.makeDirectory p = .ok u) : GrowsAlong [p] t u := by
  refine ⟨(makeDirectory_ok h).1, ?_⟩
  intro location hnone hsome
  rw [node_makeDirectory h] at hsome
  split at hsome
  · next heq => exact ⟨p, List.mem_singleton_self p, heq.symm⟩
  · exact absurd hnone hsome

end GrowsAlong

/-- What the creation of directories along a path comes to. Without a failure the path is a
directory, and with one it is none. If it failed because something exists, a file is in the way. -/
structure Creates (t : FileTree) (p : Path) (outcome : FileTree × Option Refusal) : Prop where
  grows : GrowsAlong (p :: p.ancestors) t outcome.1
  isDirectory : outcome.2 = none → p.text = "" ∨ outcome.1.isDirectory p = true
  fails : ∀ refusal, outcome.2 = some refusal → outcome.1.isDirectory p = false
  blocked : outcome.2 = some .exists → ∃ q ∈ p :: p.ancestors, outcome.1.EndsAtFile q

/-- Creating one directory comes to what creating directories along its path does. -/
lemma creates_settle (t : FileTree) (p : Path) :
    t.Creates p (t.settle p (t.makeDirectory p)) := by
  cases hmake : t.makeDirectory p with
  | ok t' =>
    rw [settle_ok]
    obtain ⟨-, hwalk, hnode⟩ := makeDirectory_ok hmake
    obtain ⟨place, hplace, -⟩ := place_of_makeDirectory_ok hmake
    have hdirectory := isDirectory_of_walk (place_ok hplace).2.2.1 hwalk hnode
    exact ⟨(GrowsAlong.of_makeDirectory hmake).mono (by simp), fun _ => .inr hdirectory, nofun,
      nofun⟩
  | error refusal =>
    cases hdirectory : t.isDirectory p with
    | true =>
      rw [settle_error_of_isDirectory hdirectory]
      exact ⟨.refl _ t, fun _ => .inr hdirectory, nofun, nofun⟩
    | false =>
      rw [settle_error hdirectory]
      refine ⟨.refl _ t, nofun, fun _ _ => hdirectory, ?_⟩
      intro hexists
      cases hexists
      obtain ⟨hrefusal, location, hwalk⟩ := walk_of_makeDirectory_exists hmake
      obtain ⟨rfl, hsome⟩ := walk_eq_ok hwalk
      obtain ⟨node, hnode⟩ := Option.isSome_iff_exists.mp hsome
      cases node with
      | directory =>
        rw [isDirectory_of_walk hrefusal hwalk hnode] at hdirectory
        cases hdirectory
      | file content => exact ⟨p, List.mem_cons_self, content, hwalk, hnode⟩

/-- The creation of directories along a path creates those of its parent first. -/
lemma creates_makeChain (t : FileTree) (p : Path) :
    t.Creates p (t.makeChain (p :: p.ancestors)) := by
  have hempty : ∀ p : Path, p.text = "" → t.Creates p (t.makeChain (p :: p.ancestors)) := by
    intro p hp
    rw [makeChain_of_text_eq t hp]
    exact ⟨.refl _ t, fun _ => .inl hp, nofun, nofun⟩
  induction p using Path.parent_induction with
  | top p hnone =>
    by_cases hp : p.text = ""
    · exact hempty p hp
    rw [hnone]
    rcases t.makeChain_cons [] hp with ⟨-, hchain⟩ | ⟨-, t', habove, -⟩ |
      ⟨hmissing, t', refusal, habove, hchain⟩
    · rw [hchain]
      exact t.creates_settle p
    · cases habove
    · rw [hchain]
      cases habove
      refine ⟨.refl _ t, nofun, fun _ _ => ?_, nofun⟩
      by_contra hdirectory
      rw [makeDirectory_of_isDirectory (Bool.not_eq_false _ ▸ hdirectory)] at hmissing
      cases hmissing
  | child p q hparent ih =>
    by_cases hp : p.text = ""
    · exact hempty p hp
    have hsub : q :: q.ancestors ⊆ p :: p.ancestors := by
      rw [hparent.ancestors]
      exact List.subset_cons_self _ _
    rcases t.makeChain_cons p.ancestors hp with ⟨-, hchain⟩ | ⟨-, t', habove, hchain⟩ |
      ⟨-, t', refusal, habove, hchain⟩
    · rw [hchain]
      exact t.creates_settle p
    · rw [hchain]
      rw [← hparent.ancestors, habove] at ih
      obtain ⟨hgrows, hdirectory, hfails, hblocked⟩ := t'.creates_settle p
      exact ⟨(ih.grows.mono hsub).trans hgrows, hdirectory, hfails, hblocked⟩
    · rw [hchain]
      rw [← hparent.ancestors, habove] at ih
      refine ⟨ih.grows.mono hsub, nofun, fun _ _ => ?_, ?_⟩
      · -- a directory would have its parent for a directory, which could not be created
        by_contra hdirectory
        have hfailed := ih.fails refusal rfl
        rcases isDirectory_of_hasParent hparent (Bool.not_eq_false _ ▸ hdirectory) with hq | hq
        · rw [hparent.ancestors, makeChain_of_text_eq t hq] at habove
          cases habove
        · rw [hq] at hfailed
          cases hfailed
      · intro hexists
        obtain ⟨r, hr, hfile⟩ := ih.blocked hexists
        exact ⟨r, hsub hr, hfile⟩

/-! ## Directories of a path -/

/-- Directories are created along a path and all above it, and what is there already is no fault. -/
lemma makeDirectories_eq (t : FileTree) (p : Path) :
    t.makeDirectories p = ((t.makeChain (p :: p.ancestors)).1,
      if (t.makeChain (p :: p.ancestors)).2 = none ∨
          (t.makeChain (p :: p.ancestors)).2 = some .exists then none
      else some (.createDirectories p)) := by
  unfold makeDirectories
  split
  · next hchain => simp [hchain]
  · next hchain => simp [hchain]
  · next refusal hother hchain =>
    have hne : ¬refusal = .exists := hother
    simp [hchain, hne]

/-- Creating directories lets a tree grow along the path and those above it. -/
lemma growsAlong_makeDirectories (t : FileTree) (p : Path) :
    GrowsAlong (p :: p.ancestors) t (t.makeDirectories p).1 := by
  rw [makeDirectories_eq]
  exact (t.creates_makeChain p).grows

/-- If the directories of a path could be created, the path is a directory, or a file is in the
way. -/
lemma isDirectory_or_blocked (hp : p.text ≠ "") (h : (t.makeDirectories p).2 = none) :
    (t.makeDirectories p).1.isDirectory p = true ∨
      ∃ q ∈ p :: p.ancestors, (t.makeDirectories p).1.EndsAtFile q := by
  rw [makeDirectories_eq] at h ⊢
  have hcreates := t.creates_makeChain p
  dsimp only at h
  split at h
  · next hresult =>
    rcases hresult with hnone | hexists
    · exact .inl ((hcreates.isDirectory hnone).resolve_left hp)
    · exact .inr (hcreates.blocked hexists)
  · cases h

/-- If directories could not be created, there is none at the path. -/
lemma isDirectory_of_fault {fault : FileFault} (h : (t.makeDirectories p).2 = some fault) :
    (t.makeDirectories p).1.isDirectory p = false := by
  rw [makeDirectories_eq] at h ⊢
  dsimp only at h
  split at h
  · cases h
  · next hresult =>
    obtain ⟨refusal, hrefusal⟩ := Option.ne_none_iff_exists'.mp (not_or.mp hresult).1
    exact (t.creates_makeChain p).fails refusal hrefusal

/-- A path is not entered below a file. -/
lemma walk_of_endsAtFile_ancestor (hq : q ∈ p.ancestors) (h : t.EndsAtFile q) :
    t.walk p = .error .notDirectory := by
  induction p using Path.parent_induction with
  | top p hnone =>
    rw [hnone] at hq
    cases hq
  | child p parent hparent ih =>
    rw [hparent.ancestors] at hq
    rcases List.mem_cons.mp hq with rfl | hq
    · obtain ⟨content, hwalk, hfile⟩ := h
      exact IsBlocked.walk_eq (.inr ⟨_, content, hwalk, hfile⟩) hparent.liesIn
    · exact IsBlocked.walk_eq (.inl (ih hq)) hparent.liesIn

/-- Creating the directories of a path lets the tree grow. If it does not fail, no name of the path
is missing. -/
lemma makeDirectories_grows {fault : Option FileFault} (h : t.makeDirectories p = (t', fault)) :
    Grows t t' ∧ (fault = none → t'.walk p ≠ .error .missing) := by
  have hgrows := t.growsAlong_makeDirectories p
  rw [h] at hgrows
  refine ⟨hgrows.toGrows, ?_⟩
  rintro rfl hmissing
  by_cases hp : p.text = ""
  · rw [walk, names_of_text_eq hp] at hmissing
    cases hmissing
  · rcases isDirectory_or_blocked hp (by rw [h]) with hdirectory | ⟨q, hq, hfile⟩
    · rw [h] at hdirectory
      rw [(walk_of_isDirectory hdirectory).1] at hmissing
      cases hmissing
    · rw [h] at hfile
      rcases List.mem_cons.mp hq with rfl | hq
      · obtain ⟨content, hwalk, -⟩ := hfile
        rw [hwalk] at hmissing
        cases hmissing
      · rw [walk_of_endsAtFile_ancestor hq hfile] at hmissing
        cases hmissing

/-- A path that cannot be walked names no directory. -/
lemma isDirectory_of_walk_error (h : t.walk p = .error refusal) : t.isDirectory p = false := by
  by_contra hdirectory
  rw [(walk_of_isDirectory (Bool.not_eq_false _ ▸ hdirectory)).1] at h
  cases h

/-- A file before the end of a path lets the creation of its directories fail. -/
lemma makeDirectories_of_endsAtFile_ancestor (hq : q ∈ p.ancestors) (h : t.EndsAtFile q) :
    (t.makeDirectories p).2 = some (.createDirectories p) := by
  have hwalk := walk_of_endsAtFile_ancestor hq h
  have hp : p.text ≠ "" := by
    intro hempty
    rw [ancestors_of_text_eq hempty] at hq
    cases hq
  obtain ⟨refusal, hmake, hmissing, hexists⟩ : ∃ refusal,
      t.makeDirectory p = .error refusal ∧ refusal ≠ .missing ∧ refusal ≠ .exists := by
    cases hrefusal : pathRefusal? p with
    | some refusal =>
      refine ⟨refusal, ?_, ?_⟩
      · rw [makeDirectory, place, hrefusal]
        rw [pathRefusal?, if_neg hp] at hrefusal
        split_ifs at hrefusal <;> cases hrefusal <;> rfl
      · rw [pathRefusal?, if_neg hp] at hrefusal
        split_ifs at hrefusal <;> cases hrefusal <;> decide
    | none =>
      rcases t.makeDirectory_cases hrefusal with ⟨location, hok, -⟩ | ⟨hmissing, -⟩ |
        ⟨refusal, -, -, hrefused, hmake⟩
      · rw [hwalk] at hok
        cases hok
      · rw [hwalk] at hmissing
        cases hmissing
      · rw [hwalk] at hrefused
        cases hrefused
        exact ⟨_, hmake, by decide, by decide⟩
  rcases t.makeChain_cons p.ancestors hp with ⟨-, hchain⟩ | ⟨hne, -⟩ | ⟨hne, -⟩
  · rw [hmake, settle_error (isDirectory_of_walk_error hwalk)] at hchain
    rw [makeDirectories_eq, hchain]
    simp [hexists]
  · rw [hmake] at hne
    exact absurd (Except.error.inj hne) hmissing
  · rw [hmake] at hne
    exact absurd (Except.error.inj hne) hmissing

/-- A file at the end of a path counts as its directory. -/
lemma makeDirectories_of_endsAtFile (hp : pathRefusal? p = none) (h : t.EndsAtFile p) :
    t.makeDirectories p = (t, none) := by
  obtain ⟨content, hwalk, hfile⟩ := h
  have htext : p.text ≠ "" := by
    intro hempty
    rw [pathRefusal?, if_pos hempty] at hp
    cases hp
  have hmake := makeDirectory_of_walk_ok hp hwalk
  have hdirectory : t.isDirectory p = false := by
    by_contra hdirectory
    rw [(walk_of_isDirectory (Bool.not_eq_false _ ▸ hdirectory)).2] at hfile
    cases hfile
  rcases t.makeChain_cons p.ancestors htext with ⟨-, hchain⟩ | ⟨hne, -⟩ | ⟨hne, -⟩
  · rw [hmake, settle_error hdirectory] at hchain
    rw [makeDirectories_eq, hchain]
    simp
  · rw [hmake] at hne
    cases hne
  · rw [hmake] at hne
    cases hne

/-- Creating the directories of a path leaves everything that was there, and creates nothing but
directories where the path and its ancestors lead. If it does not fail, the path and its ancestors
are directories, unless one of them leads to a file. A file where an ancestor leads lets it fail. A
file where the path itself leads does not. -/
theorem directories_created_unless_blocked (t : FileTree) (p : Path) :
    let outcome := t.makeDirectories p
    (∀ location node, t.node location = some node → outcome.1.node location = some node) ∧
    (∀ location, t.node location = none → outcome.1.node location ≠ none →
      outcome.1.node location = some .directory ∧ ∃ q ∈ p :: p.ancestors, t.target q = location) ∧
    (outcome.2 = none →
      (∀ q ∈ p :: p.ancestors, q.text ≠ "" → outcome.1.isDirectory q = true) ∨
        ∃ q ∈ p :: p.ancestors, outcome.1.EndsAtFile q) ∧
    (∀ q ∈ p.ancestors, t.EndsAtFile q → outcome.2 = some (.createDirectories p)) ∧
    (t.EndsAtFile p → pathRefusal? p = none → outcome = (t, none)) := by
  intro outcome
  have hgrows : GrowsAlong (p :: p.ancestors) t outcome.1 := t.growsAlong_makeDirectories p
  refine ⟨fun _ _ => hgrows.node_eq, ?_, ?_, ?_, ?_⟩
  · intro location hnone hsome
    refine ⟨?_, hgrows.created location hnone hsome⟩
    rcases hgrows.node location with hsame | ⟨-, hdirectory⟩
    · exact absurd (hsame.trans hnone) hsome
    · exact hdirectory
  · intro hsuccess
    by_cases hp : p.text = ""
    · left
      intro q hq hne
      rw [ancestors_of_text_eq hp, List.mem_singleton] at hq
      exact absurd (hq ▸ hp) hne
    · refine (isDirectory_or_blocked hp hsuccess).imp_left fun hdirectory => ?_
      intro q hq hne
      rcases List.mem_cons.mp hq with rfl | hq
      · exact hdirectory
      · exact isDirectory_ancestors hdirectory q hq hne
  · intro q hq hfile
    exact makeDirectories_of_endsAtFile_ancestor hq hfile
  · intro hfile hrefusal
    exact makeDirectories_of_endsAtFile hrefusal hfile

/-- A working directory with one file in it. -/
def withFile (name content : String) : FileTree :=
  (FileTree.empty ["work"]).put ⟨name⟩ content.toUTF8

/-- The path of the file ends at it. -/
lemma endsAtFile_withFile : (withFile "f" "x").EndsAtFile ⟨"f"⟩ :=
  ⟨"x".toUTF8, by decide +kernel, by decide +kernel⟩

/-- Beside a file, a directory is created with the one that it lies in, and below it, none. -/
theorem directories_created_beside_file :
    let t := withFile "f" "x"
    (t.makeDirectories ⟨"a/b"⟩).2 = none ∧
      (t.makeDirectories ⟨"a/b"⟩).1.isDirectory ⟨"a/b"⟩ = true ∧
      (t.makeDirectories ⟨"a/b"⟩).1.isDirectory ⟨"a"⟩ = true ∧
      (t.makeDirectories ⟨"f/b"⟩).2 = some (.createDirectories ⟨"f/b"⟩) := by
  intro t
  have hsuccess : (t.makeDirectories ⟨"a/b"⟩).2 = none := by decide +kernel
  have hancestors : (⟨"a/b"⟩ : Path).ancestors = [⟨"a"⟩, ⟨""⟩] := by decide
  have hbelow : (⟨"f"⟩ : Path) ∈ (⟨"f/b"⟩ : Path).ancestors := by decide
  have hfree : ∀ q ∈ [⟨"a/b"⟩, ⟨"a"⟩, ⟨""⟩], (t.makeDirectories ⟨"a/b"⟩).1.isDirectoryAt
      ((t.makeDirectories ⟨"a/b"⟩).1.target q) = true := by decide +kernel
  obtain ⟨-, -, hmade, -⟩ := directories_created_unless_blocked t ⟨"a/b"⟩
  obtain ⟨-, -, -, hblocked, -⟩ := directories_created_unless_blocked t ⟨"f/b"⟩
  rcases hmade hsuccess with hdirectories | ⟨q, hq, content, -, hfile⟩
  · exact ⟨hsuccess, hdirectories _ List.mem_cons_self (by decide),
      hdirectories _ (by rw [hancestors]; simp) (by decide), hblocked _ hbelow endsAtFile_withFile⟩
  · rw [hancestors] at hq
    have hdirectory := hfree q hq
    simp [isDirectoryAt, hfile] at hdirectory

/-- A file counts as the directory that is to be created. Nothing fails, and none is there. -/
theorem file_taken_for_directory :
    let t := withFile "f" "x"
    t.EndsAtFile ⟨"f"⟩ ∧ t.makeDirectories ⟨"f"⟩ = (t, none) ∧ t.isDirectory ⟨"f"⟩ = false ∧
      ¬ ∀ (t : FileTree) (p : Path), p.text ≠ "" → p.isAbsolute = false →
        ((t.makeDirectories p).2 = none → (t.makeDirectories p).1.isDirectory p = true) ∧
          ((∃ q ∈ p :: p.ancestors, t.EndsAtFile q) → (t.makeDirectories p).2 ≠ none) := by
  intro t
  have hmake : t.makeDirectories ⟨"f"⟩ = (t, none) :=
    makeDirectories_of_endsAtFile (by decide) endsAtFile_withFile
  have hnone : t.isDirectory ⟨"f"⟩ = false := by decide +kernel
  refine ⟨endsAtFile_withFile, hmake, hnone, ?_⟩
  intro hall
  have hdirectory := (hall t ⟨"f"⟩ (by decide) (by decide)).1
  rw [hmake, hnone] at hdirectory
  exact absurd (hdirectory rfl) Bool.false_ne_true

end WaveAccess.FileTree
