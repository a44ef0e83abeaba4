import WaveAccess.Proofs.FileTree.Walks
import WaveAccess.Proofs.Path.Ancestors

/-!
# Growth of a tree

Creating directories lets a tree grow: directories appear where nothing was, and everything else
stays as it is. What a path leads to is the same afterwards, unless a name of it was missing.
-/

namespace WaveAccess.FileTree

variable {t t' t'' : FileTree} {location location' : Location} {name : String}
  {names : List String} {p q : Path}

/-! ## Growth -/

/-- Directories were created where nothing was, and nothing else happened. -/
structure Grows (t t' : FileTree) : Prop where
  process : t'.process = t.process
  node : ∀ location, t'.node location = t.node location ∨
    t.node location = none ∧ t'.node location = some .directory

namespace Grows

/-- A tree that stays as it is has grown. -/
lemma refl (t : FileTree) : Grows t t :=
  ⟨rfl, fun _ => .inl rfl⟩

/-- Two steps of growth are one. -/
lemma trans (h : Grows t t') (h' : Grows t' t'') : Grows t t'' where
  process := h'.process.trans h.process
  node location := by
    rcases h.node location with hsame | ⟨hnone, hdirectory⟩
    · rw [← hsame]
      exact h'.node location
    · rcases h'.node location with hsame | ⟨hnone', -⟩
      · exact .inr ⟨hnone, hsame.trans hdirectory⟩
      · rw [hnone'] at hdirectory
        cases hdirectory

/-- What is there remains there. -/
lemma node_eq (h : Grows t t') {node : Node} (hnode : t.node location = some node) :
    t'.node location = some node := by
  rcases h.node location with hsame | ⟨hnone, -⟩
  · rw [hsame, hnode]
  · rw [hnone] at hnode
    cases hnode

/-- Paths lead to the same locations in a tree that has grown. -/
lemma target_eq (h : Grows t t') (p : Path) : t'.target p = t.target p :=
  target_congr h.process p

/-- Names that lead on still do. -/
lemma enter_ok (h : Grows t t') (henter : t.enter location name = .ok location') :
    t'.enter location name = .ok location' := by
  obtain ⟨-, hdirectory, -⟩ := FileTree.enter_ok henter
  unfold enter at henter ⊢
  rw [hdirectory] at henter
  rw [h.node_eq hdirectory]
  dsimp only at henter ⊢
  split_ifs at henter with hdot hup hlong hmissing
  · rw [if_pos hdot, henter]
  · rw [if_neg hdot, if_pos hup, henter]
  · obtain ⟨node, hnode⟩ := Option.ne_none_iff_exists'.mp (by simpa using hmissing)
    rw [if_neg hdot, if_neg hup, if_neg hlong, h.node_eq hnode, ← henter]
    rfl

/-- Walks that reach a location still do. -/
lemma walk_ok (h : Grows t t') (hwalk : names.foldlM t.enter location = .ok location') :
    names.foldlM t'.enter location = .ok location' := by
  induction names generalizing location with
  | nil => exact hwalk
  | cons name names ih =>
    obtain ⟨next, hnext, hrest⟩ := walk_cons_ok hwalk
    rw [List.foldlM_cons, h.enter_ok hnext]
    exact ih hrest

end Grows

/-- A tree grows by a directory that is added, which is there afterwards. -/
lemma addDirectory_ok {parent : Location} (h : t.addDirectory parent name = .ok t') :
    Grows t t' ∧ t'.node (name :: parent) = some .directory := by
  have hnode := node_addDirectory h
  unfold addDirectory at h
  split at h
  · split at h
    · next hnone =>
      cases h
      refine ⟨⟨rfl, ?_⟩, by rw [hnode, if_pos rfl]⟩
      intro location
      rw [hnode]
      split
      · next heq => exact .inr ⟨heq ▸ hnone, rfl⟩
      · exact .inl rfl
    · cases h
  · cases h

/-- A directory cannot be added because something exists only if something is in its place. -/
lemma isSome_of_addDirectory_exists {parent : Location}
    (h : t.addDirectory parent name = .error .exists) :
    (t.node (name :: parent)).isSome = true := by
  unfold addDirectory at h
  split at h
  · split at h
    · cases h
    · next hsome => exact Option.isSome_iff_ne_none.mpr hsome
  · cases h

/-! ## One directory -/

/-- A path whose last name has a place is walked as soon as something is there. -/
lemma Grows.walk_of_place (h : Grows t t') {place : Place} (hplace : t.place p = .ok place)
    (hsome : (t'.node (t.target p)).isSome = true) : t'.walk p = .ok (t.target p) := by
  obtain ⟨htarget, hparent, -, before, hnames, hwalk, hdot, hup, hlong⟩ := place_ok hplace
  rw [← htarget] at hsome ⊢
  have henter : t'.enter place.parent place.name = .ok (place.name :: place.parent) := by
    rw [enter, h.node_eq hparent]
    simp [hdot, hup, hlong, Option.isSome_iff_ne_none.mp hsome]
  rw [walk, hnames, start, h.process, ← start, walk_append_ok (h.walk_ok hwalk),
    walk_singleton, henter]

/-- A directory that is created is where its path leads, and the tree has grown. -/
lemma makeDirectory_ok (h : t.makeDirectory p = .ok t') :
    Grows t t' ∧ t'.walk p = .ok (t.target p) ∧ t'.node (t.target p) = some .directory := by
  unfold makeDirectory at h
  split at h
  · cases h
  · cases h
  · next place hplace =>
    obtain ⟨hgrows, hnew⟩ := addDirectory_ok h
    rw [(place_ok hplace).1] at hnew
    exact ⟨hgrows, hgrows.walk_of_place hplace (Option.isSome_of_eq_some hnew), hnew⟩

/-- A directory cannot be created because something exists only if its path can be walked. -/
lemma walk_of_makeDirectory_exists (h : t.makeDirectory p = .error .exists) :
    pathRefusal? p = none ∧ ∃ location, t.walk p = .ok location := by
  unfold makeDirectory at h
  split at h
  · next hbusy =>
    obtain ⟨hrefusal, location, hwalk, -⟩ := (place_error hbusy).2 rfl
    exact ⟨hrefusal, location, hwalk⟩
  · next hplace =>
    cases h
    exact absurd rfl (place_error hplace).1
  · next place hplace =>
    obtain ⟨htarget, -, hrefusal, -⟩ := place_ok hplace
    have hsome := isSome_of_addDirectory_exists h
    rw [htarget] at hsome
    exact ⟨hrefusal, t.target p, (Grows.refl t).walk_of_place hplace hsome⟩

/-! ## Blocked paths -/

/-- Something that is no directory is on the way along a path, or at its end. -/
def IsBlocked (t : FileTree) (p : Path) : Prop :=
  t.walk p = .error .notDirectory ∨
    ∃ location content, t.walk p = .ok location ∧ t.node location = some (.file content)

/-- Nothing that lies in a blocked path is reached. -/
lemma IsBlocked.walk_eq (h : t.IsBlocked q) (hp : p.LiesIn q) :
    t.walk p = .error .notDirectory := by
  obtain ⟨before, last, after, hnames, -⟩ := hp.names
  rw [walk, hnames, start, ← hp.absolute, ← start]
  rcases h with hwalk | ⟨location, content, hwalk, hfile⟩
  · exact walk_append_error hwalk _
  · -- a file is at the end of the names that the paths share, and the last of `p` is behind them
    rw [walk] at hwalk
    rw [walk_append_ok hwalk]
    cases before with
    | nil => rw [List.nil_append, List.foldlM_cons, enter_file hfile]; rfl
    | cons name before => rw [List.cons_append, List.foldlM_cons, enter_file hfile]; rfl

/-- The path without text has no names. -/
lemma names_of_text_eq (hp : p.text = "") : p.names = [] := by
  obtain ⟨text⟩ := p
  cases hp
  rfl

/-! ## What is missing -/

/-- If a name of a path is missing but none of the path that it lies in, nothing is where the path
leads. -/
lemma node_target_of_walk_missing (hp : p.LiesIn q) (hq : t.walk q ≠ .error .missing)
    (h : t.walk p = .error .missing) : t.node (t.target p) = none := by
  obtain ⟨before, last, after, hnames, hbefore, hafter⟩ := hp.names
  have hstart : t.start p = t.start q := by rw [start, start, hp.absolute]
  cases hwalk : t.walk q with
  | error refusal =>
    -- what refuses `q` refuses `p`, so it cannot be that a name is missing
    have hrefused : t.walk p = .error refusal := by
      rw [walk, hnames, hstart]
      exact walk_append_error hwalk _
    rw [hrefused] at h
    cases h
    exact absurd hwalk hq
  | ok location =>
    obtain ⟨hend, hsome⟩ := walk_eq_ok hwalk
    obtain ⟨node, hnode⟩ := Option.isSome_iff_exists.mp hsome
    cases node with
    | file content =>
      rw [IsBlocked.walk_eq (.inr ⟨location, content, hwalk, hnode⟩) hp] at h
      cases h
    | directory =>
      -- the only name of `p` behind `q` that leads anywhere is the last
      have hdots := walk_dots hbefore hnode
      rw [walk, hnames, hstart, walk_append_ok hwalk, walk_append_ok hdots,
        List.foldlM_cons] at h
      cases henter : t.enter location last with
      | error refusal =>
        rw [henter] at h
        cases h
        rw [target, hnames, hstart, List.foldl_append, List.foldl_append, ← target, ← hend,
          foldl_advance_dots hbefore, List.foldl_cons, foldl_advance_dots hafter]
        exact (node_of_enter_missing hsome henter).1
      | ok next =>
        rw [henter] at h
        exact absurd h (walk_dots_ne_missing hafter (enter_ok henter).2.2)

end WaveAccess.FileTree
