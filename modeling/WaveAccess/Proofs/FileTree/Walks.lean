import Mathlib.Data.List.Basic
import Mathlib.Tactic.Lemma
import WaveAccess.FileTree.Operations

/-!
# Walks in a file tree

A walk that succeeds ends where the names of its path lead, whatever else the tree holds. The
location that a path leads to thus depends on nothing but the working directory. A tree that has
grown by directories lets every walk succeed that succeeded before.
-/

namespace WaveAccess.FileTree

variable {t t' : FileTree} {location location' : Location} {name : String} {names : List String}
  {p q : Path}

/-! ## Where names lead -/

/-- The location that a name leads to. -/
def advance (location : Location) (name : String) : Location :=
  if name = "." then location else if name = ".." then location.tail else name :: location

/-- Dots lead nowhere. -/
lemma foldl_advance_dots {dots : List String} (h : ∀ n ∈ dots, n = ".") :
    dots.foldl advance location = location := by
  induction dots with
  | nil => rfl
  | cons n dots ih =>
    rw [List.foldl_cons, h n List.mem_cons_self, advance, if_pos rfl]
    exact ih fun n hn => h n (List.mem_cons_of_mem _ hn)

/-- The location that a path leads to. -/
def target (t : FileTree) (p : Path) : Location :=
  p.names.foldl advance (t.start p)

/-- Where a path leads depends on the working directory alone. -/
lemma target_congr (h : t'.process = t.process) (p : Path) :
    t'.target p = t.target p := by
  rw [target, target, start, start, h]

/-- A directory lies in a directory. -/
lemma node_tail (h : t.node location = some .directory) :
    t.node location.tail = some .directory := by
  cases location with
  | nil => exact h
  | cons name parent => exact t.parent_directory (Option.isSome_of_eq_some h)

/-- A name that is entered leads from a directory to something that exists. -/
lemma enter_ok (h : t.enter location name = .ok location') :
    location' = advance location name ∧ t.node location = some .directory ∧
      (t.node location').isSome = true := by
  unfold enter at h
  split at h
  · cases h
  · cases h
  · next hdirectory =>
    unfold advance
    split_ifs at h ⊢ with hdot hup hlong hmissing
    · cases h
      exact ⟨rfl, hdirectory, Option.isSome_of_eq_some hdirectory⟩
    · cases h
      exact ⟨rfl, hdirectory, Option.isSome_of_eq_some (node_tail hdirectory)⟩
    · cases h
      exact ⟨rfl, hdirectory, by simpa [Option.isSome_iff_ne_none] using hmissing⟩

/-- The refusals of a name. -/
lemma enter_error {refusal : Refusal} (h : t.enter location name = .error refusal) :
    refusal = .missing ∨ refusal = .notDirectory ∨ refusal = .nameTooLong := by
  unfold enter at h
  split at h
  · cases h; exact .inl rfl
  · cases h; exact .inr (.inl rfl)
  · split_ifs at h <;> cases h
    · exact .inr (.inr rfl)
    · exact .inl rfl

/-- No name leads on from a file. -/
lemma enter_file {content : ByteArray} (h : t.node location = some (.file content)) :
    t.enter location name = .error .notDirectory := by
  rw [enter, h]

/-- If a name leads to nothing, nothing is where it would lead, and it is no dot. -/
lemma node_of_enter_missing (hsome : (t.node location).isSome = true)
    (h : t.enter location name = .error .missing) :
    t.node (advance location name) = none ∧ name ≠ "." := by
  unfold enter at h
  split at h
  · next hnone => rw [hnone] at hsome; cases hsome
  · cases h
  · split_ifs at h with hdot hup hlong hmissing
    · cases h
    · exact ⟨by simpa [advance, hdot, hup] using hmissing, hdot⟩

/-- A walk goes by its first name and then by the others. -/
lemma walk_cons_ok (h : (name :: names).foldlM t.enter location = .ok location') :
    ∃ next, t.enter location name = .ok next ∧ names.foldlM t.enter next = .ok location' := by
  rw [List.foldlM_cons] at h
  cases hnext : t.enter location name with
  | error refusal => rw [hnext] at h; cases h
  | ok next => exact ⟨next, rfl, by rw [hnext] at h; exact h⟩

/-- A walk by one name enters it. -/
lemma walk_singleton (t : FileTree) (location : Location) (name : String) :
    [name].foldlM t.enter location = t.enter location name := by
  rw [List.foldlM_cons]
  cases t.enter location name <;> rfl

/-- A walk goes on from where the names before have led. -/
lemma walk_append_ok {before : List String} (h : before.foldlM t.enter location = .ok location')
    (names : List String) :
    (before ++ names).foldlM t.enter location = names.foldlM t.enter location' := by
  rw [List.foldlM_append, h]
  rfl

/-- A walk that is refused stays refused. -/
lemma walk_append_error {before : List String} {refusal : Refusal}
    (h : before.foldlM t.enter location = .error refusal) (names : List String) :
    (before ++ names).foldlM t.enter location = .error refusal := by
  rw [List.foldlM_append, h]
  rfl

/-- A walk that succeeds ends where its names lead. -/
lemma walk_ok (h : names.foldlM t.enter location = .ok location') :
    location' = names.foldl advance location ∧
      ((t.node location).isSome = true → (t.node location').isSome = true) := by
  induction names generalizing location with
  | nil => cases h; exact ⟨rfl, id⟩
  | cons name names ih =>
    obtain ⟨next, hnext, hrest⟩ := walk_cons_ok h
    obtain ⟨rfl, -, hsome⟩ := enter_ok hnext
    obtain ⟨hend, hexists⟩ := ih hrest
    exact ⟨hend, fun _ => hexists hsome⟩

/-- The refusals of a walk of many names. -/
lemma walk_error {refusal : Refusal} (h : names.foldlM t.enter location = .error refusal) :
    refusal = .missing ∨ refusal = .notDirectory ∨ refusal = .nameTooLong := by
  induction names generalizing location with
  | nil => cases h
  | cons name names ih =>
    rw [List.foldlM_cons] at h
    cases hnext : t.enter location name with
    | error refusal' =>
      rw [hnext] at h
      cases h
      exact enter_error hnext
    | ok next =>
      rw [hnext] at h
      exact ih h

/-- A walk by dots stays in its directory. -/
lemma walk_dots {dots : List String} (hdots : ∀ n ∈ dots, n = ".")
    (h : t.node location = some .directory) : dots.foldlM t.enter location = .ok location := by
  induction dots with
  | nil => rfl
  | cons n dots ih =>
    have hn : t.enter location n = .ok location := by
      rw [hdots n List.mem_cons_self, enter, h]
      rfl
    rw [List.foldlM_cons, hn]
    exact ih fun n hn => hdots n (List.mem_cons_of_mem _ hn)

/-- A `.` that does not lead on is not missing. -/
lemma walk_dots_ne_missing {dots : List String} (hdots : ∀ n ∈ dots, n = ".")
    (h : (t.node location).isSome = true) : dots.foldlM t.enter location ≠ .error .missing := by
  obtain ⟨node, hnode⟩ := Option.isSome_iff_exists.mp h
  cases node with
  | directory =>
    rw [walk_dots hdots hnode]
    exact nofun
  | file content =>
    cases dots with
    | nil => exact nofun
    | cons n dots =>
      rw [List.foldlM_cons, enter_file hnode]
      exact nofun

/-- The walk along a path. -/
def walk (t : FileTree) (p : Path) : Except Refusal Location :=
  p.names.foldlM t.enter (t.start p)

/-- Paths start in a directory. -/
lemma node_start (t : FileTree) (p : Path) : t.node (t.start p) = some .directory := by
  unfold start
  split
  · exact t.root_directory
  · exact t.working_directory

/-- A walk along a path ends where the path leads, and something is there. -/
lemma walk_eq_ok (h : t.walk p = .ok location) :
    location = t.target p ∧ (t.node location).isSome = true := by
  obtain ⟨hend, hexists⟩ := walk_ok h
  exact ⟨hend, hexists (Option.isSome_of_eq_some (t.node_start p))⟩

/-- A path that is located is not refused, and its walk ends there. -/
lemma locate_ok (h : t.locate p = .ok location) :
    pathRefusal? p = none ∧ t.walk p = .ok location := by
  unfold locate at h
  split at h
  · cases h
  · next hrefusal =>
    split at h
    · cases h
    · next hwalk =>
      split at h <;> cases h
      exact ⟨hrefusal, hwalk⟩

/-- What is where a path is located is what is looked up. -/
lemma lookup_of_locate {node : Node} (h : t.locate p = .ok location)
    (hnode : t.node location = some node) : t.lookup p = .ok node := by
  rw [lookup, h]
  dsimp only
  rw [hnode]

/-- What is looked up is where the path leads. -/
lemma lookup_ok {node : Node} (h : t.lookup p = .ok node) :
    t.node (t.target p) = some node ∧ t.walk p = .ok (t.target p) := by
  unfold lookup at h
  split at h
  · cases h
  · next hlocate =>
    obtain ⟨-, hwalk⟩ := locate_ok hlocate
    obtain ⟨rfl, -⟩ := walk_eq_ok hwalk
    split at h <;> cases h
    exact ⟨‹_›, hwalk⟩

/-- A path that names a directory can be walked to it. -/
lemma walk_of_isDirectory (h : t.isDirectory p = true) :
    t.walk p = .ok (t.target p) ∧ t.node (t.target p) = some .directory := by
  unfold isDirectory at h
  split at h
  · next hlookup => exact (lookup_ok hlookup).symm
  · cases h

/-- A path that can be walked to a directory names it. -/
lemma isDirectory_of_walk (hrefusal : pathRefusal? p = none) (h : t.walk p = .ok location)
    (hnode : t.node location = some .directory) : t.isDirectory p = true := by
  have hlocate : t.locate p = .ok location := by
    rw [locate, hrefusal]
    rw [walk] at h
    simp [h, isDirectoryAt, hnode]
  simp [isDirectory, lookup, hlocate, hnode]

/-- A path leads nowhere in a lookup only if its walk does. -/
lemma walk_of_lookup_missing (hp : p.text ≠ "") (h : t.lookup p = .error .missing) :
    t.walk p = .error .missing := by
  unfold lookup at h
  split at h
  · next refusal hlocate =>
    cases h
    unfold locate at hlocate
    split at hlocate
    · next hrefusal =>
      cases hlocate
      exact absurd hrefusal (by simp only [pathRefusal?, if_neg hp]; split_ifs <;> nofun)
    · split at hlocate
      · next hwalk =>
        cases hlocate
        exact hwalk
      · split at hlocate <;> cases hlocate
  · next hlocate =>
    have hsome := (walk_eq_ok (locate_ok hlocate).2).2
    split at h
    · cases h
    · next hnone => rw [hnone] at hsome; cases hsome

/-! ## Places -/

/-- The place of a path's last name is where the path leads, and lies in a directory that the names
before it lead to. -/
lemma place_ok {place : Place} (h : t.place p = .ok place) :
    place.name :: place.parent = t.target p ∧ t.node place.parent = some .directory ∧
      pathRefusal? p = none ∧ ∃ before, p.names = before ++ [place.name] ∧
        before.foldlM t.enter (t.start p) = .ok place.parent ∧ place.name ≠ "." ∧
        place.name ≠ ".." ∧ ¬maxNameBytes < place.name.utf8ByteSize := by
  unfold FileTree.place at h
  split at h
  · cases h
  · next hrefusal =>
    split at h
    · cases h
    · next last before hnames =>
      split at h
      · cases h
      · next parent hwalk =>
        split_ifs at h with hdirectory hdots hlong
        cases h
        have hall : p.names = before.reverse ++ [last] := by
          rw [← List.reverse_cons, ← hnames, List.reverse_reverse]
        obtain ⟨hdot, hup⟩ := not_or.mp hdots
        have hparent : t.node parent = some .directory := by
          simpa [isDirectoryAt] using hdirectory
        refine ⟨?_, hparent, hrefusal, before.reverse, hall, hwalk, hdot, hup, hlong⟩
        rw [target, hall, List.foldl_append, ← (walk_ok hwalk).1]
        simp [advance, hdot, hup]

/-- A path that has no place is not refused because something exists. If it has none by way of its
last name, it leads to a directory. -/
lemma place_error {refusal : Refusal} (h : t.place p = .error refusal) :
    refusal ≠ .exists ∧ (refusal = .busy → pathRefusal? p = none ∧
      ∃ location, t.walk p = .ok location ∧ t.node location = some .directory) := by
  unfold FileTree.place at h
  split at h
  · next hrefusal =>
    cases h
    unfold pathRefusal? at hrefusal
    split_ifs at hrefusal <;> cases hrefusal <;> exact ⟨nofun, nofun⟩
  · next hrefusal =>
    split at h
    · next hnames =>
      cases h
      have hwalk : t.walk p = .ok (t.start p) := by
        rw [walk, List.reverse_eq_nil_iff.mp hnames]
        rfl
      exact ⟨nofun, fun _ => ⟨hrefusal, _, hwalk, t.node_start p⟩⟩
    · next last before hnames =>
      split at h
      · next hwalk =>
        cases h
        rcases walk_error hwalk with rfl | rfl | rfl <;> exact ⟨nofun, nofun⟩
      · next parent hwalk =>
        split_ifs at h with hdirectory hdots hlong
        · cases h
          exact ⟨nofun, nofun⟩
        · cases h
          have hparent : t.node parent = some .directory := by
            simpa [isDirectoryAt] using hdirectory
          have hall : p.names = before.reverse ++ [last] := by
            rw [← List.reverse_cons, ← hnames, List.reverse_reverse]
          refine ⟨nofun, fun _ => ⟨hrefusal, ?_⟩⟩
          rw [walk, hall, walk_append_ok hwalk, walk_singleton]
          rcases hdots with rfl | rfl
          · exact ⟨parent, by simp [enter, hparent], hparent⟩
          · exact ⟨parent.tail, by simp [enter, hparent], node_tail hparent⟩
        · cases h
          exact ⟨nofun, nofun⟩

end WaveAccess.FileTree
