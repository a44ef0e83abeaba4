import Mathlib.Data.List.Infix
import WaveAccess.Proofs.FileTree.Walks
import WaveAccess.Proofs.Path.Ancestors
import WaveAccess.Report.Destination

/-!
# Where normal paths lead

In the normal form of a path every `..` has cancelled the name before it, and there are no links
that could lead a walk elsewhere. So the normal form leads where the path does, unless a `..` of a
relative path finds no name before it: a walk goes up from the directory that it starts from, but
the normal form does not show it.
-/

namespace WaveAccess

namespace Path
open FileTree

/-! ## Going up and down -/

/-- The location that a path names from a directory: `.` stays, `..` goes to the parent, and the
root is its own parent. -/
def locationFrom (directory : Location) (p : Path) : Location :=
  p.names.foldl advance (if p.isAbsolute then [] else directory)

/-- How often names go up although there is no name left before them, given the number of names that
were there already. -/
def climbs : Nat → List String → Nat
  | _, [] => 0
  | depth, name :: rest =>
    if name = "." then climbs depth rest
    else if name = ".." then (if depth = 0 then 1 else 0) + climbs (depth - 1) rest
    else climbs (depth + 1) rest

/-- Names lead from a directory to what they add to it, except that they leave it by as many names
as they climb. -/
lemma foldl_advance_append (names : List String) (stack directory : Location) :
    names.foldl advance (stack ++ directory) =
      names.foldl advance stack ++ directory.drop (climbs stack.length names) := by
  induction names generalizing stack directory with
  | nil => rfl
  | cons name rest ih =>
    rw [List.foldl_cons, List.foldl_cons, climbs, advance, advance]
    split_ifs with hdot hup hdepth
    · exact ih stack directory
    · obtain rfl := List.length_eq_zero_iff.mp hdepth
      -- the walk leaves the directory, and goes on from its parent
      have hparent := ih [] directory.tail
      rw [List.nil_append, ← List.drop_one, List.drop_drop] at hparent
      rw [List.nil_append, ← List.drop_one]
      exact hparent
    · cases stack with
      | nil => exact absurd rfl hdepth
      | cons name stack =>
        rw [Nat.zero_add]
        exact ih stack directory
    · exact ih (name :: stack) directory

/-- Whether a name goes down. -/
def goesDown (name : String) : Bool :=
  name != "." && name != ".."

/-- No beginning of the path goes up more often than it has gone down. -/
def StaysBelow (p : Path) : Prop :=
  ∀ before ∈ p.names.inits, before.count ".." ≤ before.countP goesDown

instance (p : Path) : Decidable p.StaysBelow :=
  inferInstanceAs (Decidable (∀ before ∈ p.names.inits, _ ≤ _))

/-- Names climb exactly if some beginning of them goes up more often than names are before it. -/
lemma climbs_eq_zero_iff (depth : Nat) (names : List String) : climbs depth names = 0 ↔
    ∀ before, before <+: names → before.count ".." ≤ depth + before.countP goesDown := by
  induction names generalizing depth with
  | nil => simp [climbs]
  | cons name rest ih =>
    -- a beginning is empty or has the first name
    have hcons : (∀ before, before <+: name :: rest →
          before.count ".." ≤ depth + before.countP goesDown) ↔
        ∀ before, before <+: rest →
          (name :: before).count ".." ≤ depth + (name :: before).countP goesDown := by
      constructor
      · intro h before hbefore
        exact h _ (List.cons_prefix_cons.mpr ⟨rfl, hbefore⟩)
      · intro h before hbefore
        rcases List.prefix_cons_iff.mp hbefore with rfl | ⟨after, rfl, hafter⟩
        · exact Nat.zero_le _
        · exact h after hafter
    rw [hcons, climbs]
    split_ifs with hdot hup hdepth
    · rw [ih]
      apply forall₂_congr
      intro before _
      simp [goesDown, hdot]
    · -- the first beginning goes up, and nothing was there before it
      refine ⟨fun hzero => by omega, fun hbelow => ?_⟩
      have hfirst := hbelow [] List.nil_prefix
      simp [goesDown, hup, hdepth] at hfirst
    · rw [Nat.zero_add, ih]
      apply forall₂_congr
      intro before _
      have hcount : (name :: before).count ".." = before.count ".." + 1 := by simp [hup]
      have hdown : (name :: before).countP goesDown = before.countP goesDown := by
        simp [goesDown, hup]
      omega
    · rw [ih]
      apply forall₂_congr
      intro before _
      have hcount : (name :: before).count ".." = before.count ".." :=
        List.count_cons_of_ne hup
      have hdown : (name :: before).countP goesDown = before.countP goesDown + 1 :=
        List.countP_cons_of_pos (by simp [goesDown, hdot, hup])
      omega

/-! ## Normal form -/

/-- A location has names that were there already and names that go down. -/
lemma mem_of_mem_foldl_advance {names : List String} {stack : Location} {name : String}
    (h : name ∈ names.foldl advance stack) :
    name ∈ stack ∨ (name ∈ names ∧ goesDown name = true) := by
  induction names generalizing stack with
  | nil => exact .inl h
  | cons first rest ih =>
    rcases ih h with hstack | ⟨hrest, hdown⟩
    · rw [advance] at hstack
      split_ifs at hstack with hdot hup
      · exact .inl hstack
      · exact .inl (List.mem_of_mem_tail hstack)
      · rcases List.mem_cons.mp hstack with rfl | hstack
        · exact .inr ⟨List.mem_cons_self, by simp [goesDown, hdot, hup]⟩
        · exact .inl hstack
    · exact .inr ⟨List.mem_cons_of_mem _ hrest, hdown⟩

/-- Names that go down are put on top of a location one after the other. -/
lemma foldl_advance_of_goesDown {names : List String} (h : ∀ n ∈ names, goesDown n = true)
    (directory : Location) : names.foldl advance directory = names.reverse ++ directory := by
  induction names generalizing directory with
  | nil => rfl
  | cons name rest ih =>
    have hdown := h name List.mem_cons_self
    simp only [goesDown, Bool.and_eq_true, bne_iff_ne] at hdown
    rw [List.foldl_cons, advance, if_neg hdown.1, if_neg hdown.2,
      ih fun n hn => h n (List.mem_cons_of_mem _ hn), List.reverse_cons, List.append_assoc]
    rfl

/-- Following the components of a path comes to following its names. -/
lemma foldl_pushComponent_parts (parts : List String) (stack : Location) :
    (parts.filterMap innerComponent?).foldl pushComponent stack =
      (parts.filter (· ≠ "")).foldl advance stack := by
  induction parts generalizing stack with
  | nil => rfl
  | cons part rest ih =>
    by_cases hempty : part = ""
    · simp [innerComponent?, hempty, ih]
    · by_cases hdot : part = "."
      · simp [innerComponent?, advance, hdot, ih]
      · by_cases hup : part = ".."
        · simp [innerComponent?, pushComponent, advance, hup, ih]
        · simp [innerComponent?, pushComponent, advance, hempty, hdot, hup, ih]

/-- The stack that takes in the components holds what the names lead to from the root. -/
lemma foldl_pushComponent_components (p : Path) :
    p.components.foldl pushComponent [] = p.names.foldl advance [] := by
  rw [components, names]
  split
  · exact foldl_pushComponent_parts p.parts []
  · split
    · next rest hparts =>
      rw [hparts]
      exact foldl_pushComponent_parts rest []
    · exact foldl_pushComponent_parts p.parts []

/-- From the root, only names that go down are left in a location. -/
lemma goesDown_of_mem_foldl_advance {names : List String} {name : String}
    (h : name ∈ names.foldl advance []) : goesDown name = true :=
  ((mem_of_mem_foldl_advance h).resolve_left List.not_mem_nil).2

/-- From the root, only names of the path are left in a location. -/
lemma mem_names_of_mem_foldl_advance {p : Path} {name : String}
    (h : name ∈ p.names.foldl advance []) : name ∈ p.names :=
  ((mem_of_mem_foldl_advance h).resolve_left List.not_mem_nil).1

/-- No name of a path is empty. -/
lemma ne_of_mem_names {p : Path} {name : String} (h : name ∈ p.names) : name ≠ "" := by
  simpa using (List.mem_filter.mp h).2

/-- What the names of a path lead to from the root makes up a path that begins like it. -/
lemma arePartsOf_foldl_advance (p : Path) :
    ArePartsOf p.isAbsolute (p.names.foldl advance []).reverse where
  noSlash name h := by
    have hmem := mem_names_of_mem_foldl_advance (List.mem_reverse.mp h)
    exact slash_notMem_of_mem_parts (List.mem_filter.mp hmem).1
  first _ h := by
    have hmem := mem_names_of_mem_foldl_advance (List.mem_reverse.mp (List.mem_of_head? h))
    exact ne_of_mem_names hmem rfl

/-- The normal form of a path is made of the names that are left when all are followed from the
root. -/
lemma normalize_eq (p : Path) :
    p.normalize = ofParts p.isAbsolute (p.names.foldl advance []).reverse := by
  rw [normalize, foldl_pushComponent_components]

/-- A normal form is absolute if the path is. -/
lemma isAbsolute_normalize (p : Path) : p.normalize.isAbsolute = p.isAbsolute := by
  rw [normalize_eq, isAbsolute_ofParts (arePartsOf_foldl_advance p)]

/-- The names of the normal form are those that are left. -/
lemma names_normalize (p : Path) : p.normalize.names = (p.names.foldl advance []).reverse := by
  rw [normalize_eq, names_ofParts (arePartsOf_foldl_advance p)]
  apply List.filter_eq_self.mpr
  intro name h
  have hmem := mem_names_of_mem_foldl_advance (List.mem_reverse.mp h)
  simpa using ne_of_mem_names hmem

/-- The normal form names what the path leads to from the root, seen from the directory. -/
lemma locationFrom_normalize (p : Path) (directory : Location) :
    p.normalize.locationFrom directory =
      p.names.foldl advance [] ++ if p.isAbsolute then [] else directory := by
  rw [locationFrom, names_normalize, isAbsolute_normalize, foldl_advance_of_goesDown,
    List.reverse_reverse]
  intro n hn
  exact goesDown_of_mem_foldl_advance (List.mem_reverse.mp hn)

/-- The path names what its names lead to from the root, seen from the directory that they leave. -/
lemma locationFrom_eq (p : Path) (directory : Location) :
    p.locationFrom directory = p.names.foldl advance [] ++
      (if p.isAbsolute then [] else directory).drop (climbs 0 p.names) :=
  foldl_advance_append p.names [] _

/-- A path stays below its start exactly if it never climbs above it. -/
lemma staysBelow_iff {p : Path} : p.StaysBelow ↔ climbs 0 p.names = 0 := by
  rw [climbs_eq_zero_iff]
  simp only [StaysBelow, List.mem_inits, Nat.zero_add]

/-- The normal form names the same location unless a walk leaves its directory and this is not the
root. -/
lemma locationFrom_normalize_eq_iff (p : Path) (directory : Location) :
    p.normalize.locationFrom directory = p.locationFrom directory ↔
      p.isAbsolute = true ∨ directory = [] ∨ p.StaysBelow := by
  rw [locationFrom_normalize, locationFrom_eq, List.append_cancel_left_eq, staysBelow_iff]
  cases habsolute : p.isAbsolute with
  | true => simp
  | false =>
    simp only [Bool.false_eq_true, if_false, false_or]
    constructor
    · intro heq
      have hlength := congrArg List.length heq
      rw [List.length_drop] at hlength
      by_cases hclimbs : climbs 0 p.names = 0
      · exact .inr hclimbs
      · exact .inl (List.length_eq_zero_iff.mp (by omega))
    · rintro (rfl | hclimbs)
      · rw [List.drop_nil]
      · rw [hclimbs, List.drop_zero]

end Path

namespace Destination

/-- A destination that is a file has the normal form of the text without the blanks around it. -/
lemma eq_normalize_of_ofText {text : String} {path : Path} (h : ofText text = .file path) :
    path = Path.normalize ⟨Text.trim text⟩ := by
  unfold ofText at h
  dsimp only at h
  split at h
  · cases h
  · exact (Destination.file.inj h).symm

/-- From any directory, the normal form of a path names the location that the path names exactly if
the path is absolute, the directory is the root, or the path stays below the directory. The same is
true of the destination of reports and the text that it was given by. -/
theorem same_location_iff (directory : Location) :
    (∀ p : Path, p.normalize.locationFrom directory = p.locationFrom directory ↔
      p.isAbsolute = true ∨ directory = [] ∨ p.StaysBelow) ∧
    ∀ (text : String) (path given : Path), ofText text = .file path → given = ⟨Text.trim text⟩ →
      (path.locationFrom directory = given.locationFrom directory ↔
        given.isAbsolute = true ∨ directory = [] ∨ given.StaysBelow) := by
  refine ⟨fun p => Path.locationFrom_normalize_eq_iff p directory, ?_⟩
  rintro text path given hfile rfl
  rw [eq_normalize_of_ofText hfile]
  exact Path.locationFrom_normalize_eq_iff _ directory

/-- A `..` behind a name that it cancels leads nowhere else. -/
theorem same_location_of_inner_climb :
    ofText " out/./logs/../report.json" = .file ⟨"out/report.json"⟩ ∧
      (⟨"out/report.json"⟩ : Path).locationFrom ["work"] =
        (⟨"out/./logs/../report.json"⟩ : Path).locationFrom ["work"] := by
  have hfile : ofText " out/./logs/../report.json" = .file ⟨"out/report.json"⟩ := by decide
  have hgiven : (⟨"out/./logs/../report.json"⟩ : Path) =
      ⟨Text.trim " out/./logs/../report.json"⟩ := by decide
  refine ⟨hfile, ((same_location_iff ["work"]).2 _ _ _ hfile hgiven).mpr (.inr (.inr ?_))⟩
  decide

/-- The normal form of a path that goes up first leads elsewhere: reports that are to go to the
parent of the working directory stay in it. -/
theorem climb_left_out :
    ofText "../report.json" = .file ⟨"report.json"⟩ ∧
      (⟨"report.json"⟩ : Path).locationFrom ["work", "home"] = ["report.json", "work", "home"] ∧
      (⟨"../report.json"⟩ : Path).locationFrom ["work", "home"] = ["report.json", "home"] ∧
      ¬ ∀ (p : Path) (directory : Location),
        p.normalize.locationFrom directory = p.locationFrom directory := by
  refine ⟨by decide, by decide, by decide, ?_⟩
  intro hsame
  have habove := hsame ⟨"../report.json"⟩ ["work", "home"]
  revert habove
  decide

end Destination

end WaveAccess
