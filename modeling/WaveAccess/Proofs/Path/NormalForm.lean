import WaveAccess.Proofs.Path.Resolution

/-!
# Normal forms

The normal form of a path is made of names alone, behind a slash if the path is absolute. These are
names of the path in their order, and nothing is left in them to cancel, so the normal form is its
own normal form. Going down to a name and up again leads back to it.
-/

namespace WaveAccess.Path
open FileTree

variable {p : Path} {name : String}

/-! ## Components -/

/-- The name that a component is, if it is one. -/
def Component.name? : Component → Option String
  | .name n => some n
  | .root | .here | .up => none

/-- The components of a path that are names. -/
def plainNames (p : Path) : List String :=
  p.components.filterMap Component.name?

/-- A component of a path other than the root is one of its names. -/
inductive IsComponentOf (p : Path) : Component → Prop where
  | root : IsComponentOf p .root
  | here : "." ∈ p.names → IsComponentOf p .here
  | up : ".." ∈ p.names → IsComponentOf p .up
  | name {n} : n ∈ p.names → IsComponentOf p (.name n)

/-- The component that a part gives is a component of the path. -/
lemma isComponentOf_of_innerComponent? {part : String} {c : Component} (hpart : part ∈ p.parts)
    (h : innerComponent? part = some c) : p.IsComponentOf c := by
  rw [innerComponent?] at h
  split_ifs at h with hfiller hup
  all_goals
    rw [not_or] at hfiller
    have hmem : part ∈ p.names := List.mem_filter.mpr ⟨hpart, by simpa using hfiller.1⟩
    cases h
  · exact .up (hup ▸ hmem)
  · exact .name hmem

/-- All components of a path are the root or among its names. -/
lemma isComponentOf_of_mem_components {c : Component} (h : c ∈ p.components) :
    p.IsComponentOf c := by
  rw [components] at h
  split at h
  · rcases List.mem_cons.mp h with rfl | h
    · exact .root
    · obtain ⟨part, hpart, hc⟩ := List.mem_filterMap.mp h
      exact isComponentOf_of_innerComponent? hpart hc
  · split at h
    · next rest hparts =>
      rcases List.mem_cons.mp h with rfl | h
      · apply IsComponentOf.here
        exact List.mem_filter.mpr ⟨hparts ▸ List.mem_cons_self, rfl⟩
      · obtain ⟨part, hpart, hc⟩ := List.mem_filterMap.mp h
        exact isComponentOf_of_innerComponent? (hparts ▸ List.mem_cons_of_mem _ hpart) hc
    · obtain ⟨part, hpart, hc⟩ := List.mem_filterMap.mp h
      exact isComponentOf_of_innerComponent? hpart hc

/-- A part is the name of a component exactly if it goes down and is not empty. -/
lemma name?_innerComponent? (part : String) :
    (innerComponent? part).bind Component.name? =
      if goesDown part && part ≠ "" then some part else none := by
  by_cases hempty : part = ""
  · simp [innerComponent?, hempty]
  · by_cases hdot : part = "."
    · simp [innerComponent?, goesDown, hdot]
    · by_cases hup : part = ".."
      · simp [innerComponent?, Component.name?, goesDown, hup]
      · simp [innerComponent?, Component.name?, goesDown, hempty, hdot, hup]

/-- The names among the inner components are the parts that go down. -/
lemma filterMap_innerComponent? (parts : List String) :
    (parts.filterMap innerComponent?).filterMap Component.name? =
      (parts.filter (· ≠ "")).filter goesDown := by
  rw [List.filterMap_filterMap, List.filter_filter, ← List.filterMap_eq_filter]
  apply List.filterMap_congr
  intro part _
  rw [name?_innerComponent?, Option.guard]

/-- The components that are names are the names that go down. -/
lemma plainNames_eq (p : Path) : p.plainNames = p.names.filter goesDown := by
  rw [plainNames, components, names]
  split
  · exact filterMap_innerComponent? p.parts
  · split
    · next rest hparts =>
      rw [hparts]
      exact filterMap_innerComponent? rest
    · exact filterMap_innerComponent? p.parts

/-! ## What is left of a path -/

/-- A walk takes away the names that it cancels and keeps the others in their order. -/
lemma foldl_advance_sublist (names : List String) (stack : Location) :
    (names.foldl advance stack).reverse.Sublist (stack.reverse ++ names.filter goesDown) := by
  induction names generalizing stack with
  | nil => simp
  | cons name rest ih =>
    rw [List.foldl_cons]
    apply (ih (advance stack name)).trans
    rw [advance]
    split_ifs with hdot hup
    · simp [goesDown, hdot]
    · have hparent : stack.tail.reverse.Sublist stack.reverse := (List.tail_sublist stack).reverse
      simpa [goesDown, hup] using hparent.append_right (rest.filter goesDown)
    · have hdown : goesDown name = true := by simp [goesDown, hdot, hup]
      simp [List.filter_cons_of_pos hdown]

/-- All names of a normal path go down. -/
lemma goesDown_of_mem_names_normalize {n : String} (h : n ∈ p.normalize.names) :
    goesDown n = true := by
  rw [names_normalize, List.mem_reverse] at h
  exact goesDown_of_mem_foldl_advance h

/-- No part of a normal form stays or goes up. -/
lemma ne_of_mem_parts_normalize {part : String} (h : part ∈ p.normalize.parts) :
    part ≠ "." ∧ part ≠ ".." := by
  have hnames : part ≠ "" → part ∈ p.normalize.names := fun hne =>
    List.mem_filter.mpr ⟨h, by simpa using hne⟩
  constructor
  all_goals
    rintro rfl
    have hdown := goesDown_of_mem_names_normalize (hnames (by decide))
    revert hdown
    decide

/-- A normal path has no dots as components. -/
lemma ne_of_mem_components_normalize {c : Component} (h : c ∈ p.normalize.components) :
    c ≠ .here ∧ c ≠ .up := by
  have hmem : ∀ n ∈ p.normalize.names, n ∈ p.normalize.parts := fun n hn =>
    (List.mem_filter.mp hn).1
  cases isComponentOf_of_mem_components h with
  | root => exact ⟨nofun, nofun⟩
  | here hdot => exact absurd rfl (ne_of_mem_parts_normalize (hmem _ hdot)).1
  | up hup => exact absurd rfl (ne_of_mem_parts_normalize (hmem _ hup)).2
  | name _ => exact ⟨nofun, nofun⟩

/-- A normal path is its own normal form. -/
lemma normalize_normalize (p : Path) : p.normalize.normalize = p.normalize := by
  have hdown : p.normalize.names.foldl advance [] = p.names.foldl advance [] := by
    rw [foldl_advance_of_goesDown fun n hn => goesDown_of_mem_names_normalize hn, names_normalize,
      List.reverse_reverse, List.append_nil]
  rw [normalize_eq p.normalize, hdown, isAbsolute_normalize, ← normalize_eq]

/-- A normal form has some of the names of its path, in their order. -/
lemma plainNames_normalize_sublist (p : Path) : p.normalize.plainNames.Sublist p.plainNames := by
  have hall : p.normalize.names.filter goesDown = p.normalize.names :=
    List.filter_eq_self.mpr fun n hn => goesDown_of_mem_names_normalize hn
  rw [plainNames_eq, plainNames_eq, hall, names_normalize]
  exact foldl_advance_sublist p.names []

/-! ## Paths that go on -/

/-- A path passes through everything between its slashes that is not empty. -/
lemma names_eq (p : Path) :
    p.names = ((splitSlashes p.text.toList).map String.ofList).filter (· ≠ "") := by
  rw [names, parts]
  split
  · next habsolute =>
    obtain ⟨rest, hrest⟩ := exists_toList_of_isAbsolute habsolute
    rw [hrest, splitSlashes, if_pos rfl]
    simp
  · rfl

section Child

variable (hname : name ≠ "") (hslash : '/' ∉ name.toList)

include hname hslash

/-- The names of a path in a directory are those of the directory and its own. -/
lemma names_child (p : Path) : (p.child name).names = p.names ++ [name] := by
  have hlast : ((splitSlashes name.toList).map String.ofList).filter (· ≠ "") = [name] := by
    rw [splitSlashes_of_notMem hslash]
    simp [hname]
  rw [names_eq, names_eq, child]
  split_ifs with hempty hends
  · rw [hlast, hempty]
    rfl
  · -- the slash at the end of the path has an empty part behind it
    rw [endsInSlash, beq_iff_eq, List.getLast?_eq_some_iff] at hends
    obtain ⟨front, hfront⟩ := hends
    rw [String.toList_append, hfront, List.append_assoc, List.singleton_append,
      splitSlashes_append, splitSlashes_append, List.map_append, List.map_append,
      List.filter_append, List.filter_append, hlast]
    simp [splitSlashes]
  · have htext : (p.text ++ "/" ++ name).toList = p.text.toList ++ '/' :: name.toList := by simp
    rw [htext, splitSlashes_append, List.map_append, List.filter_append, hlast]

omit hname in
/-- A path in a directory is absolute if the directory's is. -/
lemma isAbsolute_child (p : Path) : (p.child name).isAbsolute = p.isAbsolute := by
  have hfirst : ∀ back, p.text ≠ "" → (p.text ++ back).toList.head? = p.text.toList.head? := by
    intro back hne
    rw [String.toList_append]
    exact List.head?_append_of_ne_nil _ (mt String.toList_eq_nil_iff.mp hne)
  rw [child]
  split_ifs with hempty hends
  · have hrelative : Path.isAbsolute ⟨name⟩ ≠ true := by
      intro habsolute
      obtain ⟨rest, hrest⟩ := exists_toList_of_isAbsolute habsolute
      exact hslash (hrest ▸ List.mem_cons_self)
    rw [Bool.eq_false_iff.mpr hrelative, isAbsolute, hempty]
    rfl
  · rw [isAbsolute, isAbsolute, hfirst name hempty]
  · rw [isAbsolute, isAbsolute, String.append_assoc, hfirst _ hempty]

end Child

/-- Going down to a name and up again leads back. -/
lemma normalize_child_up (hname : name ≠ "") (hslash : '/' ∉ name.toList)
    (hdown : goesDown name = true) (p : Path) :
    ((p.child name).child "..").normalize = p.normalize := by
  have hup : '/' ∉ "..".toList := by decide
  have hback : advance (advance (p.names.foldl advance []) name) ".." =
      p.names.foldl advance [] := by
    simp only [goesDown, Bool.and_eq_true, bne_iff_ne] at hdown
    rw [advance, advance, if_neg hdown.1, if_neg hdown.2]
    rfl
  rw [normalize_eq, names_child (by decide) hup, names_child hname hslash, isAbsolute_child hup,
    isAbsolute_child hslash, List.foldl_append, List.foldl_append, List.foldl_cons, List.foldl_nil,
    List.foldl_cons, List.foldl_nil, hback, ← normalize_eq]

/-- The normal form of a path begins like the path. No part of it stays or goes up, it is its own
normal form, and its names are some of the path's in the same order. The path that goes down from it
to a name and up again has the same normal form. -/
theorem normal_form_is_settled (p : Path) :
    p.normalize.isAbsolute = p.isAbsolute ∧
      (∀ part ∈ p.normalize.parts, part ≠ "." ∧ part ≠ "..") ∧
      (∀ c ∈ p.normalize.components, c ≠ .here ∧ c ≠ .up) ∧
      p.normalize.normalize = p.normalize ∧
      p.normalize.plainNames.Sublist p.plainNames ∧
      ∀ name : String, name ≠ "" → '/' ∉ name.toList → name ≠ "." → name ≠ ".." →
        ((p.normalize.child name).child "..").normalize = p.normalize := by
  refine ⟨isAbsolute_normalize p, fun _ => ne_of_mem_parts_normalize,
    fun _ => ne_of_mem_components_normalize, normalize_normalize p, plainNames_normalize_sublist p,
    ?_⟩
  intro name hname hslash hdot hup
  have hdown : goesDown name = true := by simp [goesDown, hdot, hup]
  rw [normalize_child_up hname hslash hdown, normalize_normalize]

/-- The normal form of a path that goes up at the root, over a name and past an empty part. -/
theorem normal_form_is_settled_of_climbing_path :
    let p : Path := ⟨"/../logs/./run//../a.txt/"⟩
    p.normalize = ⟨"/logs/a.txt"⟩ ∧ p.normalize.plainNames = ["logs", "a.txt"] ∧
      p.plainNames = ["logs", "run", "a.txt"] ∧ '/' ∉ "...".toList ∧
      (⟨"/logs/a.txt/.../.."⟩ : Path).normalize = ⟨"/logs/a.txt"⟩ := by
  intro p
  have hnormal : p.normalize = ⟨"/logs/a.txt"⟩ := by decide
  have hslash : '/' ∉ "...".toList := by decide
  obtain ⟨-, -, -, -, -, hback⟩ := normal_form_is_settled p
  have hthere := hback "..." (by decide) hslash (by decide) (by decide)
  rw [hnormal] at hthere ⊢
  exact ⟨rfl, by decide, by decide, hslash, hthere⟩

end WaveAccess.Path
