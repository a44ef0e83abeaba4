import WaveAccess.Proofs.Path.Ancestors

/-!
# Parents

The ancestors of a path are its parent and the ancestors of its parent. So what passes from the
parent of every path to the path holds of all paths.
-/

namespace WaveAccess.Path

variable {absolute : Bool} {parts before reversed : List String} {part : String} {p q : Path}
  {rest : List Path}

/-! ## Paths made of parts -/

/-- Fewer parts are joined to a beginning of the text. -/
lemma joinSlashes_initial {parts parts' : List (List Char)} (h : parts' <+: parts) :
    joinSlashes parts' <+: joinSlashes parts := by
  induction parts' generalizing parts with
  | nil => exact List.nil_prefix
  | cons part parts' ih =>
    obtain ⟨rest, rfl⟩ := h
    cases parts' with
    | nil =>
      cases rest with
      | nil => exact List.prefix_rfl
      | cons next rest => exact List.prefix_append part _
    | cons next parts' =>
      obtain ⟨tail, htail⟩ := ih (List.prefix_append (next :: parts') rest)
      refine ⟨tail, ?_⟩
      rw [joinSlashes, List.append_assoc, List.cons_append, htail]
      · rfl
      · simp

/-- The text of a path is that of its parts. -/
lemma ofParts_parts (p : Path) : ofParts p.isAbsolute p.parts = p := by
  have hjoin := joinSlashes_splitSlashes p.text.toList
  have hparts : ∀ pieces : List (List Char),
      (pieces.map String.ofList).map String.toList = pieces := by
    intro pieces
    simp [Function.comp_def]
  obtain ⟨text⟩ := p
  dsimp only at hjoin
  rw [ofParts, Path.parts]
  cases habsolute : isAbsolute ⟨text⟩ with
  | false => simp only [Bool.false_eq_true, if_false, hparts, hjoin, String.ofList_toList]
  | true =>
    obtain ⟨cs, hcs⟩ : ∃ cs, text.toList = '/' :: cs := exists_toList_of_isAbsolute habsolute
    -- the part before the slash of the root is left out, and the slash is put back
    have htail : (splitSlashes text.toList).tail = splitSlashes cs := by
      rw [hcs, splitSlashes, if_pos rfl, List.tail_cons]
    simp only [if_true, ← List.map_tail, htail, hparts, joinSlashes_splitSlashes, ← hcs,
      String.ofList_toList]

/-- A path that is made of parts has these parts. -/
lemma parts_ofParts (h : ArePartsOf absolute parts) (hne : parts ≠ []) :
    (ofParts absolute parts).parts = parts := by
  have hsplit : (splitSlashes (joinSlashes (parts.map String.toList))).map String.ofList =
      parts := by
    rw [splitSlashes_joinSlashes (by simpa using hne)]
    · simp [Function.comp_def]
    · intro cs hcs
      obtain ⟨part, hpart, rfl⟩ := List.mem_map.mp hcs
      exact h.noSlash part hpart
  rw [Path.parts, isAbsolute_ofParts h, ofParts, String.toList_ofList]
  cases absolute with
  | true => simp [splitSlashes, hsplit]
  | false => exact hsplit

/-! ## Fillers at the end -/

/-- Dropping fillers stops at a part that is none. -/
lemma dropFillers_eq_cons (h : dropFillers absolute reversed = part :: before) :
    isFiller absolute part before = false := by
  induction reversed with
  | nil => cases h
  | cons first reversed ih =>
    rw [dropFillers] at h
    split at h
    · exact ih h
    · next hfirst =>
      cases h
      exact Bool.eq_false_iff.mpr hfirst

/-- Fillers at the end do not count for the ancestors of a path. -/
lemma ancestorsOf_dropFillers (absolute : Bool) (reversed : List String) :
    ancestorsOf absolute (dropFillers absolute reversed) = ancestorsOf absolute reversed := by
  induction reversed with
  | nil => rfl
  | cons part before ih =>
    rw [dropFillers]
    split
    · next hfiller => rw [ancestorsOf, if_pos hfiller, ih]
    · rfl

/-- Parts without the fillers at their end make up a path. -/
lemma ArePartsOf.dropFillers (h : ArePartsOf absolute before.reverse) :
    ArePartsOf absolute (dropFillers absolute before).reverse := by
  obtain ⟨fillers, hreverse, -⟩ := exists_dropFillers absolute before
  exact h.initial ⟨fillers, hreverse.symm⟩

/-- A path that was made of parts without the fillers at their end has their ancestors. -/
lemma ancestors_ofParts (h : ArePartsOf absolute before.reverse) :
    (ofParts absolute (dropFillers absolute before).reverse).ancestors =
      ancestorsOf absolute before := by
  have hparts := h.dropFillers
  rw [ancestors, isAbsolute_ofParts hparts, ← ancestorsOf_dropFillers absolute before]
  cases hdrop : Path.dropFillers absolute before with
  | nil => cases absolute <;> rfl
  | cons part rest =>
    rw [hdrop] at hparts
    rw [parts_ofParts hparts (by simp), List.reverse_reverse]

/-- Such a path ends in `.` only if it is `.` itself. -/
lemma eq_nil_of_names_ofParts (h : ArePartsOf absolute before.reverse) {names : List String}
    (hnames : (ofParts absolute (dropFillers absolute before).reverse).names = names ++ ["."]) :
    names = [] := by
  rw [names_ofParts h.dropFillers] at hnames
  cases hdrop : Path.dropFillers absolute before with
  | nil => simp [hdrop] at hnames
  | cons part rest =>
    have hfiller := dropFillers_eq_cons hdrop
    have hne := ne_of_isFiller_eq_false hfiller
    simp only [hdrop, List.reverse_cons, List.filter_append, List.filter_singleton, ne_eq, hne,
      not_false_eq_true, decide_true, cond_true] at hnames
    obtain ⟨hrest, hlast⟩ := List.append_inj' hnames rfl
    obtain rfl : part = "." := by simpa using hlast
    obtain ⟨-, rfl⟩ : absolute = false ∧ rest = [] := by simpa [isFiller] using hfiller
    rw [← hrest]
    rfl

/-! ## Parents -/

/-- Between the names of a path and the last name of one that lies in it, there are dots alone. -/
lemma LiesIn.names_eq (h : p.LiesIn q) {names : List String} {last : String}
    (hnames : p.names = names ++ [last]) (hlast : last ≠ ".") :
    ∃ dots, names = q.names ++ dots ∧ ∀ n ∈ dots, n = "." := by
  obtain ⟨before, inner, after, hall, hbefore, hafter⟩ := h.names
  rw [hnames, ← List.append_assoc] at hall
  rcases List.eq_nil_or_concat' after with rfl | ⟨dots, dot, rfl⟩
  · exact ⟨before, (List.append_inj' hall rfl).1, hbefore⟩
  · rw [← List.cons_append, ← List.append_assoc] at hall
    have hdot := List.singleton_inj.mp (List.append_inj' hall rfl).2
    exact absurd (hdot.trans (hafter dot (List.mem_append_right _ (by simp)))) hlast

/-- A path has another for its parent. -/
structure HasParent (p q : Path) : Prop where
  ancestors : p.ancestors = q :: q.ancestors
  liesIn : p.LiesIn q
  text : q.text.toList <+: p.text.toList
  /-- No `.` is left behind the names of a parent. -/
  ends : ∀ names, q.names = names ++ ["."] → names = []

/-- The first of the ancestors is made of the parts before it, and the others are its own. -/
lemma ancestorsOf_eq_cons (h : ancestorsOf absolute reversed = q :: rest) :
    ∃ before, before.reverse <+: reversed.reverse ∧
      q = ofParts absolute (dropFillers absolute before).reverse ∧
      rest = ancestorsOf absolute before := by
  induction reversed with
  | nil => cases h
  | cons part before ih =>
    have hinitial : before.reverse <+: (part :: before).reverse := by
      rw [List.reverse_cons]
      exact List.prefix_append _ _
    rw [ancestorsOf] at h
    split at h
    · obtain ⟨shorter, hshorter, hq, hrest⟩ := ih h
      exact ⟨shorter, hshorter.trans hinitial, hq, hrest⟩
    · cases h
      exact ⟨before, hinitial, rfl, rfl⟩

/-- The first ancestor of a path is its parent. -/
lemma hasParent_of_ancestors (h : p.ancestors = q :: rest) : p.HasParent q := by
  have hp : p.text ≠ "" := by
    rintro hempty
    obtain ⟨text⟩ := p
    cases hempty
    cases h
  have hchain := isChain_ancestors p
  rw [h] at hchain
  obtain ⟨before, hinitial, rfl, rfl⟩ := ancestorsOf_eq_cons h
  rw [List.reverse_reverse] at hinitial
  have hparts : ArePartsOf p.isAbsolute before.reverse := (arePartsOf_parts hp).initial hinitial
  refine ⟨?_, (List.isChain_cons_cons.mp hchain).1, ?_, fun _ => eq_nil_of_names_ofParts hparts⟩
  · rw [h, ancestors_ofParts hparts]
  · obtain ⟨fillers, hreverse, -⟩ := exists_dropFillers p.isAbsolute before
    have hshorter : (dropFillers p.isAbsolute before).reverse <+: p.parts :=
      List.IsPrefix.trans ⟨fillers, hreverse.symm⟩ hinitial
    have hjoin := joinSlashes_initial (hshorter.map String.toList)
    conv_rhs => rw [← ofParts_parts p]
    rw [ofParts, ofParts, String.toList_ofList, String.toList_ofList]
    split
    · exact List.cons_prefix_cons.mpr ⟨rfl, hjoin⟩
    · exact hjoin

/-- The parent of a path is its parent as directories go. -/
lemma hasParent_of_parent? (h : p.parent? = some q) : p.HasParent q := by
  obtain ⟨rest, hancestors⟩ := List.head?_eq_some_iff.mp h
  exact hasParent_of_ancestors hancestors

/-- What holds of the paths without ancestors and passes from parents to their children holds of all
paths. -/
lemma parent_induction {motive : Path → Prop} (top : ∀ p, p.ancestors = [] → motive p)
    (child : ∀ p q, p.HasParent q → motive q → motive p) (p : Path) : motive p := by
  obtain ⟨n, hn⟩ : ∃ n, p.ancestors.length = n := ⟨_, rfl⟩
  induction n generalizing p with
  | zero => exact top p (List.length_eq_zero_iff.mp hn)
  | succ n ih =>
    obtain ⟨q, rest, hancestors⟩ := List.exists_cons_of_length_eq_add_one hn
    have hparent := hasParent_of_ancestors hancestors
    rw [hparent.ancestors, List.length_cons] at hn
    exact child p q hparent (ih q (Nat.succ_injective hn))

end WaveAccess.Path
