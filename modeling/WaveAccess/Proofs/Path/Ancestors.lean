import Mathlib.Data.List.Chain
import Mathlib.Tactic.Lemma
import WaveAccess.Path

/-!
# The names of ancestors

The ancestors of a path pass through the names that remain when its last ones are taken off. From
one ancestor to the next, one name other than `.` goes, and any `.` around it.
-/

namespace WaveAccess.Path

/-! ## Parts -/

/-- No slash is left in the parts of a text. -/
lemma slash_notMem_of_mem_splitSlashes {cs part : List Char} (h : part ∈ splitSlashes cs) :
    '/' ∉ part := by
  induction cs generalizing part with
  | nil =>
    rw [List.mem_singleton.mp h]
    exact List.not_mem_nil
  | cons c rest ih =>
    rw [splitSlashes] at h
    split at h
    · rcases List.mem_cons.mp h with rfl | h
      · exact List.not_mem_nil
      · exact ih h
    · next hc =>
      cases hs : splitSlashes rest with
      | nil => exact absurd hs (splitSlashes_ne_nil rest)
      | cons first others =>
        rw [hs] at h ih
        rcases List.mem_cons.mp h with rfl | h
        · exact List.not_mem_cons_of_ne_of_not_mem (Ne.symm hc) (ih List.mem_cons_self)
        · exact ih (List.mem_cons_of_mem _ h)

/-- A text without slashes is its only part. -/
lemma splitSlashes_of_notMem {part : List Char} (h : '/' ∉ part) : splitSlashes part = [part] := by
  induction part with
  | nil => rfl
  | cons c part ih =>
    obtain ⟨hc, hpart⟩ := List.ne_and_not_mem_of_not_mem_cons h
    rw [splitSlashes, if_neg (Ne.symm hc), ih hpart]

/-- The parts before a slash and those behind it are the parts of the whole. -/
lemma splitSlashes_append (front back : List Char) :
    splitSlashes (front ++ '/' :: back) = splitSlashes front ++ splitSlashes back := by
  induction front with
  | nil => rfl
  | cons c front ih =>
    rw [List.cons_append, splitSlashes, splitSlashes, ih]
    split
    · rfl
    · cases hfront : splitSlashes front with
      | nil => exact absurd hfront (splitSlashes_ne_nil front)
      | cons part parts => rfl

/-- Parts that are joined by slashes come apart again. -/
lemma splitSlashes_joinSlashes {parts : List (List Char)} (hne : parts ≠ [])
    (h : ∀ part ∈ parts, '/' ∉ part) : splitSlashes (joinSlashes parts) = parts := by
  induction parts with
  | nil => exact absurd rfl hne
  | cons part rest ih =>
    have hpart := h part List.mem_cons_self
    cases rest with
    | nil => exact splitSlashes_of_notMem hpart
    | cons next rest =>
      rw [joinSlashes, splitSlashes_append, splitSlashes_of_notMem hpart,
        ih (List.cons_ne_nil _ _) fun part hp => h part (List.mem_cons_of_mem _ hp)]
      · rfl
      · simp

/-- Parts that make up a path: no slash is in them, and a relative path does not begin with an empty
one. -/
structure ArePartsOf (absolute : Bool) (parts : List String) : Prop where
  noSlash : ∀ part ∈ parts, '/' ∉ part.toList
  first : absolute = false → parts.head? ≠ some ""

/-- The first parts of a path make up a path. -/
lemma ArePartsOf.initial {absolute : Bool} {parts parts' : List String}
    (h : ArePartsOf absolute parts) (hinitial : parts' <+: parts) :
    ArePartsOf absolute parts' where
  noSlash part hp := h.noSlash part (hinitial.subset hp)
  first habsolute := by
    cases parts' with
    | nil => exact nofun
    | cons part parts' =>
      obtain ⟨rest, rfl⟩ := hinitial
      exact h.first habsolute

/-- No slash is in a part of a path. -/
lemma slash_notMem_of_mem_parts {p : Path} {part : String} (h : part ∈ p.parts) :
    '/' ∉ part.toList := by
  have hmem : part ∈ (splitSlashes p.text.toList).map String.ofList := by
    unfold parts at h
    dsimp only at h
    split at h
    · exact List.mem_of_mem_tail h
    · exact h
  obtain ⟨cs, hcs, rfl⟩ := List.mem_map.mp hmem
  rw [String.toList_ofList]
  exact slash_notMem_of_mem_splitSlashes hcs

/-- The parts of a path make up a path. -/
lemma arePartsOf_parts {p : Path} (h : p.text ≠ "") : ArePartsOf p.isAbsolute p.parts where
  noSlash part hp := slash_notMem_of_mem_parts hp
  first habsolute := by
    rw [parts, habsolute]
    cases hcs : p.text.toList with
    | nil => exact absurd (String.toList_eq_nil_iff.mp hcs) h
    | cons c rest =>
      have hc : c ≠ '/' := by
        rintro rfl
        rw [isAbsolute, hcs] at habsolute
        simp at habsolute
      rw [splitSlashes, if_neg hc]
      cases splitSlashes rest <;> simp

/-- An absolute path begins with a slash. -/
lemma exists_toList_of_isAbsolute {p : Path} (h : p.isAbsolute = true) :
    ∃ rest, p.text.toList = '/' :: rest := by
  rw [isAbsolute, beq_iff_eq] at h
  exact List.head?_eq_some_iff.mp h

/-- A path made of parts begins where it should. -/
lemma isAbsolute_ofParts {absolute : Bool} {parts : List String} (h : ArePartsOf absolute parts) :
    (ofParts absolute parts).isAbsolute = absolute := by
  cases absolute with
  | true => simp [ofParts, isAbsolute]
  | false =>
    cases parts with
    | nil => rfl
    | cons part rest =>
      cases hcs : part.toList with
      | nil =>
        have hpart : part = "" := String.toList_eq_nil_iff.mp hcs
        exact absurd (congrArg some hpart) (h.first rfl)
      | cons c cs =>
        have hc : c ≠ '/' := by
          rintro rfl
          exact h.noSlash part List.mem_cons_self (hcs ▸ List.mem_cons_self)
        have hhead : (joinSlashes ((part :: rest).map String.toList)).head? = some c := by
          cases rest <;> simp [joinSlashes, hcs]
        rw [ofParts, isAbsolute, if_neg Bool.false_ne_true, String.toList_ofList, hhead]
        simpa using hc

/-- A path made of parts passes through those that are not empty. -/
lemma names_ofParts {absolute : Bool} {parts : List String} (h : ArePartsOf absolute parts) :
    (ofParts absolute parts).names = parts.filter (· ≠ "") := by
  have hbody : ((splitSlashes (joinSlashes (parts.map String.toList))).map String.ofList).filter
      (· ≠ "") = parts.filter (· ≠ "") := by
    cases parts with
    | nil => rfl
    | cons part rest =>
      rw [splitSlashes_joinSlashes (by simp)]
      · simp [Function.comp_def]
      · intro cs hcs
        obtain ⟨part, hpart, rfl⟩ := List.mem_map.mp hcs
        exact h.noSlash part hpart
  have habsolute := isAbsolute_ofParts h
  rw [names, Path.parts, habsolute, ← hbody, ofParts, String.toList_ofList]
  cases absolute with
  | true => simp [splitSlashes]
  | false => rfl

/-! ## Fillers -/

/-- Fillers add at most a `.` to the names of a path. -/
lemma eq_of_isFiller {absolute : Bool} {part : String} {before : List String}
    (h : isFiller absolute part before = true) : part = "" ∨ part = "." := by
  simp only [isFiller, Bool.or_eq_true, Bool.and_eq_true, beq_iff_eq] at h
  exact h.imp id And.left

/-- A part that is no filler is not empty. -/
lemma ne_of_isFiller_eq_false {absolute : Bool} {part : String} {before : List String}
    (h : isFiller absolute part before = false) : part ≠ "" := by
  rintro rfl
  simp [isFiller] at h

/-- Dropping fillers leaves the beginning of a path, and what it drops adds no name but `.`. -/
lemma exists_dropFillers (absolute : Bool) (reversed : List String) :
    ∃ fillers, reversed.reverse = (dropFillers absolute reversed).reverse ++ fillers ∧
      ∀ n ∈ fillers.filter (· ≠ ""), n = "." := by
  induction reversed with
  | nil => exact ⟨[], rfl, nofun⟩
  | cons part before ih =>
    rw [dropFillers]
    split
    · next h =>
      obtain ⟨fillers, hreverse, hdots⟩ := ih
      refine ⟨fillers ++ [part], by rw [List.reverse_cons, hreverse, List.append_assoc], ?_⟩
      intro n hn
      rw [List.filter_append] at hn
      rcases List.mem_append.mp hn with hn | hn
      · exact hdots n hn
      · obtain ⟨hmem, hne⟩ := List.mem_filter.mp hn
        obtain rfl := List.mem_singleton.mp hmem
        exact (eq_of_isFiller h).resolve_left (by simpa using hne)
    · exact ⟨[], by rw [List.append_nil], nofun⟩

/-! ## Ancestors -/

/-- A path lies in another if that passes through its names up to the last that is not a `.` added
behind it. -/
structure LiesIn (p q : Path) : Prop where
  absolute : q.isAbsolute = p.isAbsolute
  names : ∃ before last after, p.names = q.names ++ (before ++ last :: after) ∧
    (∀ n ∈ before, n = ".") ∧ ∀ n ∈ after, n = "."

/-- Each ancestor of a path lies in the next one. -/
lemma isChain_ancestorsOf {absolute : Bool} {reversed : List String}
    (h : ArePartsOf absolute reversed.reverse) {p : Path} (hp : p.isAbsolute = absolute)
    {after : List String}
    (hnames : p.names = (dropFillers absolute reversed).reverse.filter (· ≠ "") ++ after)
    (hafter : ∀ n ∈ after, n = ".") : (p :: ancestorsOf absolute reversed).IsChain LiesIn := by
  -- an ancestor takes the place of `p` when its part has gone, and it has no dots behind it
  induction reversed generalizing p after with
  | nil => exact .singleton p
  | cons part before ih =>
    have hinitial : before.reverse <+: (part :: before).reverse := by
      rw [List.reverse_cons]
      exact List.prefix_append _ _
    have hbefore := h.initial hinitial
    rw [ancestorsOf]
    split
    · next hfiller =>
      rw [dropFillers, if_pos hfiller] at hnames
      exact ih hbefore hp hnames hafter
    · next hname =>
      obtain ⟨fillers, hreverse, hdots⟩ := exists_dropFillers absolute before
      have hparent : ArePartsOf absolute (dropFillers absolute before).reverse :=
        hbefore.initial ⟨fillers, hreverse.symm⟩
      have hne := ne_of_isFiller_eq_false (Bool.eq_false_iff.mpr hname)
      refine .cons_cons ⟨?_, fillers.filter (· ≠ ""), part, after, ?_, hdots, hafter⟩ ?_
      · rw [isAbsolute_ofParts hparent, hp]
      · rw [hnames, dropFillers, if_neg hname, List.reverse_cons, hreverse, names_ofParts hparent]
        simp [hne]
      · have hnames' : (ofParts absolute (dropFillers absolute before).reverse).names =
            (dropFillers absolute before).reverse.filter (· ≠ "") ++ [] := by
          rw [names_ofParts hparent, List.append_nil]
        exact ih hbefore (isAbsolute_ofParts hparent) hnames' nofun

/-- A path lies in the first of its ancestors, and each ancestor in the next. -/
lemma isChain_ancestors (p : Path) : (p :: p.ancestors).IsChain LiesIn := by
  by_cases hp : p.text = ""
  · obtain ⟨text⟩ := p
    cases hp
    exact .singleton _
  · obtain ⟨fillers, hparts, hdots⟩ := exists_dropFillers p.isAbsolute p.parts.reverse
    rw [List.reverse_reverse] at hparts
    have h : ArePartsOf p.isAbsolute p.parts.reverse.reverse := by
      rw [List.reverse_reverse]
      exact arePartsOf_parts hp
    refine isChain_ancestorsOf h rfl ?_ hdots
    rw [← List.filter_append, ← hparts, names]

/-- A path without ancestors has no name but `.`. -/
lemma eq_of_mem_names {p : Path} (h : p.ancestors = []) {n : String} (hn : n ∈ p.names) :
    n = "." := by
  have hdots : ∀ reversed, ancestorsOf p.isAbsolute reversed = [] →
      ∀ n ∈ reversed, n ≠ "" → n = "." := by
    intro reversed
    induction reversed with
    | nil => exact fun _ => nofun
    | cons part before ih =>
      intro h n hn hne
      rw [ancestorsOf] at h
      split at h
      · next hfiller =>
        rcases List.mem_cons.mp hn with rfl | hn
        · exact (eq_of_isFiller hfiller).resolve_left hne
        · exact ih h n hn hne
      · cases h
  obtain ⟨hmem, hne⟩ := List.mem_filter.mp hn
  exact hdots _ h n (List.mem_reverse.mpr hmem) (by simpa using hne)

end WaveAccess.Path
