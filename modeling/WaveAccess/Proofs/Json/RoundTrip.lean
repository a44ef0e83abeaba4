import WaveAccess.Json.Reader
import WaveAccess.Proofs.Json.Tokens

/-!
# Written values are read back

The grammar takes the tokens of a value to the value, inside whatever arrays and objects are open. A
value that is written and read again is therefore the value that it was, in either layout, with or
without white space behind it, and whether it is read as text or from the bytes of a file.
-/

namespace WaveAccess.Json

/-! ## The grammar -/

/-- A value in an array is its next item. -/
lemma complete_array (j : Json) (items : List Json) (frames : List Frame) :
    Reader.complete j (.array items :: frames) = .afterItem (j :: items) frames :=
  rfl

/-- A value in an object is the value of its next member. -/
lemma complete_object (j : Json) (members : List (List Piece × Json)) (name : List Piece)
    (frames : List Frame) :
    Reader.complete j (.object members name :: frames) =
      .afterMember ((name, j) :: members) frames :=
  rfl

/-- A value starts with a token, which is not the end of an array. -/
lemma tokens_eq_cons (j : Json) : ∃ t ts, tokens j = t :: ts ∧ t ≠ .closeArray := by
  cases j with
  | null => exact ⟨_, _, rfl, nofun⟩
  | bool => exact ⟨_, _, rfl, nofun⟩
  | number => exact ⟨_, _, rfl, nofun⟩
  | string => exact ⟨_, _, rfl, nofun⟩
  | array items => cases items <;> exact ⟨_, _, rfl, nofun⟩
  | object members => cases members <;> exact ⟨_, _, rfl, nofun⟩

/-- The first item of an array is read as any other. -/
lemma foldlM_itemOrEnd (j : Json) (frames : List Frame) :
    (tokens j).foldlM Reader.step? (.itemOrEnd frames) =
      (tokens j).foldlM Reader.step? (.value (.array [] :: frames)) := by
  obtain ⟨t, ts, hts, ht⟩ := tokens_eq_cons j
  rw [hts, List.foldlM_cons, List.foldlM_cons]
  -- the two states differ at a closing bracket only
  cases t <;> first | rfl | contradiction

mutual

/-- The tokens of a value lead to the value. -/
lemma foldlM_tokens (j : Json) (frames : List Frame) :
    (tokens j).foldlM Reader.step? (.value frames) = some (Reader.complete j frames) := by
  cases j with
  | null => rfl
  | bool => rfl
  | number => rfl
  | string => rfl
  | array items =>
    cases items with
    | nil => rfl
    | cons item items =>
      rw [tokens, List.foldlM_append, List.foldlM_append, List.foldlM_cons]
      simp only [Reader.step?, Reader.beginValue?, Option.bind_eq_bind, Option.bind_some,
        foldlM_itemOrEnd, foldlM_tokens item, complete_array, foldlM_itemTokens items]
      simp [Reader.step?]
  | object members =>
    cases members with
    | nil => rfl
    | cons member members =>
      obtain ⟨name, value⟩ := member
      rw [tokens, List.foldlM_append, List.foldlM_append, List.foldlM_append]
      simp only [List.foldlM_cons, List.foldlM_nil, Reader.step?, Reader.beginValue?,
        Option.bind_eq_bind, Option.bind_some, Option.pure_def, foldlM_tokens value,
        complete_object, foldlM_memberTokens members]
      simp

/-- The tokens of items are read as these items, behind those before. -/
lemma foldlM_itemTokens (items before : List Json) (frames : List Frame) :
    (itemTokens items).foldlM Reader.step? (.afterItem before frames) =
      some (.afterItem (items.reverse ++ before) frames) := by
  cases items with
  | nil => rfl
  | cons item items =>
    rw [itemTokens, List.foldlM_append, List.foldlM_cons]
    simp only [Reader.step?, Option.bind_eq_bind, Option.bind_some, foldlM_tokens item,
      complete_array, foldlM_itemTokens items]
    simp

/-- The tokens of members are read as these members, behind those before. -/
lemma foldlM_memberTokens (members before : List (List Piece × Json)) (frames : List Frame) :
    (memberTokens members).foldlM Reader.step? (.afterMember before frames) =
      some (.afterMember (members.reverse ++ before) frames) := by
  cases members with
  | nil => rfl
  | cons member members =>
    obtain ⟨name, value⟩ := member
    rw [memberTokens, List.foldlM_append, List.foldlM_append]
    simp only [List.foldlM_cons, List.foldlM_nil, Reader.step?, Option.bind_eq_bind,
      Option.bind_some, Option.pure_def, foldlM_tokens value, complete_object,
      foldlM_memberTokens members]
    simp

end

/-- The tokens of a value spell the value. -/
lemma ofTokens?_tokens (j : Json) : ofTokens? (tokens j) = some j := by
  rw [ofTokens?, foldlM_tokens]
  rfl

/-! ## Values -/

/-- A written value is read back, whatever white space follows it. -/
lemma ofPieces?_render (layout : Layout) (j : Json) (blanks : List Char)
    (hblanks : ∀ c ∈ blanks, Token.isSpace c = true) :
    ofPieces? ((render layout j ++ blanks).map some) = some j := by
  have hend : EndsNumber (blanks.map some ++ []) := by
    cases blanks with
    | nil => exact endsNumber_nil
    | cons c blanks =>
      have hc := hblanks c List.mem_cons_self
      refine endsNumber_cons ?_
      simp only [Token.isSpace, Bool.or_eq_true, decide_eq_true_eq] at hc
      rcases hc with ((rfl | rfl) | rfl) | rfl <;> decide
  have hcuts := (cuts_render layout j hend).append (Cuts.space hblanks)
  rw [List.append_nil] at hcuts
  rw [ofPieces?, hcuts.scan?_eq, Option.bind_some, ofTokens?_tokens]

/-- The bytes of a text are decoded to its pieces. -/
lemma decode_toUTF8 (text : String) : decode text.toUTF8 = piecesOf text := by
  have h : String.fromUTF8? text.toUTF8 = some text := dif_pos text.isValidUTF8
  rw [decode, h]

/-- A value with one line per item is read back, also if a line feed follows it. -/
lemma ofText?_pretty (j : Json) : ofText? (j.pretty ++ "\n") = some j := by
  rw [ofText?, piecesOf, String.toList_append, pretty, String.toList_ofList]
  apply ofPieces?_render (.indented 0) j ['\n']
  intro c hc
  rw [List.mem_singleton.mp hc]
  rfl

/-- The bytes of a text are read as the text. -/
lemma ofBytes?_toUTF8 (text : String) : ofBytes? text.toUTF8 = ofText? text := by
  rw [ofBytes?, decode_toUTF8, ofText?]

end WaveAccess.Json
