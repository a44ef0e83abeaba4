import WaveAccess.Proofs.Json.Strings

/-!
# Written values are cut into their tokens

A written value is a sequence of tokens with white space between some of them. A reader that cuts
the text finds just these tokens, in either layout and whatever follows the value, as long as that
does not go on with a number.
-/

namespace WaveAccess.Json

/-! ## The tokens of a value -/

mutual

/-- The tokens that spell a value. -/
def tokens : Json → List Token
  | .null => [.null]
  | .bool b => [.bool b]
  | .number n => [.number n]
  | .string pieces => [.string pieces]
  | .array [] => [.openArray, .closeArray]
  | .array (item :: items) => .openArray :: tokens item ++ itemTokens items ++ [.closeArray]
  | .object [] => [.openObject, .closeObject]
  | .object ((name, value) :: members) =>
    [.openObject, .string name, .colon] ++ tokens value ++ memberTokens members ++ [.closeObject]

/-- The tokens that spell the items of an array after the first. -/
def itemTokens : List Json → List Token
  | [] => []
  | item :: items => .comma :: tokens item ++ itemTokens items

/-- The tokens that spell the members of an object after the first. -/
def memberTokens : List (List Piece × Json) → List Token
  | [] => []
  | (name, value) :: members =>
    [.comma, .string name, .colon] ++ tokens value ++ memberTokens members

end

/-! ## Cutting -/

/-- In front of `rest`, a text is cut into tokens by no more steps than it has characters. -/
def Cuts (text : List Char) (tokens : List Token) (rest : List Piece) : Prop :=
  ∃ steps ≤ text.length, ∀ fuel before,
    Token.scanFrom? (fuel + steps) before (text.map some ++ rest) =
      Token.scanFrom? fuel (tokens.reverse ++ before) rest

/-- A number starts with a sign or a digit. -/
lemma renderNumber_eq_cons (n : Number) :
    ∃ c text, renderNumber n = c :: text ∧ (c = '-' ∨ ∃ d < 10, c = Text.digitChar d) := by
  have hdecimal (n : Nat) : ∃ d < 10, ∃ text, Text.decimal n = Text.digitChar d :: text := by
    obtain ⟨d, ds, hds, -⟩ := digitsOf_eq_cons n
    refine ⟨d, lt_of_mem_digitsOf (hds ▸ List.mem_cons_self), ds.map Text.digitChar, ?_⟩
    rw [decimal_eq, hds, List.map_cons]
  cases n with
  | integer negative n =>
    obtain ⟨d, hd, text, htext⟩ := hdecimal n
    cases negative with
    | true => exact ⟨_, _, rfl, .inl rfl⟩
    | false => exact ⟨_, _, by rw [renderNumber, htext]; rfl, .inr ⟨d, hd, rfl⟩⟩
  | decimal negative digits exponent =>
    obtain ⟨d, hd, text, htext⟩ := hdecimal digits
    cases negative with
    | true => exact ⟨_, _, rfl, .inl rfl⟩
    | false => exact ⟨_, _, by rw [renderNumber, htext]; rfl, .inr ⟨d, hd, rfl⟩⟩

namespace Cuts

variable {text text' : List Char} {ts ts' : List Token} {rest : List Piece}

/-- Texts that follow each other are cut one after the other. -/
lemma append (h : Cuts text ts (text'.map some ++ rest)) (h' : Cuts text' ts' rest) :
    Cuts (text ++ text') (ts ++ ts') rest := by
  obtain ⟨steps, hsteps, hscan⟩ := h
  obtain ⟨steps', hsteps', hscan'⟩ := h'
  refine ⟨steps' + steps, by rw [List.length_append]; omega, ?_⟩
  intro fuel before
  rw [List.map_append, List.append_assoc, ← Nat.add_assoc, hscan, hscan', List.reverse_append,
    List.append_assoc]

/-- A token is cut off if it is the next one. -/
lemma token {c : Char} {t : Token} (hspace : Token.isSpace c = false)
    (h : Token.next? c (text.map some ++ rest) = some (t, rest)) : Cuts (c :: text) [t] rest := by
  refine ⟨1, by simp, ?_⟩
  intro fuel before
  simp [Token.scanFrom?, hspace, h]

/-- Spaces are cut off without a token. -/
lemma space (h : ∀ c ∈ text, Token.isSpace c = true) : Cuts text [] rest := by
  refine ⟨text.length, le_rfl, ?_⟩
  intro fuel before
  induction text with
  | nil => rfl
  | cons c text ih =>
    rw [List.map_cons, List.cons_append, List.length_cons, ← Nat.add_assoc, Token.scanFrom?,
      if_pos (h c List.mem_cons_self), ih fun c hc => h c (List.mem_cons_of_mem _ hc)]

/-- A line break is no token. -/
lemma lineBreak (layout : Layout) (h : Cuts text ts (layout.lineBreak.map some ++ rest)) :
    Cuts (text ++ layout.lineBreak) ts rest := by
  have hbreak : ∀ c ∈ layout.lineBreak, Token.isSpace c = true := by
    cases layout with
    | compact => exact nofun
    | indented depth =>
      intro c hc
      rcases List.mem_cons.mp hc with rfl | hc
      · rfl
      · rw [List.eq_of_mem_replicate hc]
        rfl
  have hall := h.append (space hbreak)
  rw [List.append_nil] at hall
  exact hall

/-- The colon after a name is cut off with the blank that may follow it. -/
lemma colon (layout : Layout) : Cuts layout.colon [.colon] rest := by
  have hcolon {rest} : Cuts [':'] [.colon] rest := token rfl rfl
  cases layout with
  | compact => exact hcolon
  | indented depth =>
    have hblank : Cuts [' '] [] rest := by
      apply space
      intro c hc
      rw [List.mem_singleton.mp hc]
      rfl
    exact hcolon.append hblank

/-- A string is cut off as one token. -/
lemma string (pieces : List Piece) : Cuts (renderString pieces) [.string pieces] rest := by
  have hnext : Token.next? '"' ((pieces.flatMap escapePiece ++ ['"']).map some ++ rest) =
      some (.string pieces, rest) := by
    rw [List.map_append, List.append_assoc]
    exact scanString?_pieces pieces rest
  exact token rfl hnext

/-- A number is one token if what follows does not go on with it. -/
lemma number (n : Number) (h : EndsNumber rest) : Cuts (renderNumber n) [.number n] rest := by
  have hscan := scanNumber?_renderNumber n h
  obtain ⟨c, text, htext, hc⟩ := renderNumber_eq_cons n
  rw [htext] at hscan ⊢
  rcases hc with rfl | ⟨d, hd, rfl⟩
  · exact token rfl hscan
  · refine token ?_ (Eq.trans ?_ hscan)
    · interval_cases d <;> rfl
    · interval_cases d <;> rfl

end Cuts

/-! ## Values -/

/-- A number ends before the end of an array or object, on whichever line that is. -/
lemma endsNumber_close (layout : Layout) {c : Char} (hc : c = ']' ∨ c = '\x7d')
    (rest : List Piece) : EndsNumber (layout.lineBreak.map some ++ ([c].map some ++ rest)) := by
  cases layout with
  | compact => rcases hc with rfl | rfl <;> exact endsNumber_cons (by decide)
  | indented depth => exact endsNumber_cons (by decide)

/-- A further item ends a number, and so does what follows if there is none. -/
lemma endsNumber_items (layout : Layout) (items : List Json) {rest : List Piece}
    (h : EndsNumber rest) : EndsNumber ((renderItems layout items).map some ++ rest) := by
  cases items with
  | nil => exact h
  | cons item items => exact endsNumber_cons (by decide)

/-- A further member ends a number, and so does what follows if there is none. -/
lemma endsNumber_members (layout : Layout) (members : List (List Piece × Json))
    {rest : List Piece} (h : EndsNumber rest) :
    EndsNumber ((renderMembers layout members).map some ++ rest) := by
  cases members with
  | nil => exact h
  | cons member members => exact endsNumber_cons (by decide)

mutual

/-- A written value is cut into its tokens. -/
lemma cuts_render (layout : Layout) (j : Json) {rest : List Piece} (h : EndsNumber rest) :
    Cuts (render layout j) (tokens j) rest := by
  cases j with
  | null => exact .token rfl rfl
  | bool b => cases b <;> exact .token rfl rfl
  | number n => exact .number n h
  | string pieces => exact .string pieces
  | array items =>
    have hopen {rest} : Cuts ['['] [.openArray] rest := .token rfl rfl
    have hclose : Cuts [']'] [.closeArray] rest := .token rfl rfl
    cases items with
    | nil => exact hopen.append hclose
    | cons item items =>
      have hend := endsNumber_close layout (Or.inl rfl) rest
      have hitem := cuts_render layout.deeper item (endsNumber_items layout.deeper items hend)
      have hitems := cuts_renderItems layout.deeper items hend
      exact (((hopen.lineBreak layout.deeper).append hitem).append hitems).lineBreak layout
        |>.append hclose
  | object members =>
    have hopen {rest} : Cuts ['\x7b'] [.openObject] rest := .token rfl rfl
    have hclose : Cuts ['\x7d'] [.closeObject] rest := .token rfl rfl
    cases members with
    | nil => exact hopen.append hclose
    | cons member members =>
      obtain ⟨name, value⟩ := member
      have hend := endsNumber_close layout (Or.inr rfl) rest
      have hvalue := cuts_render layout.deeper value (endsNumber_members layout.deeper members hend)
      have hmembers := cuts_renderMembers layout.deeper members hend
      have hname {rest} : Cuts _ [.openObject, .string name, .colon] rest :=
        ((hopen.lineBreak layout.deeper).append (.string name)).append (.colon layout)
      exact ((hname.append hvalue).append hmembers).lineBreak layout |>.append hclose

/-- Written items are cut into their tokens. -/
lemma cuts_renderItems (layout : Layout) (items : List Json) {rest : List Piece}
    (h : EndsNumber rest) : Cuts (renderItems layout items) (itemTokens items) rest := by
  cases items with
  | nil => exact .space nofun
  | cons item items =>
    have hcomma {rest} : Cuts [','] [.comma] rest := .token rfl rfl
    have hitem := cuts_render layout item (endsNumber_items layout items h)
    exact ((hcomma.lineBreak layout).append hitem).append (cuts_renderItems layout items h)

/-- Written members are cut into their tokens. -/
lemma cuts_renderMembers (layout : Layout) (members : List (List Piece × Json))
    {rest : List Piece} (h : EndsNumber rest) :
    Cuts (renderMembers layout members) (memberTokens members) rest := by
  cases members with
  | nil => exact .space nofun
  | cons member members =>
    obtain ⟨name, value⟩ := member
    have hcomma {rest} : Cuts [','] [.comma] rest := .token rfl rfl
    have hname {rest} : Cuts _ [.comma, .string name, .colon] rest :=
      ((hcomma.lineBreak layout).append (.string name)).append (.colon layout)
    have hvalue := cuts_render layout value (endsNumber_members layout members h)
    exact (hname.append hvalue).append (cuts_renderMembers layout members h)

end

/-- A text of tokens is scanned into them. -/
lemma Cuts.scan?_eq {text : List Char} {ts : List Token} (h : Cuts text ts []) :
    Token.scan? (text.map some) = some ts := by
  obtain ⟨steps, hsteps, hscan⟩ := h
  have hfuel : (text.map some).length = text.length - steps + steps := by
    rw [List.length_map, Nat.sub_add_cancel hsteps]
  rw [Token.scan?, hfuel, ← List.append_nil (text.map some), hscan]
  simp [Token.scanFrom?]

end WaveAccess.Json
