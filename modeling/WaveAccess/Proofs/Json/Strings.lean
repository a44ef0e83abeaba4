import Mathlib.Tactic.SplitIfs
import WaveAccess.Proofs.Json.Numbers

/-!
# Strings in JSON are read as they are written

Every piece of a string is written as one element of a literal, and no element is the second half of
a surrogate pair. So no two elements are joined when the literal is read, and each of them stands
for the piece that it was written for.
-/

namespace WaveAccess.Json

/-! ## Elements -/

/-- The element that a piece is written as. -/
def elementOf : Piece → Token.Element
  | none => .code 0xd800
  | some c =>
    if c.toNat < 0x20 ∧ c.toNat ∉ [8, 9, 10, 12, 13] then .code c.toNat else .piece (some c)

/-- The piece that an element stands for if it is not joined with another. -/
def pieceOf : Token.Element → Piece
  | .piece p => p
  | .code n => Token.pieceOfCode n

/-- A piece is read back from the element that it is written as. -/
lemma pieceOf_elementOf (p : Piece) : pieceOf (elementOf p) = p := by
  cases p with
  | none => rfl
  | some c =>
    unfold elementOf
    dsimp only
    split
    · next h =>
      have hhigh : Token.isHighSurrogate c.toNat = false := by simp [Token.isHighSurrogate]; omega
      have hlow : Token.isLowSurrogate c.toNat = false := by simp [Token.isLowSurrogate]; omega
      rw [pieceOf, Token.pieceOfCode, hhigh, hlow, Bool.or_false, if_neg Bool.false_ne_true,
        Char.ofNat_toNat]
    · rfl

/-- An element does not join with one before it. -/
def StandsAlone (e : Token.Element) : Prop :=
  ∀ n, e = .code n → Token.isLowSurrogate n = false

/-- What a piece is written as does not join with what comes before. -/
lemma standsAlone_elementOf (p : Piece) : StandsAlone (elementOf p) := by
  intro n h
  cases p with
  | none => cases h; rfl
  | some c =>
    unfold elementOf at h
    dsimp only at h
    split at h
    · next hc => cases h; simp [Token.isLowSurrogate]; omega
    · cases h

/-- Elements that stand alone are joined to their pieces. -/
lemma joinReversed_eq {es : List Token.Element} (h : ∀ e ∈ es, StandsAlone e) (after : List Piece) :
    Token.joinReversed es after = (es.map pieceOf).reverse ++ after := by
  fun_induction Token.joinReversed es after with
  | case1 => rfl
  | case2 p before after ih =>
    rw [ih fun e he => h e (List.mem_cons_of_mem _ he)]
    simp [pieceOf]
  | case3 => rfl
  | case4 n p before after ih =>
    rw [ih fun e he => h e (List.mem_cons_of_mem _ (List.mem_cons_of_mem _ he))]
    simp [pieceOf]
  | case5 low high before after hpair ih =>
    -- only the second half of a pair is joined with what is before it
    have hlow := h (.code low) List.mem_cons_self low rfl
    simp [hlow] at hpair
  | case6 low high before after _ ih =>
    rw [ih fun e he => h e (List.mem_cons_of_mem _ he)]
    simp [pieceOf]

/-! ## Literals -/

/-- A digit of a `\u` escape but the last is taken in. -/
lemma scanElements?_digit {count : Nat} (h : count ≠ 3) (elements : List Token.Element)
    (value m : Nat) (rest : List Piece) :
    Token.scanElements? elements (.hex count value) (some (Text.hexDigit (m % 16)) :: rest) =
      Token.scanElements? elements (.hex (count + 1) (value * 16 + m % 16)) rest := by
  simp [Token.scanElements?, hexDigit?_hexDigit (Nat.mod_lt m (by decide : 0 < 16)), h]

/-- The last digit of a `\u` escape completes it. -/
lemma scanElements?_lastDigit (elements : List Token.Element) (value m : Nat)
    (rest : List Piece) :
    Token.scanElements? elements (.hex 3 value) (some (Text.hexDigit (m % 16)) :: rest) =
      Token.scanElements? (.code (value * 16 + m % 16) :: elements) .plain rest := by
  simp [Token.scanElements?, hexDigit?_hexDigit (Nat.mod_lt m (by decide : 0 < 16))]

/-- A code unit in hexadecimal is read as an element. -/
lemma scanElements?_escapeCode {n : Nat} (hn : n < 0x10000) (elements : List Token.Element)
    (rest : List Piece) :
    Token.scanElements? elements .plain ((escapeCode n).map some ++ rest) =
      Token.scanElements? (.code n :: elements) .plain rest := by
  have hvalue : (((0 * 16 + n / 4096 % 16) * 16 + n / 256 % 16) * 16 + n / 16 % 16) * 16 + n % 16 =
      n := by omega
  simp only [escapeCode, List.map_cons, List.map_nil, List.cons_append, List.nil_append]
  rw [Token.scanElements?, if_neg (by decide), if_pos rfl, Token.scanElements?, if_pos rfl]
  rw [scanElements?_digit (by decide), scanElements?_digit (by decide),
    scanElements?_digit (by decide), scanElements?_lastDigit, hvalue]

/-- A short escape is read as an element. -/
lemma scanElements?_escape {letter c : Char} (hu : letter ≠ 'u')
    (h : Token.unescape? letter = some c) (elements : List Token.Element) (rest : List Piece) :
    Token.scanElements? elements .plain (some '\\' :: some letter :: rest) =
      Token.scanElements? (.piece (some c) :: elements) .plain rest := by
  simp [Token.scanElements?, hu, h]

/-- A piece is read as the element that it is written as. -/
lemma scanElements?_escapePiece (p : Piece) (elements : List Token.Element) (rest : List Piece) :
    Token.scanElements? elements .plain ((escapePiece p).map some ++ rest) =
      Token.scanElements? (elementOf p :: elements) .plain rest := by
  cases p with
  | none => exact scanElements?_escapeCode (by decide) elements rest
  | some c =>
    rw [escapePiece, escapeChar]
    split_ifs with hquote hbackslash hfeed hreturn htab h8 h12 hcontrol
    · subst hquote; exact scanElements?_escape (by decide) rfl elements rest
    · subst hbackslash; exact scanElements?_escape (by decide) rfl elements rest
    · subst hfeed; exact scanElements?_escape (by decide) rfl elements rest
    · subst hreturn; exact scanElements?_escape (by decide) rfl elements rest
    · subst htab; exact scanElements?_escape (by decide) rfl elements rest
    · obtain rfl : c = Char.ofNat 8 := by rw [← h8, Char.ofNat_toNat]
      exact scanElements?_escape (by decide) rfl elements rest
    · obtain rfl : c = Char.ofNat 12 := by rw [← h12, Char.ofNat_toNat]
      exact scanElements?_escape (by decide) rfl elements rest
    · -- what is left of the control characters has no letter of its own
      have hcode : elementOf (some c) = .code c.toNat := by
        have hplain : c.toNat ∉ [8, 9, 10, 12, 13] := by
          have hne {d : Char} (h : c ≠ d) : c.toNat ≠ d.toNat :=
            fun heq => h (Char.toNat_inj.mp heq)
          simpa using ⟨h8, hne htab, hne hfeed, h12, hne hreturn⟩
        exact if_pos ⟨hcontrol, hplain⟩
      rw [hcode]
      exact scanElements?_escapeCode (by omega) elements rest
    · have hpiece : elementOf (some c) = .piece (some c) := if_neg fun h => hcontrol h.1
      rw [hpiece, List.map_singleton, List.singleton_append, Token.scanElements?,
        if_neg (by simpa using hquote), if_neg (by simpa using hbackslash),
        if_neg (by simpa using hcontrol)]

/-- Pieces that are written are read as their elements, up to the closing quote. -/
lemma scanElements?_pieces (pieces : List Piece) (elements : List Token.Element)
    (rest : List Piece) :
    Token.scanElements? elements .plain
        ((pieces.flatMap escapePiece).map some ++ some '"' :: rest) =
      some ((pieces.map elementOf).reverse ++ elements, rest) := by
  induction pieces generalizing elements with
  | nil => simp [Token.scanElements?]
  | cons p pieces ih =>
    rw [List.flatMap_cons, List.map_append, List.append_assoc, scanElements?_escapePiece, ih]
    simp

/-- A string is read as it is written. -/
lemma scanString?_pieces (pieces : List Piece) (rest : List Piece) :
    Token.scanString? ((pieces.flatMap escapePiece).map some ++ some '"' :: rest) =
      some (.string pieces, rest) := by
  have halone : ∀ e ∈ (pieces.map elementOf).reverse, StandsAlone e := by
    intro e he
    obtain ⟨p, -, rfl⟩ := List.mem_map.mp (List.mem_reverse.mp he)
    exact standsAlone_elementOf p
  rw [Token.scanString?, scanElements?_pieces, Option.map_some, List.append_nil]
  dsimp only
  rw [joinReversed_eq halone]
  simp [pieceOf_elementOf, Function.comp_def]

end WaveAccess.Json
