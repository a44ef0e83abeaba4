import Mathlib.Tactic.IntervalCases
import Mathlib.Tactic.Lemma
import WaveAccess.Json.Printer
import WaveAccess.Json.Token

/-!
# Numbers in JSON are read as they are written

A numeral consists of its digits, the most significant first and none of them an idle zero. A reader
that takes all digits there are finds the number again, provided that what follows does not go on
with it.
-/

namespace WaveAccess.Json

/-! ## Numerals -/

/-- The values of the digits of a decimal numeral. -/
def digitsOf (n : Nat) : List Nat :=
  if n < 10 then [n] else digitsOf (n / 10) ++ [n % 10]

/-- A decimal numeral spells its digits. -/
lemma decimal_eq (n : Nat) : Text.decimal n = (digitsOf n).map Text.digitChar := by
  fun_induction digitsOf n with
  | case1 n h => rw [Text.decimal, if_pos h]; rfl
  | case2 n h ih => rw [Text.decimal, if_neg h, ih, List.map_append]; rfl

/-- Digits are below ten. -/
lemma lt_of_mem_digitsOf {n d : Nat} (h : d ∈ digitsOf n) : d < 10 := by
  fun_induction digitsOf n with
  | case1 n hn => rw [List.mem_singleton.mp h]; exact hn
  | case2 n hn ih =>
    rcases List.mem_append.mp h with h | h
    · exact ih h
    · rw [List.mem_singleton.mp h]
      exact Nat.mod_lt n (by decide)

/-- A numeral has a first digit, which is zero only for zero. -/
lemma digitsOf_eq_cons (n : Nat) : ∃ d ds, digitsOf n = d :: ds ∧ (0 < n → d ≠ 0) := by
  fun_induction digitsOf n with
  | case1 n h => exact ⟨n, [], rfl, Nat.ne_of_gt⟩
  | case2 n h ih =>
    obtain ⟨d, ds, hds, hd⟩ := ih
    exact ⟨d, ds ++ [n % 10], by rw [hds, List.cons_append], fun _ => hd (by omega)⟩

/-- Digits are the whole part of a number: none of them is an idle zero. -/
lemma isWholePart_digitsOf (n : Nat) : Token.isWholePart (digitsOf n) = true := by
  rw [digitsOf]
  split
  · rfl
  · obtain ⟨d, ds, hds, hd⟩ := digitsOf_eq_cons (n / 10)
    rw [hds]
    cases ds <;> simpa [Token.isWholePart] using hd (by omega)

/-- The digits of a number have its value. -/
lemma valueOfDigits_digitsOf (n : Nat) : Token.valueOfDigits (digitsOf n) = n := by
  fun_induction digitsOf n with
  | case1 n h => simp [Token.valueOfDigits]
  | case2 n h ih =>
    rw [Token.valueOfDigits, List.foldl_append, ← Token.valueOfDigits, ih]
    simp only [List.foldl_cons, List.foldl_nil]
    omega

/-- A decimal digit is read as its value. -/
lemma digit?_digitChar {d : Nat} (h : d < 10) : Token.digit? (Text.digitChar d) = some d := by
  revert d
  decide

/-- A hexadecimal digit is read as its value. -/
lemma hexDigit?_hexDigit {d : Nat} (h : d < 16) : Token.hexDigit? (Text.hexDigit d) = some d := by
  revert d
  decide

/-! ## What follows a number -/

/-- A text does not go on with a number that stands before it. -/
def EndsNumber (rest : List Piece) : Prop :=
  ∀ c, rest.head? = some (some c) → Token.digit? c = none ∧ c ≠ '.' ∧ c ≠ 'e' ∧ c ≠ 'E'

/-- A number ends where the text ends. -/
lemma endsNumber_nil : EndsNumber [] :=
  nofun

/-- A number ends before a character that is no part of one. -/
lemma endsNumber_cons {c : Char} {rest : List Piece}
    (h : Token.digit? c = none ∧ c ≠ '.' ∧ c ≠ 'e' ∧ c ≠ 'E') : EndsNumber (some c :: rest) := by
  intro c' hc
  cases hc
  exact h

/-- Digits are read up to the first character that is none. -/
lemma spanDigits_append {ds : List Nat} (hds : ∀ d ∈ ds, d < 10) {rest : List Piece}
    (hrest : ∀ c, rest.head? = some (some c) → Token.digit? c = none) :
    Token.spanDigits ((ds.map Text.digitChar).map some ++ rest) = (ds, rest) := by
  induction ds with
  | nil =>
    cases rest with
    | nil => rfl
    | cons p rest =>
      cases p with
      | none => rfl
      | some c => simp [Token.spanDigits, hrest c rfl]
  | cons d ds ih =>
    have hd := digit?_digitChar (hds d List.mem_cons_self)
    have hrest := ih fun d hd => hds d (List.mem_cons_of_mem _ hd)
    rw [List.map_cons, List.map_cons, List.cons_append, Token.spanDigits, Option.bind_some, hd]
    simp only [hrest]

/-- A numeral is read as its digits. -/
lemma spanDigits_decimal (n : Nat) {rest : List Piece}
    (hrest : ∀ c, rest.head? = some (some c) → Token.digit? c = none) :
    Token.spanDigits ((Text.decimal n).map some ++ rest) = (digitsOf n, rest) := by
  rw [decimal_eq]
  exact spanDigits_append (fun _ => lt_of_mem_digitsOf) hrest

/-- A sign is read if there is one. -/
lemma spanSign_decimal (negative plusAllowed : Bool) (n : Nat) (rest : List Piece) :
    Token.spanSign plusAllowed
        ((renderSign negative).map some ++ ((Text.decimal n).map some ++ rest)) =
      (negative, (Text.decimal n).map some ++ rest) := by
  cases negative with
  | true => rfl
  | false =>
    obtain ⟨d, ds, hds, -⟩ := digitsOf_eq_cons n
    have hd : d < 10 := lt_of_mem_digitsOf (hds ▸ List.mem_cons_self)
    rw [decimal_eq, hds]
    -- no digit is a sign
    interval_cases d <;> rfl

/-! ## Numbers -/

/-- No fraction is found where a number ends, or where its exponent follows. -/
lemma scanFraction?_eq {rest : List Piece} (h : ∀ c, rest.head? = some (some c) → c ≠ '.') :
    Token.scanFraction? rest = some (none, rest) := by
  unfold Token.scanFraction?
  split
  · exact absurd rfl (h '.' rfl)
  · rfl

/-- There is no exponent where a number ends. -/
lemma scanExponent?_of_endsNumber {rest : List Piece} (h : EndsNumber rest) :
    Token.scanExponent? rest = some (none, rest) := by
  unfold Token.scanExponent?
  split
  · next c rest =>
    obtain ⟨-, -, he, hE⟩ := h c rfl
    rw [if_neg (not_or.mpr ⟨he, hE⟩)]
  · rfl

/-- An exponent is read with its sign. -/
lemma scanExponent?_exponent (e : Int) {rest : List Piece} (h : EndsNumber rest) :
    Token.scanExponent? (some 'e' :: ((renderSign (e < 0)).map some ++
        ((Text.decimal e.natAbs).map some ++ rest))) = some (some e, rest) := by
  rw [Token.scanExponent?, if_pos (Or.inl rfl), spanSign_decimal]
  simp only [spanDigits_decimal _ fun c hc => (h c hc).1]
  obtain ⟨d, ds, hds, -⟩ := digitsOf_eq_cons e.natAbs
  have hvalue := valueOfDigits_digitsOf e.natAbs
  rw [hds] at hvalue ⊢
  simp only [hvalue]
  by_cases he : e < 0
  · simp only [he, decide_true, if_true, Option.some.injEq, Prod.mk.injEq, and_true]
    omega
  · simp only [he, decide_false, Bool.false_eq_true, if_false, Option.some.injEq, Prod.mk.injEq,
      and_true]
    omega

/-- A number is read as it is written. -/
lemma scanNumber?_renderNumber (n : Number) {rest : List Piece} (h : EndsNumber rest) :
    Token.scanNumber? ((renderNumber n).map some ++ rest) = some (.number n, rest) := by
  cases n with
  | integer negative n =>
    rw [renderNumber, List.map_append, List.append_assoc, Token.scanNumber?, spanSign_decimal]
    simp [spanDigits_decimal _ fun c hc => (h c hc).1, isWholePart_digitsOf,
      scanFraction?_eq fun c hc => (h c hc).2.1, scanExponent?_of_endsNumber h,
      valueOfDigits_digitsOf]
  | decimal negative digits exponent =>
    -- the exponent ends both the digits and the place where a fraction could stand
    have hexponent : ∀ after : List Piece, ∀ c, (some 'e' :: after).head? = some (some c) →
        Token.digit? c = none ∧ c ≠ '.' := by
      rintro after c hc
      cases hc
      decide
    rw [renderNumber]
    simp only [List.map_append, List.append_assoc, List.map_cons, List.cons_append]
    rw [Token.scanNumber?, spanSign_decimal]
    simp [spanDigits_decimal _ fun c hc => (hexponent _ c hc).1, isWholePart_digitsOf,
      scanFraction?_eq fun c hc => (hexponent _ c hc).2, scanExponent?_exponent exponent h,
      valueOfDigits_digitsOf]

end WaveAccess.Json
