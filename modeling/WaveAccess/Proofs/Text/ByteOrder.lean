import Mathlib.Data.List.Lex
import Mathlib.Data.String.Basic
import Mathlib.Tactic.Lemma

/-!
# Texts in the order of their bytes

Texts are compared character by character. That is the order of their bytes in UTF-8: a character
of more bytes begins with a greater one, and of two characters with as many bytes the later one is
greater at the first byte in which they differ.
-/

namespace WaveAccess

/-- The bytes of a text in UTF-8. -/
def utf8Bytes (text : String) : List UInt8 :=
  text.toUTF8.data.toList

/-- The bytes of a text are those of its characters. -/
lemma utf8Bytes_eq (text : String) :
    utf8Bytes text = text.toList.flatMap String.utf8EncodeChar := by
  rw [utf8Bytes, String.toUTF8_eq_toByteArray, ← String.utf8Encode_toList, List.utf8Encode,
    List.data_toByteArray]

/-! ## Characters -/

section Bytes

variable {m n : ℕ}

/-- Numbers below 256 are in the order of their bytes. -/
lemma byte_lt_iff (hm : m < 256) (hn : n < 256) : UInt8.ofNat m < UInt8.ofNat n ↔ m < n := by
  rw [UInt8.lt_iff_toNat_lt, UInt8.toNat_ofNat_of_lt' hm, UInt8.toNat_ofNat_of_lt' hn]

/-- Numbers below 256 are the same if their bytes are. -/
lemma byte_eq_iff (hm : m < 256) (hn : n < 256) : UInt8.ofNat m = UInt8.ofNat n ↔ m = n := by
  rw [← UInt8.toNat_inj, UInt8.toNat_ofNat_of_lt' hm, UInt8.toNat_ofNat_of_lt' hn]

end Bytes

/-- The bytes of an earlier character come first, whatever follows them. -/
lemma utf8EncodeChar_append_lt {c d : Char} (h : c < d) (s t : List UInt8) :
    String.utf8EncodeChar c ++ s < String.utf8EncodeChar d ++ t := by
  have hcd : c.val.toNat < d.val.toNat := UInt32.lt_iff_toNat_lt.mp h
  have hd : d.val.toNat < 0x110000 := by
    rcases d.valid with hd | ⟨-, hd⟩ <;> omega
  -- the bytes behind the first are digits to base 64
  have hsquare (k : ℕ) : k / 4096 = k / 64 / 64 := by omega
  have hcube (k : ℕ) : k / 262144 = k / 64 / 64 / 64 := by omega
  simp only [String.utf8EncodeChar, hsquare, hcube]
  generalize c.val.toNat = v at hcd
  generalize d.val.toNat = w at hcd hd
  -- an earlier character does not have more bytes
  split_ifs <;> try omega
  all_goals
    simp (disch := omega) only [List.cons_append, List.nil_append, List.cons_lt_cons_iff,
      byte_lt_iff, byte_eq_iff]
    omega

/-! ## Texts -/

/-- Texts that are in ascending order have bytes in ascending order. -/
lemma flatMap_utf8EncodeChar_lt {cs ds : List Char} (h : cs < ds) :
    cs.flatMap String.utf8EncodeChar < ds.flatMap String.utf8EncodeChar := by
  induction h with
  | @nil d ds =>
    obtain ⟨byte, bytes, hd⟩ := List.exists_cons_of_ne_nil (String.utf8EncodeChar_ne_nil (c := d))
    rw [List.flatMap_nil, List.flatMap_cons, hd]
    exact List.nil_lt_cons _ _
  | rel hcd =>
    rw [List.flatMap_cons, List.flatMap_cons]
    exact utf8EncodeChar_append_lt hcd _ _
  | cons _ ih =>
    rw [List.flatMap_cons, List.flatMap_cons]
    exact List.Lex.append_left _ ih _

/-- One text comes before another exactly if its bytes come first. -/
lemma lt_iff_utf8Bytes_lt {a b : String} : a < b ↔ utf8Bytes a < utf8Bytes b := by
  have hforward {a b : String} (h : a < b) : utf8Bytes a < utf8Bytes b := by
    rw [utf8Bytes_eq, utf8Bytes_eq]
    exact flatMap_utf8EncodeChar_lt (String.lt_iff_toList_lt.mp h)
  refine ⟨hforward, ?_⟩
  intro h
  rcases lt_trichotomy a b with hab | rfl | hba
  · exact hab
  · exact absurd h (List.lt_irrefl _)
  · exact absurd h (List.lt_asymm (hforward hba))

end WaveAccess
