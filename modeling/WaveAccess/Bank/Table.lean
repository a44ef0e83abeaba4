/-!
# Bank tables

The local data share is cut into words of four bytes, which are dealt out to its banks one after the
other. A bank table belongs to a group of lanes that are served together and holds the distinct
words that they access. A bank serves one word per cycle, and lanes that access the same word share
it, so the group takes as many cycles as its busiest bank has words. Every cycle after the first is
a conflict.
-/

namespace WaveAccess

/-! ## Banks -/

namespace Bank

/-- The number of banks. -/
def count : Nat := 32

/-- The bytes of a word. -/
def wordBytes : Nat := 4

/-- The word of a byte address. -/
def wordOf (address : Nat) : Nat :=
  address / wordBytes

/-- The bank of a word. -/
def ofWord (word : Nat) : Nat :=
  word % count

/-- The bank that serves a byte address. -/
def ofAddress (address : Nat) : Nat :=
  ofWord (wordOf address)

end Bank

/-! ## Tables -/

/-- A group of lanes and the distinct words that they have accessed. -/
structure BankTable where
  lanes : List Nat
  words : List Nat
  deriving DecidableEq, Repr

namespace BankTable

/-- The table of a group of lanes that have accessed nothing. -/
def ofLanes (lanes : List Nat) : BankTable :=
  ⟨lanes, []⟩

/-- Whether a lane belongs to the group. -/
def contains (t : BankTable) (lane : Nat) : Bool :=
  t.lanes.contains lane

/-- Records a word, unless it is there already. -/
def insertWord (t : BankTable) (word : Nat) : BankTable :=
  if t.words.contains word then t else { t with words := word :: t.words }

/-- A table holds a word that it is given, and those that it held before. -/
@[simp]
theorem mem_words_insertWord {t : BankTable} {v w : Nat} :
    w ∈ (t.insertWord v).words ↔ w = v ∨ w ∈ t.words := by
  unfold insertWord
  split
  · next h =>
    refine ⟨.inr, ?_⟩
    rintro (rfl | hw)
    · exact List.contains_iff_mem.mp h
    · exact hw
  · exact List.mem_cons

/-- A word leaves the group of a table as it is. -/
@[simp]
theorem lanes_insertWord (t : BankTable) (v : Nat) : (t.insertWord v).lanes = t.lanes := by
  unfold insertWord
  split <;> rfl

/-- A table never lists a word twice. -/
theorem nodup_words_insertWord {t : BankTable} (h : t.words.Nodup) (v : Nat) :
    (t.insertWord v).words.Nodup := by
  unfold insertWord
  split
  · exact h
  · next hv => exact List.nodup_cons.mpr ⟨fun hm => hv (List.contains_iff_mem.mpr hm), h⟩

/-- Records the access of a lane, if the lane belongs to the group. -/
def register? (t : BankTable) (lane address : Nat) : Option BankTable :=
  if t.contains lane then some (t.insertWord (Bank.wordOf address)) else none

/-- An access is turned away exactly if its lane does not belong to the group. -/
theorem register?_eq_none_iff {t : BankTable} {lane address : Nat} :
    t.register? lane address = none ↔ t.contains lane = false := by
  simp [register?]

/-- The number of words in a bank. -/
def bankLoad (t : BankTable) (bank : Nat) : Nat :=
  t.words.countP (Bank.ofWord · == bank)

/-- The number of words in the busiest bank. -/
def maxLoad (t : BankTable) : Nat :=
  ((List.range Bank.count).map t.bankLoad).foldl max 0

/-- The cycles beyond the first that it takes to serve the words. -/
def conflicts (t : BankTable) : Nat :=
  t.maxLoad - 1

/-- The table without its words. -/
def clear (t : BankTable) : BankTable :=
  { t with words := [] }

end BankTable

end WaveAccess
