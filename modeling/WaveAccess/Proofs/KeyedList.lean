import Mathlib.Tactic.Lemma

/-!
# Lists of values under keys

What is found in a list and what is in it after a value was put under a key. The lemmas hold of
every function that goes through a list until it comes to the key.
-/

namespace WaveAccess

/-- The value under a key is that of the first entry, if this is its key, or else a later one. -/
lemma lookup_cons_eq_ite {α β : Type} [DecidableEq α] (key key' : α) (value : β)
    (entries : List (α × β)) :
    ((key', value) :: entries).lookup key =
      if key = key' then some value else entries.lookup key := by
  by_cases h : key = key'
  · rw [if_pos h, h, List.lookup_cons_self]
  · rw [if_neg h, List.lookup_cons, beq_eq_false_iff_ne.mpr h]

/-- A value is put under a key in place of the value that was there, or else behind all others. -/
structure PutsUnderKey {α β : Type} [DecidableEq α] (put : α → β → List (α × β) → List (α × β)) :
    Prop where
  nil : ∀ key value, put key value [] = [(key, value)]
  cons : ∀ key value entry rest, put key value (entry :: rest) =
    if entry.1 = key then (key, value) :: rest else entry :: put key value rest

namespace PutsUnderKey

variable {α β : Type} [DecidableEq α] {put : α → β → List (α × β) → List (α × β)}
  (hput : PutsUnderKey put)

include hput

/-- The value is found under its key, and every other as before. -/
lemma lookup_eq (key key' : α) (value : β) (entries : List (α × β)) :
    (put key value entries).lookup key' =
      if key' = key then some value else entries.lookup key' := by
  induction entries with
  | nil =>
    rw [hput.nil]
    exact lookup_cons_eq_ite key' key value []
  | cons entry rest ih =>
    obtain ⟨first, old⟩ := entry
    rw [hput.cons]
    split
    · next hfirst =>
      cases hfirst
      simp only [lookup_cons_eq_ite]
      split <;> rfl
    · next hfirst =>
      rw [lookup_cons_eq_ite, ih, lookup_cons_eq_ite]
      split
      · next h =>
        cases h
        rw [if_neg hfirst]
      · rfl

/-- Nothing changes if the value was there already. -/
lemma eq_of_lookup {key : α} {value : β} {entries : List (α × β)}
    (h : entries.lookup key = some value) : put key value entries = entries := by
  induction entries with
  | nil => cases h
  | cons entry rest ih =>
    obtain ⟨first, old⟩ := entry
    rw [hput.cons]
    by_cases hk : first = key
    · subst hk
      rw [List.lookup_cons_self] at h
      cases h
      rw [if_pos rfl]
    · have hne : (key == first) = false := beq_eq_false_iff_ne.mpr (Ne.symm hk)
      rw [if_neg hk]
      simp only [List.lookup_cons, hne] at h
      rw [ih h]

/-- Nothing but the value comes into the list. -/
lemma mem {key : α} {value : β} {entries : List (α × β)} {entry : α × β}
    (h : entry ∈ put key value entries) : entry = (key, value) ∨ entry ∈ entries := by
  induction entries with
  | nil =>
    rw [hput.nil] at h
    exact .inl (List.mem_singleton.mp h)
  | cons head rest ih =>
    rw [hput.cons] at h
    split at h
    · rcases List.mem_cons.mp h with rfl | h
      · exact .inl rfl
      · exact .inr (List.mem_cons_of_mem _ h)
    · rcases List.mem_cons.mp h with rfl | h
      · exact .inr List.mem_cons_self
      · exact (ih h).imp_right (List.mem_cons_of_mem _)

end PutsUnderKey

end WaveAccess
