import Mathlib.Data.List.DropRight
import Mathlib.Data.List.Induction

/-!
# What is left after clearings

Tallies, bank tables and sessions take things in one after the other, and from time to time they are
cleared. Of such a history only what came after the last clearing is left.
-/

namespace WaveAccess

/-! ## The end of a history -/

section AfterLast

variable {α : Type} {ends : α → Bool} {xs : List α} {x : α}

/-- What comes after the last element that ends what was before it; everything if none does. -/
def afterLast (ends : α → Bool) (xs : List α) : List α :=
  xs.rtakeWhile (!ends ·)

/-- Nothing comes after an element that ends a history. -/
lemma afterLast_concat_of_ends (h : ends x = true) : afterLast ends (xs ++ [x]) = [] :=
  List.rtakeWhile_concat_neg _ _ _ (by simp [h])

/-- An element that ends nothing comes after the others. -/
lemma afterLast_concat_of_not_ends (h : ends x = false) :
    afterLast ends (xs ++ [x]) = afterLast ends xs ++ [x] :=
  List.rtakeWhile_concat_pos _ _ _ (by simp [h])

/-- Nothing after the last element that ends a history ends it. -/
lemma not_ends_of_mem_afterLast (h : x ∈ afterLast ends xs) : ends x = false := by
  have hnot := List.mem_rtakeWhile_imp h
  rwa [Bool.not_eq_true'] at hnot

/-- A history up to the last element that ends it, and after this element. -/
lemma exists_append_afterLast (ends : α → Bool) (xs : List α) :
    ∃ earlier, xs = earlier ++ afterLast ends xs ∧
      (earlier = [] ∨ ∃ before x, earlier = before ++ [x] ∧ ends x = true) := by
  induction xs using List.reverseRecOn with
  | nil => exact ⟨[], rfl, .inl rfl⟩
  | append_singleton xs x ih =>
    cases hx : ends x with
    | true =>
      rw [afterLast_concat_of_ends hx]
      exact ⟨xs ++ [x], (List.append_nil _).symm, .inr ⟨xs, x, rfl, hx⟩⟩
    | false =>
      obtain ⟨earlier, heq, hearlier⟩ := ih
      refine ⟨earlier, ?_, hearlier⟩
      rw [afterLast_concat_of_not_ends hx, ← List.append_assoc, ← heq]

end AfterLast

/-! ## Changes -/

/-- What can happen to what takes things in: it takes in one more, or it is cleared. -/
inductive Change (α : Type) where
  | record (a : α)
  | clear

namespace Change

variable {α σ : Type}

/-- Whether a change is a clearing. -/
def isClear : Change α → Bool
  | .record _ => false
  | .clear => true

/-- What a change records. -/
def recorded? : Change α → Option α
  | .record a => some a
  | .clear => none

/-- What the changes after the last clearing record. -/
def recordedSinceClear (changes : List (Change α)) : List α :=
  (afterLast isClear changes).filterMap recorded?

/-- Nothing is recorded after a clearing. -/
@[simp]
lemma recordedSinceClear_clear (changes : List (Change α)) :
    recordedSinceClear (changes ++ [.clear]) = [] := by
  rw [recordedSinceClear, afterLast_concat_of_ends rfl, List.filterMap_nil]

/-- What is recorded last comes after what was recorded since the last clearing. -/
@[simp]
lemma recordedSinceClear_record (changes : List (Change α)) (a : α) :
    recordedSinceClear (changes ++ [.record a]) = recordedSinceClear changes ++ [a] := by
  rw [recordedSinceClear, afterLast_concat_of_not_ends rfl, List.filterMap_append,
    ← recordedSinceClear]
  rfl

/-- A state after a change, given how it takes things in and how it is cleared. -/
def apply (take : σ → α → σ) (reset : σ → σ) (s : σ) : Change α → σ
  | .record a => take s a
  | .clear => reset s

/-- A clearing that always leads back to the first state forgets what was taken in before it. -/
lemma foldl_apply {take : σ → α → σ} {reset : σ → σ} {start : σ}
    (hreset : ∀ taken : List α, reset (taken.foldl take start) = start)
    (changes : List (Change α)) :
    changes.foldl (apply take reset) start = (recordedSinceClear changes).foldl take start := by
  induction changes using List.reverseRecOn with
  | nil => rfl
  | append_singleton changes change ih =>
    rw [List.foldl_concat, ih]
    cases change with
    | record a => rw [recordedSinceClear_record, List.foldl_concat, apply]
    | clear => rw [recordedSinceClear_clear, apply, hreset, List.foldl_nil]

end Change

end WaveAccess
