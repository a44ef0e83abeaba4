import Mathlib.Algebra.GroupWithZero.Nat
import Mathlib.Data.List.Basic
import WaveAccess.Proofs.Tally.Order

/-!
# What a tally adds up to

A tally of executions has one entry for each of their keys. The entry is what the executions of that
key make together, so its count and its statistic are their sums.
-/

namespace WaveAccess

namespace TallyEntry

variable {M : Type} [Statistic M]

/-- The entry that executions of one key make together. The first gives its instruction. -/
def mergeAll : List (TallyEntry M) → Option (TallyEntry M)
  | [] => none
  | e :: rest => some (rest.foldl merge e)

/-- Two entries are merged before the others. -/
lemma mergeAll_cons_cons (e other : TallyEntry M) (rest : List (TallyEntry M)) :
    mergeAll (e :: other :: rest) = mergeAll (e.merge other :: rest) :=
  rfl

/-- Entries can be merged unless there are none. -/
lemma isSome_mergeAll {es : List (TallyEntry M)} : (mergeAll es).isSome = true ↔ es ≠ [] := by
  cases es <;> simp [mergeAll]

/-- Merged executions have the instruction of the first, and their sums. -/
lemma foldl_merge (first : TallyEntry M) (rest : List (TallyEntry M)) :
    rest.foldl merge first =
      { first with
        count := ((first :: rest).map (·.count)).sum
        statistic := (rest.map (·.statistic)).foldl Statistic.add first.statistic } := by
  induction rest generalizing first with
  | nil => simp
  | cons e rest ih =>
    rw [List.foldl_cons, ih]
    simp [merge, Nat.add_assoc]

/-- What adds up in merging is a sum over the executions. -/
lemma measure_mergeAll (measure : TallyEntry M → ℕ)
    (hmerge : ∀ e other, measure (e.merge other) = measure e + measure other)
    {es : List (TallyEntry M)} {e : TallyEntry M} (h : mergeAll es = some e) :
    measure e = (es.map measure).sum := by
  cases es with
  | nil => cases h
  | cons first rest =>
    induction rest generalizing first with
    | nil => cases h; simp
    | cons other rest ih =>
      rw [mergeAll_cons_cons] at h
      rw [ih (first.merge other) h]
      simp [hmerge, Nat.add_assoc]

end TallyEntry

namespace Tally

variable {M : Type} [Statistic M]

/-- Records executions one after the other. -/
def recordAll (t : Tally M) (executions : List (SourcePosition × TallyEntry M)) : Tally M :=
  executions.foldl (fun t x => t.record x.1 x.2) t

/-- The executions of a key. -/
def ofKey (k : AccessKey) (executions : List (SourcePosition × TallyEntry M)) :
    List (TallyEntry M) :=
  (executions.filter (keyOf · = k)).map (·.2)

/-- A tally stays well-formed as executions are recorded. -/
lemma IsWellFormed.recordAll {t : Tally M} (ht : t.IsWellFormed)
    (executions : List (SourcePosition × TallyEntry M)) :
    (t.recordAll executions).IsWellFormed := by
  induction executions generalizing t with
  | nil => exact ht
  | cons x rest ih => exact ih (ht.record x.1 x.2)

/-- The entry of a key is made of the one before and of the executions of the key. -/
lemma IsWellFormed.entryOf?_recordAll {t : Tally M} (ht : t.IsWellFormed)
    (executions : List (SourcePosition × TallyEntry M)) (k : AccessKey) :
    (t.recordAll executions).entryOf? k =
      TallyEntry.mergeAll ((t.entryOf? k).toList ++ ofKey k executions) := by
  induction executions generalizing t with
  | nil => cases h : t.entryOf? k <;> simp [Tally.recordAll, ofKey, TallyEntry.mergeAll, h]
  | cons x rest ih =>
    have hrest := ih (ht.record x.1 x.2)
    rw [Tally.recordAll, List.foldl_cons, ← Tally.recordAll, hrest, ht.entryOf?_record]
    by_cases hk : keyOf x = k
    · have hof : ofKey k (x :: rest) = x.2 :: ofKey k rest := by simp [ofKey, hk]
      rw [if_pos (by rw [← hk, keyOf]), hof]
      -- the execution is merged into the entry of its key, or makes it
      cases t.entryOf? k <;> rfl
    · have hof : ofKey k (x :: rest) = ofKey k rest := by simp [ofKey, hk]
      rw [if_neg (by rw [eq_comm]; exact hk), hof]

/-- The tally of executions. -/
def ofExecutions (executions : List (SourcePosition × TallyEntry M)) : Tally M :=
  (empty : Tally M).recordAll executions

variable {executions : List (SourcePosition × TallyEntry M)}

/-- The tally of one more execution records it. -/
lemma ofExecutions_concat (executions : List (SourcePosition × TallyEntry M))
    (x : SourcePosition × TallyEntry M) :
    ofExecutions (executions ++ [x]) = (ofExecutions executions).record x.1 x.2 := by
  rw [ofExecutions, recordAll, List.foldl_append]
  rfl

/-- A tally of executions is well-formed. -/
lemma isWellFormed_ofExecutions : (ofExecutions executions).IsWellFormed :=
  isWellFormed_empty.recordAll executions

/-- The entry of a key is made of its executions. -/
lemma entryOf?_ofExecutions (k : AccessKey) :
    (ofExecutions executions).entryOf? k = TallyEntry.mergeAll (ofKey k executions) :=
  isWellFormed_empty.entryOf?_recordAll executions k

/-- A tally has the keys of its executions, and no others. -/
lemma mem_keys_ofExecutions {k : AccessKey} :
    k ∈ (ofExecutions executions).keys ↔ k ∈ executions.map keyOf := by
  rw [← isSome_entryOf?, entryOf?_ofExecutions, TallyEntry.isSome_mergeAll]
  simp [ofKey]

/-- What adds up in merging is, in each entry, the sum over the executions of its key. -/
lemma measure_of_mem_ofExecutions (measure : TallyEntry M → ℕ)
    (hmerge : ∀ e other, measure (e.merge other) = measure e + measure other)
    {x : SourcePosition × TallyEntry M} (hx : x ∈ (ofExecutions executions).entries) :
    measure x.2 = ((ofKey (keyOf x) executions).map measure).sum := by
  refine TallyEntry.measure_mergeAll measure hmerge ?_
  rw [← entryOf?_ofExecutions]
  exact entryOf?_of_mem isWellFormed_ofExecutions.nodup hx

/-- An entry counts the executions of its key, if each of them counts once. -/
lemma count_of_mem_ofExecutions (hone : ∀ x ∈ executions, x.2.count = 1)
    {x : SourcePosition × TallyEntry M} (hx : x ∈ (ofExecutions executions).entries) :
    x.2.count = (ofKey (keyOf x) executions).length := by
  have hcounts : ∀ e ∈ ofKey (keyOf x) executions, e.count = 1 := by
    intro e he
    obtain ⟨y, hy, rfl⟩ := List.mem_map.mp he
    exact hone y (List.mem_filter.mp hy).1
  rw [measure_of_mem_ofExecutions TallyEntry.count (fun _ _ => rfl) hx,
    List.map_congr_left hcounts, List.map_const', List.sum_replicate_nat, Nat.mul_one]

/-- No entry is without executions. -/
lemma count_pos_of_mem_ofExecutions (hone : ∀ x ∈ executions, x.2.count = 1)
    {x : SourcePosition × TallyEntry M} (hx : x ∈ (ofExecutions executions).entries) :
    0 < x.2.count := by
  have hentry := entryOf?_of_mem isWellFormed_ofExecutions.nodup hx
  rw [entryOf?_ofExecutions] at hentry
  rw [count_of_mem_ofExecutions hone hx, List.length_pos_iff]
  exact TallyEntry.isSome_mergeAll.mp (Option.isSome_of_eq_some hentry)

end Tally

end WaveAccess
