import Mathlib.Data.List.Perm.Basic
import WaveAccess.Proofs.Tally.Sums

/-!
# Executions in another order

Executions make the same entries in whatever order they are recorded, if those of one key have one
instruction. Entries follow the order of their locations, so only those of one location can change
places. What adds up in merging does so over any entries, be they of one key or of many.
-/

namespace WaveAccess

/-- A statistic that adds up to the same in any order. -/
class CommStatistic (M : Type) [Statistic M] : Prop where
  add_comm : ∀ a b : M, Statistic.add a b = Statistic.add b a
  add_assoc : ∀ a b c : M, Statistic.add (Statistic.add a b) c = Statistic.add a (Statistic.add b c)

instance : CommStatistic CacheUsage where
  add_comm _ _ := congrArg₂ CacheUsage.mk (Nat.add_comm _ _) (Nat.add_comm _ _)
  add_assoc _ _ _ := congrArg₂ CacheUsage.mk (Nat.add_assoc _ _ _) (Nat.add_assoc _ _ _)

instance : CommStatistic ConflictTotal where
  add_comm _ _ := congrArg ConflictTotal.mk (Nat.add_comm _ _)
  add_assoc _ _ _ := congrArg ConflictTotal.mk (Nat.add_assoc _ _ _)

/-! ## Merging in another order -/

namespace TallyEntry

variable {M : Type}

/-- Two entries differ in their count and their statistic only. -/
structure Alike (a b : TallyEntry M) : Prop where
  irSize : a.irSize = b.irSize
  isaSize : a.isaSize = b.isaSize
  direction : a.direction = b.direction
  instruction : a.instruction = b.instruction

/-- The entry that executions make together is like the first of them. -/
lemma alike_of_mergeAll [Statistic M] {es : List (TallyEntry M)} {e : TallyEntry M}
    (h : mergeAll es = some e) : ∃ first ∈ es, e.Alike first := by
  cases es with
  | nil => cases h
  | cons first rest =>
    rw [mergeAll, Option.some.injEq, foldl_merge] at h
    rw [← h]
    exact ⟨first, List.mem_cons_self, rfl, rfl, rfl, rfl⟩

variable [Statistic M] [CommStatistic M]

/-- It does not matter which of two alike entries is merged into the other. -/
lemma Alike.merge_comm {a b : TallyEntry M} (h : a.Alike b) : a.merge b = b.merge a := by
  obtain ⟨irSize, isaSize, direction, instruction, count, statistic⟩ := a
  obtain ⟨rfl, rfl, rfl, rfl⟩ := h
  simp [merge, Nat.add_comm, CommStatistic.add_comm]

/-- It does not matter in which order two entries are merged into a third. -/
lemma merge_right_comm (e a b : TallyEntry M) : (e.merge a).merge b = (e.merge b).merge a := by
  have hstatistic : Statistic.add (Statistic.add e.statistic a.statistic) b.statistic =
      Statistic.add (Statistic.add e.statistic b.statistic) a.statistic := by
    rw [CommStatistic.add_assoc, CommStatistic.add_comm a.statistic, ← CommStatistic.add_assoc]
  simp [merge, hstatistic, Nat.add_right_comm]

/-- Executions that are alike make the same entry in any order. -/
lemma mergeAll_perm {es es' : List (TallyEntry M)} (h : es.Perm es')
    (alike : ∀ a ∈ es, ∀ b ∈ es, a.Alike b) : mergeAll es = mergeAll es' := by
  induction h with
  | nil => rfl
  | cons first h =>
    exact congrArg some (h.foldl_eq' (fun _ _ _ _ _ => merge_right_comm _ _ _) first)
  | swap a b rest =>
    have hab : b.Alike a := alike b List.mem_cons_self a (by simp)
    rw [mergeAll_cons_cons, mergeAll_cons_cons, hab.merge_comm]
  | trans h _ ih ih' =>
    rw [ih alike]
    exact ih' fun a ha b hb => alike a (h.mem_iff.mpr ha) b (h.mem_iff.mpr hb)

end TallyEntry

namespace Tally

variable {M : Type}

/-! ## Entries in another order -/

/-- The entries of a well-formed tally are those of their keys. -/
lemma IsWellFormed.mem_entries_iff {t : Tally M} (ht : t.IsWellFormed)
    {x : SourcePosition × TallyEntry M} : x ∈ t.entries ↔ t.entryOf? (keyOf x) = some x.2 := by
  constructor
  · exact entryOf?_of_mem ht.nodup
  · intro h
    obtain ⟨y, hy, hvalue⟩ := Option.map_eq_some_iff.mp h
    have hkey : keyOf y = keyOf x := by simpa using List.find?_some hy
    have hlocation : y.1 = x.1 := congrArg AccessKey.location hkey
    rw [← Prod.ext hlocation hvalue]
    exact List.mem_of_find?_eq_some hy

/-- Tallies that hold the same under every key have the same entries. -/
lemma IsWellFormed.entries_perm {t t' : Tally M} (ht : t.IsWellFormed) (ht' : t'.IsWellFormed)
    (h : ∀ k, t.entryOf? k = t'.entryOf? k) : t.entries.Perm t'.entries := by
  rw [List.perm_ext_iff_of_nodup (List.Nodup.of_map _ ht.nodup) (List.Nodup.of_map _ ht'.nodup)]
  intro x
  rw [ht.mem_entries_iff, ht'.mem_entries_iff, h]

/-- The same entries are at the same locations, one after the other. -/
lemma IsWellFormed.locations_eq {t t' : Tally M} (ht : t.IsWellFormed) (ht' : t'.IsWellFormed)
    (h : t.entries.Perm t'.entries) : t.entries.map (·.1) = t'.entries.map (·.1) := by
  have hordered := List.pairwise_map.mpr ht.ordered
  have hordered' := List.pairwise_map.mpr ht'.ordered
  exact List.Perm.eq_of_pairwise (fun _ _ _ _ => le_antisymm) hordered hordered' (h.map _)

variable {executions others : List (SourcePosition × TallyEntry M)}

/-- Executions of one key are of one instruction. -/
def OneInstruction (executions : List (SourcePosition × TallyEntry M)) : Prop :=
  ∀ x ∈ executions, ∀ y ∈ executions, keyOf x = keyOf y → x.2.instruction = y.2.instruction

/-- The executions of a key are alike if they are of one instruction. -/
lemma OneInstruction.alike (h : OneInstruction executions) {k : AccessKey} {a b : TallyEntry M}
    (ha : a ∈ ofKey k executions) (hb : b ∈ ofKey k executions) : a.Alike b := by
  obtain ⟨x, hx, rfl⟩ := List.mem_map.mp ha
  obtain ⟨y, hy, rfl⟩ := List.mem_map.mp hb
  obtain ⟨hx, hxk⟩ := List.mem_filter.mp hx
  obtain ⟨hy, hyk⟩ := List.mem_filter.mp hy
  have hkey : keyOf x = keyOf y := (of_decide_eq_true hxk).trans (of_decide_eq_true hyk).symm
  have hfields := hkey
  simp only [keyOf, TallyEntry.key, AccessKey.mk.injEq] at hfields
  obtain ⟨-, hir, hisa, hdirection⟩ := hfields
  exact ⟨hir, hisa, hdirection, h x hx y hy hkey⟩

/-- Executions make the same entries in whatever order they are recorded. -/
lemma entries_perm_of_perm [Statistic M] [CommStatistic M] (h : executions.Perm others)
    (hone : OneInstruction executions) :
    (ofExecutions executions).entries.Perm (ofExecutions others).entries := by
  apply isWellFormed_ofExecutions.entries_perm isWellFormed_ofExecutions
  intro k
  have hofKey : (ofKey k executions).Perm (ofKey k others) := (h.filter _).map _
  rw [entryOf?_ofExecutions, entryOf?_ofExecutions]
  exact TallyEntry.mergeAll_perm hofKey fun _ ha _ hb => hone.alike ha hb

/-- An entry is like an execution of its key. -/
lemma alike_of_mem_ofExecutions [Statistic M] {x : SourcePosition × TallyEntry M}
    (hx : x ∈ (ofExecutions executions).entries) :
    ∃ y ∈ executions, keyOf y = keyOf x ∧ x.2.Alike y.2 := by
  have hentry := isWellFormed_ofExecutions.mem_entries_iff.mp hx
  rw [entryOf?_ofExecutions] at hentry
  obtain ⟨e, he, halike⟩ := TallyEntry.alike_of_mergeAll hentry
  obtain ⟨y, hy, rfl⟩ := List.mem_map.mp he
  obtain ⟨hy, hkey⟩ := List.mem_filter.mp hy
  exact ⟨y, hy, of_decide_eq_true hkey, halike⟩

/-! ## Sums over entries -/

/-- What a measure adds up to over the entries whose keys are of a kind. -/
def sumOver (kind : AccessKey → Bool) (measure : TallyEntry M → ℕ)
    (entries : List (SourcePosition × TallyEntry M)) : ℕ :=
  ((entries.filter fun x => kind (keyOf x)).map (measure ·.2)).sum

variable {kind : AccessKey → Bool} {measure : TallyEntry M → ℕ}

/-- A sum starts with the first entry, if it counts. -/
lemma sumOver_cons (x : SourcePosition × TallyEntry M)
    (entries : List (SourcePosition × TallyEntry M)) :
    sumOver kind measure (x :: entries) =
      (if kind (keyOf x) then measure x.2 else 0) + sumOver kind measure entries := by
  rw [sumOver, List.filter_cons]
  split
  · rw [List.map_cons, List.sum_cons, sumOver]
  · rw [Nat.zero_add, sumOver]

/-- A sum does not depend on the order. -/
lemma sumOver_perm (h : executions.Perm others) :
    sumOver kind measure executions = sumOver kind measure others :=
  ((h.filter _).map _).sum_nat

variable [Statistic M]

/-- Inserting adds what the executions measure, whichever entry takes them. -/
lemma sumOver_insert (hmerge : ∀ e other, measure (e.merge other) = measure e + measure other)
    (x : SourcePosition × TallyEntry M) (entries : List (SourcePosition × TallyEntry M)) :
    sumOver kind measure (insert x.1 x.2 entries) = sumOver kind measure (x :: entries) := by
  have hinserted := inserted_insert x.1 x.2 entries
  generalize insert x.1 x.2 entries = inserted at hinserted ⊢
  cases hinserted with
  | @merged front y back _ hy =>
    have hkey : keyOf y = keyOf x := hy
    rw [sumOver_perm List.perm_middle, sumOver_cons, sumOver_cons, sumOver_perm List.perm_middle,
      sumOver_cons, keyOf_merge hy, hkey, hmerge]
    split <;> omega
  | added => exact sumOver_perm List.perm_middle

/-- Recording executions adds their sum. -/
lemma sumOver_recordAll (hmerge : ∀ e other, measure (e.merge other) = measure e + measure other)
    (t : Tally M) :
    sumOver kind measure (t.recordAll executions).entries =
      sumOver kind measure t.entries + sumOver kind measure executions := by
  induction executions generalizing t with
  | nil => rfl
  | cons x rest ih =>
    rw [recordAll, List.foldl_cons, ← recordAll, ih, entries_record, sumOver_insert hmerge,
      sumOver_cons, sumOver_cons]
    omega

/-- A tally measures, over the entries of any kind of key, what the executions of these keys do. -/
lemma sumOver_ofExecutions
    (hmerge : ∀ e other, measure (e.merge other) = measure e + measure other) :
    sumOver kind measure (ofExecutions executions).entries = sumOver kind measure executions := by
  rw [ofExecutions, sumOver_recordAll hmerge]
  exact Nat.zero_add _

end Tally

end WaveAccess
