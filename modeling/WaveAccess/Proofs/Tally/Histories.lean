import Mathlib.Data.List.Dedup
import WaveAccess.Proofs.Changes
import WaveAccess.Proofs.Tally.Sums
import WaveAccess.Proofs.Text.ByteOrder

/-!
# What a tally shows after any updates

Executions are recorded and from time to time all of them are cleared. A tally then groups the
executions since the last clearing by their keys. Its entries are in the order of locations, and
those of one location in the order in which their keys were first recorded: a new entry is put
behind all entries that are not at a later location.
-/

namespace WaveAccess

/-! ## Locations by bytes -/

/-- A location precedes another by the bytes of its file, then by line, then by column. -/
def SourcePosition.Precedes (a b : SourcePosition) : Prop :=
  utf8Bytes a.file < utf8Bytes b.file ∨
    a.file = b.file ∧ (a.line < b.line ∨ a.line = b.line ∧ a.column < b.column)

/-- A location precedes another exactly if it is less. -/
lemma SourcePosition.precedes_iff_lt {a b : SourcePosition} : a.Precedes b ↔ a < b := by
  rw [lt_iff, Precedes, lt_iff_utf8Bytes_lt]

namespace Tally

variable {M : Type}

/-! ## Updates -/

/-- A tally after an update: executions are recorded at a location, or all are cleared. -/
def apply [Statistic M] (t : Tally M) (update : Change (SourcePosition × TallyEntry M)) : Tally M :=
  update.apply (fun t x => t.record x.1 x.2) clear t

/-- A tally after updates. -/
def applyAll [Statistic M] (t : Tally M) (updates : List (Change (SourcePosition × TallyEntry M))) :
    Tally M :=
  updates.foldl apply t

variable [Statistic M]

/-- Of the updates only what was recorded since the last clearing is left. -/
lemma applyAll_empty (updates : List (Change (SourcePosition × TallyEntry M))) :
    (empty : Tally M).applyAll updates = ofExecutions (Change.recordedSinceClear updates) :=
  Change.foldl_apply (fun _ => rfl) updates

/-! ## The order of entries -/

/-- A key is at an earlier location than another, or at the same one and was recorded first. -/
def Precedes (recorded : List AccessKey) (k k' : AccessKey) : Prop :=
  k.location < k'.location ∨
    k.location = k'.location ∧ recorded.idxOf k < recorded.idxOf k'

/-- What precedes still does after another record. -/
lemma Precedes.concat {recorded : List AccessKey} {k k' : AccessKey} (hk : k ∈ recorded)
    (hk' : k' ∈ recorded) (h : Precedes recorded k k') (last : AccessKey) :
    Precedes (recorded ++ [last]) k k' := by
  rw [Precedes, List.idxOf_append_of_mem hk, List.idxOf_append_of_mem hk']
  exact h

/-- A key that is new comes behind all keys at its location and those before. -/
lemma precedes_new {recorded : List AccessKey} {k new : AccessKey} (hk : k ∈ recorded)
    (hnew : new ∉ recorded) (hle : k.location ≤ new.location) :
    Precedes (recorded ++ [new]) k new := by
  rcases hle.lt_or_eq with hlt | heq
  · exact .inl hlt
  · refine .inr ⟨heq, ?_⟩
    rw [List.idxOf_append_of_mem hk, List.idxOf_append_of_notMem hnew]
    exact Nat.lt_add_right _ (List.idxOf_lt_length_iff.mpr hk)

/-- Recording keeps the keys in the order in which they were recorded. -/
lemma IsWellFormed.precedes_record {t : Tally M} (ht : t.IsWellFormed) {recorded : List AccessKey}
    (hkeys : ∀ k, k ∈ t.keys ↔ k ∈ recorded) (h : t.keys.Pairwise (Precedes recorded))
    (l : SourcePosition) (e : TallyEntry M) :
    (t.record l e).keys.Pairwise (Precedes (recorded ++ [e.key l])) := by
  -- the first index of a key is the same after one more execution
  have hkept : t.keys.Pairwise (Precedes (recorded ++ [e.key l])) := by
    refine h.imp_of_mem ?_
    intro k k' hk hk' hprecedes
    exact hprecedes.concat ((hkeys k).mp hk) ((hkeys k').mp hk') _
  have hordered := ht.ordered
  have hinserted := inserted_record t l e
  rw [keys] at hkept hkeys ⊢
  generalize (t.record l e).entries = inserted at hinserted ⊢
  generalize t.entries = entries at hinserted hkept hkeys hordered
  cases hinserted with
  | merged _ hx =>
    rw [map_keyOf_merge hx]
    exact hkept
  | @added front back hfront hback =>
    have hnew : e.key l ∉ recorded := by
      rw [← hkeys]
      exact key_notMem_of_added hordered hfront hback
    -- entries in front come before the new one by location or by index, those behind by location
    have hlater := lt_of_mem_back hordered hback
    rw [List.map_append, List.pairwise_append] at hkept
    obtain ⟨hfronts, hbacks, hacross⟩ := hkept
    rw [List.map_append, List.map_cons, List.pairwise_append, List.pairwise_cons]
    refine ⟨hfronts, ⟨?_, hbacks⟩, ?_⟩
    · intro k hk
      obtain ⟨y, hy, rfl⟩ := List.mem_map.mp hk
      exact .inl (hlater y hy)
    · intro k hk k' hk'
      cases hk' with
      | head =>
        obtain ⟨y, hy, rfl⟩ := List.mem_map.mp hk
        have hknown := (hkeys _).mp (List.mem_map_of_mem (List.mem_append_left back hy))
        exact precedes_new hknown hnew (hfront y hy).2
      | tail _ hk' => exact hacross k hk k' hk'

variable {executions : List (SourcePosition × TallyEntry M)}

/-- Keys are in the order of their locations, and at one location in the order of their first
records. -/
lemma precedes_ofExecutions :
    (ofExecutions executions).keys.Pairwise (Precedes (executions.map keyOf)) := by
  induction executions using List.reverseRecOn with
  | nil => exact .nil
  | append_singleton executions x ih =>
    rw [ofExecutions_concat, List.map_append]
    exact isWellFormed_ofExecutions.precedes_record (fun _ => mem_keys_ofExecutions) ih x.1 x.2

/-! ## Sums -/

/-- An entry is made of the executions of its key, of which there is a first. -/
lemma sums_of_mem_ofExecutions {x : SourcePosition × TallyEntry M}
    (hx : x ∈ (ofExecutions executions).entries) :
    ∃ first rest, ofKey (keyOf x) executions = first :: rest ∧
      x.2.instruction = first.instruction ∧
      x.2.count = ((first :: rest).map (·.count)).sum ∧
      x.2.statistic = (rest.map (·.statistic)).foldl Statistic.add first.statistic := by
  have hentry := entryOf?_of_mem isWellFormed_ofExecutions.nodup hx
  rw [entryOf?_ofExecutions] at hentry
  cases hof : ofKey (keyOf x) executions with
  | nil =>
    rw [hof] at hentry
    cases hentry
  | cons first rest =>
    rw [hof, TallyEntry.mergeAll, Option.some.injEq, TallyEntry.foldl_merge] at hentry
    rw [← hentry]
    exact ⟨first, rest, rfl, rfl, rfl, rfl⟩

/-- There are as many entries as different keys. -/
lemma size_ofExecutions :
    (ofExecutions executions).size = (executions.map keyOf).dedup.length := by
  have hperm : (ofExecutions executions).keys.Perm (executions.map keyOf).dedup := by
    rw [List.perm_ext_iff_of_nodup isWellFormed_ofExecutions.nodup (List.nodup_dedup _)]
    intro k
    rw [mem_keys_ofExecutions, List.mem_dedup]
  rw [← hperm.length_eq, keys, List.length_map, size]

/-- A tally groups recorded executions by their keys. Each key has one entry, with the instruction
of its first execution and the sums of all, given how statistics are summed and which sums are worth
reporting. Entries are in the order of their locations, and where these are the same, of the first
executions of their keys. -/
structure Groups (sum : List M → M) (worth : M → Prop) (t : Tally M)
    (recorded : List (SourcePosition × TallyEntry M)) : Prop where
  nodup : t.keys.Nodup
  mem_keys : ∀ k, k ∈ t.keys ↔ ∃ x ∈ recorded, keyOf x = k
  instruction : ∀ x ∈ t.entries, ∃ first rest, ofKey (keyOf x) recorded = first :: rest ∧
    x.2.instruction = first.instruction
  count : ∀ x ∈ t.entries, x.2.count = ((ofKey (keyOf x) recorded).map (·.count)).sum
  statistic : ∀ x ∈ t.entries, x.2.statistic = sum ((ofKey (keyOf x) recorded).map (·.statistic))
  ordered : t.entries.Pairwise fun x y => x.1.Precedes y.1 ∨
    x.1 = y.1 ∧ (recorded.map keyOf).idxOf (keyOf x) < (recorded.map keyOf).idxOf (keyOf y)
  size_eq : t.size = (recorded.map keyOf).dedup.length
  isEmpty_iff : t.isEmpty = true ↔ t.size = 0
  reported : (t.worthReporting false).Sublist t.entries
  mem_reported : ∀ x, x ∈ t.worthReporting false ↔
    x ∈ t.entries ∧ worth (sum ((ofKey (keyOf x) recorded).map (·.statistic)))

/-- A tally of executions groups them, if merging sums statistics and the sums worth reporting are
those that show an inefficiency. -/
lemma groups_ofExecutions {sum : List M → M} {worth : M → Prop}
    (hsum : ∀ first rest, rest.foldl Statistic.add first = sum (first :: rest))
    (hworth : ∀ u : M, Statistic.isInefficient u = true ↔ worth u) :
    (ofExecutions executions).Groups sum worth executions := by
  have hstatistic : ∀ x ∈ (ofExecutions executions).entries,
      x.2.statistic = sum ((ofKey (keyOf x) executions).map (·.statistic)) := by
    intro x hx
    obtain ⟨first, rest, hof, -, -, hfold⟩ := sums_of_mem_ofExecutions hx
    rw [hof, hfold, hsum, List.map_cons]
  constructor
  case nodup => exact isWellFormed_ofExecutions.nodup
  case mem_keys =>
    intro k
    rw [mem_keys_ofExecutions, List.mem_map]
  case instruction =>
    intro x hx
    obtain ⟨first, rest, hof, hinstruction, -⟩ := sums_of_mem_ofExecutions hx
    exact ⟨first, rest, hof, hinstruction⟩
  case count =>
    intro x hx
    obtain ⟨first, rest, hof, -, hcount, -⟩ := sums_of_mem_ofExecutions hx
    rw [hof, hcount]
  case statistic => exact hstatistic
  case ordered =>
    refine (List.pairwise_map.mp precedes_ofExecutions).imp ?_
    intro x y hxy
    rw [SourcePosition.precedes_iff_lt]
    exact hxy
  case size_eq => exact size_ofExecutions
  case isEmpty_iff =>
    rw [isWellFormed_ofExecutions.filled.isEmpty_iff, size, List.length_eq_zero_iff]
  case reported => exact List.filter_sublist
  case mem_reported =>
    intro x
    rw [mem_worthReporting, hworth]
    refine and_congr_right ?_
    intro hx
    rw [hstatistic x hx]

/-- Merged uses of cache lines are sums of their lines. -/
lemma foldl_add_cacheUsage (first : CacheUsage) (rest : List CacheUsage) :
    rest.foldl Statistic.add first =
      ⟨((first :: rest).map (·.needed)).sum, ((first :: rest).map (·.used)).sum⟩ := by
  induction rest generalizing first with
  | nil => simp
  | cons u rest ih =>
    rw [List.foldl_cons, ih]
    simp [Statistic.add, CacheUsage.add, Nat.add_assoc]

/-- Merged conflicts are sums. -/
lemma foldl_add_conflictTotal (first : ConflictTotal) (rest : List ConflictTotal) :
    rest.foldl Statistic.add first = ⟨((first :: rest).map (·.total)).sum⟩ := by
  induction rest generalizing first with
  | nil => simp
  | cons u rest ih =>
    rw [List.foldl_cons, ih]
    simp [Statistic.add, Nat.add_assoc]

/-- After any updates, a tally groups the executions recorded since the last clearing by their keys.
Uses of cache lines are summed in both of their numbers, and are worth reporting unless the sums are
the same; conflicts are worth reporting if there are any. -/
theorem updates_group_by_key :
    (∀ updates : List (Change (SourcePosition × TallyEntry CacheUsage)),
      ((empty : Tally CacheUsage).applyAll updates).Groups
        (fun us => ⟨(us.map (·.needed)).sum, (us.map (·.used)).sum⟩)
        (fun u => u.used ≠ u.needed) (Change.recordedSinceClear updates)) ∧
      ∀ updates : List (Change (SourcePosition × TallyEntry ConflictTotal)),
        ((empty : Tally ConflictTotal).applyAll updates).Groups
          (fun cs => ⟨(cs.map (·.total)).sum⟩)
          (fun c => 0 < c.total) (Change.recordedSinceClear updates) := by
  constructor
  · intro updates
    rw [applyAll_empty]
    refine groups_ofExecutions foldl_add_cacheUsage ?_
    intro u
    simp [Statistic.isInefficient, CacheUsage.isEfficient]
  · intro updates
    rw [applyAll_empty]
    refine groups_ofExecutions foldl_add_conflictTotal ?_
    intro c
    simp [Statistic.isInefficient]

/-- For both statistics, a write and a read at one location, in this order, and a read of a later
file that was recorded before both. Two writes that miss the needed lines by one each, one to either
side, make an entry that is not worth reporting. -/
theorem updates_group_by_key_for_two_directions :
    let executions {M : Type} (direction : Direction) (file : String) (u : M) :
        Change (SourcePosition × TallyEntry M) :=
      .record (⟨file, 3, 1⟩, ⟨4, 0, direction, "", 1, u⟩)
    let uses : List (Change (SourcePosition × TallyEntry CacheUsage)) :=
      [executions .read "a.hip" ⟨1, 9⟩, .clear, executions .read "ä.hip" ⟨1, 1⟩,
        executions .write "a.hip" ⟨1, 2⟩, executions .read "a.hip" ⟨2, 5⟩,
        executions .write "a.hip" ⟨2, 1⟩]
    let conflicts : List (Change (SourcePosition × TallyEntry ConflictTotal)) :=
      [executions .read "a.hip" ⟨9⟩, .clear, executions .read "ä.hip" ⟨0⟩,
        executions .write "a.hip" ⟨1⟩, executions .read "a.hip" ⟨2⟩,
        executions .write "a.hip" ⟨3⟩]
    let t := (empty : Tally CacheUsage).applyAll uses
    let t' := (empty : Tally ConflictTotal).applyAll conflicts
    t.entries.map (fun x => (x.1.file, x.2.direction, x.2.count, x.2.statistic)) =
        [("a.hip", .write, 2, ⟨3, 3⟩), ("a.hip", .read, 1, ⟨2, 5⟩), ("ä.hip", .read, 1, ⟨1, 1⟩)] ∧
      t'.entries.map (fun x => (x.1.file, x.2.direction, x.2.count, x.2.statistic)) =
        [("a.hip", .write, 2, ⟨4⟩), ("a.hip", .read, 1, ⟨2⟩), ("ä.hip", .read, 1, ⟨0⟩)] ∧
      t.size = 3 ∧ t.isEmpty = false ∧
      (t.worthReporting false).map (·.2.direction) = [.read] ∧
      (t'.worthReporting false).map (·.2.direction) = [.write, .read] := by
  intro executions uses conflicts t t'
  have hgroups := updates_group_by_key.1 uses
  have hthree : t.size = 3 := hgroups.size_eq.trans (by decide)
  refine ⟨by decide, by decide, hthree, ?_, by decide, by decide⟩
  rw [← Bool.not_eq_true, hgroups.isEmpty_iff, hthree]
  decide

end Tally

end WaveAccess
