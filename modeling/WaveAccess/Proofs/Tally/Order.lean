import Mathlib.Data.List.Nodup
import WaveAccess.Proofs.Tally.Nesting

/-!
# The order of a tally

A tally is well-formed if its entries follow the order of locations, no two of them would take in
the same executions, and no file, line or column is without entries. Recording keeps a tally
well-formed, and says what becomes of each entry.
-/

namespace WaveAccess

/-! ## Keys -/

/-- What all executions of one entry have in common. -/
structure AccessKey where
  location : SourcePosition
  irSize : UInt16
  isaSize : UInt16
  direction : Direction
  deriving DecidableEq, Repr

namespace TallyEntry

variable {M : Type}

/-- The key of an entry at a location. -/
def key (e : TallyEntry M) (location : SourcePosition) : AccessKey :=
  ⟨location, e.irSize, e.isaSize, e.direction⟩

/-- An entry takes in the executions of those with its own key. -/
lemma takes_iff {e other : TallyEntry M} {l : SourcePosition} :
    e.takes other = true ↔ e.key l = other.key l := by
  simp [takes, key, and_assoc]

/-- Merging leaves the key of an entry as it is. -/
@[simp]
lemma key_merge [Statistic M] (e other : TallyEntry M) (l : SourcePosition) :
    (e.merge other).key l = e.key l :=
  rfl

end TallyEntry

namespace Tally

variable {M : Type}

/-- The key of a located entry. -/
def keyOf (x : SourcePosition × TallyEntry M) : AccessKey :=
  x.2.key x.1

/-- The keys of entries. -/
def keys (t : Tally M) : List AccessKey :=
  t.entries.map keyOf

/-- The entry of a key, if there is one. -/
def entryOf? (t : Tally M) (k : AccessKey) : Option (TallyEntry M) :=
  (t.entries.find? (keyOf · = k)).map (·.2)

/-- Entries follow the order of locations, each has a key of its own, and no level is empty. -/
structure IsWellFormed (t : Tally M) : Prop where
  ordered : t.entries.Pairwise (·.1 ≤ ·.1)
  nodup : t.keys.Nodup
  filled : t.IsFilled

/-- The tally of no executions is well-formed. -/
lemma isWellFormed_empty : (empty : Tally M).IsWellFormed where
  ordered := .nil
  nodup := .nil
  filled := isFilled_empty

/-- An entry has a key exactly if it is at its location and takes what has the key. -/
lemma keyOf_eq_iff {x : SourcePosition × TallyEntry M} {l : SourcePosition} {e : TallyEntry M} :
    keyOf x = e.key l ↔ x.1 = l ∧ x.2.takes e = true := by
  rw [TallyEntry.takes_iff (l := l)]
  constructor
  · intro h
    have hl : x.1 = l := congrArg AccessKey.location h
    exact ⟨hl, by rw [← h, keyOf, hl]⟩
  · rintro ⟨hl, hk⟩
    rw [keyOf, hl, hk]

/-- The entry of a key is the one that has it. -/
lemma entryOf?_of_mem {t : Tally M} (ht : t.keys.Nodup) {x : SourcePosition × TallyEntry M}
    (hx : x ∈ t.entries) : t.entryOf? (keyOf x) = some x.2 := by
  have hfind : t.entries.find? (keyOf · = keyOf x) = some x := by
    cases h : t.entries.find? (keyOf · = keyOf x) with
    | none => exact absurd (List.find?_eq_none.mp h x hx) (by simp)
    | some y =>
      have hk : keyOf y = keyOf x := by simpa using List.find?_some h
      rw [List.inj_on_of_nodup_map ht (List.mem_of_find?_eq_some h) hx hk]
  rw [entryOf?, hfind]
  rfl

/-- A key has an entry exactly if it is among the keys. -/
lemma isSome_entryOf? {t : Tally M} {k : AccessKey} :
    (t.entryOf? k).isSome = true ↔ k ∈ t.keys := by
  simp [entryOf?, keys]

/-! ## Recording -/

/-- What inserting makes of entries: it merges the executions into the entry of their key, or puts
them behind the entries that are not at later locations. -/
inductive Inserted [Statistic M] (l : SourcePosition) (e : TallyEntry M) :
    List (SourcePosition × TallyEntry M) → List (SourcePosition × TallyEntry M) → Prop where
  | merged {front x back} : (∀ y ∈ front, keyOf y ≠ e.key l) → keyOf x = e.key l →
    Inserted l e (front ++ x :: back) (front ++ (l, x.2.merge e) :: back)
  | added {front back} : (∀ y ∈ front, keyOf y ≠ e.key l ∧ y.1 ≤ l) →
    (∀ y ∈ back.head?, l < y.1) → Inserted l e (front ++ back) (front ++ (l, e) :: back)

section Recording

variable {l : SourcePosition} {e : TallyEntry M}
  {entries inserted front back : List (SourcePosition × TallyEntry M)}
  {x : SourcePosition × TallyEntry M}

/-- Entries that begin at a later location are all at later ones. -/
lemma lt_of_mem_back (h : (front ++ back).Pairwise (·.1 ≤ ·.1))
    (hback : ∀ y ∈ back.head?, l < y.1) : ∀ y ∈ back, l < y.1 := by
  have hordered := (List.pairwise_append.mp h).2.1
  cases back with
  | nil => exact nofun
  | cons head rest =>
    have hlt : l < head.1 := hback head rfl
    refine List.forall_mem_cons.mpr ⟨hlt, ?_⟩
    intro y hy
    exact hlt.trans_le ((List.pairwise_cons.mp hordered).1 y hy)

/-- Executions are only added under a new key. -/
lemma key_notMem_of_added (h : (front ++ back).Pairwise (·.1 ≤ ·.1))
    (hfront : ∀ y ∈ front, keyOf y ≠ e.key l ∧ y.1 ≤ l) (hback : ∀ y ∈ back.head?, l < y.1) :
    e.key l ∉ (front ++ back).map keyOf := by
  intro hmem
  obtain ⟨y, hy, hkey⟩ := List.mem_map.mp hmem
  rcases List.mem_append.mp hy with hy | hy
  · exact (hfront y hy).1 hkey
  · exact (lt_of_mem_back h hback y hy).ne (congrArg AccessKey.location hkey).symm

variable [Statistic M]

/-- Merging an entry with one of its key leaves the key. -/
lemma keyOf_merge (h : keyOf x = e.key l) : keyOf (l, x.2.merge e) = keyOf x := by
  rw [keyOf, keyOf, TallyEntry.key_merge, (keyOf_eq_iff.mp h).1]

/-- Merging an entry with one of its key leaves all keys. -/
lemma map_keyOf_merge (h : keyOf x = e.key l) :
    (front ++ (l, x.2.merge e) :: back).map keyOf = (front ++ x :: back).map keyOf := by
  rw [List.map_append, List.map_cons, keyOf_merge h, List.map_append, List.map_cons]

/-- Inserting goes on behind an entry with another key at the same or an earlier location. -/
lemma Inserted.cons (h : Inserted l e entries inserted) (hkey : keyOf x ≠ e.key l)
    (hle : x.1 ≤ l) : Inserted l e (x :: entries) (x :: inserted) := by
  cases h with
  | merged hfront hx =>
    rw [← List.cons_append, ← List.cons_append]
    exact .merged (List.forall_mem_cons.mpr ⟨hkey, hfront⟩) hx
  | added hfront hback =>
    rw [← List.cons_append, ← List.cons_append]
    exact .added (List.forall_mem_cons.mpr ⟨⟨hkey, hle⟩, hfront⟩) hback

/-- Inserting merges the entry into the one of its key, or puts it behind all at its location. -/
lemma inserted_insert (l : SourcePosition) (e : TallyEntry M)
    (entries : List (SourcePosition × TallyEntry M)) :
    Inserted l e entries (insert l e entries) := by
  induction entries with
  | nil =>
    have hnew : Inserted l e ([] ++ []) ([] ++ [(l, e)]) :=
      .added (List.forall_mem_nil _) (by simp)
    exact hnew
  | cons head rest ih =>
    rw [insert]
    split
    · next htakes =>
      have hmerge : Inserted l e ([] ++ head :: rest) ([] ++ (l, head.2.merge e) :: rest) :=
        .merged (List.forall_mem_nil _) (keyOf_eq_iff.mpr htakes)
      exact hmerge
    · next hother =>
      split
      · next hlt =>
        have hnew : Inserted l e ([] ++ head :: rest) ([] ++ (l, e) :: head :: rest) := by
          refine .added (List.forall_mem_nil _) ?_
          rintro _ ⟨⟩
          exact hlt
        exact hnew
      · next hnotlt =>
        exact ih.cons (fun hkey => hother (keyOf_eq_iff.mp hkey)) (not_lt.mp hnotlt)

/-- What recording makes of the entries of a tally. -/
lemma inserted_record (t : Tally M) (l : SourcePosition) (e : TallyEntry M) :
    Inserted l e t.entries (t.record l e).entries := by
  rw [entries_record]
  exact inserted_insert l e t.entries

/-- Inserting leaves the locations in ascending order. -/
lemma Inserted.ordered (h : Inserted l e entries inserted)
    (hordered : entries.Pairwise (·.1 ≤ ·.1)) : inserted.Pairwise (·.1 ≤ ·.1) := by
  cases h with
  | @merged front x back hfront hx =>
    have hlocations : (front ++ (l, x.2.merge e) :: back).map (·.1) =
        (front ++ x :: back).map (·.1) := by
      rw [List.map_append, List.map_cons, ← (keyOf_eq_iff.mp hx).1, List.map_append, List.map_cons]
    rw [← List.pairwise_map, hlocations, List.pairwise_map]
    exact hordered
  | @added front back hfront hback =>
    have hlt := lt_of_mem_back hordered hback
    rw [List.pairwise_append] at hordered
    obtain ⟨hfronts, hbacks, hacross⟩ := hordered
    rw [List.pairwise_append, List.pairwise_cons]
    refine ⟨hfronts, ⟨fun y hy => (hlt y hy).le, hbacks⟩, ?_⟩
    intro y hy z hz
    cases hz with
    | head => exact (hfront y hy).2
    | tail _ hz => exact hacross y hy z hz

/-- Inserting leaves each key with one entry. -/
lemma Inserted.nodup_keys (h : Inserted l e entries inserted)
    (hordered : entries.Pairwise (·.1 ≤ ·.1)) (hk : (entries.map keyOf).Nodup) :
    (inserted.map keyOf).Nodup := by
  cases h with
  | merged hfront hx =>
    rw [map_keyOf_merge hx]
    exact hk
  | added hfront hback =>
    have hnew := key_notMem_of_added hordered hfront hback
    rw [List.map_append] at hnew hk
    rw [List.map_append, List.map_cons, List.nodup_middle, List.nodup_cons]
    exact ⟨hnew, hk⟩

/-- The entry that inserting leaves under a key. -/
lemma Inserted.find?_eq (h : Inserted l e entries inserted)
    (hordered : entries.Pairwise (·.1 ≤ ·.1)) (k : AccessKey) :
    (inserted.find? (keyOf · = k)).map (·.2) =
      if k = e.key l then
        some (((entries.find? (keyOf · = k)).map (·.2)).elim e (·.merge e))
      else (entries.find? (keyOf · = k)).map (·.2) := by
  cases h with
  | @merged front x back hfront hx =>
    have hmerge : keyOf (l, x.2.merge e) = e.key l := (keyOf_merge hx).trans hx
    by_cases hk : k = e.key l
    · have hnone : front.find? (keyOf · = e.key l) = none := by
        rw [List.find?_eq_none]
        intro y hy
        simpa using hfront y hy
      simp [List.find?_append, hk, hnone, hx, hmerge]
    · simp [List.find?_append, hk, hx, hmerge, Ne.symm hk]
  | @added front back hfront hback =>
    have hnew := key_notMem_of_added hordered hfront hback
    have hkey : keyOf (l, e) = e.key l := rfl
    by_cases hk : k = e.key l
    · have hnone : ∀ y ∈ front ++ back, ¬decide (keyOf y = e.key l) = true := by
        intro y hy hsame
        exact hnew (List.mem_map.mpr ⟨y, hy, of_decide_eq_true hsame⟩)
      have hfronts : front.find? (keyOf · = e.key l) = none :=
        List.find?_eq_none.mpr fun y hy => hnone y (List.mem_append_left _ hy)
      rw [hk, List.find?_eq_none.mpr hnone]
      simp [List.find?_append, hfronts, hkey]
    · simp [List.find?_append, hk, hkey, Ne.symm hk]

/-- Recording keeps a tally well-formed. -/
lemma IsWellFormed.record {t : Tally M} (ht : t.IsWellFormed) (l : SourcePosition)
    (e : TallyEntry M) : (t.record l e).IsWellFormed where
  ordered := (inserted_record t l e).ordered ht.ordered
  nodup := (inserted_record t l e).nodup_keys ht.ordered ht.nodup
  filled := ht.filled.record l e

/-- Recording changes no entry but that of the executions, which takes them in. -/
lemma IsWellFormed.entryOf?_record {t : Tally M} (ht : t.IsWellFormed) (l : SourcePosition)
    (e : TallyEntry M) (k : AccessKey) :
    (t.record l e).entryOf? k =
      if k = e.key l then some ((t.entryOf? k).elim e (·.merge e)) else t.entryOf? k :=
  (inserted_record t l e).find?_eq ht.ordered k

end Recording

/-! ## Entries worth reporting -/

/-- If all entries are asked for, all are shown. -/
lemma worthReporting_true [Statistic M] (t : Tally M) : t.worthReporting true = t.entries :=
  List.filter_eq_self.mpr fun _ _ => rfl

/-- Entries worth reporting are those whose statistic shows an inefficiency. -/
lemma mem_worthReporting [Statistic M] {t : Tally M} {x : SourcePosition × TallyEntry M} :
    x ∈ t.worthReporting false ↔
      x ∈ t.entries ∧ Statistic.isInefficient x.2.statistic = true :=
  List.mem_filter

/-- Uses of cache lines are worth reporting unless exactly the needed lines are used. -/
lemma worthReporting_cacheUsage (t : Tally CacheUsage) :
    t.worthReporting false =
      t.entries.filter fun x => x.2.statistic.used ≠ x.2.statistic.needed := by
  refine List.filter_congr ?_
  intro x _
  rw [Bool.eq_iff_iff]
  simp [Statistic.isInefficient, CacheUsage.isEfficient]

/-- Conflicts are worth reporting if there are any. -/
lemma worthReporting_conflictTotal (t : Tally ConflictTotal) :
    t.worthReporting false = t.entries.filter fun x => 0 < x.2.statistic.total :=
  rfl

end Tally

end WaveAccess
