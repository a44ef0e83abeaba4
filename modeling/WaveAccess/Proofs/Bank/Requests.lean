import WaveAccess.Proofs.Bank.Demand
import WaveAccess.Proofs.KeyedList

/-!
# Requests for conflict counts

Bank tables that were built from partitions and have answered any requests are as they were built:
what a request registers is cleared before its answer is given. So the answer to a request is the
same at every point of every history, and it is the one that the demand on the banks gives.
-/

namespace WaveAccess.BankTables
open BankTable LanePartition

/-! ## Tables by size -/

/-- The last of the partitions for accesses of a size. -/
def lastOf? (partitions : List LanePartition) (size : UInt16) : Option LanePartition :=
  partitions.reverse.find? (·.size == size)

/-- Tables are put under the size that they are for. -/
lemma putsUnderKey_put : PutsUnderKey put where
  nil _ _ := rfl
  cons _ _ _ _ := rfl

/-- The tables of a size are those of the last partition for it. -/
lemma tables?_ofPartitions (partitions : List LanePartition) (size : UInt16) :
    (ofPartitions partitions).tables? size =
      (lastOf? partitions size).map fun p => p.groups.map BankTable.ofLanes := by
  -- what was put before the partitions came is found only where none of them is
  have hfold : ∀ entries : List (UInt16 × List BankTable),
      (partitions.foldl (fun entries p => put p.size (p.groups.map BankTable.ofLanes) entries)
          entries).lookup size =
        ((lastOf? partitions size).map fun p => p.groups.map BankTable.ofLanes).or
          (entries.lookup size) := by
    induction partitions with
    | nil => intro entries; rfl
    | cons p rest ih =>
      intro entries
      rw [List.foldl_cons, ih, putsUnderKey_put.lookup_eq, lastOf?, lastOf?, List.reverse_cons,
        List.find?_append]
      cases rest.reverse.find? (·.size == size) with
      | some q => rfl
      | none => by_cases h : size = p.size <;> simp [h, Ne.symm]
  exact (hfold []).trans (Option.or_none)

/-- The partition found for a size is one of those given, and is for that size. -/
lemma mem_of_lastOf? {partitions : List LanePartition} {size : UInt16} {p : LanePartition}
    (h : lastOf? partitions size = some p) : p ∈ partitions ∧ p.size = size := by
  have hsize := List.find?_some (p := fun q : LanePartition => q.size == size) h
  exact ⟨List.mem_reverse.mp (List.mem_of_find?_eq_some h), eq_of_beq hsize⟩

/-- The hardware has tables for accesses of up to sixteen bytes. -/
lemma isSome_lastOf?_hardware {size : UInt16} :
    (lastOf? LanePartition.hardware size).isSome = true ↔ size ∈ [1, 2, 4, 8, 16] := by
  have hsizes : LanePartition.hardware.map (·.size) = [1, 2, 4, 8, 16] := by rfl
  rw [lastOf?, List.find?_isSome, ← hsizes, List.mem_map]
  simp

/-- The fresh tables of separate groups have disjoint groups. -/
lemma disjoint_ofLanes {groups : List (List Nat)} (h : Separate groups) :
    Disjoint (groups.map BankTable.ofLanes) := by
  rw [Disjoint, List.map_map]
  exact (List.map_id groups).symm ▸ h

/-- Clearing takes back all that the fresh tables of groups have absorbed. -/
lemma clear_absorb_groups (groups : List (List Nat)) (accesses : List LaneAddress) :
    ((groups.map BankTable.ofLanes).map (·.absorb accesses)).map BankTable.clear =
      groups.map BankTable.ofLanes := by
  rw [List.map_map, List.map_map]
  exact List.map_congr_left fun group _ => clear_absorb_ofLanes group accesses

/-- The conflicts of tables that were built empty are those of the partition. -/
lemma sum_conflicts_absorb (p : LanePartition) (accesses : List LaneAddress) :
    (((p.groups.map BankTable.ofLanes).map (·.absorb accesses)).map
        BankTable.conflicts).foldr (· + ·) 0 = p.conflictsOf accesses.toFinset := by
  have hgroup : ∀ group ∈ p.groups,
      ((BankTable.conflicts ∘ (·.absorb accesses)) ∘ BankTable.ofLanes) group =
        Bank.peak group accesses.toFinset - 1 :=
    fun group _ => conflicts_absorb group accesses
  rw [List.map_map, List.map_map, List.map_congr_left hgroup, conflictsOf, List.sum_eq_foldr]

/-! ## One request -/

/-- Nothing stands against an access of some bytes whose address is aligned. -/
lemma breakdown?_eq_none_iff {size : UInt16} {a : LaneAddress} (h : size ≠ 0) :
    breakdown? size a = none ↔ size.toNat ∣ a.address.toNat := by
  rw [breakdown?, if_neg h, Nat.dvd_iff_mod_eq_zero]
  by_cases hmod : a.address.toNat % size.toNat = 0 <;> simp [hmod]

/-- Tables as they are built count an access against which nothing stands, and stay so. -/
lemma countConflicts_of_lastOf? {partitions : List LanePartition}
    (accepted : ∀ p ∈ partitions, p.IsAccepted) {size : UInt16} {p : LanePartition}
    (hp : lastOf? partitions size = some p) {accesses : List LaneAddress}
    (ha : ∀ a ∈ accesses, breakdown? size a = none) :
    ∃ uncovered, (ofPartitions partitions).countConflicts size accesses =
      .ok ⟨p.conflictsOf accesses.toFinset, uncovered, ofPartitions partitions⟩ := by
  have htables : (ofPartitions partitions).tables? size =
      some (p.groups.map BankTable.ofLanes) := by
    rw [tables?_ofPartitions, hp]
    rfl
  have hdisjoint := disjoint_ofLanes (accepted p (mem_of_lastOf? hp).1).separate
  obtain ⟨uncovered, hregister⟩ := registerAll_ok hdisjoint ha
  refine ⟨uncovered, ?_⟩
  rw [countConflicts, htables]
  simp only [hregister]
  rw [clear_absorb_groups, sum_conflicts_absorb, putsUnderKey_put.eq_of_lookup htables]

/-- A count that was made lists the lanes that belong to no group. -/
lemma uncovered_countConflicts {t : BankTables} {size : UInt16} {tables : List BankTable}
    (htables : t.tables? size = some tables) {accesses : List LaneAddress} {count : ConflictCount}
    (h : t.countConflicts size accesses = .ok count) :
    count.uncovered = lanesOutside (tables.map BankTable.lanes) accesses := by
  rw [countConflicts, htables] at h
  dsimp only at h
  split at h
  · cases h
  · next hregister =>
    cases h
    exact uncovered_registerAll hregister

/-- The tables of the hardware count the conflicts of an aligned access in the groups of its size,
and stay as they were. -/
lemma countConflicts_hardware {size : UInt16} (supported : hardware.supports size = true) :
    ∃ p ∈ LanePartition.hardware, p.size = size ∧
      ∀ accesses : List LaneAddress, (∀ a ∈ accesses, size.toNat ∣ a.address.toNat) →
        hardware.countConflicts size accesses =
          .ok ⟨p.conflictsOf accesses.toFinset, lanesOutside p.groups accesses, hardware⟩ := by
  rw [supports, hardware, tables?_ofPartitions, Option.isSome_map] at supported
  have hpos : size ≠ 0 := by
    rintro rfl
    have hzero : (0 : UInt16) ∈ [1, 2, 4, 8, 16] := isSome_lastOf?_hardware.mp supported
    revert hzero
    decide
  obtain ⟨p, hp⟩ := Option.isSome_iff_exists.mp supported
  obtain ⟨hmem, rfl⟩ := mem_of_lastOf? hp
  refine ⟨p, hmem, rfl, ?_⟩
  intro accesses haligned
  have hstands : ∀ a ∈ accesses, breakdown? p.size a = none := by
    intro a ha
    exact (breakdown?_eq_none_iff hpos).mpr (haligned a ha)
  obtain ⟨uncovered, hcount⟩ :=
    countConflicts_of_lastOf? (fun _ => isAccepted_of_mem_hardware) hp hstands
  have htables : hardware.tables? p.size = some (p.groups.map BankTable.ofLanes) := by
    rw [hardware, tables?_ofPartitions, hp]
    rfl
  have hlanes : (p.groups.map BankTable.ofLanes).map BankTable.lanes = p.groups := by
    rw [List.map_map]
    exact List.map_id _
  have huncovered : uncovered = lanesOutside p.groups accesses := by
    rw [← hlanes]
    exact uncovered_countConflicts htables hcount
  rw [← huncovered]
  exact hcount

/-- A count that was made is that of the last partition for the size, and the tables stay as they
were. -/
lemma countConflicts_ok {partitions : List LanePartition}
    (accepted : ∀ p ∈ partitions, p.IsAccepted) {size : UInt16} {accesses : List LaneAddress}
    {count : ConflictCount}
    (h : (ofPartitions partitions).countConflicts size accesses = .ok count) :
    (∃ p, lastOf? partitions size = some p ∧ count.conflicts = p.conflictsOf accesses.toFinset) ∧
      count.tables = ofPartitions partitions := by
  cases hp : lastOf? partitions size with
  | none =>
    rw [countConflicts, tables?_ofPartitions, hp] at h
    cases h
  | some p =>
    by_cases ha : ∀ a ∈ accesses, breakdown? size a = none
    · obtain ⟨uncovered, hcount⟩ := countConflicts_of_lastOf? accepted hp ha
      rw [hcount] at h
      cases h
      exact ⟨⟨p, rfl, rfl⟩, rfl⟩
    · -- a registration that fails makes no count
      push Not at ha
      obtain ⟨b, hb⟩ :=
        (registerAll_eq_error_iff size (p.groups.map BankTable.ofLanes)).mpr ha
      rw [countConflicts, tables?_ofPartitions, hp] at h
      simp only [Option.map_some, hb] at h
      cases h

/-- A size is not supported only if there is no partition for it. -/
lemma lastOf?_of_unsupported {partitions : List LanePartition} {size : UInt16}
    {accesses : List LaneAddress} {e : UnsupportedSize}
    (h : (ofPartitions partitions).countConflicts size accesses = .error (.unsupported e)) :
    lastOf? partitions size = none := by
  cases hp : lastOf? partitions size with
  | none => rfl
  | some p =>
    rw [countConflicts, tables?_ofPartitions, hp] at h
    simp only [Option.map_some] at h
    split at h <;> cases h

/-! ## Histories of requests -/

/-- An access whose conflicts are asked for. -/
structure Request where
  size : UInt16
  accesses : List LaneAddress

/-- The answer to a request, and the tables for the next one. -/
def answer (t : BankTables) (r : Request) :
    Except Breakdown (Except UnsupportedSize Nat × BankTables) :=
  match t.countConflicts r.size r.accesses with
  | .ok count => .ok (.ok count.conflicts, count.tables)
  | .error (.unsupported e) => .ok (.error e, t)
  | .error (.breakdown b) => .error b

/-- The answers to requests that come one after the other. -/
def answerAll (t : BankTables) :
    List Request → Except Breakdown (List (Except UnsupportedSize Nat) × BankTables)
  | [] => .ok ([], t)
  | r :: rest =>
    match t.answer r with
    | .error b => .error b
    | .ok (first, t) => (answerAll t rest).map fun (others, t) => (first :: others, t)

/-- No table of any size holds a word. -/
def AllEmpty (t : BankTables) : Prop :=
  ∀ entry ∈ t.bySize, ∀ table ∈ entry.2, table.words = []

/-- The tables of partitions hold nothing at first. -/
lemma allEmpty_ofPartitions (partitions : List LanePartition) :
    (ofPartitions partitions).AllEmpty := by
  suffices h : ∀ entries, AllEmpty ⟨entries⟩ → AllEmpty ⟨partitions.foldl
      (fun entries p => put p.size (p.groups.map BankTable.ofLanes) entries) entries⟩ from
    h [] nofun
  induction partitions with
  | nil => exact fun _ h => h
  | cons p rest ih =>
    intro entries h
    apply ih
    intro entry hentry table htable
    rcases putsUnderKey_put.mem hentry with rfl | hentry
    · obtain ⟨group, -, rfl⟩ := List.mem_map.mp htable
      rfl
    · exact h entry hentry table htable

/-- A request that is answered leaves the tables as they are built. -/
lemma answer_ok {partitions : List LanePartition} (accepted : ∀ p ∈ partitions, p.IsAccepted)
    {r : Request} {a : Except UnsupportedSize Nat} {t : BankTables}
    (h : (ofPartitions partitions).answer r = .ok (a, t)) : t = ofPartitions partitions := by
  unfold answer at h
  split at h
  · next count hcount =>
    cases h
    exact (countConflicts_ok accepted hcount).2
  · cases h; rfl
  · cases h

/-- Requests that are answered leave the tables as they are built. -/
lemma answerAll_ok {partitions : List LanePartition} (accepted : ∀ p ∈ partitions, p.IsAccepted)
    {requests : List Request} {answers : List (Except UnsupportedSize Nat)} {t : BankTables}
    (h : (ofPartitions partitions).answerAll requests = .ok (answers, t)) :
    t = ofPartitions partitions := by
  induction requests generalizing answers with
  | nil => cases h; rfl
  | cons r rest ih =>
    rw [answerAll] at h
    cases hr : (ofPartitions partitions).answer r with
    | error b => rw [hr] at h; cases h
    | ok first =>
      obtain ⟨a, t'⟩ := first
      rw [hr, answer_ok accepted hr] at h
      cases hrest : (ofPartitions partitions).answerAll rest with
      | error b => simp [hrest, Except.map] at h
      | ok others =>
        obtain ⟨others, t''⟩ := others
        simp only [hrest, Except.map, Except.ok.injEq, Prod.mk.injEq] at h
        obtain ⟨-, rfl⟩ := h
        exact ih hrest

/-- The pairs that accesses list for lanes of the wavefront. -/
def wavePairs (accesses : List LaneAddress) : Finset LaneAddress :=
  (accesses.filter fun a => a.lane.toNat < waveLanes).toFinset

/-- Only pairs of the wavefront count for an accepted partition. -/
lemma conflictsOf_wavePairs {p : LanePartition} (hp : p.IsAccepted) (accesses : List LaneAddress) :
    p.conflictsOf (wavePairs accesses) = p.conflictsOf accesses.toFinset := by
  apply hp.conflictsOf_congr
  intro a ha
  simp [wavePairs, ha]

/-- After any requests, a request for aligned accesses of a supported size is answered with the
conflicts of its own pairs, and whatever is answered, all tables are empty afterwards. -/
theorem answer_after_requests {partitions : List LanePartition}
    (accepted : ∀ p ∈ partitions, p.IsAccepted) {requests : List Request}
    {answers : List (Except UnsupportedSize Nat)} {t : BankTables}
    (answered : (ofPartitions partitions).answerAll requests = .ok (answers, t)) :
    t.AllEmpty ∧
      (∀ r : Request, t.supports r.size = true → r.size ≠ 0 →
        (∀ a ∈ r.accesses, r.size.toNat ∣ a.address.toNat) →
        ∃ p t', lastOf? partitions r.size = some p ∧
          t.answer r = .ok (.ok (p.conflictsOf (wavePairs r.accesses)), t')) ∧
      ∀ r a t', t.answer r = .ok (a, t') → t'.AllEmpty := by
  -- the requests so far have left no trace
  have ht : t = ofPartitions partitions := answerAll_ok accepted answered
  subst ht
  refine ⟨allEmpty_ofPartitions partitions, ?_, ?_⟩
  · intro r hsupports hsize haligned
    rw [supports, tables?_ofPartitions, Option.isSome_map] at hsupports
    obtain ⟨p, hp⟩ := Option.isSome_iff_exists.mp hsupports
    have hstands : ∀ a ∈ r.accesses, breakdown? r.size a = none := by
      intro a ha
      exact (breakdown?_eq_none_iff hsize).mpr (haligned a ha)
    obtain ⟨uncovered, hcount⟩ := countConflicts_of_lastOf? accepted hp hstands
    refine ⟨p, ofPartitions partitions, hp, ?_⟩
    rw [answer, hcount, conflictsOf_wavePairs (accepted p (mem_of_lastOf? hp).1)]
  · intro r a t' h
    rw [answer_ok accepted h]
    exact allEmpty_ofPartitions partitions

/-- After two requests, of which one was turned away, lanes 0 and 1 of a third conflict once,
although it lists one pair twice, the lanes in descending order and a lane beyond the wavefront. -/
theorem answer_after_two_requests :
    ∃ (t : BankTables) (p : LanePartition),
      (ofPartitions LanePartition.hardware).answerAll
          [⟨4, [⟨2, 256⟩, ⟨3, 384⟩]⟩, ⟨12, [⟨0, 5⟩]⟩] = .ok ([.ok 1, .error ⟨12⟩], t) ∧
        lastOf? LanePartition.hardware 4 = some p ∧
        p.conflictsOf (wavePairs [⟨1, 128⟩, ⟨0, 0⟩, ⟨1, 128⟩, ⟨70, 512⟩]) = 1 := by
  have answered : (ofPartitions LanePartition.hardware).answerAll
      [⟨4, [⟨2, 256⟩, ⟨3, 384⟩]⟩, ⟨12, [⟨0, 5⟩]⟩] =
        .ok ([.ok 1, .error ⟨12⟩], ofPartitions LanePartition.hardware) := by rfl
  obtain ⟨-, h, -⟩ := answer_after_requests (fun _ => isAccepted_of_mem_hardware) answered
  obtain ⟨p, t', hp, hanswer⟩ :=
    h ⟨4, [⟨1, 128⟩, ⟨0, 0⟩, ⟨1, 128⟩, ⟨70, 512⟩]⟩ (by decide) (by decide) (by decide)
  have hone : (ofPartitions LanePartition.hardware).answer
      ⟨4, [⟨1, 128⟩, ⟨0, 0⟩, ⟨1, 128⟩, ⟨70, 512⟩]⟩ =
        .ok (.ok 1, ofPartitions LanePartition.hardware) := by rfl
  rw [hone] at hanswer
  simp only [Except.ok.injEq, Prod.mk.injEq] at hanswer
  exact ⟨_, p, answered, hp, hanswer.1.symm⟩

end WaveAccess.BankTables
