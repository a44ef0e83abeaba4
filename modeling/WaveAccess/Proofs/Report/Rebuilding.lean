import WaveAccess.Proofs.Report.Readings
import WaveAccess.Proofs.Session.SharedTally
import WaveAccess.Proofs.Tally.Permutation

/-!
# Tallies rebuilt from analyses

The analysis of a dispatch lists accesses one after the other, each with the words for its
direction, and leaves out what is the same for all accesses to the local data share. Nothing is lost
by this: when the accesses are recorded again in the order in which they are listed, both tallies
come back, with their counters as 64-bit words hold them.
-/

namespace WaveAccess

/-! ## Recording entries again -/

namespace Tally

variable {M : Type} [Statistic M]

/-- An entry of a new key that is before no other is put at the end. -/
lemma insert_eq_append {l : SourcePosition} {e : TallyEntry M}
    {entries : List (SourcePosition × TallyEntry M)} (hle : ∀ x ∈ entries, x.1 ≤ l)
    (hkey : e.key l ∉ entries.map keyOf) : insert l e entries = entries ++ [(l, e)] := by
  have hinserted := inserted_insert l e entries
  generalize insert l e entries = inserted at hinserted ⊢
  cases hinserted with
  | merged _ hx => exact absurd (List.mem_map.mpr ⟨_, by simp, hx⟩) hkey
  | @added front back _ hback =>
    cases back with
    | nil => rw [List.append_nil]
    | cons head rest => exact absurd (hback head rfl) (hle head (by simp)).not_gt

/-- Recording the entries of a well-formed tally one after the other gives the tally again. -/
lemma IsWellFormed.ofExecutions_entries {t : Tally M} (ht : t.IsWellFormed) :
    ofExecutions t.entries = t := by
  -- along the entries, those that were recorded are the ones before
  have hprefix : ∀ before rest (t' : Tally M), t'.entries = before → t.entries = before ++ rest →
      (t'.recordAll rest).entries = t.entries := by
    intro before rest
    induction rest generalizing before with
    | nil =>
      intro t' hbefore h
      rw [h, List.append_nil]
      exact hbefore
    | cons x rest ih =>
      intro t' hbefore h
      have hordered := ht.ordered
      have hnodup := ht.nodup
      rw [h, List.pairwise_append] at hordered
      rw [keys, h, List.map_append, List.nodup_append] at hnodup
      have hle : ∀ y ∈ before, y.1 ≤ x.1 := fun y hy =>
        hordered.2.2 y hy x List.mem_cons_self
      have hkey : x.2.key x.1 ∉ before.map keyOf := by
        intro hmem
        exact hnodup.2.2 _ hmem _ (List.mem_map_of_mem List.mem_cons_self) rfl
      have hnext : (t'.record x.1 x.2).entries = before ++ [x] := by
        rw [entries_record, hbefore, insert_eq_append hle hkey]
      rw [Tally.recordAll, List.foldl_cons, ← Tally.recordAll]
      apply ih (before ++ [x]) _ hnext
      rw [h, List.append_assoc]
      rfl
  apply isWellFormed_ofExecutions.filled.ext ht.filled
  exact hprefix [] t.entries empty rfl rfl

end Tally

/-! ## Counters in words -/

/-- Lines as 64-bit words count them. -/
def CacheUsage.inWords (u : CacheUsage) : CacheUsage :=
  ⟨u.needed % 2 ^ 64, u.used % 2 ^ 64⟩

/-- Conflicts as a 64-bit word counts them. -/
def ConflictTotal.inWords (c : ConflictTotal) : ConflictTotal :=
  ⟨c.total % 2 ^ 64⟩

section Words

variable {M : Type} (statistic : M → M)

/-- An entry whose executions a 64-bit word counts. -/
def TallyEntry.inWords (e : TallyEntry M) : TallyEntry M :=
  { e with count := e.count % 2 ^ 64, statistic := statistic e.statistic }

/-- A tally with its counters in 64-bit words. -/
def Tally.inWords (t : Tally M) : Tally M where
  files := t.files.mapValues fun lines =>
    lines.mapValues fun columns =>
      columns.mapValues fun es => es.map (·.inWords statistic)

variable {statistic}

/-- The entries of a tally in words are its own in words. -/
lemma Tally.entries_inWords (t : Tally M) :
    (t.inWords statistic).entries = t.entries.map fun x => (x.1, x.2.inWords statistic) := by
  simp only [entries, inWords, OrderedMap.mapValues, List.flatMap_map, List.map_flatMap,
    List.map_map]
  rfl

/-- Counters in words leave no file, line or column without entries. -/
lemma Tally.IsFilled.inWords {t : Tally M} (ht : t.IsFilled) : (t.inWords statistic).IsFilled := by
  have hentries : ∀ es : List (TallyEntry M), es ≠ [] → es.map (·.inWords statistic) ≠ [] :=
    fun _ => mt List.map_eq_nil_iff.mp
  have hcolumns : ∀ columns : Columns M, Columns.IsFilled columns →
      Columns.IsFilled (columns.mapValues fun es => es.map (·.inWords statistic)) := by
    intro columns h
    exact ⟨OrderedMap.isEmpty_mapValues.trans h.1, h.2.mapValues hentries⟩
  refine OrderedMap.ForallValues.mapValues (q := Lines.IsFilled) ht ?_
  intro lines h
  exact ⟨OrderedMap.isEmpty_mapValues.trans h.1, h.2.mapValues hcolumns⟩

/-- Locations and keys do not depend on the counters. -/
lemma Tally.IsWellFormed.inWords {t : Tally M} (ht : t.IsWellFormed) :
    (t.inWords statistic).IsWellFormed where
  ordered := by
    rw [entries_inWords]
    exact List.pairwise_map.mpr ht.ordered
  nodup := by
    have hkeys : (t.inWords statistic).keys = t.keys := by
      rw [keys, entries_inWords, List.map_map]
      rfl
    rw [hkeys]
    exact ht.nodup
  filled := ht.filled.inWords

/-- A tally whose entries are the same in words is so itself. -/
lemma Tally.IsFilled.inWords_eq_self {t : Tally M} (ht : t.IsFilled)
    (h : (t.entries.map fun x => (x.1, x.2.inWords statistic)) = t.entries) :
    t.inWords statistic = t :=
  ht.inWords.ext ht (t.entries_inWords.trans h)

end Words

/-- No counter of a session has outgrown a 64-bit word. -/
structure Session.CountsInWords (s : Session) : Prop where
  executions : ∀ x ∈ s.global.entries, x.2.count < 2 ^ 64
  needed : ∀ x ∈ s.global.entries, x.2.statistic.needed < 2 ^ 64
  used : ∀ x ∈ s.global.entries, x.2.statistic.used < 2 ^ 64
  sharedExecutions : ∀ x ∈ s.shared.entries, x.2.count < 2 ^ 64
  conflicts : ∀ x ∈ s.shared.entries, x.2.statistic.total < 2 ^ 64

namespace Session.CountsInWords

variable {s : Session} (h : s.CountsInWords)

include h

/-- The entries of global accesses are the same in words. -/
lemma map_global_entries :
    (s.global.entries.map fun x => (x.1, x.2.inWords CacheUsage.inWords)) = s.global.entries := by
  refine (List.map_congr_left ?_).trans (List.map_id _)
  intro x hx
  rw [TallyEntry.inWords, CacheUsage.inWords, Nat.mod_eq_of_lt (h.executions x hx),
    Nat.mod_eq_of_lt (h.needed x hx), Nat.mod_eq_of_lt (h.used x hx)]
  rfl

/-- The entries of accesses to the local data share are the same in words. -/
lemma map_shared_entries :
    (s.shared.entries.map fun x => (x.1, x.2.inWords ConflictTotal.inWords)) =
      s.shared.entries := by
  refine (List.map_congr_left ?_).trans (List.map_id _)
  intro x hx
  rw [TallyEntry.inWords, ConflictTotal.inWords, Nat.mod_eq_of_lt (h.sharedExecutions x hx),
    Nat.mod_eq_of_lt (h.conflicts x hx)]
  rfl

/-- The tally of global accesses is the same in words. -/
lemma global_inWords (hs : s.IsReachable) : s.global.inWords CacheUsage.inWords = s.global :=
  hs.global_isWellFormed.filled.inWords_eq_self h.map_global_entries

/-- The tally of accesses to the local data share is the same in words. -/
lemma shared_inWords (hs : s.IsReachable) : s.shared.inWords ConflictTotal.inWords = s.shared :=
  hs.shared_isWellFormed.filled.inWords_eq_self h.map_shared_entries

end Session.CountsInWords

/-! ## From records to entries -/

/-- The direction that words stand for. -/
def Direction.ofDescription? (s : String) : Option Direction :=
  all.find? (·.description == s)

/-- The words for a direction are read back. -/
lemma Direction.ofDescription?_description (direction : Direction) :
    ofDescription? direction.description = some direction := by
  cases direction <;> rfl

/-- Different directions have different words. -/
lemma Direction.description_injective : Function.Injective Direction.description := by
  intro d d' h
  have hsome : some d = some d' := by
    rw [← ofDescription?_description d, h, ofDescription?_description]
  exact Option.some_inj.mp hsome

/-- The entry that a document describes by the cache lines of an access. -/
def CacheAccessInfo.toEntry (i : CacheAccessInfo) : TallyEntry CacheUsage where
  irSize := i.irBytes
  isaSize := i.isaBytes
  direction := (Direction.ofDescription? i.kind).getD .undefined
  instruction := i.instruction
  count := i.executions.toNat
  statistic := ⟨i.needed.toNat, i.used.toNat⟩

/-- The entry that a document describes by the bank conflicts of an access, whose instruction is not
known. -/
def ConflictAccessInfo.toEntry (i : ConflictAccessInfo) : TallyEntry ConflictTotal where
  irSize := i.irBytes
  isaSize := 0
  direction := (Direction.ofDescription? i.kind).getD .undefined
  instruction := ""
  count := i.executions.toNat
  statistic := ⟨i.conflicts.toNat⟩

/-- What a document says of cache lines gives back the entry, with its counters in words. -/
lemma CacheAccessInfo.toEntry_ofEntry (e : TallyEntry CacheUsage) :
    (ofEntry e).toEntry = e.inWords CacheUsage.inWords := by
  rw [toEntry, ofEntry, Direction.ofDescription?_description]
  rfl

/-- What a document says of conflicts gives back the entry, with its counters in words. -/
lemma ConflictAccessInfo.toEntry_ofEntry {e : TallyEntry ConflictTotal} (hisa : e.isaSize = 0)
    (hinstruction : e.instruction = "") :
    (ofEntry e).toEntry = e.inWords ConflictTotal.inWords := by
  rw [toEntry, ofEntry, Direction.ofDescription?_description, TallyEntry.inWords, hisa,
    hinstruction]
  rfl

section Rebuild

variable {M I : Type} [Statistic M]

/-- The tally in which recorded accesses are recorded again, one after the other. -/
def AccessRecord.rebuild (toEntry : I → TallyEntry M) (records : List (AccessRecord I)) : Tally M :=
  .ofExecutions (records.map fun r => (r.location, toEntry r.info))

/-- Records that keep the entries of a well-formed tally are enough to rebuild it. -/
lemma AccessRecord.rebuild_eq {t : Tally M} (ht : t.IsWellFormed) {describe : TallyEntry M → I}
    {toEntry : I → TallyEntry M} {statistic : M → M}
    (hback : ∀ x ∈ t.entries, toEntry (describe x.2) = x.2.inWords statistic)
    {records : List (AccessRecord I)}
    (hrecords : records.map (fun r => (r.location, r.info)) =
      t.entries.map fun x => (x.1, describe x.2)) :
    rebuild toEntry records = t.inWords statistic := by
  have hentries : (records.map fun r => (r.location, toEntry r.info)) =
      (t.inWords statistic).entries := by
    have h := congrArg (List.map fun p => (p.1, toEntry p.2)) hrecords
    rw [List.map_map, List.map_map] at h
    rw [Tally.entries_inWords]
    exact h.trans (List.map_congr_left fun x hx => Prod.ext rfl (hback x hx))
  rw [rebuild, hentries, ht.inWords.ofExecutions_entries]

end Rebuild

namespace DispatchAnalysis

/-- The tally of global accesses that an analysis lists. -/
def globalTally (a : DispatchAnalysis) : Tally CacheUsage :=
  AccessRecord.rebuild CacheAccessInfo.toEntry a.cache

/-- The tally of accesses to the local data share that an analysis lists. -/
def sharedTally (a : DispatchAnalysis) : Tally ConflictTotal :=
  AccessRecord.rebuild ConflictAccessInfo.toEntry a.conflicts

/-- An analysis lists the entries of a session in their order, at ascending locations and each under
a key of its own. -/
structure Lists (a : DispatchAnalysis) (s : Session) : Prop where
  cache : a.cache.map (fun r => (r.location, r.info)) =
    s.global.entries.map fun x => (x.1, CacheAccessInfo.ofEntry x.2)
  conflicts : a.conflicts.map (fun r => (r.location, r.info)) =
    s.shared.entries.map fun x => (x.1, ConflictAccessInfo.ofEntry x.2)
  cacheOrdered : (a.cache.map (·.location)).Pairwise (· ≤ ·)
  conflictsOrdered : (a.conflicts.map (·.location)).Pairwise (· ≤ ·)
  cacheDistinct :
    (a.cache.map fun r => (r.location, r.info.irBytes, r.info.isaBytes, r.info.kind)).Nodup
  conflictsDistinct : (a.conflicts.map fun r => (r.location, r.info.irBytes, r.info.kind)).Nodup

end DispatchAnalysis

/-- What lists entries by their locations and descriptions has them under keys of their own, if what
is left out of the keys is the same for all. -/
lemma Tally.nodup_map_of_keys {M α : Type} {t : Tally M} (ht : t.keys.Nodup)
    {f : SourcePosition × TallyEntry M → α}
    (h : ∀ x ∈ t.entries, ∀ y ∈ t.entries, f x = f y → Tally.keyOf x = Tally.keyOf y) :
    (t.entries.map f).Nodup := by
  have hkeys : t.entries.Pairwise (Tally.keyOf · ≠ Tally.keyOf ·) := List.pairwise_map.mp ht
  apply List.pairwise_map.mpr
  apply hkeys.imp_of_mem
  intro x y hx hy hne heq
  exact hne (h x hx y hy heq)

/-! ## The analysis of a session -/

namespace DispatchAnalysis

/-- The analysis of a session has its kernel and the records of both tallies. -/
lemma answer_ofResults (t : FileTree) (s : Session) (kernelsFound : Option ℕ)
    (slot : SourceSlot) :
    ∃ slot', (ofResults t (s.results kernelsFound)).answer slot = {
      kernel := s.kernel
      cache := SourceReading.answer
        (s.global.entries.mapM (AccessRecord.ofEntry t CacheAccessInfo.ofEntry)) slot
      conflicts := SourceReading.answer
        (s.shared.entries.mapM (AccessRecord.ofEntry t ConflictAccessInfo.ofEntry)) slot' } :=
  ⟨_, rfl⟩

/-- The analysis of a session lists its entries. -/
lemma lists_ofResults {s : Session} (hs : s.IsReachable) (t : FileTree)
    (kernelsFound : Option ℕ) (slot : SourceSlot) :
    ((ofResults t (s.results kernelsFound)).answer slot).Lists s := by
  obtain ⟨slot', hanswer⟩ := answer_ofResults t s kernelsFound slot
  rw [hanswer]
  constructor
  case cache => exact AccessRecord.map_answer t _ (fun _ _ => rfl) _ slot
  case conflicts => exact AccessRecord.map_answer t _ (fun _ _ => rfl) _ slot'
  case cacheOrdered =>
    dsimp only
    rw [AccessRecord.map_answer (g := fun x => x.1) t _ (fun _ _ => rfl) _ slot]
    exact List.pairwise_map.mpr hs.global_isWellFormed.ordered
  case conflictsOrdered =>
    dsimp only
    rw [AccessRecord.map_answer (g := fun x => x.1) t _ (fun _ _ => rfl) _ slot']
    exact List.pairwise_map.mpr hs.shared_isWellFormed.ordered
  case cacheDistinct =>
    dsimp only
    rw [AccessRecord.map_answer (g := fun x => (x.1, x.2.irSize, x.2.isaSize,
      x.2.direction.description)) t _ (fun _ _ => rfl) _ slot]
    apply Tally.nodup_map_of_keys hs.global_isWellFormed.nodup
    intro x _ y _ h
    simp only [Prod.mk.injEq] at h
    obtain ⟨hlocation, hir, hisa, hkind⟩ := h
    rw [Tally.keyOf, Tally.keyOf, TallyEntry.key, TallyEntry.key, hlocation, hir, hisa,
      Direction.description_injective hkind]
  case conflictsDistinct =>
    dsimp only
    rw [AccessRecord.map_answer (g := fun x => (x.1, x.2.irSize, x.2.direction.description)) t _
      (fun _ _ => rfl) _ slot']
    apply Tally.nodup_map_of_keys hs.shared_isWellFormed.nodup
    intro x hx y hy h
    simp only [Prod.mk.injEq] at h
    obtain ⟨hlocation, hir, hkind⟩ := h
    rw [Tally.keyOf, Tally.keyOf, TallyEntry.key, TallyEntry.key, hlocation, hir,
      (hs.shared_plain x hx).1, (hs.shared_plain y hy).1, Direction.description_injective hkind]

variable {a : DispatchAnalysis} {s : Session}

/-- A listed tally is rebuilt. -/
lemma Lists.globalTally_eq (h : a.Lists s) (hs : s.IsReachable) :
    a.globalTally = s.global.inWords CacheUsage.inWords := by
  apply AccessRecord.rebuild_eq hs.global_isWellFormed _ h.cache
  intro x _
  exact CacheAccessInfo.toEntry_ofEntry x.2

/-- The listed accesses to the local data share give back the tally of the session. -/
lemma Lists.sharedTally_eq (h : a.Lists s) (hs : s.IsReachable) :
    a.sharedTally = s.shared.inWords ConflictTotal.inWords := by
  apply AccessRecord.rebuild_eq hs.shared_isWellFormed _ h.conflicts
  intro x hx
  obtain ⟨hisa, hinstruction⟩ := hs.shared_plain x hx
  exact ConflictAccessInfo.toEntry_ofEntry hisa hinstruction

end DispatchAnalysis

/-! ## Listings and analyses -/

/-- What a listing says about an access, in the terms of a document. -/
def CacheAccessInfo.text (i : CacheAccessInfo) : String :=
  s!"\t{i.kind} of {i.irBytes.toNat} bytes at IR level " ++
    s!"({i.isaBytes.toNat} bytes at ISA level: \"{i.instruction}\")\n" ++
    s!"\texecuted {i.executions.toNat} times, {i.needed.toNat} cache lines needed, " ++
    s!"{i.used.toNat} cache lines used\n"

/-- What a listing says about the bank conflicts of an access, in the terms of a document. -/
def ConflictAccessInfo.text (i : ConflictAccessInfo) : String :=
  s!"\t{i.kind} of {i.irBytes.toNat} bytes at IR level\n" ++
    s!"\texecuted {i.executions.toNat} times, {i.conflicts.toNat} bank conflicts in total\n"

/-- Blocks that follow entries follow the records of these entries. -/
lemma AccessRecord.follow_of_entries {M I : Type} {records : List (AccessRecord I)}
    {entries : List (SourcePosition × TallyEntry M)} {describe : TallyEntry M → I}
    (hrecords : records.map (fun r => (r.location, r.info)) =
      entries.map fun x => (x.1, describe x.2))
    {text : I → String} {blocks : List String}
    (h : Listing.Follow (·.1) (fun x => text (describe x.2)) entries blocks) :
    Listing.Follow (·.location) (fun r => text r.info) records blocks := by
  have hmap := List.forall₂_map_left_iff (R := fun p block => Listing.IsBlock p.1 (text p.2) block)
    (f := fun r : AccessRecord I => (r.location, r.info)) (l := records) (u := blocks)
  rw [hrecords, List.forall₂_map_left_iff] at hmap
  exact hmap.mp h

namespace DispatchAnalysis.Lists

variable {a : DispatchAnalysis} {s : Session} (h : a.Lists s) (hwords : s.CountsInWords)
  {blocks : List String}

include h hwords

/-- Blocks that follow the entries of a session follow the records of its analysis. -/
lemma follow_cache
    (hblocks : Listing.Follow (·.1) (Listing.describeCacheUse ·.2) s.global.entries blocks) :
    Listing.Follow (·.location) (·.info.text) a.cache blocks := by
  apply AccessRecord.follow_of_entries h.cache
  rw [← hwords.map_global_entries, Listing.Follow, List.forall₂_map_left_iff] at hblocks
  exact hblocks

/-- The same for accesses to the local data share. -/
lemma follow_conflicts
    (hblocks : Listing.Follow (·.1) (Listing.describeConflicts ·.2) s.shared.entries blocks) :
    Listing.Follow (·.location) (·.info.text) a.conflicts blocks := by
  apply AccessRecord.follow_of_entries h.conflicts
  rw [← hwords.map_shared_entries, Listing.Follow, List.forall₂_map_left_iff] at hblocks
  exact hblocks

end DispatchAnalysis.Lists

/-- The analysis of a session that calls lead to loses nothing. Both tallies are rebuilt from it,
with the counters that 64-bit words hold, so sessions with the same analysis have the same tallies
in such words, and the same tallies altogether as long as no counter has outgrown them. The analysis
lists the entries in their order, each under a key of its own, whether the report is verbose or not.
A verbose listing has a block for each entry in that order, which says the same as the record. -/
theorem Session.analysis_loses_nothing {s : Session} (hs : s.IsReachable) (t : FileTree)
    (kernelsFound : Option ℕ) (slot : SourceSlot) :
    let analysis := (DispatchAnalysis.ofResults t (s.results kernelsFound)).answer slot
    (analysis.globalTally = s.global.inWords CacheUsage.inWords ∧
      analysis.sharedTally = s.shared.inWords ConflictTotal.inWords) ∧
    (s.CountsInWords → analysis.globalTally = s.global ∧ analysis.sharedTally = s.shared) ∧
    (∀ s' : Session, s'.IsReachable → ∀ t' kernelsFound' slot',
      (DispatchAnalysis.ofResults t' (s'.results kernelsFound')).answer slot' = analysis →
      s'.global.inWords CacheUsage.inWords = s.global.inWords CacheUsage.inWords ∧
      s'.shared.inWords ConflictTotal.inWords = s.shared.inWords ConflictTotal.inWords ∧
      (s.CountsInWords → s'.CountsInWords → s'.global = s.global ∧ s'.shared = s.shared)) ∧
    analysis.Lists s ∧
    (∀ verbose, (DispatchAnalysis.ofResults t { s.results kernelsFound with verbose }).answer slot =
      analysis) ∧
    ∀ t' kernelsFound' slot', ∃ cacheBlocks conflictBlocks,
      (Listing.render t' { s.results kernelsFound' with verbose := true }).answer slot' =
        Listing.heading s.kernel ++ Listing.cacheText cacheBlocks ++
          Listing.conflictText conflictBlocks ∧
      Listing.Follow (·.1) (Listing.describeCacheUse ·.2) s.global.entries cacheBlocks ∧
      Listing.Follow (·.1) (Listing.describeConflicts ·.2) s.shared.entries conflictBlocks ∧
      (s.CountsInWords →
        Listing.Follow (·.location) (·.info.text) analysis.cache cacheBlocks ∧
        Listing.Follow (·.location) (·.info.text) analysis.conflicts conflictBlocks) := by
  intro analysis
  have hlists : analysis.Lists s := DispatchAnalysis.lists_ofResults hs t kernelsFound slot
  have hglobal := hlists.globalTally_eq hs
  have hshared := hlists.sharedTally_eq hs
  refine ⟨⟨hglobal, hshared⟩, ?_, ?_, hlists, fun _ => rfl, ?_⟩
  · intro hwords
    rw [hglobal, hshared, hwords.global_inWords hs, hwords.shared_inWords hs]
    exact ⟨rfl, rfl⟩
  · intro s' hs' t' kernelsFound' slot' heq
    have hlists' := DispatchAnalysis.lists_ofResults hs' t' kernelsFound' slot'
    rw [heq] at hlists'
    have hglobal' := (hlists'.globalTally_eq hs').symm.trans hglobal
    have hshared' := (hlists'.sharedTally_eq hs').symm.trans hshared
    refine ⟨hglobal', hshared', ?_⟩
    intro hwords hwords'
    rw [hwords'.global_inWords hs', hwords.global_inWords hs] at hglobal'
    rw [hwords'.shared_inWords hs', hwords.shared_inWords hs] at hshared'
    exact ⟨hglobal', hshared'⟩
  · intro t' kernelsFound' slot'
    obtain ⟨cacheBlocks, conflictBlocks, htext, hcache, hconflicts⟩ :=
      Listing.answer_render t' { s.results kernelsFound' with verbose := true } slot'
    rw [Tally.worthReporting_true] at hcache hconflicts
    refine ⟨cacheBlocks, conflictBlocks, htext, hcache, hconflicts, ?_⟩
    intro hwords
    exact ⟨hlists.follow_cache hwords hcache, hlists.follow_conflicts hwords hconflicts⟩

namespace Session

/-- A lane reads from global memory, and two lanes read two words of one bank. -/
def twoReads : List Call := [.message (globalRead 0) none, .message sharedRead none]

/-- One of the two reads is executed in global memory. -/
lemma executions_of_twoReads : twoReads.filterMap Call.execution? =
    [(⟨unknownSourceFile, 7, 1⟩, ⟨4, 0, .read, "", 1, ⟨1, 1⟩⟩)] := by
  have hshared : (Call.message sharedRead none).execution? = none := rfl
  simp only [twoReads, List.filterMap_cons, List.filterMap_nil, execution?_globalRead_zero, hshared]

/-- One of the two reads is executed in the local data share. -/
lemma sharedExecutions_of_twoReads : sharedExecutions [] twoReads =
    [(⟨unknownSourceFile, 7, 1⟩, ⟨4, 0, .read, "", 1, ⟨1⟩⟩)] := by
  have hconflicts : countedConflicts? sharedRead = some 1 := by decide
  have hnone : (Call.message (globalRead 0) none).resolved? = none := rfl
  have hfile : fileAfter [.message (globalRead 0) none] sharedRead.fileHash =
      unknownSourceFile := by
    simp [fileAfter, findings, hnone]
  have hread : (Call.message sharedRead none).sharedExecution?
      (fileAfter [.message (globalRead 0) none]) =
      some (⟨unknownSourceFile, 7, 1⟩, ⟨4, 0, .read, "", 1, ⟨1⟩⟩) := by
    change Session.sharedExecution? _ sharedRead = _
    rw [Session.sharedExecution?, hconflicts, Option.map_some, hfile]
    rfl
  rw [twoReads, sharedExecutions, sharedExecutions, List.nil_append, hread]
  rfl

/-- The tallies of a session that was started before these reads. -/
lemma afterAll_twoReads (kernel : KernelDispatch) (verbose : Bool) (outlet : Outlet)
    (arch : Option Architecture) :
    ∃ s, (start kernel verbose outlet arch).afterAll twoReads = .ok s ∧
      s.global.entries = [(⟨unknownSourceFile, 7, 1⟩, ⟨4, 0, .read, "", 1, ⟨1, 1⟩⟩)] ∧
      s.shared.entries = [(⟨unknownSourceFile, 7, 1⟩, ⟨4, 0, .read, "", 1, ⟨1⟩⟩)] := by
  have haligned : ∀ c ∈ twoReads, ∀ m scope, c.message? = some (m, scope) → ¬m.IsMisaligned := by
    intro c hc m scope hm
    simp only [twoReads, List.mem_cons, List.not_mem_nil, or_false] at hc
    rcases hc with rfl | rfl <;> cases hm
    · intro hmisaligned
      cases hmisaligned.1
    · exact not_isMisaligned_sharedRead
  have hclear : ∀ c ∈ twoReads, c.isClear = false := by
    intro c hc
    simp only [twoReads, List.mem_cons, List.not_mem_nil, or_false] at hc
    rcases hc with rfl | rfl <;> rfl
  have hfresh : (start kernel verbose outlet arch).afterAll [] = .ok _ := rfl
  obtain ⟨s, h⟩ : ∃ s, (start kernel verbose outlet arch).afterAll twoReads = .ok s :=
    afterAll_ok rfl haligned
  have hglobal := (IsFresh.started _ _ _ _).global_of_afterAll hclear h
  have hshared := shared_of_afterAll hfresh hclear h
  rw [executions_of_twoReads] at hglobal
  rw [sharedExecutions_of_twoReads] at hshared
  exact ⟨s, h, by rw [hglobal]; rfl, by rw [hshared]; rfl⟩

/-- The analysis after a read from global memory and one from the local data share gives both
tallies back. -/
theorem analysis_loses_nothing_after_two_reads :
    ∃ s, (start ⟨"reduce", 1⟩ false (.create .console .text) none).afterAll twoReads = .ok s ∧
      s.IsReachable ∧ s.CountsInWords ∧ s.global.size = 1 ∧ s.shared.size = 1 ∧
      let analysis := (DispatchAnalysis.ofResults (.empty []) (s.results none)).answer .empty
      analysis.globalTally = s.global ∧ analysis.sharedTally = s.shared := by
  obtain ⟨s, h, hglobal, hshared⟩ :=
    afterAll_twoReads ⟨"reduce", 1⟩ false (.create .console .text) none
  have hs : s.IsReachable := ⟨_, _, _, _, twoReads, h⟩
  have hwords : s.CountsInWords := by
    constructor
    case executions | needed | used =>
      intro x hx
      rw [hglobal] at hx
      rw [List.mem_singleton.mp hx]
      decide
    case sharedExecutions | conflicts =>
      intro x hx
      rw [hshared] at hx
      rw [List.mem_singleton.mp hx]
      decide
  have hrebuilt := (analysis_loses_nothing hs (.empty []) none .empty).2.1 hwords
  exact ⟨s, h, hs, hwords, congrArg List.length hglobal, congrArg List.length hshared, hrebuilt⟩

end Session

end WaveAccess
