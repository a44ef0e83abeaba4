import Mathlib.Algebra.Order.BigOperators.Group.List
import WaveAccess.Proofs.CacheLine.Bytes
import WaveAccess.Proofs.Report.Readings
import WaveAccess.Proofs.Session.SharedTally

/-!
# Accesses that a listing shows

A listing that is not verbose shows the accesses whose cache lines do not add up: over all
executions of an entry, the lines used are as many as the lines needed or they are not. Lanes that
share addresses use fewer lines than their bytes would fill, so an execution may fall short of what
it needs as well as exceed it, and the sums of an entry can agree though no execution does. Where no
execution falls short, exactly the entries with an excess are shown.
-/

namespace WaveAccess

/-! ## Sums of lines -/

/-- The lines that executions need together. -/
def linesNeeded (executions : List (TallyEntry CacheUsage)) : ℕ :=
  (executions.map (·.statistic.needed)).sum

/-- The lines that executions use together. -/
def linesUsed (executions : List (TallyEntry CacheUsage)) : ℕ :=
  (executions.map (·.statistic.used)).sum

variable {executions : List (TallyEntry CacheUsage)}

/-- Executions that each use what they need do so together. -/
lemma linesUsed_eq_linesNeeded (h : ∀ e ∈ executions, e.statistic.used = e.statistic.needed) :
    linesUsed executions = linesNeeded executions := by
  rw [linesUsed, linesNeeded, List.map_congr_left h]

/-- Where no execution uses fewer lines than it needs, none can make up for an excess. -/
lemma linesUsed_ne_iff (h : ∀ e ∈ executions, e.statistic.needed ≤ e.statistic.used) :
    linesUsed executions ≠ linesNeeded executions ↔
      ∃ e ∈ executions, e.statistic.needed < e.statistic.used := by
  constructor
  · intro hne
    by_contra hnone
    apply hne
    apply linesUsed_eq_linesNeeded
    intro e he
    have hle : e.statistic.used ≤ e.statistic.needed := by
      apply Nat.le_of_not_lt
      intro hlt
      exact hnone ⟨e, he, hlt⟩
    exact Nat.le_antisymm hle (h e he)
  · intro hexcess
    exact (List.sum_lt_sum _ _ h hexcess).ne'

/-! ## Listed entries -/

namespace Tally

variable {executions : List (SourcePosition × TallyEntry CacheUsage)}
  {x : SourcePosition × TallyEntry CacheUsage}

/-- The entries of a key are those of the executions with this key. -/
lemma mem_ofKey_iff {k : AccessKey} {e : TallyEntry CacheUsage} :
    e ∈ ofKey k executions ↔ ∃ y ∈ executions, keyOf y = k ∧ y.2 = e := by
  simp [ofKey, and_assoc]

/-- An entry is listed exactly if the lines of its executions do not add up. -/
lemma mem_listed_iff (hx : x ∈ (ofExecutions executions).entries) :
    x ∈ (ofExecutions executions).worthReporting false ↔
      linesUsed (ofKey (keyOf x) executions) ≠ linesNeeded (ofKey (keyOf x) executions) := by
  have hneeded : x.2.statistic.needed = linesNeeded (ofKey (keyOf x) executions) :=
    measure_of_mem_ofExecutions (·.statistic.needed) (fun _ _ => rfl) hx
  have hused : x.2.statistic.used = linesUsed (ofKey (keyOf x) executions) :=
    measure_of_mem_ofExecutions (·.statistic.used) (fun _ _ => rfl) hx
  rw [worthReporting_cacheUsage, List.mem_filter, and_iff_right hx, ← hneeded, ← hused,
    decide_eq_true_iff]

/-- What is listed is an entry. -/
lemma mem_entries_of_mem_listed (hx : x ∈ (ofExecutions executions).worthReporting false) :
    x ∈ (ofExecutions executions).entries :=
  (List.mem_filter.mp hx).1

/-- Nothing is listed exactly if the lines of each key add up to what it needs. -/
lemma listed_eq_nil_iff :
    (ofExecutions executions).worthReporting false = [] ↔
      ∀ x ∈ (ofExecutions executions).entries,
        linesUsed (ofKey (keyOf x) executions) = linesNeeded (ofKey (keyOf x) executions) := by
  rw [List.eq_nil_iff_forall_not_mem]
  constructor
  · intro h x hx
    by_contra hne
    exact h x ((mem_listed_iff hx).mpr hne)
  · intro h x hx
    have hmem := mem_entries_of_mem_listed hx
    exact (mem_listed_iff hmem).mp hx (h x hmem)

/-- An execution with an excess is merged into an entry that is listed, unless another execution of
its key uses fewer lines than it needs. -/
lemma exists_listed_of_excess
    (h : ∀ y ∈ executions, y.2.statistic.needed ≤ y.2.statistic.used)
    {y : SourcePosition × TallyEntry CacheUsage} (hy : y ∈ executions)
    (hexcess : y.2.statistic.needed < y.2.statistic.used) :
    ∃ x ∈ (ofExecutions executions).worthReporting false, keyOf x = keyOf y := by
  have hkey : keyOf y ∈ (ofExecutions executions).keys :=
    mem_keys_ofExecutions.mpr (List.mem_map_of_mem hy)
  obtain ⟨x, hx, hxy⟩ := List.mem_map.mp hkey
  have hsame : ∀ e ∈ ofKey (keyOf x) executions, e.statistic.needed ≤ e.statistic.used := by
    intro e he
    obtain ⟨z, hz, -, rfl⟩ := mem_ofKey_iff.mp he
    exact h z hz
  have hlisted := (mem_listed_iff hx).mpr <|
    (linesUsed_ne_iff hsame).mpr ⟨y.2, mem_ofKey_iff.mpr ⟨y, hy, hxy.symm, rfl⟩, hexcess⟩
  exact ⟨x, hlisted, hxy⟩

/-- A location is not listed if all executions at it use the lines that they need. -/
lemma location_ne_of_mem_listed {location : SourcePosition}
    (h : ∀ y ∈ executions, y.1 = location → y.2.statistic.used = y.2.statistic.needed)
    (hx : x ∈ (ofExecutions executions).worthReporting false) : x.1 ≠ location := by
  intro hlocation
  apply (mem_listed_iff (mem_entries_of_mem_listed hx)).mp hx
  apply linesUsed_eq_linesNeeded
  intro e he
  obtain ⟨y, hy, hyx, rfl⟩ := mem_ofKey_iff.mp he
  have hat : y.1 = x.1 := congrArg AccessKey.location hyx
  exact h y hy (hat.trans hlocation)

end Tally

namespace Session

variable {s s' : Session} {calls : List Call}

/-- The lines of a message whose lanes share no byte. -/
lemma needed_le_used_of_countedUse? {scope : Option KernelScope} {m : Message} {f : Finding}
    {u : CacheUsage} (hu : countedUse? scope m = some (f, u))
    (h : CacheLine.AreSeparate m.addresses (effectiveSize f m).toNat) : u.needed ≤ u.used := by
  obtain ⟨-, ⟨line, -, rfl⟩, -⟩ := countedUse?_eq_some_iff.mp hu
  exact CacheLine.needed_le_used h line

/-- Since a session was started or cleared, its listing that is not verbose shows an entry exactly
if the lines that the executions of its key use do not add up to those that they need; where none of
them uses fewer than it needs, as where no lanes share bytes, exactly if one of them uses more. It
says that there is no excess exactly if it shows no entry, so if the lines of every entry add up,
and where no execution uses fewer than it needs, only if none uses more. Nothing is shown of a
location whose executions all use what they need. -/
theorem excess_listed_after_calls (hs : s.IsFresh) (hclear : ∀ c ∈ calls, c.isClear = false)
    (h : s.afterAll calls = .ok s') (t : FileTree) (kernelsFound : Option ℕ) (slot : SourceSlot) :
    let executions := calls.filterMap Call.execution?
    let merged := fun x => Tally.ofKey (Tally.keyOf x) executions
    let listed := s'.global.worthReporting false
    (∃ cacheBlocks conflictBlocks,
      (Listing.render t { s'.results kernelsFound with verbose := false }).answer slot =
        Listing.cacheText cacheBlocks ++ Listing.conflictText conflictBlocks ∧
      Listing.Follow (·.1) (Listing.describeCacheUse ·.2) listed cacheBlocks ∧
      (Listing.cacheText cacheBlocks =
          "\n=== L2 cache line use report ======================\n" ++
            "No excess cache lines used for global memory accesses\n" ++
            "=== End of L2 cache line use report ===============\n" ↔
        cacheBlocks = []) ∧
      (cacheBlocks = [] ↔ ∀ x ∈ s'.global.entries,
        linesUsed (merged x) = linesNeeded (merged x)) ∧
      ((∀ y ∈ executions, y.2.statistic.needed ≤ y.2.statistic.used) → cacheBlocks = [] →
        ∀ y ∈ executions, ¬y.2.statistic.needed < y.2.statistic.used)) ∧
    (∀ x ∈ s'.global.entries, x ∈ listed ↔ linesUsed (merged x) ≠ linesNeeded (merged x)) ∧
    (∀ x ∈ s'.global.entries,
      (∀ e ∈ merged x, e.statistic.needed ≤ e.statistic.used) →
      (x ∈ listed ↔ ∃ e ∈ merged x, e.statistic.needed < e.statistic.used)) ∧
    (∀ location, (∀ y ∈ executions, y.1 = location → y.2.statistic.used = y.2.statistic.needed) →
      ∀ x ∈ listed, x.1 ≠ location) ∧
    ∀ scope m f u, countedUse? scope m = some (f, u) →
      CacheLine.AreSeparate m.addresses (effectiveSize f m).toNat → u.needed ≤ u.used := by
  intro executions merged listed
  have hglobal : s'.global = Tally.ofExecutions executions := hs.global_of_afterAll hclear h
  obtain ⟨cacheBlocks, conflictBlocks, htext, hcache, -⟩ :=
    Listing.answer_render t { s'.results kernelsFound with verbose := false } slot
  have hblocks : cacheBlocks = [] ↔ listed = [] := by
    rw [← List.length_eq_zero_iff, ← hcache.length_eq, List.length_eq_zero_iff]
    rfl
  have hfollow : Listing.Follow (·.1) (Listing.describeCacheUse ·.2) listed cacheBlocks := hcache
  dsimp only [listed] at hblocks hfollow ⊢
  rw [hglobal] at hblocks hfollow ⊢
  refine ⟨⟨cacheBlocks, conflictBlocks, ?_, hfollow, ?_, ?_, ?_⟩, ?_, ?_, ?_, ?_⟩
  · rw [htext]
    exact congrArg (· ++ _) String.empty_append
  · rw [← Listing.cacheText_nil, Listing.cacheText_eq_iff hfollow, hblocks]
  · rw [hblocks]
    exact Tally.listed_eq_nil_iff
  · intro hall hnone y hy hexcess
    obtain ⟨x, hx, -⟩ := Tally.exists_listed_of_excess hall hy hexcess
    rw [hblocks.mp hnone] at hx
    cases hx
  · intro x hx
    exact Tally.mem_listed_iff hx
  · intro x hx hall
    rw [Tally.mem_listed_iff hx, linesUsed_ne_iff hall]
  · intro location hall x hx
    exact Tally.location_ne_of_mem_listed hall hx
  · intro scope m f u hu hseparate
    exact needed_le_used_of_countedUse? hu hseparate

/-! ## Executions that make up for each other -/

/-- Five lanes read the same sixteen bytes. -/
def broadcastRead : Message :=
  { globalRead 0 with
    size := 16, exec := ⟨31⟩, lanes := [⟨0, 0⟩, ⟨1, 0⟩, ⟨2, 0⟩, ⟨3, 0⟩, ⟨4, 0⟩], arch := 1 }

/-- Two lanes read sixteen bytes each from two lines. -/
def scatteredRead : Message :=
  { globalRead 0 with size := 16, exec := ⟨3⟩, lanes := [⟨0, 0⟩, ⟨1, 64⟩], arch := 1 }

/-- So many reads of sixteen bytes per lane at one place, with the lines that they need and use. -/
def readsOf (count needed used : ℕ) : SourcePosition × TallyEntry CacheUsage :=
  (⟨unknownSourceFile, 7, 1⟩, ⟨16, 0, .read, "", count, ⟨needed, used⟩⟩)

/-- Five lanes at one address need two lines and use one. -/
lemma execution?_broadcastRead :
    (Call.message broadcastRead none).execution? = some (readsOf 1 2 1) := by
  have husage : CacheLine.usage broadcastRead.addresses 16 ⟨64, by decide⟩ = ⟨2, 1⟩ := by
    rw [CacheLine.usage_of_ascending (by decide)]
    decide
  exact execution?_without_symbols rfl rfl husage

/-- Two lanes far from each other need one line and use two. -/
lemma execution?_scatteredRead :
    (Call.message scatteredRead none).execution? = some (readsOf 1 1 2) := by
  have husage : CacheLine.usage scatteredRead.addresses 16 ⟨64, by decide⟩ = ⟨1, 2⟩ := by
    rw [CacheLine.usage_of_ascending (by decide)]
    decide
  exact execution?_without_symbols rfl rfl husage

/-- A listing that is not verbose depends on the tallies alone. -/
lemma answer_render_quiet {results : Results} (hverbose : results.verbose = false) (t : FileTree)
    (slot : SourceSlot) :
    (Listing.render t results).answer slot =
      (Listing.render t
        ⟨⟨"", 0⟩, false, none, results.global, results.shared, none⟩).answer slot := by
  obtain ⟨kernel, verbose, arch, global, shared, kernelsFound⟩ := results
  cases hverbose
  rfl

/-- The tallies after global accesses without symbols, to which nothing else is recorded. -/
lemma tallies_after_reads (calls : List Call)
    (hcalls : ∀ c ∈ calls, c = .message broadcastRead none ∨ c = .message scatteredRead none) :
    ∃ s', (start ⟨"reduce", 1⟩ false (.create .console .text) none).afterAll calls = .ok s' ∧
      s'.global = Tally.ofExecutions (calls.filterMap Call.execution?) ∧ s'.shared = .empty := by
  have hclear : ∀ c ∈ calls, c.isClear = false := by
    intro c hc
    rcases hcalls c hc with rfl | rfl <;> rfl
  have hnone : ∀ earlier, sharedExecutions earlier calls = [] := by
    induction calls with
    | nil => exact fun _ => rfl
    | cons c calls ih =>
      intro earlier
      obtain ⟨hc, hrest⟩ := List.forall_mem_cons.mp hcalls
      have hunshared : c.sharedExecution? (fileAfter earlier) = none := by
        rcases hc with rfl | rfl <;> rfl
      rw [sharedExecutions, hunshared, ih hrest fun c hm => hclear c (List.mem_cons_of_mem _ hm)]
      rfl
  obtain ⟨s', h⟩ : ∃ s',
      (start ⟨"reduce", 1⟩ false (.create .console .text) none).afterAll calls = .ok s' := by
    apply afterAll_ok rfl
    intro c hc m scope hm hmisaligned
    have hshared := hmisaligned.1
    rcases hcalls c hc with rfl | rfl <;> cases hm <;> cases hshared
  have hstart : (start ⟨"reduce", 1⟩ false (.create .console .text) none).afterAll [] = .ok _ :=
    rfl
  refine ⟨s', h, (IsFresh.started _ _ _ _).global_of_afterAll hclear h, ?_⟩
  rw [shared_of_afterAll hstart hclear h, hnone]
  rfl

/-- A read that uses fewer lines than it needs makes up for one that uses more: neither is listed,
and the listing says that there is no excess. By itself the first read is listed, although it has
none. -/
theorem excess_made_up_for :
    let s := start ⟨"reduce", 1⟩ false (.create .console .text) none
    let broadcast : Call := .message broadcastRead none
    let scattered : Call := .message scatteredRead none
    s.IsFresh ∧
      (∃ s', s.afterAll [broadcast, scattered] = .ok s' ∧
        (∃ x ∈ s'.global.entries, x ∉ s'.global.worthReporting false ∧
          ∃ e ∈ Tally.ofKey (Tally.keyOf x) ([broadcast, scattered].filterMap Call.execution?),
            e.statistic.needed < e.statistic.used) ∧
        (Listing.render (.empty []) { s'.results none with verbose := false }).answer .empty =
          "\n=== L2 cache line use report ======================\n" ++
            "No excess cache lines used for global memory accesses\n" ++
            "=== End of L2 cache line use report ===============\n" ++
            "\n=== Bank conflicts report =========================\n" ++
            "No bank conflicts found\n" ++
            "=== End of bank conflicts report ====================\n") ∧
      ∃ s', s.afterAll [broadcast] = .ok s' ∧
        ∃ x ∈ s'.global.worthReporting false,
          ∀ y ∈ [broadcast].filterMap Call.execution?, y.1 = x.1 →
            y.2.statistic.used ≤ y.2.statistic.needed := by
  intro s broadcast scattered
  have hboth : [broadcast, scattered].filterMap Call.execution? =
      [readsOf 1 2 1, readsOf 1 1 2] := by
    simp only [broadcast, scattered, List.filterMap_cons, List.filterMap_nil,
      execution?_broadcastRead, execution?_scatteredRead]
  have hfirst : [broadcast].filterMap Call.execution? = [readsOf 1 2 1] := by
    simp only [broadcast, List.filterMap_cons, List.filterMap_nil, execution?_broadcastRead]
  refine ⟨.started _ _ _ _, ?_, ?_⟩
  · obtain ⟨s', h, hglobal, hshared⟩ :=
      tallies_after_reads [broadcast, scattered] (by simp [broadcast, scattered])
    rw [hboth] at hglobal
    rw [hboth]
    refine ⟨s', h, ⟨readsOf 2 3 3, ?_, ?_, (readsOf 1 1 2).2, ?_, by decide⟩, ?_⟩
    · rw [hglobal]
      exact List.mem_singleton_self _
    · rw [hglobal]
      exact List.not_mem_nil
    · exact Tally.mem_ofKey_iff.mpr ⟨readsOf 1 1 2, by simp, rfl, rfl⟩
    · rw [answer_render_quiet rfl]
      dsimp only [results]
      rw [hglobal, hshared]
      decide +kernel
  · obtain ⟨s', h, hglobal, -⟩ := tallies_after_reads [broadcast] (by simp [broadcast])
    rw [hfirst] at hglobal
    rw [hfirst]
    refine ⟨s', h, readsOf 1 2 1, ?_, ?_⟩
    · rw [hglobal]
      exact List.mem_singleton_self _
    · intro y hy _
      rw [List.mem_singleton.mp hy]
      decide

/-- The lanes of the scattered read share no byte, and by itself it is listed. -/
theorem excess_listed_after_scattered_read :
    let s := start ⟨"reduce", 1⟩ false (.create .console .text) none
    let calls : List Call := [.message scatteredRead none]
    s.IsFresh ∧ (∀ c ∈ calls, c.isClear = false) ∧
      CacheLine.AreSeparate scatteredRead.addresses 16 ∧
      ∃ s', s.afterAll calls = .ok s' ∧ readsOf 1 1 2 ∈ s'.global.worthReporting false ∧
        (Listing.render (.empty []) { s'.results none with verbose := false }).answer .empty =
          "\n=== L2 cache line use report ======================\n" ++
            "<unknown source file>:7:1\n" ++
            "\tread of 16 bytes at IR level (0 bytes at ISA level: \"\")\n" ++
            "\texecuted 1 times, 1 cache lines needed, 2 cache lines used\n" ++
            "=== End of L2 cache line use report ===============\n" ++
            "\n=== Bank conflicts report =========================\n" ++
            "No bank conflicts found\n" ++
            "=== End of bank conflicts report ====================\n" := by
  intro s calls
  have hs : s.IsFresh := .started _ _ _ _
  have hclear : ∀ c ∈ calls, c.isClear = false := by
    intro c hc
    rw [List.mem_singleton.mp hc]
    rfl
  have hseparate : CacheLine.AreSeparate scatteredRead.addresses 16 :=
    ⟨by simp [scatteredRead, Message.addresses],
      by simp [scatteredRead, Message.addresses, maxAddress]⟩
  have hexecutions : calls.filterMap Call.execution? = [readsOf 1 1 2] := by
    simp only [calls, List.filterMap_cons, List.filterMap_nil, execution?_scatteredRead]
  obtain ⟨s', h, hglobal, hshared⟩ := tallies_after_reads calls (by simp [calls])
  rw [hexecutions] at hglobal
  have hmem : readsOf 1 1 2 ∈ s'.global.entries := by
    rw [hglobal]
    exact List.mem_singleton_self _
  obtain ⟨-, -, hexcess, -, -⟩ := excess_listed_after_calls hs hclear h (.empty []) none .empty
  have hmerged : Tally.ofKey (Tally.keyOf (readsOf 1 1 2)) (calls.filterMap Call.execution?) =
      [(readsOf 1 1 2).2] := by
    rw [hexecutions]
    rfl
  have hlisted := hexcess (readsOf 1 1 2) hmem
  dsimp only at hlisted
  rw [hmerged] at hlisted
  refine ⟨hs, hclear, hseparate, s', h, ?_, ?_⟩
  · exact (hlisted (by decide)).mpr ⟨_, List.mem_singleton_self _, by decide⟩
  · rw [answer_render_quiet rfl]
    dsimp only [results]
    rw [hglobal, hshared]
    decide +kernel

end Session

end WaveAccess
