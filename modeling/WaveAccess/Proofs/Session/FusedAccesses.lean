import WaveAccess.Proofs.CacheLine.Dense
import WaveAccess.Proofs.Session.Messages
import WaveAccess.Proofs.Symbols.Findings
import WaveAccess.Proofs.Tally.Order

/-!
# Dense accesses of a fused instruction

A wide instruction whose lanes lie one behind the other touches one line too many at most, and an
access of corrected width with one line too many is dropped. So such an access is recorded with the
lines that it needs or not at all, and a report shows the same excess as before.
-/

namespace WaveAccess

/-! ## Excess in a tally -/

namespace Tally

/-- The keys of the entries worth reporting, each with its excess. -/
def excesses (t : Tally CacheUsage) : List (AccessKey × ℕ) :=
  (t.worthReporting false).map fun x => (keyOf x, x.2.statistic.excess)

/-- The key of an entry with its excess, if it is worth reporting. -/
def excess? (x : SourcePosition × TallyEntry CacheUsage) : Option (AccessKey × ℕ) :=
  if x.2.statistic.used = x.2.statistic.needed then none
  else some (keyOf x, x.2.statistic.excess)

/-- The excesses of a tally are those of its entries. -/
lemma excesses_eq (t : Tally CacheUsage) : t.excesses = t.entries.filterMap excess? := by
  rw [excesses, worthReporting_cacheUsage]
  induction t.entries with
  | nil => rfl
  | cons x entries ih =>
    by_cases h : x.2.statistic.used = x.2.statistic.needed
    · have hnone : excess? x = none := if_pos h
      rw [List.filter_cons_of_neg (by simp [h]), List.filterMap_cons_none hnone, ih]
    · have hsome : excess? x = some (keyOf x, x.2.statistic.excess) := if_neg h
      rw [List.filter_cons_of_pos (by simp [h]), List.filterMap_cons_some hsome, List.map_cons, ih]

variable {l : SourcePosition} {e : TallyEntry CacheUsage}

/-- An access without excess changes that of no entry into which it is merged. -/
lemma excess?_merge {x : SourcePosition × TallyEntry CacheUsage}
    (h : e.statistic.used = e.statistic.needed) (hx : keyOf x = e.key l) :
    excess? (l, x.2.merge e) = excess? x := by
  have hused : (x.2.merge e).statistic.used = x.2.statistic.used + e.statistic.used := rfl
  have hneeded : (x.2.merge e).statistic.needed =
      x.2.statistic.needed + e.statistic.needed := rfl
  simp only [excess?, keyOf_merge hx, CacheUsage.excess, hused, hneeded, h,
    Nat.add_right_cancel_iff, Nat.add_sub_add_right]

/-- An access without excess adds none, whether it is merged into an entry or makes one. -/
lemma excesses_record (t : Tally CacheUsage) (h : e.statistic.used = e.statistic.needed) :
    (t.record l e).excesses = t.excesses := by
  have hinserted := inserted_record t l e
  rw [excesses_eq, excesses_eq]
  generalize (t.record l e).entries = inserted at hinserted ⊢
  generalize t.entries = entries at hinserted ⊢
  cases hinserted with
  | merged _ hx =>
    rw [List.filterMap_append, List.filterMap_cons, excess?_merge h hx, List.filterMap_append,
      List.filterMap_cons]
  | added =>
    have hnone : excess? (l, e) = none := if_pos h
    rw [List.filterMap_append, List.filterMap_cons_none hnone, List.filterMap_append]

end Tally

/-! ## Global messages -/

namespace Session

variable {s s' : Session} {scope : Option KernelScope} {m : Message} {consumed : Bool}
  {line : LineSize}

/-- A message to global memory never breaks an analysis down. -/
lemma observe_ok_of_global (s : Session) (scope : Option KernelScope)
    (hspace : m.space = some .global) : ∃ x, s.observe scope m = .ok x := by
  cases hx : s.observe scope m with
  | ok x => exact ⟨x, rfl⟩
  | error b =>
    have hshared := (observe_eq_error_iff.mp hx).1
    rw [hspace] at hshared
    cases hshared

/-- A global message from supported hardware is consumed, and recorded exactly if it counts. -/
lemma Taken.eq_of_global (h : Taken s scope m s' consumed) (hspace : m.space = some .global)
    (hline : lineSizeOfId? m.arch = some line) :
    consumed = true ∧
      (countedUse? scope m = none ∧ s' = s.noteArch m ∨
        ∃ f u, countedUse? scope m = some (f, u) ∧ s' = (s.noteArch m).recordGlobal f m u) := by
  cases h with
  | foreign _ hnone =>
    rw [hline] at hnone
    cases hnone
  | dropped _ _ hnone => exact ⟨rfl, .inl ⟨hnone, rfl⟩⟩
  | counted hu => exact ⟨rfl, .inr ⟨_, _, hu, rfl⟩⟩
  | shared hshared =>
    rw [hspace] at hshared
    cases hshared
  | unsupported hshared =>
    rw [hspace] at hshared
    cases hshared
  | unhandled hglobal => exact absurd hspace hglobal

/-- A corrected size is that of the instruction, is known, and is not that of the message. -/
lemma effectiveSize_of_corrected {f : Finding} {size : UInt16}
    (h : correctedSize? f m = some size) :
    effectiveSize f m = size ∧ f.size ≠ 0 ∧ f.size ≠ m.size := by
  unfold correctedSize? at h
  split at h
  · next hf =>
    cases h
    exact ⟨if_pos hf.1, hf⟩
  · cases h

/-- Where a fused access uses one line more than needed at most, nothing is recorded, or a use of
the needed lines. -/
lemma recorded_of_corrected {size : UInt16} (hspace : m.space = some .global)
    (hline : lineSizeOfId? m.arch = some line)
    (hcorrected : correctedSize? (Finding.ofMessage m scope).value m = some size) {u : CacheUsage}
    (hu : u = CacheLine.usage m.addresses size.toNat line) (hneeded : u.needed ≤ u.used)
    (hused : u.used ≤ u.needed + 1) (h : Taken s scope m s' consumed) :
    s' = s.noteArch m ∨
      u.used = u.needed ∧
        s' = (s.noteArch m).recordGlobal (Finding.ofMessage m scope).value m u := by
  obtain ⟨hsize, hf⟩ := effectiveSize_of_corrected hcorrected
  rcases (h.eq_of_global hspace hline).2 with ⟨-, hsession⟩ | ⟨f, v, hcounted, hsession⟩
  · exact .inl hsession
  · obtain ⟨-, ⟨line', hline', hv⟩, rfl, -, hartifact⟩ := countedUse?_eq_some_iff.mp hcounted
    cases hline.symm.trans hline'
    rw [hsize, ← hu] at hv
    cases hv
    -- with one line more the access would have been dropped
    have hne : u.used ≠ u.needed + 1 := fun hone => hartifact ⟨hf.1, hf.2, hone⟩
    exact .inr ⟨by omega, hsession⟩

/-- Lanes that lie one behind the other, in any order, use the lines that they need or one more, and
no more than needed if the first byte begins a line. A global message of supported hardware with
such lanes at the width to which its instruction corrects it is consumed, and nothing of it is
recorded or the use of the needed lines; the entries worth reporting and their excess stay what they
were. -/
theorem dense_access_adds_no_excess {base n : ℕ} {size : UInt16} {addresses : List ℕ}
    (hsize : 0 < size.toNat) (hfits : base + n * size.toNat ≤ 2 ^ 64)
    (hdense : addresses.Perm (CacheLine.denseAddresses base size.toNat n)) (line : LineSize) :
    let u := CacheLine.usage addresses size.toNat line
    u.needed ≤ u.used ∧ u.used ≤ u.needed + 1 ∧ (line.bytes ∣ base → u.used = u.needed) ∧
      ∀ (s : Session) (scope : Option KernelScope) (m : Message),
        m.space = some .global → lineSizeOfId? m.arch = some line →
        correctedSize? (Finding.ofMessage m scope).value m = some size →
        m.addresses = addresses →
        ∃ x, s.observe scope m = .ok x ∧ x.value.2 = true ∧
          (x.value.1 = s.noteArch m ∨
            u.used = u.needed ∧
              x.value.1 = (s.noteArch m).recordGlobal (Finding.ofMessage m scope).value m u) ∧
          x.value.1.global.excesses = s.global.excesses := by
  intro u
  have hneeded : u.needed ≤ u.used := CacheLine.needed_le_used_dense hsize hfits hdense
  have hused : u.used ≤ u.needed + 1 := CacheLine.used_le_needed_succ_dense hsize hfits hdense
  refine ⟨hneeded, hused, ?_, ?_⟩
  · intro hbase
    exact CacheLine.used_eq_needed_dense hsize hfits hdense hbase
  · intro s scope m hspace hline hcorrected haddresses
    have hu : u = CacheLine.usage m.addresses size.toNat line := by rw [haddresses]
    obtain ⟨x, hx⟩ := observe_ok_of_global s scope hspace
    have htaken := taken_of_observe hx
    have hrecorded := recorded_of_corrected hspace hline hcorrected hu hneeded hused htaken
    refine ⟨x, hx, (htaken.eq_of_global hspace hline).1, hrecorded, ?_⟩
    rcases hrecorded with hsession | ⟨hequal, hsession⟩
    · rw [hsession]
      rfl
    · rw [hsession]
      exact Tally.excesses_record s.global hequal

/-- Two lanes that read four bytes each, of which the later one lies in front. -/
def fusedRead : Message where
  space := some .global
  direction := .read
  size := 4
  exec := ⟨3⟩
  lanes := [⟨0, 136⟩, ⟨1, 120⟩]
  fileHash := fnv1a "a.hip"
  line := 7
  column := 1
  arch := 3

/-- Symbols that know sixteen bytes per lane at the place of these reads. -/
def fusedScope : KernelScope where
  kernel := "scan"
  symbols := ⟨[("scan", ⟨["a.hip"], [⟨"global_load_dwordx4", 0, 7, 1⟩]⟩)]⟩

/-- The fused read is found with its compiled width. -/
lemma ofMessage_fusedRead :
    (Finding.ofMessage fusedRead (some fusedScope)).value =
      .found ⟨"a.hip", "global_load_dwordx4", 16⟩ := by
  have hfile : fusedScope.symbols.fileName? fusedScope.kernel 0 = some "a.hip" := rfl
  have hfirst : (fusedScope.firstMatch fusedRead [⟨"global_load_dwordx4", 0, 7, 1⟩]).value =
      .found ⟨"a.hip", "global_load_dwordx4", 16⟩ := by
    apply KernelScope.firstMatch_of_accept? [] hfile
    · simp [KernelScope.isAt, fusedRead]
    · rfl
  exact hfirst

/-- Sixteen bytes for each of two lanes lie across the end of a line. One line would do, two are
used, and nothing is recorded. -/
theorem dense_access_adds_no_excess_across_lines :
    let s := start ⟨"scan", 1⟩ false (.create .console .text) none
    let u := CacheLine.usage fusedRead.addresses 16 ⟨128, by decide⟩
    fusedRead.addresses.Perm (CacheLine.denseAddresses 120 16 2) ∧
      correctedSize? (Finding.ofMessage fusedRead (some fusedScope)).value fusedRead = some 16 ∧
      u.needed = 1 ∧ u.used = 2 ∧
      ∃ x, s.observe (some fusedScope) fusedRead = .ok x ∧ x.value.2 = true ∧
        x.value.1 = s.noteArch fusedRead ∧ x.value.1.global.excesses = [] := by
  intro s u
  have hdense : fusedRead.addresses.Perm (CacheLine.denseAddresses 120 16 2) := by decide
  have hcorrected :
      correctedSize? (Finding.ofMessage fusedRead (some fusedScope)).value fusedRead = some 16 := by
    rw [ofMessage_fusedRead]
    rfl
  have husage : u = ⟨1, 2⟩ := by
    simp [u, fusedRead, Message.addresses, CacheLine.usage, CacheLine.minimumNeeded,
      CacheLine.touched, CacheLine.linesOf, CacheLine.lastByte, maxAddress, CacheLine.dropRepeats,
      List.range_succ, List.mergeSort]
  have hsize : 0 < (16 : UInt16).toNat := by decide
  obtain ⟨-, -, -, hmessages⟩ :=
    dense_access_adds_no_excess hsize (by decide) hdense ⟨128, by decide⟩
  obtain ⟨x, hx, hconsumed, hsession, hexcess⟩ :=
    hmessages s (some fusedScope) fusedRead rfl rfl hcorrected rfl
  refine ⟨hdense, hcorrected, by rw [husage], by rw [husage], x, hx, hconsumed, ?_, hexcess⟩
  rcases hsession with hdropped | ⟨hequal, -⟩
  · exact hdropped
  · change u.used = u.needed at hequal
    rw [husage] at hequal
    cases hequal

end Session

end WaveAccess
