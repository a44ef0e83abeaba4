import WaveAccess.Proofs.CacheLine.Bytes
import WaveAccess.Proofs.Session.Calls
import WaveAccess.Proofs.Tally.Sums

/-!
# The tally of global accesses

A call executes a global access if it makes the session take in a message that counts as one. Since
the session was started or cleared, its tally of global accesses is that of the executions, in
whatever order the calls were made and whichever kernels their messages were looked up in.
-/

namespace WaveAccess.Session

/-- The execution of a global access that a message counts as, if it does. -/
def execution? (scope : Option KernelScope) (m : Message) :
    Option (SourcePosition × TallyEntry CacheUsage) :=
  (countedUse? scope m).map fun (f, u) =>
    (⟨f.fileName?.getD unknownSourceFile, m.line, m.column⟩, globalEntry f m u)

/-- The execution of a global access that a call counts, if it does. -/
def Call.execution? (c : Call) : Option (SourcePosition × TallyEntry CacheUsage) :=
  c.message?.bind fun (m, scope) => Session.execution? scope m

/-- An execution is counted exactly by a call whose message counts as a global access. -/
lemma Call.execution?_eq_some_iff {c : Call} {x : SourcePosition × TallyEntry CacheUsage} :
    c.execution? = some x ↔
      ∃ m scope f u, c.message? = some (m, scope) ∧ countedUse? scope m = some (f, u) ∧
        x = (⟨f.fileName?.getD unknownSourceFile, m.line, m.column⟩, globalEntry f m u) := by
  constructor
  · intro h
    obtain ⟨⟨m, scope⟩, hm, h⟩ := Option.bind_eq_some_iff.mp h
    obtain ⟨⟨f, u⟩, hu, rfl⟩ := Option.map_eq_some_iff.mp h
    exact ⟨m, scope, f, u, hm, hu, rfl⟩
  · rintro ⟨m, scope, f, u, hm, hu, rfl⟩
    rw [Call.execution?, hm]
    exact Option.map_eq_some_iff.mpr ⟨_, hu, rfl⟩

/-- An execution has the sizes of the message and of its instruction, the direction of the message
and the name of the instruction. It counts once, with the lines that are counted. -/
lemma globalEntry_eq (f : Finding) (m : Message) (u : CacheUsage) :
    globalEntry f m u =
      { irSize := m.size
        isaSize := f.size
        direction := m.direction
        instruction := f.mnemonic
        count := 1
        statistic := u } :=
  rfl

/-- The execution that a call counts, field by field. -/
lemma Call.execution?_eq_some_iff_fields {c : Call} {x : SourcePosition × TallyEntry CacheUsage} :
    c.execution? = some x ↔ ∃ m scope f line u,
      c.message? = some (m, scope) ∧ m.space = some .global ∧ lineSizeOfId? m.arch = some line ∧
        (Finding.ofMessage m scope).value = f ∧ f ≠ .elsewhere ∧
        u = CacheLine.usage m.addresses (if f.size ≠ 0 then f.size else m.size).toNat line ∧
        ¬(f.size ≠ 0 ∧ f.size ≠ m.size ∧ u.used = u.needed + 1) ∧
        x = (⟨f.fileName?.getD "<unknown source file>", m.line, m.column⟩,
          { irSize := m.size
            isaSize := f.size
            direction := m.direction
            instruction := f.mnemonic
            count := 1
            statistic := u }) := by
  rw [execution?_eq_some_iff]
  constructor
  · rintro ⟨m, scope, f, u, hm, hu, rfl⟩
    obtain ⟨hspace, ⟨line, hline, hlines⟩, hfound, helsewhere, hfusion⟩ :=
      countedUse?_eq_some_iff.mp hu
    exact ⟨m, scope, f, line, u, hm, hspace, hline, hfound, helsewhere, hlines, hfusion, rfl⟩
  · rintro ⟨m, scope, f, line, u, hm, hspace, hline, hfound, helsewhere, hlines, hfusion, rfl⟩
    refine ⟨m, scope, f, u, hm, ?_, ?_⟩
    · exact countedUse?_eq_some_iff.mpr
        ⟨hspace, ⟨line, hline, hlines⟩, hfound, helsewhere, hfusion⟩
    · rw [globalEntry_eq]
      rfl

/-- The execution of a global access without symbols. -/
lemma execution?_without_symbols {m : Message} {line : LineSize} {u : CacheUsage}
    (hspace : m.space = some .global) (hline : lineSizeOfId? m.arch = some line)
    (hu : CacheLine.usage m.addresses m.size.toNat line = u) :
    (Call.message m none).execution? =
      some (⟨unknownSourceFile, m.line, m.column⟩, ⟨m.size, 0, m.direction, "", 1, u⟩) :=
  Call.execution?_eq_some_iff_fields.mpr
    ⟨m, none, .unknown, line, u, rfl, hspace, hline, rfl, nofun, hu.symm, fun h => h.1 rfl, rfl⟩

/-- A message that is taken in is recorded exactly if it counts. -/
lemma Taken.global_eq {s s' : Session} {scope : Option KernelScope} {m : Message} {consumed : Bool}
    (h : Taken s scope m s' consumed) :
    s'.global = s.global.recordAll (execution? scope m).toList := by
  rcases h.global_cases with ⟨f, u, hu, rfl⟩ | ⟨hnone, hglobal, -⟩
  · rw [execution?, hu]
    rfl
  · rw [execution?, hnone]
    exact hglobal

/-- A call that does not clear a session records the execution that it counts, if any. -/
lemma Effect.global_eq {s s' : Session} {c : Call} (h : Effect s c s')
    (hclear : c.isClear = false) :
    s'.global = s.global.recordAll c.execution?.toList := by
  cases h with
  | took hm htaken =>
    rw [Call.execution?, hm]
    exact htaken.global_eq
  | undecodable hnone =>
    rw [Call.execution?, hnone]
    rfl
  | reported => rfl
  | cleared => cases hclear

/-- Calls that do not clear a session record the executions that they count, in their order. -/
lemma global_of_afterAll {s s' : Session} {calls : List Call}
    (hclear : ∀ c ∈ calls, c.isClear = false) (h : s.afterAll calls = .ok s') :
    s'.global = s.global.recordAll (calls.filterMap Call.execution?) := by
  induction calls generalizing s with
  | nil => cases h; rfl
  | cons c calls ih =>
    obtain ⟨next, hc, hrest⟩ := afterAll_cons h
    have hnext := (effect_of_after hc).global_eq (hclear c List.mem_cons_self)
    rw [ih (fun c hm => hclear c (List.mem_cons_of_mem _ hm)) hrest, hnext]
    cases hx : c.execution? with
    | none => rw [List.filterMap_cons_none hx]; rfl
    | some x => rw [List.filterMap_cons_some hx]; rfl

/-- A call is one execution. -/
lemma count_of_execution? {c : Call} {x : SourcePosition × TallyEntry CacheUsage}
    (h : c.execution? = some x) : x.2.count = 1 := by
  obtain ⟨m, scope, f, u, -, -, rfl⟩ := Call.execution?_eq_some_iff.mp h
  rfl

/-- A session that was just started or cleared. -/
inductive IsFresh : Session → Prop where
  | started (kernel verbose outlet arch) : IsFresh (start kernel verbose outlet arch)
  | cleared (s : Session) : IsFresh s.clear

/-- A fresh session has no global accesses. -/
lemma IsFresh.global_eq {s : Session} (h : s.IsFresh) : s.global = .empty := by
  cases h <;> rfl

/-- Since a session was started or cleared, its tally is that of the executions. -/
lemma IsFresh.global_of_afterAll {s s' : Session} {calls : List Call} (hs : s.IsFresh)
    (hclear : ∀ c ∈ calls, c.isClear = false) (h : s.afterAll calls = .ok s') :
    s'.global = Tally.ofExecutions (calls.filterMap Call.execution?) := by
  rw [Session.global_of_afterAll hclear h, hs.global_eq]
  rfl

/-- Since a session was started or cleared, its tally has one entry for each key of an execution
that the calls counted, and no other. The entry counts the executions of its key and adds up the
lines that they need and use. A message counts if its space is global, its hardware has a known line
size, its symbols do not place it elsewhere, and its use does not come from fusion. Its execution is
at its own line and column of the file that the symbols name, has its own size and that of its
instruction, and the lines that all of its addresses need and use at the instruction's size, or at
its own if no instruction is known. -/
theorem global_after_calls {s s' : Session} {calls : List Call} (hs : s.IsFresh)
    (hclear : ∀ c ∈ calls, c.isClear = false) (h : s.afterAll calls = .ok s') :
    s'.global.keys.Nodup ∧
      (∀ k, k ∈ s'.global.keys ↔ ∃ c ∈ calls, ∃ x, c.execution? = some x ∧ Tally.keyOf x = k) ∧
      (∀ x ∈ s'.global.entries,
        let same := Tally.ofKey (Tally.keyOf x) (calls.filterMap Call.execution?)
        x.2.count = same.length ∧
          x.2.statistic.needed = (same.map (·.statistic.needed)).sum ∧
          x.2.statistic.used = (same.map (·.statistic.used)).sum) ∧
      ∀ (c : Call) x, c.execution? = some x ↔ ∃ m scope f line u,
        c.message? = some (m, scope) ∧ m.space = some .global ∧ lineSizeOfId? m.arch = some line ∧
          (Finding.ofMessage m scope).value = f ∧ f ≠ .elsewhere ∧
          u = CacheLine.usage m.addresses (if f.size ≠ 0 then f.size else m.size).toNat line ∧
          ¬(f.size ≠ 0 ∧ f.size ≠ m.size ∧ u.used = u.needed + 1) ∧
          x = (⟨f.fileName?.getD "<unknown source file>", m.line, m.column⟩,
            { irSize := m.size
              isaSize := f.size
              direction := m.direction
              instruction := f.mnemonic
              count := 1
              statistic := u }) := by
  have hglobal : s'.global = Tally.ofExecutions (calls.filterMap Call.execution?) := by
    rw [global_of_afterAll hclear h, hs.global_eq]
    rfl
  rw [hglobal]
  refine ⟨Tally.isWellFormed_ofExecutions.nodup, ?_, fun x hx => ⟨?_, ?_, ?_⟩,
    fun _ _ => Call.execution?_eq_some_iff_fields⟩
  · intro k
    rw [Tally.mem_keys_ofExecutions, List.mem_map]
    simp only [List.mem_filterMap]
    constructor
    · rintro ⟨x, ⟨c, hc, hx⟩, hk⟩
      exact ⟨c, hc, x, hx, hk⟩
    · rintro ⟨c, hc, x, hx, hk⟩
      exact ⟨x, ⟨c, hc, hx⟩, hk⟩
  · refine Tally.count_of_mem_ofExecutions ?_ hx
    intro y hy
    obtain ⟨c, -, hc⟩ := List.mem_filterMap.mp hy
    exact count_of_execution? hc
  · exact Tally.measure_of_mem_ofExecutions (·.statistic.needed) (fun _ _ => rfl) hx
  · exact Tally.measure_of_mem_ofExecutions (·.statistic.used) (fun _ _ => rfl) hx

/-- A lane's read of four bytes from global memory. -/
def globalRead (address : UInt64) : Message where
  space := some .global
  direction := .read
  size := 4
  exec := ⟨1⟩
  lanes := [⟨0, address⟩]
  fileHash := 0
  line := 7
  column := 1
  arch := 3

/-- The execution of a lane's read, with the lines that its bytes need and use. -/
lemma execution?_globalRead (address : UInt64) {u : CacheUsage}
    (hu : CacheLine.usage [address.toNat] 4 ⟨128, by decide⟩ = u) :
    (Call.message (globalRead address) none).execution? =
      some (⟨unknownSourceFile, 7, 1⟩, ⟨4, 0, .read, "", 1, u⟩) :=
  execution?_without_symbols rfl rfl hu

/-- A read at the beginning of a line needs and uses that line. -/
lemma execution?_globalRead_zero :
    (Call.message (globalRead 0) none).execution? =
      some (⟨unknownSourceFile, 7, 1⟩, ⟨4, 0, .read, "", 1, ⟨1, 1⟩⟩) := by
  have husage : CacheLine.usage [0] 4 ⟨128, by decide⟩ = ⟨1, 1⟩ := by
    rw [CacheLine.usage_of_ascending (by decide)]
    decide
  exact execution?_globalRead 0 husage

/-- A read of bytes on both sides of a line's end needs one line and uses two. -/
lemma execution?_globalRead_across :
    (Call.message (globalRead 254) none).execution? =
      some (⟨unknownSourceFile, 7, 1⟩, ⟨4, 0, .read, "", 1, ⟨1, 2⟩⟩) := by
  have husage : CacheLine.usage [254] 4 ⟨128, by decide⟩ = ⟨1, 2⟩ := by
    rw [CacheLine.usage_of_ascending (by decide)]
    decide
  exact execution?_globalRead 254 husage

/-- A read within a line and a read across the end of one, both at one location, make one entry that
counts both and adds up their lines. -/
theorem global_after_two_reads :
    let s := start ⟨"reduce", 1⟩ false (.create .console .text) none
    let calls : List Call := [.message (globalRead 0) none, .message (globalRead 254) none]
    s.IsFresh ∧ (∀ c ∈ calls, c.isClear = false) ∧ ∃ s', s.afterAll calls = .ok s' ∧
      s'.global.keys = [⟨⟨"<unknown source file>", 7, 1⟩, 4, 0, .read⟩] ∧
      ∀ x ∈ s'.global.entries, x.2.count = 2 ∧ x.2.statistic = ⟨2, 3⟩ := by
  intro s calls
  have hs : s.IsFresh := .started _ _ _ _
  have hclear : ∀ c ∈ calls, c.isClear = false := by
    intro c hc
    simp only [calls, List.mem_cons, List.not_mem_nil, or_false] at hc
    rcases hc with rfl | rfl <;> rfl
  obtain ⟨s', h⟩ : ∃ s', s.afterAll calls = .ok s' := ⟨_, rfl⟩
  obtain ⟨hnodup, hkeys, hsums, -⟩ := global_after_calls hs hclear h
  have hkey : s'.global.keys = [⟨⟨"<unknown source file>", 7, 1⟩, 4, 0, .read⟩] := by
    rw [← List.perm_singleton, List.perm_ext_iff_of_nodup hnodup (List.nodup_singleton _)]
    intro k
    rw [hkeys]
    simp [calls, execution?_globalRead_zero, execution?_globalRead_across, Tally.keyOf,
      TallyEntry.key, unknownSourceFile, eq_comm]
  refine ⟨hs, hclear, s', h, hkey, ?_⟩
  intro x hx
  have hx' : Tally.keyOf x ∈ s'.global.keys := List.mem_map_of_mem hx
  rw [hkey, List.mem_singleton] at hx'
  have hsame : Tally.ofKey (Tally.keyOf x) (calls.filterMap Call.execution?) =
      [⟨4, 0, .read, "", 1, ⟨1, 1⟩⟩, ⟨4, 0, .read, "", 1, ⟨1, 2⟩⟩] := by
    rw [hx']
    simp [calls, execution?_globalRead_zero, execution?_globalRead_across, Tally.ofKey,
      Tally.keyOf, TallyEntry.key, unknownSourceFile]
  obtain ⟨hcount, hneeded, hused⟩ := hsums x hx
  rw [hsame] at hcount hneeded hused
  exact ⟨hcount, congrArg₂ CacheUsage.mk hneeded hused⟩

end WaveAccess.Session
