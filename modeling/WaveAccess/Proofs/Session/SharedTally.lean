import WaveAccess.Proofs.Changes
import WaveAccess.Proofs.Session.Breakdown
import WaveAccess.Proofs.Session.FileNames
import WaveAccess.Proofs.Session.GlobalTally
import WaveAccess.Proofs.Tally.Permutation

/-!
# The tally of accesses to the local data share

Since the session was started or cleared, the tally of accesses to the local data share is that of
the messages whose conflicts were counted. Which file such an access is filed under is decided by
all calls before it, those before the last clearing included.
-/

namespace WaveAccess.Session
open BankTables

/-- The bank conflicts of a message that counts as an access to the local data share: its space is
shared, and there are tables for its size. -/
def countedConflicts? (m : Message) : Option Nat :=
  match m.space with
  | some .shared =>
    (lastOf? LanePartition.hardware m.size).map (·.conflictsOf (wavePairs m.lanes))
  | _ => none

/-- The execution of an access to the local data share that a message counts as, if it does, where
files are known by hash. -/
def sharedExecution? (fileOf : UInt64 → String) (m : Message) :
    Option (SourcePosition × TallyEntry ConflictTotal) :=
  (countedConflicts? m).map fun conflicts =>
    (⟨fileOf m.fileHash, m.line, m.column⟩, sharedEntry m conflicts)

/-- The execution of an access to the local data share that a call counts, if it does. -/
def Call.sharedExecution? (fileOf : UInt64 → String) (c : Call) :
    Option (SourcePosition × TallyEntry ConflictTotal) :=
  c.message?.bind fun (m, _) => Session.sharedExecution? fileOf m

/-- The executions of accesses to the local data share that calls count after earlier ones. Each is
filed under the file that was found last for its hash. -/
def sharedExecutions (earlier : List Call) :
    List Call → List (SourcePosition × TallyEntry ConflictTotal)
  | [] => []
  | c :: rest =>
    (c.sharedExecution? (fileAfter earlier)).toList ++ sharedExecutions (earlier ++ [c]) rest

/-- The conflicts of an access are counted if its size is that of a partition of the hardware. -/
lemma countedConflicts?_eq_some_iff {m : Message} {conflicts : Nat} :
    countedConflicts? m = some conflicts ↔
      m.space = some .shared ∧ ∃ p, lastOf? LanePartition.hardware m.size = some p ∧
        p.conflictsOf (wavePairs m.lanes) = conflicts := by
  unfold countedConflicts?
  split
  · next hspace => simp [hspace]
  · next hspace => exact iff_of_false nofun fun h => hspace h.1

/-- An execution is counted exactly by a call whose message goes to the local data share and has a
size with tables. -/
lemma Call.sharedExecution?_eq_some_iff {fileOf : UInt64 → String} {c : Call}
    {x : SourcePosition × TallyEntry ConflictTotal} :
    c.sharedExecution? fileOf = some x ↔
      ∃ m scope p, c.message? = some (m, scope) ∧ m.space = some .shared ∧
        lastOf? LanePartition.hardware m.size = some p ∧
        x = (⟨fileOf m.fileHash, m.line, m.column⟩,
          sharedEntry m (p.conflictsOf (wavePairs m.lanes))) := by
  constructor
  · intro h
    obtain ⟨⟨m, scope⟩, hm, h⟩ := Option.bind_eq_some_iff.mp h
    obtain ⟨conflicts, hcount, rfl⟩ := Option.map_eq_some_iff.mp h
    obtain ⟨hspace, p, hp, rfl⟩ := countedConflicts?_eq_some_iff.mp hcount
    exact ⟨m, scope, p, hm, hspace, hp, rfl⟩
  · rintro ⟨m, scope, p, hm, hspace, hp, rfl⟩
    have hcount := countedConflicts?_eq_some_iff.mpr ⟨hspace, p, hp, rfl⟩
    rw [Call.sharedExecution?, hm]
    exact Option.map_eq_some_iff.mpr ⟨_, hcount, rfl⟩

/-- An execution of an access to the local data share has the size and the direction of the message,
and no instruction. It counts once, with the conflicts that are counted. -/
lemma sharedEntry_eq (m : Message) (conflicts : ℕ) :
    sharedEntry m conflicts =
      { irSize := m.size
        isaSize := 0
        direction := m.direction
        instruction := ""
        count := 1
        statistic := ⟨conflicts⟩ } :=
  rfl

/-- The executions are those of the calls, each counted after all the calls before it. -/
lemma mem_sharedExecutions {earlier calls : List Call}
    {x : SourcePosition × TallyEntry ConflictTotal} :
    x ∈ sharedExecutions earlier calls ↔
      ∃ before c later, calls = before ++ c :: later ∧
        c.sharedExecution? (fileAfter (earlier ++ before)) = some x := by
  induction calls generalizing earlier with
  | nil => simp [sharedExecutions]
  | cons c calls ih =>
    rw [sharedExecutions, List.mem_append, Option.mem_toList, ih]
    constructor
    · rintro (h | ⟨before, c', later, rfl, h⟩)
      · exact ⟨[], c, calls, rfl, by rw [List.append_nil]; exact h⟩
      · exact ⟨c :: before, c', later, rfl, by rw [List.append_cons]; exact h⟩
    · rintro ⟨before, c', later, hcalls, h⟩
      cases before with
      | nil =>
        cases hcalls
        rw [List.append_nil] at h
        exact .inl h
      | cons first before =>
        cases hcalls
        rw [List.append_cons] at h
        exact .inr ⟨before, c', later, rfl, h⟩

/-- Every execution counts once, and its instruction is not known. -/
lemma plain_of_mem_sharedExecutions {earlier calls : List Call}
    {x : SourcePosition × TallyEntry ConflictTotal} (h : x ∈ sharedExecutions earlier calls) :
    x.2.count = 1 ∧ x.2.isaSize = 0 ∧ x.2.instruction = "" := by
  obtain ⟨_, c, _, -, hc⟩ := mem_sharedExecutions.mp h
  obtain ⟨m, _, p, -, -, -, rfl⟩ := Call.sharedExecution?_eq_some_iff.mp hc
  exact ⟨rfl, rfl, rfl⟩

/-! ## The tally -/

/-- The conflicts that the tables of the hardware count are those of the message. -/
lemma countedConflicts?_of_ok {m : Message} {count : ConflictCount}
    (hspace : m.space = some .shared) (h : hardware.countConflicts m.size m.lanes = .ok count) :
    countedConflicts? m = some count.conflicts := by
  have accepted : ∀ p ∈ LanePartition.hardware, p.IsAccepted :=
    fun _ => LanePartition.isAccepted_of_mem_hardware
  obtain ⟨⟨p, hp, hconflicts⟩, -⟩ := countConflicts_ok accepted h
  refine countedConflicts?_eq_some_iff.mpr ⟨hspace, p, hp, ?_⟩
  rw [hconflicts, conflictsOf_wavePairs (accepted p (mem_of_lastOf? hp).1)]

/-- The conflicts of an access of an unsupported size are not counted. -/
lemma countedConflicts?_of_unsupported {m : Message}
    (h : m.space = some .shared →
      ∃ e, hardware.countConflicts m.size m.lanes = .error (.unsupported e)) :
    countedConflicts? m = none := by
  rw [Option.eq_none_iff_forall_ne_some]
  intro conflicts hcounted
  obtain ⟨hspace, p, hp, -⟩ := countedConflicts?_eq_some_iff.mp hcounted
  obtain ⟨e, he⟩ := h hspace
  rw [lastOf?_of_unsupported he] at hp
  cases hp

/-- A message to the local data share is recorded exactly if there are tables for its size. -/
lemma Taken.shared_eq {s s' : Session} {scope : Option KernelScope} {m : Message} {consumed : Bool}
    (h : Taken s scope m s' consumed) (hs : s.tables = .hardware) :
    s'.shared = s.shared.recordAll (sharedExecution? s.fileNameOf m).toList := by
  have hcases := h.shared_cases
  rw [hs] at hcases
  rcases hcases with ⟨count, hspace, hcount, rfl⟩ | ⟨hnone, hshared, -⟩
  · rw [sharedExecution?, countedConflicts?_of_ok hspace hcount]
    rfl
  · rw [sharedExecution?, countedConflicts?_of_unsupported hnone]
    exact hshared

/-- A call that does not clear a session records the access to the local data share that it counts,
if any. -/
lemma Effect.shared_eq {s s' : Session} {c : Call} (h : Effect s c s') (hs : s.tables = .hardware)
    (hclear : c.isClear = false) :
    s'.shared = s.shared.recordAll (c.sharedExecution? s.fileNameOf).toList := by
  cases h with
  | took hm htaken =>
    rw [Call.sharedExecution?, hm]
    exact htaken.shared_eq hs
  | undecodable hnone =>
    rw [Call.sharedExecution?, hnone]
    rfl
  | reported => rfl
  | cleared => cases hclear

variable {kernel : KernelDispatch} {verbose : Bool} {outlet : Outlet} {arch : Option Architecture}

/-- After earlier calls, calls that do not clear a session record their executions in order. -/
lemma shared_of_afterAll {s s' : Session} {earlier calls : List Call}
    (hearlier : (start kernel verbose outlet arch).afterAll earlier = .ok s)
    (hclear : ∀ c ∈ calls, c.isClear = false) (h : s.afterAll calls = .ok s') :
    s'.shared = s.shared.recordAll (sharedExecutions earlier calls) := by
  induction calls generalizing earlier s with
  | nil => cases h; rfl
  | cons c calls ih =>
    obtain ⟨next, hc, hrest⟩ := afterAll_cons h
    have htables : s.tables = .hardware := IsReachable.tables_eq ⟨_, _, _, _, earlier, hearlier⟩
    have hfiles : s.fileNameOf = fileAfter earlier := funext (fileNameOf_of_afterAll hearlier)
    have hfirst := (effect_of_after hc).shared_eq htables (hclear c List.mem_cons_self)
    have hnext : (start kernel verbose outlet arch).afterAll (earlier ++ [c]) = .ok next :=
      afterAll_append.mpr ⟨s, hearlier, by simp [afterAll, hc]⟩
    rw [ih hnext (fun c hm => hclear c (List.mem_cons_of_mem _ hm)) hrest, hfirst, hfiles,
      sharedExecutions, Tally.recordAll, Tally.recordAll, Tally.recordAll, List.foldl_append]

/-- A session that the last of its calls cleared, or that took no call, is fresh. -/
lemma isFresh_of_afterAll {s : Session} {earlier : List Call}
    (hearlier : earlier = [] ∨ ∃ before, earlier = before ++ [.clear])
    (h : (start kernel verbose outlet arch).afterAll earlier = .ok s) : s.IsFresh := by
  rcases hearlier with rfl | ⟨before, rfl⟩
  · cases h
    exact .started _ _ _ _
  · obtain ⟨next, -, hlast⟩ := afterAll_append.mp h
    cases hlast
    exact .cleared next

/-- A fresh session has recorded no access to the local data share. -/
lemma IsFresh.shared_eq {s : Session} (h : s.IsFresh) : s.shared = .empty := by
  cases h <;> rfl

/-- The calls after the last that clears the session; all calls if none does. -/
def sinceClear (calls : List Call) : List Call :=
  afterLast Call.isClear calls

/-- Calls lead to a session by way of one that is fresh, and none after it clears the session. -/
lemma exists_fresh_of_afterAll {s : Session} {calls : List Call}
    (h : (start kernel verbose outlet arch).afterAll calls = .ok s) :
    ∃ earlier fresh, (start kernel verbose outlet arch).afterAll earlier = .ok fresh ∧
      fresh.IsFresh ∧ fresh.afterAll (sinceClear calls) = .ok s ∧
      ∀ c ∈ sinceClear calls, c.isClear = false := by
  obtain ⟨earlier, hcalls, hends⟩ := exists_append_afterLast Call.isClear calls
  have hearlier : earlier = [] ∨ ∃ before, earlier = before ++ [.clear] := by
    refine hends.imp_right ?_
    rintro ⟨before, c, rfl, hc⟩
    cases c with
    | clear => exact ⟨before, rfl⟩
    | message | packet | report => cases hc
  rw [hcalls] at h
  obtain ⟨fresh, hfirst, hrest⟩ := afterAll_append.mp h
  exact ⟨earlier, fresh, hfirst, isFresh_of_afterAll hearlier hfirst, hrest,
    fun _ => not_ends_of_mem_afterLast⟩

/-- The tally of global accesses is that of the executions since the session was last cleared. -/
lemma global_eq_sinceClear {s : Session} {calls : List Call}
    (h : (start kernel verbose outlet arch).afterAll calls = .ok s) :
    s.global = Tally.ofExecutions ((sinceClear calls).filterMap Call.execution?) := by
  obtain ⟨_, fresh, -, hfresh, hrest, hlater⟩ := exists_fresh_of_afterAll h
  exact hfresh.global_of_afterAll hlater hrest

/-- The tallies of a session are those of the executions since it was last cleared. -/
lemma IsReachable.tallies_eq {s : Session} (hs : s.IsReachable) :
    ∃ earlier calls, s.global = Tally.ofExecutions (calls.filterMap Call.execution?) ∧
      s.shared = Tally.ofExecutions (sharedExecutions earlier calls) := by
  obtain ⟨kernel, verbose, outlet, arch, calls, h⟩ := hs
  obtain ⟨earlier, fresh, hfirst, hfresh, hrest, hlater⟩ := exists_fresh_of_afterAll h
  refine ⟨earlier, sinceClear calls, global_eq_sinceClear h, ?_⟩
  rw [shared_of_afterAll hfirst hlater hrest, hfresh.shared_eq]
  rfl

section Reachable

variable {s : Session} (hs : s.IsReachable)

include hs

/-- The global tally of a reachable session is well-formed. -/
lemma IsReachable.global_isWellFormed : s.global.IsWellFormed := by
  obtain ⟨earlier, calls, hglobal, -⟩ := hs.tallies_eq
  rw [hglobal]
  exact Tally.isWellFormed_ofExecutions

/-- The tally of the local data share of a reachable session is well-formed. -/
lemma IsReachable.shared_isWellFormed : s.shared.IsWellFormed := by
  obtain ⟨earlier, calls, -, hshared⟩ := hs.tallies_eq
  rw [hshared]
  exact Tally.isWellFormed_ofExecutions

/-- The instructions of accesses to the local data share are never known. -/
lemma IsReachable.shared_plain :
    ∀ x ∈ s.shared.entries, x.2.isaSize = 0 ∧ x.2.instruction = "" := by
  obtain ⟨earlier, calls, -, hshared⟩ := hs.tallies_eq
  rw [hshared]
  intro x hx
  obtain ⟨y, hy, -, halike⟩ := Tally.alike_of_mem_ofExecutions hx
  obtain ⟨-, hisa, hinstruction⟩ := plain_of_mem_sharedExecutions hy
  exact ⟨halike.isaSize.trans hisa, halike.instruction.trans hinstruction⟩

end Reachable

/-- Since a session was started or cleared, its tally of accesses to the local data share has one
entry for each key of a message of a size with tables, and no other. The entry counts the messages
of its key and adds up their bank conflicts, which are those of the wavefront's lanes in the groups
for the message's size. A message is filed at its own line and column under the file name that the
calls before it found last for its hash, be it before or after the last clearing. That a name is
found takes a message that counts as a global access and an instruction of it, and the name has the
hash under which it is filed. -/
theorem shared_after_calls {s : Session} {earlier calls : List Call}
    (hearlier : earlier = [] ∨ ∃ before, earlier = before ++ [.clear])
    (hclear : ∀ c ∈ calls, c.isClear = false)
    (h : (start kernel verbose outlet arch).afterAll (earlier ++ calls) = .ok s) :
    s.shared.keys.Nodup ∧
      (∀ k, k ∈ s.shared.keys ↔ ∃ x ∈ sharedExecutions earlier calls, Tally.keyOf x = k) ∧
      (∀ x ∈ s.shared.entries,
        let same := Tally.ofKey (Tally.keyOf x) (sharedExecutions earlier calls)
        x.2.count = same.length ∧
          x.2.statistic.total = (same.map (·.statistic.total)).sum) ∧
      (∀ x, x ∈ sharedExecutions earlier calls ↔
        ∃ before c later m scope p, calls = before ++ c :: later ∧ c.message? = some (m, scope) ∧
          m.space = some .shared ∧ lastOf? LanePartition.hardware m.size = some p ∧
          x = (⟨fileAfter (earlier ++ before) m.fileHash, m.line, m.column⟩,
            { irSize := m.size
              isaSize := 0
              direction := m.direction
              instruction := ""
              count := 1
              statistic := ⟨p.conflictsOf (wavePairs m.lanes)⟩ })) ∧
      (∀ before hash, IsLastFound before hash (fileAfter before hash)) ∧
      (∀ scope m hash name, resolved? scope m = some (hash, name) ↔ m.fileHash = hash ∧
        ∃ i u, countedUse? scope m = some (.found i, u) ∧ i.fileName = name) ∧
      ∀ pair ∈ s.fileNames, fnv1a pair.2 = pair.1 := by
  have hreachable : s.IsReachable := ⟨_, _, _, _, earlier ++ calls, h⟩
  obtain ⟨fresh, hfirst, hrest⟩ := afterAll_append.mp h
  have hshared : s.shared = Tally.ofExecutions (sharedExecutions earlier calls) := by
    rw [shared_of_afterAll hfirst hclear hrest, (isFresh_of_afterAll hearlier hfirst).shared_eq]
    rfl
  rw [hshared]
  refine ⟨Tally.isWellFormed_ofExecutions.nodup, ?_, fun x hx => ⟨?_, ?_⟩, ?_,
    isLastFound_fileAfter, fun _ _ _ _ => resolved?_eq_some_iff, hreachable.fnv1a_fileNames⟩
  · intro k
    rw [Tally.mem_keys_ofExecutions, List.mem_map]
  · exact Tally.count_of_mem_ofExecutions (fun _ hy => (plain_of_mem_sharedExecutions hy).1) hx
  · exact Tally.measure_of_mem_ofExecutions (·.statistic.total) (fun _ _ => rfl) hx
  · intro x
    rw [mem_sharedExecutions]
    constructor
    · rintro ⟨before, c, later, hcalls, hc⟩
      obtain ⟨m, scope, p, hm, hspace, hp, rfl⟩ := Call.sharedExecution?_eq_some_iff.mp hc
      refine ⟨before, c, later, m, scope, p, hcalls, hm, hspace, hp, ?_⟩
      rw [sharedEntry_eq]
    · rintro ⟨before, c, later, m, scope, p, hcalls, hm, hspace, hp, rfl⟩
      refine ⟨before, c, later, hcalls, ?_⟩
      rw [← sharedEntry_eq]
      exact Call.sharedExecution?_eq_some_iff.mpr ⟨m, scope, p, hm, hspace, hp, rfl⟩

/-- The symbols of a kernel that reads global memory once. -/
def readScope : KernelScope where
  kernel := "reduce"
  symbols := ⟨[("reduce", ⟨["a.hip"], [⟨"global_load_dword", 0, 7, 1⟩]⟩)]⟩

/-- A read whose instruction these symbols know. -/
def knownRead : Message :=
  { globalRead 0 with fileHash := fnv1a "a.hip" }

/-- A read of two words of one bank from the same file. -/
def sharedRead : Message :=
  { knownRead with space := some .shared, lanes := [⟨0, 0⟩, ⟨1, 128⟩] }

/-- The only candidate of the known read is its instruction. -/
lemma firstMatch_knownRead {scope : KernelScope} {pathId : UInt64}
    (hfile : scope.symbols.fileName? scope.kernel pathId = some "a.hip") :
    (scope.firstMatch knownRead [⟨"global_load_dword", pathId, 7, 1⟩]).value =
      .found ⟨"a.hip", "global_load_dword", 4⟩ := by
  apply KernelScope.firstMatch_of_accept? [] hfile
  · simp [KernelScope.isAt, knownRead, globalRead]
  · rfl

/-- The known read counts. -/
lemma countedUse?_knownRead {scope : Option KernelScope}
    (hfound : (Finding.ofMessage knownRead scope).value =
      .found ⟨"a.hip", "global_load_dword", 4⟩) :
    ∃ u, countedUse? scope knownRead = some (.found ⟨"a.hip", "global_load_dword", 4⟩, u) := by
  have hline : lineSizeOfId? knownRead.arch = some ⟨128, by decide⟩ := rfl
  refine ⟨_, countedUse?_eq_some_iff.mpr ⟨rfl, ⟨_, hline, rfl⟩, hfound, by simp, ?_⟩⟩
  -- the size of the instruction is that of the message
  rintro ⟨-, hsize, -⟩
  exact hsize rfl

/-- The known read finds its file by the hash of its name. -/
lemma resolved?_knownRead :
    resolved? (some readScope) knownRead = some (fnv1a "a.hip", "a.hip") := by
  have hfile : readScope.symbols.fileName? readScope.kernel 0 = some "a.hip" := rfl
  have hfound : (Finding.ofMessage knownRead (some readScope)).value =
      .found ⟨"a.hip", "global_load_dword", 4⟩ := firstMatch_knownRead hfile
  obtain ⟨u, hu⟩ := countedUse?_knownRead hfound
  exact resolved?_eq_some_iff.mpr ⟨rfl, _, u, hu, rfl⟩

/-- The known read is not misaligned. -/
lemma not_isMisaligned_knownRead : ¬knownRead.IsMisaligned := by
  rintro ⟨hspace, -⟩
  cases hspace

/-- The read of the local data share is not misaligned. -/
lemma not_isMisaligned_sharedRead : ¬sharedRead.IsMisaligned := by
  rintro ⟨-, -, hlanes⟩
  exact absurd hlanes (by decide)

/-- The read has one conflict, in the file that is known for its hash. -/
lemma sharedExecution?_sharedRead (fileOf : UInt64 → String) :
    (Call.message sharedRead none).sharedExecution? fileOf =
      some (⟨fileOf (fnv1a "a.hip"), 7, 1⟩, ⟨4, 0, .read, "", 1, ⟨1⟩⟩) := by
  have hconflicts : countedConflicts? sharedRead = some 1 := by decide
  change Session.sharedExecution? fileOf sharedRead = _
  rw [Session.sharedExecution?, hconflicts]
  rfl

/-- Both reads have one conflict each, in the file that was found before the clearing. -/
lemma sharedExecutions_of_two_reads :
    sharedExecutions [.message knownRead (some readScope), .clear]
        [.message sharedRead none, .message sharedRead none] =
      [(⟨"a.hip", 7, 1⟩, ⟨4, 0, .read, "", 1, ⟨1⟩⟩),
        (⟨"a.hip", 7, 1⟩, ⟨4, 0, .read, "", 1, ⟨1⟩⟩)] := by
  have hread : (Call.message knownRead (some readScope)).resolved? =
      some (fnv1a "a.hip", "a.hip") := resolved?_knownRead
  have hclear : Call.clear.resolved? = none := rfl
  have hnone : (Call.message sharedRead none).resolved? = none := rfl
  have hfirst : fileAfter [.message knownRead (some readScope), .clear] (fnv1a "a.hip") =
      "a.hip" := by
    simp [fileAfter, findings, hread, hclear]
  have hsecond : fileAfter [.message knownRead (some readScope), .clear,
      .message sharedRead none] (fnv1a "a.hip") = "a.hip" := by
    simp [fileAfter, findings, hread, hclear, hnone]
  simp only [sharedExecutions, sharedExecution?_sharedRead, List.cons_append, List.nil_append,
    hfirst, hsecond]
  rfl

/-- A global read, a clearing and two reads of the local data share break nothing down. -/
lemma afterAll_of_two_reads :
    ∃ s, (start ⟨"reduce", 1⟩ false (.create .console .text) none).afterAll
      [.message knownRead (some readScope), .clear, .message sharedRead none,
        .message sharedRead none] = .ok s := by
  apply afterAll_ok rfl
  intro c hc m scope hm
  simp only [List.mem_cons, List.not_mem_nil, or_false, or_self] at hc
  rcases hc with rfl | rfl | rfl <;> cases hm
  · exact not_isMisaligned_knownRead
  · exact not_isMisaligned_sharedRead

/-- Two reads with a conflict each are filed under the name that was found before the session was
cleared. -/
theorem shared_after_clear_and_two_reads :
    let earlier : List Call := [.message knownRead (some readScope), .clear]
    let calls : List Call := [.message sharedRead none, .message sharedRead none]
    (∃ before, earlier = before ++ [.clear]) ∧ (∀ c ∈ calls, c.isClear = false) ∧
      ∃ s, (start ⟨"reduce", 1⟩ false (.create .console .text) none).afterAll
          (earlier ++ calls) = .ok s ∧
        s.shared.keys = [⟨⟨"a.hip", 7, 1⟩, 4, 0, .read⟩] ∧
        ∀ x ∈ s.shared.entries, x.2.count = 2 ∧ x.2.statistic.total = 2 := by
  intro earlier calls
  have hearlier : ∃ before, earlier = before ++ [.clear] :=
    ⟨[.message knownRead (some readScope)], rfl⟩
  have hclear : ∀ c ∈ calls, c.isClear = false := by
    intro c hc
    simp only [calls, List.mem_cons, List.not_mem_nil, or_false] at hc
    rcases hc with rfl | rfl <;> rfl
  obtain ⟨s, h⟩ : ∃ s, (start ⟨"reduce", 1⟩ false (.create .console .text) none).afterAll
      (earlier ++ calls) = .ok s := afterAll_of_two_reads
  obtain ⟨hnodup, hkeys, hsums, -⟩ := shared_after_calls (.inr hearlier) hclear h
  rw [sharedExecutions_of_two_reads] at hkeys hsums
  have hkey : s.shared.keys = [⟨⟨"a.hip", 7, 1⟩, 4, 0, .read⟩] := by
    rw [← List.perm_singleton, List.perm_ext_iff_of_nodup hnodup (List.nodup_singleton _)]
    intro k
    rw [hkeys]
    simp [Tally.keyOf, TallyEntry.key, eq_comm]
  refine ⟨hearlier, hclear, s, h, hkey, ?_⟩
  intro x hx
  have hx' : Tally.keyOf x ∈ s.shared.keys := List.mem_map_of_mem hx
  rw [hkey, List.mem_singleton] at hx'
  obtain ⟨hcount, htotal⟩ := hsums x hx
  rw [hx'] at hcount htotal
  exact ⟨hcount, htotal⟩

end WaveAccess.Session
