import WaveAccess.Proofs.Report.Deliveries
import WaveAccess.Proofs.Session.SharedTally
import WaveAccess.Proofs.Tally.Permutation

/-!
# Messages in another order

A run over the same messages in another order consumes as many of them and makes the same entries of
global accesses. The accesses to the local data share add up to the same for every line and column,
but the file that such an access is filed under depends on the messages before it.
-/

namespace WaveAccess

/-- Whether an access has the given line and column, size and direction, in whatever file. -/
def AccessKey.isAt (k : AccessKey) (line column : UInt32) (size : UInt16) (direction : Direction) :
    Bool :=
  k.location.line = line ∧ k.location.column = column ∧ k.irSize = size ∧ k.direction = direction

namespace Session

variable {s s' : Session} {scope : Option KernelScope} {m : Message} {consumed : Bool}
  {messages others : List Message}

/-! ## Taking in messages -/

/-- Whether a message is consumed: its hardware has a known line size if it is a global access, and
there are tables for its size if it is an access to the local data share. -/
def isConsumed (m : Message) : Bool :=
  match m.space with
  | some .global => (lineSizeOfId? m.arch).isSome
  | some .shared => (countedConflicts? m).isSome
  | _ => false

/-- Whether a message is consumed does not depend on the session. -/
lemma Taken.consumed_eq (h : Taken s scope m s' consumed) (hs : s.tables = .hardware) :
    consumed = isConsumed m := by
  unfold isConsumed
  cases h with
  | foreign hspace harch => simp [hspace, harch]
  | dropped hspace harch => simp [hspace, harch]
  | counted hu =>
    obtain ⟨hspace, ⟨line, hline, -⟩, -⟩ := countedUse?_eq_some_iff.mp hu
    simp [hspace, hline]
  | shared hspace hcount =>
    rw [hs] at hcount
    simp [hspace, countedConflicts?_of_ok hspace hcount]
  | unsupported hspace hcount =>
    rw [hs] at hcount
    simp [hspace, countedConflicts?_of_unsupported fun _ => ⟨_, hcount⟩]
  | unhandled hglobal hshared =>
    split
    · next hspace => exact absurd hspace hglobal
    · next hspace => exact absurd hspace hshared
    · rfl

/-- As many messages are consumed as there are messages that can be. -/
lemma consumed_of_observeAll (hs : s.tables = .hardware) {x : Logged (Session × Nat)}
    (h : s.observeAll scope messages = .ok x) : x.value.2 = messages.countP isConsumed := by
  induction messages generalizing s x with
  | nil => cases h; rfl
  | cons m rest ih =>
    obtain ⟨first, others, hfirst, hrest, hx⟩ := observeAll_cons_ok h
    have htaken := taken_of_observe hfirst
    have htables := (Effect.took (c := .message m scope) rfl htaken).tables_eq hs
    rw [hx, ih htables hrest, List.countP_cons, htaken.consumed_eq hs]

/-- Taking in messages changes neither the kernel, nor how much is reported, nor the outlet. -/
lemma keeps_of_observeAll {x : Logged (Session × Nat)} (h : s.observeAll scope messages = .ok x) :
    x.value.1.kernel = s.kernel ∧ x.value.1.verbose = s.verbose ∧ x.value.1.outlet = s.outlet := by
  induction messages generalizing s x with
  | nil => cases h; exact ⟨rfl, rfl, rfl⟩
  | cons m rest ih =>
    obtain ⟨first, others, hfirst, hrest, hx⟩ := observeAll_cons_ok h
    obtain ⟨hkernel, hverbose, houtlet⟩ := (taken_of_observe hfirst).keeps
    rw [hx, ← hkernel, ← hverbose, ← houtlet]
    exact ih hrest

/-- The calls that take in messages. -/
def callsOf (scope : Option KernelScope) (messages : List Message) : List Call :=
  messages.map (.message · scope)

/-- Messages are taken in by the calls for them. -/
lemma afterAll_of_observeAll {x : Logged (Session × Nat)}
    (h : s.observeAll scope messages = .ok x) :
    s.afterAll (callsOf scope messages) = .ok x.value.1 := by
  rw [callsOf, ← map_observeAll, h]
  rfl

/-- To take in messages is not to clear. -/
lemma not_isClear_of_mem_callsOf {c : Call} (h : c ∈ callsOf scope messages) :
    c.isClear = false := by
  obtain ⟨m, -, rfl⟩ := List.mem_map.mp h
  rfl

/-- The calls for permuted messages are permuted. -/
lemma callsOf_perm (h : messages.Perm others) :
    (callsOf scope messages).Perm (callsOf scope others) :=
  h.map _

/-! ## Global accesses -/

/-- Executions of one key are of one instruction, as size and direction determine it. -/
lemma oneInstruction_execution? (calls : List Call) :
    Tally.OneInstruction (calls.filterMap Call.execution?) := by
  have hentry : ∀ x ∈ calls.filterMap Call.execution?, ∃ m scope,
      x.2.isaSize = (Finding.ofMessage m scope).value.size ∧ x.2.direction = m.direction ∧
        x.2.instruction = (Finding.ofMessage m scope).value.mnemonic := by
    intro x hx
    obtain ⟨c, -, hc⟩ := List.mem_filterMap.mp hx
    obtain ⟨m, scope, f, u, -, hu, rfl⟩ := Call.execution?_eq_some_iff.mp hc
    obtain ⟨-, -, rfl, -⟩ := countedUse?_eq_some_iff.mp hu
    exact ⟨m, scope, rfl, rfl, rfl⟩
  intro x hx y hy hkey
  obtain ⟨m, scope, hsize, hdirection, hinstruction⟩ := hentry x hx
  obtain ⟨m', scope', hsize', hdirection', hinstruction'⟩ := hentry y hy
  have hisa : x.2.isaSize = y.2.isaSize := congrArg AccessKey.isaSize hkey
  have hway : x.2.direction = y.2.direction := congrArg AccessKey.direction hkey
  rw [hinstruction, hinstruction']
  apply Finding.mnemonic_eq
  · rw [← hsize, ← hsize', hisa]
  · rw [← hdirection, ← hdirection', hway]

/-! ## Accesses to the local data share -/

/-- An execution without the file that it is filed under. -/
def inNoFile {M : Type} (x : SourcePosition × TallyEntry M) : SourcePosition × TallyEntry M :=
  (⟨"", x.1.line, x.1.column⟩, x.2)

/-- Sums over a place in the source are the same without the file. -/
lemma sumOver_inNoFile {M : Type} (line column : UInt32) (size : UInt16) (direction : Direction)
    (measure : TallyEntry M → ℕ) (executions : List (SourcePosition × TallyEntry M)) :
    Tally.sumOver (·.isAt line column size direction) measure (executions.map inNoFile) =
      Tally.sumOver (·.isAt line column size direction) measure executions := by
  rw [Tally.sumOver, List.filter_map, List.map_map]
  rfl

/-- An execution without its file is filed under no name. -/
lemma Call.map_inNoFile_sharedExecution? (fileOf : UInt64 → String) (c : Call) :
    (c.sharedExecution? fileOf).map inNoFile = c.sharedExecution? fun _ => "" := by
  unfold Call.sharedExecution?
  cases c.message? with
  | none => rfl
  | some taken =>
    unfold Session.sharedExecution?
    rw [Option.bind_some, Option.bind_some, Option.map_map]
    rfl

/-- Without the files, what calls count does not depend on the calls before them. -/
lemma map_inNoFile_sharedExecutions (earlier calls : List Call) :
    (sharedExecutions earlier calls).map inNoFile =
      calls.filterMap (Call.sharedExecution? fun _ => "") := by
  induction calls generalizing earlier with
  | nil => rfl
  | cons c calls ih =>
    rw [sharedExecutions, List.map_append, ih, ← Option.toList_map,
      Call.map_inNoFile_sharedExecution?]
    simp only [List.filterMap_eq_flatMap_toList, List.flatMap_cons]

/-- Sums over a place in the source do not depend on what calls before have found. -/
lemma sumOver_sharedExecutions (line column : UInt32) (size : UInt16) (direction : Direction)
    (measure : TallyEntry ConflictTotal → ℕ) (earlier calls : List Call) :
    Tally.sumOver (·.isAt line column size direction) measure (sharedExecutions earlier calls) =
      Tally.sumOver (·.isAt line column size direction) measure
        (calls.filterMap (Call.sharedExecution? fun _ => "")) := by
  rw [← sumOver_inNoFile, map_inNoFile_sharedExecutions]

/-- Accesses to the local data share are of no instruction, so of no two. -/
lemma oneInstruction_sharedExecutions (earlier calls : List Call) :
    Tally.OneInstruction (sharedExecutions earlier calls) := by
  intro x hx y hy _
  obtain ⟨-, -, hnone⟩ := plain_of_mem_sharedExecutions hx
  obtain ⟨-, -, hnone'⟩ := plain_of_mem_sharedExecutions hy
  rw [hnone, hnone']

/-- If no call finds a file name, all are filed under the names from before. -/
lemma sharedExecutions_of_resolved?_eq_none {earlier calls : List Call}
    (h : ∀ c ∈ calls, c.resolved? = none) :
    sharedExecutions earlier calls =
      calls.filterMap (Call.sharedExecution? (fileAfter earlier)) := by
  induction calls generalizing earlier with
  | nil => rfl
  | cons c calls ih =>
    have hfile : fileAfter (earlier ++ [c]) = fileAfter earlier := by
      funext hash
      simp [fileAfter, findings, h c List.mem_cons_self]
    rw [sharedExecutions, ih fun c hc => h c (List.mem_cons_of_mem _ hc), hfile]
    simp only [List.filterMap_eq_flatMap_toList, List.flatMap_cons]

/-- No file name is found without symbols. -/
lemma resolved?_of_mem_callsOf_none {c : Call} (h : c ∈ callsOf none messages) :
    c.resolved? = none := by
  obtain ⟨m, -, rfl⟩ := List.mem_map.mp h
  rw [Option.eq_none_iff_forall_ne_some]
  rintro ⟨hash, name⟩ hfound
  obtain ⟨-, i, u, hu, -⟩ := resolved?_eq_some_iff.mp hfound
  obtain ⟨-, -, hunknown, -⟩ := countedUse?_eq_some_iff.mp hu
  cases hunknown

/-- Whether a file is found for a hash does not depend on the order of the calls. -/
lemma isSome_lookup_findings_perm {calls calls' : List Call} (h : calls.Perm calls')
    (hash : UInt64) :
    ((findings calls).lookup hash).isSome = ((findings calls').lookup hash).isSome := by
  have hfindings : (findings calls).Perm (findings calls') :=
    (List.reverse_perm _).trans ((h.filterMap _).trans (List.reverse_perm _).symm)
  rw [Bool.eq_iff_iff, List.lookup_isSome_iff, List.lookup_isSome_iff]
  simp only [hfindings.mem_iff]

/-! ## Runs -/

/-- Two sessions have analyzed the same accesses. They differ in nothing but the order of entries at
one location, the files that accesses to the local data share are filed under, the architecture, and
the source file that was read last. -/
structure SameAccesses (s s' : Session) : Prop where
  kernel : s.kernel = s'.kernel
  verbose : s.verbose = s'.verbose
  tables : s.tables = s'.tables
  destination : s.outlet.destination = s'.outlet.destination
  format : s.outlet.format = s'.outlet.format
  global : s.global.entries.Perm s'.global.entries
  globalOrder : s.global.entries.map (·.1) = s'.global.entries.map (·.1)
  sharedCounts : ∀ line column size direction,
    Tally.sumOver (·.isAt line column size direction) (·.count) s.shared.entries =
      Tally.sumOver (·.isAt line column size direction) (·.count) s'.shared.entries
  sharedTotals : ∀ line column size direction,
    Tally.sumOver (·.isAt line column size direction) (·.statistic.total) s.shared.entries =
      Tally.sumOver (·.isAt line column size direction) (·.statistic.total) s'.shared.entries
  sharedPlain : ∀ x ∈ s.shared.entries ++ s'.shared.entries,
    x.2.isaSize = 0 ∧ x.2.instruction = ""
  hashes : ∀ hash, (s.fileNames.lookup hash).isSome = (s'.fileNames.lookup hash).isSome

/-- The global accesses that messages count are tallied. -/
lemma global_of_observeAll (hs : s.global = .empty) {x : Logged (Session × Nat)}
    (hx : s.observeAll scope messages = .ok x) :
    x.value.1.global =
      Tally.ofExecutions ((callsOf scope messages).filterMap Call.execution?) := by
  have hclear : ∀ c ∈ callsOf scope messages, c.isClear = false :=
    fun _ => not_isClear_of_mem_callsOf
  rw [global_of_afterAll hclear (afterAll_of_observeAll hx), hs]
  rfl

section Observed

variable {x y : Logged (Session × Nat)} (hs : s.IsReachable) (hshared : s.shared = .empty)

include hs hshared

/-- The accesses to the local data share that messages count are filed under the names that were
found since the session began. -/
lemma shared_of_observeAll (scope : Option KernelScope) :
    ∃ earlier, ∀ {messages x}, s.observeAll scope messages = .ok x →
      x.value.1.shared =
        Tally.ofExecutions (sharedExecutions earlier (callsOf scope messages)) := by
  obtain ⟨kernel, verbose, outlet, arch, earlier, hearlier⟩ := hs
  refine ⟨earlier, ?_⟩
  intro messages x hx
  have hclear : ∀ c ∈ callsOf scope messages, c.isClear = false :=
    fun _ => not_isClear_of_mem_callsOf
  rw [shared_of_afterAll hearlier hclear (afterAll_of_observeAll hx), hshared]
  rfl

/-- Accesses to the local data share measure the same at any line and column, in whatever order
their messages are taken in. -/
lemma sumOver_shared_of_observeAll (h : messages.Perm others)
    (hx : s.observeAll scope messages = .ok x) (hy : s.observeAll scope others = .ok y)
    {measure : TallyEntry ConflictTotal → ℕ}
    (hmerge : ∀ e other, measure (e.merge other) = measure e + measure other)
    (line column : UInt32) (size : UInt16) (direction : Direction) :
    Tally.sumOver (·.isAt line column size direction) measure x.value.1.shared.entries =
      Tally.sumOver (·.isAt line column size direction) measure y.value.1.shared.entries := by
  obtain ⟨earlier, hall⟩ := shared_of_observeAll hs hshared scope
  rw [hall hx, hall hy, Tally.sumOver_ofExecutions hmerge, Tally.sumOver_ofExecutions hmerge,
    sumOver_sharedExecutions, sumOver_sharedExecutions]
  exact Tally.sumOver_perm ((callsOf_perm h).filterMap _)

/-- Without symbols, messages that are taken in in another order make the same entries of accesses
to the local data share. -/
lemma shared_perm_of_observeAll (h : messages.Perm others)
    (hx : s.observeAll none messages = .ok x) (hy : s.observeAll none others = .ok y) :
    x.value.1.shared.entries.Perm y.value.1.shared.entries := by
  obtain ⟨earlier, hall⟩ := shared_of_observeAll hs hshared none
  have hplain : ∀ messages, sharedExecutions earlier (callsOf none messages) =
      (callsOf none messages).filterMap (Call.sharedExecution? (fileAfter earlier)) :=
    fun _ => sharedExecutions_of_resolved?_eq_none fun _ => resolved?_of_mem_callsOf_none
  have hperm : (sharedExecutions earlier (callsOf none messages)).Perm
      (sharedExecutions earlier (callsOf none others)) := by
    rw [hplain, hplain]
    exact (callsOf_perm h).filterMap _
  rw [hall hx, hall hy]
  exact Tally.entries_perm_of_perm hperm (oneInstruction_sharedExecutions _ _)

/-- Messages that are taken in in another order leave a session that has analyzed the same
accesses. -/
lemma sameAccesses_of_observeAll (hglobal : s.global = .empty) (h : messages.Perm others)
    (hx : s.observeAll scope messages = .ok x) (hy : s.observeAll scope others = .ok y) :
    SameAccesses x.value.1 y.value.1 := by
  have hcalls := afterAll_of_observeAll hx
  have hcalls' := afterAll_of_observeAll hy
  have hreachable := hs.afterAll hcalls
  have hreachable' := hs.afterAll hcalls'
  obtain ⟨hkernel, hverbose, houtlet⟩ := keeps_of_observeAll hx
  obtain ⟨hkernel', hverbose', houtlet'⟩ := keeps_of_observeAll hy
  have hperm : x.value.1.global.entries.Perm y.value.1.global.entries := by
    rw [global_of_observeAll hglobal hx, global_of_observeAll hglobal hy]
    apply Tally.entries_perm_of_perm ((callsOf_perm h).filterMap _)
    exact oneInstruction_execution? _
  refine
    { kernel := by rw [hkernel, hkernel']
      verbose := by rw [hverbose, hverbose']
      tables := by rw [hreachable.tables_eq, hreachable'.tables_eq]
      destination := by rw [houtlet, houtlet']
      format := by rw [houtlet, houtlet']
      global := hperm
      globalOrder := ?_
      sharedCounts := sumOver_shared_of_observeAll hs hshared h hx hy fun _ _ => rfl
      sharedTotals := sumOver_shared_of_observeAll hs hshared h hx hy fun _ _ => rfl
      sharedPlain := ?_
      hashes := ?_ }
  · exact hreachable.global_isWellFormed.locations_eq hreachable'.global_isWellFormed hperm
  · intro e he
    rcases List.mem_append.mp he with he | he
    · exact hreachable.shared_plain e he
    · exact hreachable'.shared_plain e he
  · intro hash
    rw [lookup_fileNames_of_afterAll hcalls, lookup_fileNames_of_afterAll hcalls',
      Option.isSome_or, Option.isSome_or, isSome_lookup_findings_perm (callsOf_perm h)]

end Observed

/-- A run that takes in its messages ends with its report. -/
lemma run_of_observeAll (around : Surroundings) {symbols : Option SymbolTable}
    {x : Logged (Session × Nat)} (hx : s.observeAll (s.scopeIn symbols) messages = .ok x) :
    ∃ result, s.run around symbols messages = .ok result ∧
      result.value = ⟨(x.value.1.report around (s.scopeIn symbols)).value, x.value.2⟩ := by
  rw [scopeIn] at hx
  refine ⟨_, by rw [run, hx]; rfl, ?_⟩
  rfl

/-- Messages are taken in to the last if none of them is misaligned. -/
lemma observeAll_ok (hs : s.tables = .hardware) (scope : Option KernelScope)
    (haligned : ∀ m ∈ messages, ¬m.IsMisaligned) : ∃ x, s.observeAll scope messages = .ok x := by
  cases h : s.observeAll scope messages with
  | ok x => exact ⟨x, rfl⟩
  | error b =>
    obtain ⟨m, hm, hmisaligned⟩ := (observeAll_breaks_iff hs).mp ⟨b, h⟩
    exact absurd hmisaligned (haligned m hm)

/-- Reports of sessions that have analyzed the same accesses, through the same outlet, fail in the
same way and leave the same files. Of these sessions, only the outlets remember more. -/
lemma SameAccesses.report (h : SameAccesses s s') (houtlet : s.outlet = s'.outlet)
    (around : Surroundings) (scope : Option KernelScope) :
    (s.report around scope).value.fault = (s'.report around scope).value.fault ∧
      (s.report around scope).value.tree.SameShape (s'.report around scope).value.tree ∧
      SameAccesses (s.report around scope).value.session
        (s'.report around scope).value.session := by
  rw [value_report, value_report, ← houtlet]
  generalize scope.map (fun scope => scope.symbols.names.length) = kernelsFound
  obtain ⟨hfault, hshape⟩ := s.outlet.deliver_outcome around (s.results kernelsFound)
    (s'.results kernelsFound)
  obtain ⟨hdestination, hformat⟩ := s.outlet.deliver_keeps around (s.results kernelsFound)
  obtain ⟨hdestination', hformat'⟩ := s.outlet.deliver_keeps around (s'.results kernelsFound)
  refine ⟨hfault.symm, hshape, { h with destination := ?_, format := ?_ }⟩
  · exact hdestination.trans hdestination'.symm
  · exact hformat.trans hformat'.symm

/-- Two runs of a session without recorded accesses, over the same messages in different orders,
both end if no message is misaligned. They consume as many messages, fail to report in the same way
if at all, and leave sessions that have analyzed the same accesses. Without symbols, they file
accesses to the local data share under the same files too. -/
theorem run_of_perm (hs : s.IsReachable) (hglobal : s.global.isEmpty = true)
    (hshared : s.shared.isEmpty = true) (around : Surroundings) (symbols : Option SymbolTable)
    (h : messages.Perm others) (haligned : ∀ m ∈ messages, ¬m.IsMisaligned) :
    ∃ x y, s.run around symbols messages = .ok x ∧ s.run around symbols others = .ok y ∧
      x.value.consumed = y.value.consumed ∧
      x.value.reported.fault = y.value.reported.fault ∧
      x.value.reported.tree.SameShape y.value.reported.tree ∧
      SameAccesses x.value.reported.session y.value.reported.session ∧
      (symbols = none → x.value.reported.session.shared.entries.Perm
        y.value.reported.session.shared.entries) := by
  have hglobal : s.global = .empty := Tally.eq_empty_of_isEmpty hglobal
  have hshared : s.shared = .empty := Tally.eq_empty_of_isEmpty hshared
  have haligned' : ∀ m ∈ others, ¬m.IsMisaligned := fun m hm => haligned m (h.mem_iff.mpr hm)
  obtain ⟨a, ha⟩ := observeAll_ok hs.tables_eq (s.scopeIn symbols) haligned
  obtain ⟨b, hb⟩ := observeAll_ok hs.tables_eq (s.scopeIn symbols) haligned'
  obtain ⟨x, hx, hxvalue⟩ := run_of_observeAll around ha
  obtain ⟨y, hy, hyvalue⟩ := run_of_observeAll around hb
  have houtlet : a.value.1.outlet = b.value.1.outlet :=
    (keeps_of_observeAll ha).2.2.trans (keeps_of_observeAll hb).2.2.symm
  have hsame := sameAccesses_of_observeAll hs hshared hglobal h ha hb
  obtain ⟨hfault, hshape, hreported⟩ := hsame.report houtlet around (s.scopeIn symbols)
  refine ⟨x, y, hx, hy, ?_⟩
  rw [hxvalue, hyvalue]
  refine ⟨?_, hfault, hshape, hreported, ?_⟩
  · rw [consumed_of_observeAll hs.tables_eq ha, consumed_of_observeAll hs.tables_eq hb]
    exact h.countP_eq _
  · rintro rfl
    dsimp only
    rw [value_report, value_report]
    exact shared_perm_of_observeAll hs hshared h ha hb

/-- A read of the local data share may come before or after the read that names its file. -/
theorem run_of_two_reads_in_either_order :
    let s := start ⟨"reduce", 1⟩ false (.create .console .text) none
    let around : Surroundings := ⟨.empty [], "2024-01-01 00:00:00"⟩
    s.IsReachable ∧ s.global.isEmpty = true ∧ s.shared.isEmpty = true ∧
      [knownRead, sharedRead].Perm [sharedRead, knownRead] ∧
      (∀ m ∈ [knownRead, sharedRead], ¬m.IsMisaligned) ∧
      ∃ x y, s.run around (some readScope.symbols) [knownRead, sharedRead] = .ok x ∧
        s.run around (some readScope.symbols) [sharedRead, knownRead] = .ok y ∧
        x.value.consumed = y.value.consumed ∧
        SameAccesses x.value.reported.session y.value.reported.session := by
  intro s around
  have hs : s.IsReachable := ⟨_, _, _, _, [], rfl⟩
  have hperm : [knownRead, sharedRead].Perm [sharedRead, knownRead] := .swap _ _ _
  have haligned : ∀ m ∈ [knownRead, sharedRead], ¬m.IsMisaligned := by
    intro m hm
    simp only [List.mem_cons, List.not_mem_nil, or_false] at hm
    rcases hm with rfl | rfl
    · exact not_isMisaligned_knownRead
    · exact not_isMisaligned_sharedRead
  obtain ⟨x, y, hx, hy, hconsumed, -, -, hsame, -⟩ :=
    run_of_perm hs rfl rfl around (some readScope.symbols) hperm haligned
  exact ⟨hs, rfl, rfl, hperm, haligned, x, y, hx, hy, hconsumed, hsame⟩

end Session

end WaveAccess
