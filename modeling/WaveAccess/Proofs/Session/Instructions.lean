import WaveAccess.Proofs.Session.SharedTally

/-!
# The instructions that entries show

An entry keeps the instruction of the first access that it takes in, and takes in others by their
place, their sizes and their direction alone. It still shows the instruction of all of them: a width
and a direction belong to one known mnemonic, whichever symbols the accesses are looked up in, and
an access whose instruction is not known has no width.
-/

namespace WaveAccess.Session
open BankTables

/-! ## Merged accesses -/

/-- Whether a call counts an access under the key of an entry, which then takes it in. -/
def Call.mergesInto (x : SourcePosition × TallyEntry CacheUsage) (c : Call) : Bool :=
  c.execution?.any (Tally.keyOf · = Tally.keyOf x)

/-- A call is merged into an entry if it is an execution with the key of the entry. -/
lemma Call.mergesInto_iff {x : SourcePosition × TallyEntry CacheUsage} {c : Call} :
    c.mergesInto x = true ↔ ∃ y, c.execution? = some y ∧ Tally.keyOf y = Tally.keyOf x := by
  simp [mergesInto, Option.any_eq_true]

/-- As many executions have a key as calls are merged into its entry. -/
lemma length_ofKey_executions (x : SourcePosition × TallyEntry CacheUsage) (calls : List Call) :
    (Tally.ofKey (Tally.keyOf x) (calls.filterMap Call.execution?)).length =
      (calls.filter (·.mergesInto x)).length := by
  rw [Tally.ofKey, List.length_map, ← List.countP_eq_length_filter, List.countP_filterMap,
    ← List.countP_eq_length_filter]
  congr 1
  funext c
  rw [Call.mergesInto]
  cases c.execution? <;> rfl

/-- What is known of the instruction of an access that a call counts. -/
inductive InstructionOf (c : Call) (y : SourcePosition × TallyEntry CacheUsage) : Prop where
  /-- No instruction is found. -/
  | unknown : y.2.isaSize = 0 → y.2.instruction = "" → y.1.file = unknownSourceFile →
    InstructionOf c y
  /-- An instruction is found that fits the message. -/
  | found {m scope i} : c.message? = some (m, scope) →
    (Finding.ofMessage m scope).value = .found i → i.Fits m → y.1.file = i.fileName →
    y.2.isaSize = i.size → y.2.instruction = i.mnemonic → y.2.direction = m.direction →
    InstructionOf c y

/-- An execution has the instruction that its call found, or none. -/
lemma instructionOf_of_execution? {c : Call} {y : SourcePosition × TallyEntry CacheUsage}
    (h : c.execution? = some y) : InstructionOf c y := by
  obtain ⟨m, scope, f, u, hm, hu, rfl⟩ := Call.execution?_eq_some_iff.mp h
  obtain ⟨-, -, hfound, helsewhere, -⟩ := countedUse?_eq_some_iff.mp hu
  cases f with
  | elsewhere => exact absurd rfl helsewhere
  | unknown => exact .unknown rfl rfl rfl
  | found i => exact .found hm hfound (Finding.fits_of_ofMessage hfound) rfl rfl rfl rfl

/-- A call that is merged into an entry of a known instruction finds this very instruction. -/
lemma Call.found_of_mergesInto {c : Call} {x : SourcePosition × TallyEntry CacheUsage}
    (h : c.mergesInto x = true)
    (hwidth : widthOf? x.2.instruction = some (x.2.isaSize, x.2.direction)) :
    ∃ m scope i, c.message? = some (m, scope) ∧ (Finding.ofMessage m scope).value = .found i ∧
      i.mnemonic = x.2.instruction ∧ i.fileName = x.1.file ∧ m.fileHash = fnv1a x.1.file := by
  obtain ⟨y, hy, hkey⟩ := Call.mergesInto_iff.mp h
  have hlocation : y.1 = x.1 := congrArg AccessKey.location hkey
  have hsize : y.2.isaSize = x.2.isaSize := congrArg AccessKey.isaSize hkey
  have hdirection : y.2.direction = x.2.direction := congrArg AccessKey.direction hkey
  cases instructionOf_of_execution? hy with
  | unknown hzero =>
    -- a known instruction has a width
    exact absurd (hsize.symm.trans hzero) (width_ne_zero hwidth)
  | @found m scope i hm hfound hfits hfile hisa hmnemonic hway =>
    have hfile' : i.fileName = x.1.file := by rw [← hfile, hlocation]
    refine ⟨m, scope, i, hm, hfound, ?_, hfile', ?_⟩
    · apply mnemonic_eq_of_widthOf? hfits.width
      rw [← hisa, ← hway, hsize, hdirection, hwidth]
    · rw [← hfile', hfits.hash]

/-! ## Reachable sessions -/

variable {kernel : KernelDispatch} {verbose : Bool} {outlet : Outlet} {arch : Option Architecture}
  {s : Session} {calls : List Call}

section Global

variable (h : (start kernel verbose outlet arch).afterAll calls = .ok s)
  {x : SourcePosition × TallyEntry CacheUsage} (hx : x ∈ s.global.entries)

include h hx

/-- An entry counts the calls that are merged into it. -/
lemma count_eq_mergesInto :
    x.2.count = ((sinceClear calls).filter (·.mergesInto x)).length ∧ 0 < x.2.count := by
  have hone : ∀ y ∈ (sinceClear calls).filterMap Call.execution?, y.2.count = 1 := by
    intro y hy
    obtain ⟨c, -, hc⟩ := List.mem_filterMap.mp hy
    exact count_of_execution? hc
  rw [global_eq_sinceClear h] at hx
  rw [← length_ofKey_executions]
  exact ⟨Tally.count_of_mem_ofExecutions hone hx, Tally.count_pos_of_mem_ofExecutions hone hx⟩

/-- An entry shows no instruction and no file, or an instruction of its width and direction. -/
lemma instruction_of_mem_global :
    x.2.isaSize = 0 ∧ x.2.instruction = "" ∧ x.1.file = unknownSourceFile ∨
      widthOf? x.2.instruction = some (x.2.isaSize, x.2.direction) := by
  rw [global_eq_sinceClear h] at hx
  obtain ⟨y, hy, hkey, halike⟩ := Tally.alike_of_mem_ofExecutions hx
  obtain ⟨c, -, hcy⟩ := List.mem_filterMap.mp hy
  have hlocation : y.1 = x.1 := congrArg AccessKey.location hkey
  rw [halike.isaSize, halike.instruction, halike.direction, ← hlocation]
  cases instructionOf_of_execution? hcy with
  | unknown hisa hinstruction hfile => exact .inl ⟨hisa, hinstruction, hfile⟩
  | found _ _ hfits _ hisa hinstruction hdirection =>
    rw [hisa, hinstruction, hdirection]
    exact .inr hfits.width

end Global

/-- The conflicts of an access are counted for the sizes with tables only. -/
lemma size_of_mem_sharedExecutions {earlier : List Call}
    {y : SourcePosition × TallyEntry ConflictTotal} (h : y ∈ sharedExecutions earlier calls) :
    y.2.irSize ∈ [1, 2, 4, 8, 16] := by
  obtain ⟨_, c, _, -, hc⟩ := mem_sharedExecutions.mp h
  obtain ⟨m, _, p, -, -, hp, rfl⟩ := Call.sharedExecution?_eq_some_iff.mp hc
  exact isSome_lastOf?_hardware.mp (Option.isSome_of_eq_some hp)

/-- Entries of accesses to the local data share are of a supported size and have been executed. -/
lemma IsReachable.size_of_mem_shared (hs : s.IsReachable)
    {x : SourcePosition × TallyEntry ConflictTotal} (hx : x ∈ s.shared.entries) :
    x.2.irSize ∈ [1, 2, 4, 8, 16] ∧ 0 < x.2.count := by
  obtain ⟨earlier, calls, -, hshared⟩ := hs.tallies_eq
  rw [hshared] at hx
  obtain ⟨y, hy, -, halike⟩ := Tally.alike_of_mem_ofExecutions hx
  have hone : ∀ y ∈ sharedExecutions earlier calls, y.2.count = 1 :=
    fun _ hy => (plain_of_mem_sharedExecutions hy).1
  rw [halike.irSize]
  exact ⟨size_of_mem_sharedExecutions hy, Tally.count_pos_of_mem_ofExecutions hone hx⟩

/-- Every entry of global accesses counts the calls since the last clearing that are merged into it,
one at least. It shows no instruction and no file, or a known instruction that has exactly its width
and direction; then this is the instruction that was found for every access merged into it, in
whichever symbols, and the access had the hash of the entry's file. An entry of accesses to the
local data share shows no instruction, has a size with tables, and counts one access at least. -/
theorem entries_show_the_instruction
    (h : (start kernel verbose outlet arch).afterAll calls = .ok s) :
    (∀ x ∈ s.global.entries,
      let merged := (sinceClear calls).filter (·.mergesInto x)
      x.2.count = merged.length ∧ 1 ≤ x.2.count ∧
        (x.2.isaSize = 0 ∧ x.2.instruction = "" ∧ x.1.file = unknownSourceFile ∨
          widthOf? x.2.instruction = some (x.2.isaSize, x.2.direction) ∧
            ∀ c ∈ merged, ∃ m scope i, c.message? = some (m, scope) ∧
              (Finding.ofMessage m scope).value = .found i ∧ i.mnemonic = x.2.instruction ∧
              i.fileName = x.1.file ∧ m.fileHash = fnv1a x.1.file)) ∧
      ∀ x ∈ s.shared.entries, x.2.isaSize = 0 ∧ x.2.instruction = "" ∧
        x.2.irSize ∈ [1, 2, 4, 8, 16] ∧ 1 ≤ x.2.count := by
  constructor
  · intro x hx merged
    obtain ⟨hcount, hpos⟩ := count_eq_mergesInto h hx
    refine ⟨hcount, hpos, ?_⟩
    rcases instruction_of_mem_global h hx with hnone | hwidth
    · exact .inl hnone
    · refine .inr ⟨hwidth, ?_⟩
      intro c hc
      exact Call.found_of_mergesInto (List.mem_filter.mp hc).2 hwidth
  · intro x hx
    have hs : s.IsReachable := ⟨_, _, _, _, calls, h⟩
    obtain ⟨hisa, hinstruction⟩ := hs.shared_plain x hx
    obtain ⟨hsize, hpos⟩ := hs.size_of_mem_shared hx
    exact ⟨hisa, hinstruction, hsize, hpos⟩

/-- The symbols of another kernel that reads the same place. -/
def scanScope : KernelScope where
  kernel := "scan"
  symbols := ⟨[("scan", ⟨["b.hip", "a.hip"], [⟨"global_load_dword", 1, 7, 1⟩]⟩)]⟩

/-- The known read is filed under the file and the instruction that are found for it. -/
lemma execution?_knownRead {scope : Option KernelScope}
    (hfound : (Finding.ofMessage knownRead scope).value =
      .found ⟨"a.hip", "global_load_dword", 4⟩) :
    ∃ u, (Call.message knownRead scope).execution? =
      some (⟨"a.hip", 7, 1⟩, ⟨4, 4, .read, "global_load_dword", 1, u⟩) := by
  obtain ⟨u, hu⟩ := countedUse?_knownRead hfound
  exact ⟨u, Call.execution?_eq_some_iff.mpr ⟨_, _, _, u, rfl, hu, rfl⟩⟩

/-- After a clearing, reads of two kernels with symbols of their own are merged into one entry,
which shows the instruction of both. -/
theorem entries_show_the_instruction_of_two_kernels :
    let calls : List Call := [.message knownRead (some readScope), .clear,
      .message knownRead (some readScope), .message knownRead (some scanScope)]
    ∃ s, (start ⟨"reduce", 1⟩ false (.create .console .text) none).afterAll calls = .ok s ∧
      ∃ x ∈ s.global.entries, x.1.file = "a.hip" ∧ x.2.count = 2 ∧
        x.2.instruction = "global_load_dword" := by
  intro calls
  have hfile : readScope.symbols.fileName? readScope.kernel 0 = some "a.hip" := rfl
  have hfile' : scanScope.symbols.fileName? scanScope.kernel 1 = some "a.hip" := rfl
  have hfirst : (Finding.ofMessage knownRead (some readScope)).value =
      .found ⟨"a.hip", "global_load_dword", 4⟩ := firstMatch_knownRead hfile
  have hsecond : (Finding.ofMessage knownRead (some scanScope)).value =
      .found ⟨"a.hip", "global_load_dword", 4⟩ := firstMatch_knownRead hfile'
  obtain ⟨u, hu⟩ := execution?_knownRead hfirst
  obtain ⟨v, hv⟩ := execution?_knownRead hsecond
  obtain ⟨s, h⟩ : ∃ s,
      (start ⟨"reduce", 1⟩ false (.create .console .text) none).afterAll calls = .ok s := by
    apply afterAll_ok rfl
    intro c hc m scope hm
    simp only [calls, List.mem_cons, List.not_mem_nil, or_false] at hc
    rcases hc with rfl | rfl | rfl | rfl <;> cases hm <;> exact not_isMisaligned_knownRead
  have hsince : sinceClear calls =
      [.message knownRead (some readScope), .message knownRead (some scanScope)] := rfl
  obtain ⟨x, hx, hkey⟩ : ∃ x ∈ s.global.entries,
      Tally.keyOf x = ⟨⟨"a.hip", 7, 1⟩, 4, 4, .read⟩ := by
    apply List.mem_map.mp
    change _ ∈ s.global.keys
    rw [global_eq_sinceClear h, hsince, Tally.mem_keys_ofExecutions]
    simp [hu, hv, Tally.keyOf, TallyEntry.key]
  obtain ⟨hcount, -, hshown⟩ := (entries_show_the_instruction h).1 x hx
  have hfile : x.1.file = "a.hip" := congrArg (·.location.file) hkey
  have hisa : x.2.isaSize = 4 := congrArg AccessKey.isaSize hkey
  have hmerged : (sinceClear calls).filter (·.mergesInto x) = sinceClear calls := by
    rw [List.filter_eq_self, hsince]
    simp only [List.forall_mem_cons, List.not_mem_nil, false_imp_iff, implies_true, and_true]
    exact ⟨Call.mergesInto_iff.mpr ⟨_, hu, hkey.symm⟩, Call.mergesInto_iff.mpr ⟨_, hv, hkey.symm⟩⟩
  rw [hmerged, hsince] at hcount hshown
  refine ⟨s, h, x, hx, hfile, hcount, ?_⟩
  rcases hshown with ⟨hzero, -⟩ | ⟨-, hall⟩
  · rw [hisa] at hzero
    cases hzero
  · obtain ⟨m, scope, i, hm, hfound, hmnemonic, -⟩ := hall _ List.mem_cons_self
    cases hm
    rw [hfirst] at hfound
    cases hfound
    exact hmnemonic.symm

end WaveAccess.Session
