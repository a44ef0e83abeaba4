import WaveAccess.Proofs.KeyedList
import WaveAccess.Proofs.Symbols.Findings

/-!
# The candidate that decides

The candidates of an access are the instructions of its line in its kernel. Each of them decides
what is found, or is passed over: it decides if its file is not known, and if it is acceptable as
the instruction of the access. The first that decides is the only one that matters, so neither
instructions behind it nor those of other lines and kernels can change what is found.
-/

namespace WaveAccess

/-! ## Tables with one kernel more -/

namespace SymbolTable

/-- Entering a kernel changes what is found under its name and nothing else. -/
lemma lookup_insertInto (name other : String) (info : DebugInfo)
    (kernels : List (String × DebugInfo)) :
    (insertInto name info kernels).lookup other =
      if other = name then some info else kernels.lookup other := by
  induction kernels with
  | nil => exact lookup_cons_eq_ite other name info []
  | cons kernel rest ih =>
    obtain ⟨key, old⟩ := kernel
    rw [insertInto]
    split
    · next hkey =>
      cases hkey
      simp only [lookup_cons_eq_ite]
      split <;> rfl
    · next hkey =>
      split
      · exact lookup_cons_eq_ite other name info _
      · rw [lookup_cons_eq_ite, ih, lookup_cons_eq_ite]
        split
        · next h =>
          cases h
          rw [if_neg hkey]
        · rfl

/-- Entering a kernel into a table changes what is found under its name and nothing else. -/
lemma kernel?_insert (t : SymbolTable) (name other : String) (info : DebugInfo) :
    (t.insert name info).kernel? other = if other = name then some info else t.kernel? other :=
  lookup_insertInto name other info t.kernels

end SymbolTable

namespace KernelScope

variable {scope : KernelScope} {m : Message} {i : Instruction} {found : FoundInstruction}
  {before after : List Instruction}

/-! ## Candidates -/

/-- The instructions of an access's line in its kernel, in the order of the symbols. -/
def candidates (scope : KernelScope) (m : Message) : List Instruction :=
  (scope.symbols.kernel? scope.kernel).elim [] fun info =>
    info.instructions.filter (·.line == m.line)

/-- The source file of a candidate is not known. -/
def IsDangling (scope : KernelScope) (i : Instruction) : Prop :=
  scope.symbols.fileName? scope.kernel i.pathId = none

/-- A candidate is acceptable as the instruction of an access: its file has the hash of the access,
its column is that of the access, and its mnemonic is known with the direction of the access. -/
structure Accepts (scope : KernelScope) (m : Message) (i : Instruction)
    (found : FoundInstruction) : Prop where
  file : scope.symbols.fileName? scope.kernel i.pathId = some found.fileName
  hash : fnv1a found.fileName = m.fileHash
  column : i.column = m.column
  mnemonic : found.mnemonic = i.mnemonic
  width : widthOf? i.mnemonic = some (found.size, m.direction)

/-- A candidate is acceptable as some instruction. -/
def IsAcceptable (scope : KernelScope) (m : Message) (i : Instruction) : Prop :=
  ∃ found, Accepts scope m i found

/-- The scope with a kernel entered into its symbols, in place of one of the same name. -/
def entering (scope : KernelScope) (name : String) (info : DebugInfo) : KernelScope :=
  ⟨scope.kernel, scope.symbols.insert name info⟩

/-- Entering another kernel leaves the one that is looked up. -/
lemma kernel?_entering_of_ne {name : String} (h : name ≠ scope.kernel) (info : DebugInfo) :
    (scope.entering name info).symbols.kernel? (scope.entering name info).kernel =
      scope.symbols.kernel? scope.kernel := by
  rw [entering, SymbolTable.kernel?_insert, if_neg h.symm]

/-- Entering the kernel that is looked up replaces it. -/
lemma kernel?_entering_self (scope : KernelScope) (info : DebugInfo) :
    (scope.entering scope.kernel info).symbols.kernel? scope.kernel = some info := by
  rw [entering, SymbolTable.kernel?_insert, if_pos rfl]

/-- The candidates are the instructions of the line in the kernel that was entered. -/
lemma candidates_entering_self (scope : KernelScope) (m : Message) (info : DebugInfo) :
    (scope.entering scope.kernel info).candidates m =
      info.instructions.filter (·.line == m.line) := by
  have hkernel : (scope.entering scope.kernel info).kernel = scope.kernel := rfl
  rw [candidates, hkernel, kernel?_entering_self, Option.elim_some]

/-- A kernel that is not known has no candidates. -/
lemma candidates_eq_nil (h : scope.symbols.kernel? scope.kernel = none) :
    scope.candidates m = [] := by
  rw [candidates, h, Option.elim_none]

/-- All candidates are on the line of the access. -/
lemma line_of_mem_candidates (hi : i ∈ scope.candidates m) : i.line = m.line := by
  rw [candidates] at hi
  cases h : scope.symbols.kernel? scope.kernel with
  | none =>
    rw [h] at hi
    cases hi
  | some info =>
    rw [h] at hi
    simpa using (List.mem_filter.mp hi).2

/-- The symbols list the candidates of a line, of which there must be one. -/
lemma instructionsOfLine_cases (scope : KernelScope) (m : Message) :
    (scope.candidates m = [] ∧
        ∃ e, scope.symbols.instructionsOfLine scope.kernel m.line = .error e) ∨
      (scope.candidates m ≠ [] ∧
        scope.symbols.instructionsOfLine scope.kernel m.line = .ok (scope.candidates m)) := by
  rw [SymbolTable.instructionsOfLine, candidates]
  cases scope.symbols.kernel? scope.kernel with
  | none => exact .inl ⟨rfl, _, rfl⟩
  | some info =>
    dsimp only [Option.elim_some]
    split
    · next hnone => exact .inl ⟨hnone, _, rfl⟩
    · next hsome => exact .inr ⟨hsome, rfl⟩

/-- A candidate is accepted if its file is known, it stands at the location, and it can be the
access. -/
lemma accepts_iff (hline : i.line = m.line) :
    Accepts scope m i found ↔
      ∃ file, scope.symbols.fileName? scope.kernel i.pathId = some file ∧
        isAt m file i = true ∧ accept? m file i = some found := by
  constructor
  · rintro ⟨hfile, hhash, hcolumn, hmnemonic, hwidth⟩
    obtain ⟨file, mnemonic, size⟩ := found
    cases hmnemonic
    refine ⟨file, hfile, ?_, ?_⟩
    · simp [isAt, hhash, hline, hcolumn]
    · simp [accept?, hwidth]
  · rintro ⟨file, hfile, hat, haccept⟩
    simp only [isAt, Bool.and_eq_true, beq_iff_eq] at hat
    unfold accept? at haccept
    split at haccept
    · next size direction hwidth =>
      split_ifs at haccept with hdirection
      cases haccept
      cases hdirection
      exact ⟨hfile, hat.1.1, hat.2, rfl, hwidth⟩
    · cases haccept

/-! ## Single candidates -/

/-- A candidate without a known file ends the search. -/
lemma firstMatch_of_isDangling (h : IsDangling scope i) (rest : List Instruction) :
    (scope.firstMatch m (i :: rest)).value = .elsewhere := by
  rw [firstMatch, Logged.value_bind, h]
  rfl

/-- A candidate that is accepted ends the search. -/
lemma firstMatch_of_accepts (hline : i.line = m.line) (h : Accepts scope m i found)
    (rest : List Instruction) : (scope.firstMatch m (i :: rest)).value = .found found := by
  obtain ⟨file, hfile, hat, haccept⟩ := (accepts_iff hline).mp h
  exact firstMatch_of_accept? rest hfile hat haccept

/-- A candidate of a known file that is not acceptable is passed over. -/
lemma firstMatch_of_passed (hline : i.line = m.line) (hfile : ¬IsDangling scope i)
    (h : ¬IsAcceptable scope m i) (rest : List Instruction) :
    (scope.firstMatch m (i :: rest)).value = (scope.firstMatch m rest).value := by
  obtain ⟨file, hfile⟩ := Option.ne_none_iff_exists'.mp hfile
  rw [firstMatch, Logged.value_bind, hfile]
  dsimp only
  split
  · next hat =>
    rw [Logged.value_bind]
    split
    · next found haccept => exact absurd ⟨found, (accepts_iff hline).mpr ⟨_, hfile, hat, haccept⟩⟩ h
    · rfl
  · rfl

/-! ## All candidates -/

/-- The first candidate that is accepted is found if none before it is dangling. -/
lemma firstMatch_of_first_accepted (hlines : ∀ j ∈ before ++ i :: after, j.line = m.line)
    (hbefore : ∀ j ∈ before, ¬IsDangling scope j ∧ ¬IsAcceptable scope m j)
    (h : Accepts scope m i found) :
    (scope.firstMatch m (before ++ i :: after)).value = .found found := by
  induction before with
  | nil => exact firstMatch_of_accepts (hlines i List.mem_cons_self) h after
  | cons j before ih =>
    obtain ⟨⟨hfile, hpassed⟩, hrest⟩ := List.forall_mem_cons.mp hbefore
    obtain ⟨hline, hlines⟩ := List.forall_mem_cons.mp hlines
    exact (firstMatch_of_passed hline hfile hpassed _).trans (ih hlines hrest)

/-- An access is elsewhere if a candidate is dangling and none before it is acceptable. -/
lemma firstMatch_of_dangling (hlines : ∀ j ∈ before ++ i :: after, j.line = m.line)
    (hbefore : ∀ j ∈ before, ¬IsAcceptable scope m j) (h : IsDangling scope i) :
    (scope.firstMatch m (before ++ i :: after)).value = .elsewhere := by
  induction before with
  | nil => exact firstMatch_of_isDangling h after
  | cons j before ih =>
    obtain ⟨hpassed, hrest⟩ := List.forall_mem_cons.mp hbefore
    obtain ⟨hline, hlines⟩ := List.forall_mem_cons.mp hlines
    by_cases hfile : IsDangling scope j
    · exact firstMatch_of_isDangling hfile _
    · exact (firstMatch_of_passed hline hfile hpassed _).trans (ih hlines hrest)

/-- Nothing is found if all candidates are passed over. -/
lemma firstMatch_of_all_passed {l : List Instruction} (hlines : ∀ j ∈ l, j.line = m.line)
    (h : ∀ j ∈ l, ¬IsDangling scope j ∧ ¬IsAcceptable scope m j) :
    (scope.firstMatch m l).value = .unknown := by
  induction l with
  | nil => rfl
  | cons j l ih =>
    obtain ⟨⟨hfile, hpassed⟩, hrest⟩ := List.forall_mem_cons.mp h
    obtain ⟨hline, hlines⟩ := List.forall_mem_cons.mp hlines
    exact (firstMatch_of_passed hline hfile hpassed l).trans (ih hlines hrest)

/-- Candidates behind an acceptable one do not matter. -/
lemma firstMatch_append_congr (hlines : ∀ j ∈ before ++ [i], j.line = m.line)
    (h : IsAcceptable scope m i) (after other : List Instruction) :
    (scope.firstMatch m (before ++ i :: after)).value =
      (scope.firstMatch m (before ++ i :: other)).value := by
  induction before with
  | nil =>
    obtain ⟨found, h⟩ := h
    have hline := hlines i List.mem_cons_self
    exact (firstMatch_of_accepts hline h after).trans (firstMatch_of_accepts hline h other).symm
  | cons j before ih =>
    obtain ⟨hline, hlines⟩ := List.forall_mem_cons.mp hlines
    simp only [List.cons_append]
    by_cases hfile : IsDangling scope j
    · rw [firstMatch_of_isDangling hfile, firstMatch_of_isDangling hfile]
    · by_cases hpassed : IsAcceptable scope m j
      · obtain ⟨found, hj⟩ := hpassed
        rw [firstMatch_of_accepts hline hj, firstMatch_of_accepts hline hj]
      · rw [firstMatch_of_passed hline hfile hpassed, firstMatch_of_passed hline hfile hpassed,
          ih hlines]

/-- The search depends on nothing but the names of the source files. -/
lemma firstMatch_congr {other : KernelScope}
    (h : other.symbols.fileName? other.kernel = scope.symbols.fileName? scope.kernel)
    (l : List Instruction) : (other.firstMatch m l).value = (scope.firstMatch m l).value := by
  induction l with
  | nil => rfl
  | cons i l ih =>
    rw [firstMatch, firstMatch, Logged.value_bind, Logged.value_bind, h]
    cases scope.symbols.fileName? scope.kernel i.pathId with
    | none => rfl
    | some file =>
      dsimp only
      split
      · rw [Logged.value_bind, Logged.value_bind]
        cases accept? m file i with
        | none => exact ih
        | some found => rfl
      · exact ih

/-- All candidates are passed over, or one of them is the first that decides. -/
lemma passed_or_first_decides (scope : KernelScope) (m : Message) (l : List Instruction) :
    (∀ j ∈ l, ¬IsDangling scope j ∧ ¬IsAcceptable scope m j) ∨
      ∃ before i after, l = before ++ i :: after ∧
        (∀ j ∈ before, ¬IsDangling scope j ∧ ¬IsAcceptable scope m j) ∧
        (IsDangling scope i ∨ IsAcceptable scope m i) := by
  induction l with
  | nil => exact .inl nofun
  | cons j l ih =>
    by_cases hj : IsDangling scope j ∨ IsAcceptable scope m j
    · exact .inr ⟨[], j, l, rfl, nofun, hj⟩
    · have hpassed : ¬IsDangling scope j ∧ ¬IsAcceptable scope m j := not_or.mp hj
      rcases ih with hall | ⟨before, i, after, rfl, hbefore, hi⟩
      · exact .inl (List.forall_mem_cons.mpr ⟨hpassed, hall⟩)
      · exact .inr ⟨j :: before, i, after, rfl, List.forall_mem_cons.mpr ⟨hpassed, hbefore⟩, hi⟩

end KernelScope

namespace Finding
open KernelScope

variable {scope : KernelScope} {m : Message}

/-- What is found goes by the candidates; without any, the access is elsewhere. -/
lemma value_ofMessage (scope : KernelScope) (m : Message) :
    (ofMessage m (some scope)).value =
      if scope.candidates m = [] then .elsewhere
      else (scope.firstMatch m (scope.candidates m)).value := by
  rw [ofMessage, find, Logged.value_bind]
  rcases instructionsOfLine_cases scope m with ⟨hnone, e, herror⟩ | ⟨hsome, hok⟩
  · rw [if_pos hnone, herror]
    rfl
  · rw [if_neg hsome, hok]

/-- Where one candidate decides, there are candidates. -/
lemma candidates_ne_nil {before after : List Instruction} {i : Instruction}
    (h : scope.candidates m = before ++ i :: after) : scope.candidates m ≠ [] := by
  rw [h]
  exact List.append_ne_nil_of_right_ne_nil before (List.cons_ne_nil i after)

/-- How an access is looked up, and what is found. -/
inductive LookedUp (scope : KernelScope) (m : Message) : Finding → Prop where
  | noCandidates : scope.candidates m = [] → LookedUp scope m .elsewhere
  | allPassed : scope.candidates m ≠ [] →
    (∀ j ∈ scope.candidates m, ¬IsDangling scope j ∧ ¬IsAcceptable scope m j) →
    LookedUp scope m .unknown
  | dangling {before i after} : scope.candidates m = before ++ i :: after →
    (∀ j ∈ before, ¬IsAcceptable scope m j) → IsDangling scope i → LookedUp scope m .elsewhere
  | accepted {before i after found} : scope.candidates m = before ++ i :: after →
    (∀ j ∈ before, ¬IsDangling scope j ∧ ¬IsAcceptable scope m j) → Accepts scope m i found →
    LookedUp scope m (.found found)

/-- Every access is looked up in one of the ways. -/
lemma lookedUp (scope : KernelScope) (m : Message) :
    LookedUp scope m (ofMessage m (some scope)).value := by
  have hlines : ∀ j ∈ scope.candidates m, j.line = m.line := fun _ => line_of_mem_candidates
  rw [value_ofMessage]
  split
  · next hnone => exact .noCandidates hnone
  · next hsome =>
    rcases passed_or_first_decides scope m (scope.candidates m) with
      hall | ⟨before, i, after, heq, hbefore, hi⟩
    · rw [firstMatch_of_all_passed hlines hall]
      exact .allPassed hsome hall
    · rw [heq] at hlines ⊢
      rcases hi with hi | ⟨found, hi⟩
      · have hpassed : ∀ j ∈ before, ¬IsAcceptable scope m j := fun j hj => (hbefore j hj).2
        rw [firstMatch_of_dangling hlines hpassed hi]
        exact .dangling heq hpassed hi
      · rw [firstMatch_of_first_accepted hlines hbefore hi]
        exact .accepted heq hbefore hi

/-- There is only one way in which an access can be looked up. -/
lemma LookedUp.eq {f : Finding} (h : LookedUp scope m f) :
    (ofMessage m (some scope)).value = f := by
  have hlines : ∀ j ∈ scope.candidates m, j.line = m.line := fun _ => line_of_mem_candidates
  rw [value_ofMessage]
  cases h with
  | noCandidates hnone => exact if_pos hnone
  | allPassed hsome hall =>
    rw [if_neg hsome]
    exact firstMatch_of_all_passed hlines hall
  | dangling heq hbefore hi =>
    rw [if_neg (candidates_ne_nil heq)]
    rw [heq] at hlines ⊢
    exact firstMatch_of_dangling hlines hbefore hi
  | accepted heq hbefore hi =>
    rw [if_neg (candidates_ne_nil heq)]
    rw [heq] at hlines ⊢
    exact firstMatch_of_first_accepted hlines hbefore hi

/-- What is found is what the way of looking up says. -/
lemma ofMessage_eq_iff {f : Finding} :
    (ofMessage m (some scope)).value = f ↔ LookedUp scope m f := by
  constructor
  · rintro rfl
    exact lookedUp scope m
  · exact LookedUp.eq

/-! ## Other symbols -/

/-- What is found depends on the candidates and the names of the source files alone. -/
lemma value_ofMessage_congr {other : KernelScope}
    (hfiles : other.symbols.fileName? other.kernel = scope.symbols.fileName? scope.kernel)
    (hcandidates : other.candidates m = scope.candidates m) :
    (ofMessage m (some other)).value = (ofMessage m (some scope)).value := by
  rw [value_ofMessage, value_ofMessage, hcandidates, firstMatch_congr hfiles]

/-- Entering another kernel changes nothing about what is found. -/
lemma value_ofMessage_entering_other {name : String} (h : name ≠ scope.kernel) (info : DebugInfo) :
    (ofMessage m (some (scope.entering name info))).value = (ofMessage m (some scope)).value := by
  have hkernel := kernel?_entering_of_ne h info
  apply value_ofMessage_congr
  · funext pathId
    rw [SymbolTable.fileName?, hkernel, SymbolTable.fileName?]
  · rw [candidates, hkernel, candidates]

variable {info : DebugInfo} (hinfo : scope.symbols.kernel? scope.kernel = some info)

include hinfo

/-- The source files of a kernel are the same with other instructions. -/
lemma fileName?_entering (instructions : List Instruction) :
    (scope.entering scope.kernel ⟨info.files, instructions⟩).symbols.fileName? scope.kernel =
      scope.symbols.fileName? scope.kernel := by
  funext pathId
  rw [SymbolTable.fileName?, kernel?_entering_self, SymbolTable.fileName?, hinfo]
  rfl

/-- Instructions of other lines change nothing about what is found. -/
lemma value_ofMessage_of_same_line {instructions : List Instruction}
    (h : instructions.filter (·.line == m.line) = scope.candidates m) :
    (ofMessage m (some (scope.entering scope.kernel ⟨info.files, instructions⟩))).value =
      (ofMessage m (some scope)).value := by
  apply value_ofMessage_congr (fileName?_entering hinfo instructions)
  rw [candidates_entering_self, h]

/-- Instructions behind one that is acceptable change nothing about what is found. -/
lemma value_ofMessage_of_accepted {before after : List Instruction} {i : Instruction}
    (hinstructions : info.instructions = before ++ i :: after) (hline : i.line = m.line)
    (hi : IsAcceptable scope m i) (other : List Instruction) :
    (ofMessage m (some (scope.entering scope.kernel ⟨info.files, before ++ i :: other⟩))).value =
      (ofMessage m (some scope)).value := by
  have hfilter : ∀ rest : List Instruction, (before ++ i :: rest).filter (·.line == m.line) =
      before.filter (·.line == m.line) ++ i :: rest.filter (·.line == m.line) := by
    intro rest
    rw [List.filter_append, List.filter_cons_of_pos (by simpa using hline)]
  have hcandidates : scope.candidates m =
      before.filter (·.line == m.line) ++ i :: after.filter (·.line == m.line) := by
    rw [candidates, hinfo, Option.elim_some, hinstructions, hfilter]
  have hlines : ∀ j ∈ before.filter (·.line == m.line) ++ [i], j.line = m.line := by
    intro j hj
    apply line_of_mem_candidates
    rw [hcandidates, List.append_cons]
    exact List.mem_append_left _ hj
  rw [value_ofMessage, value_ofMessage, candidates_entering_self, hfilter, hcandidates,
    if_neg (by simp), if_neg (by simp), firstMatch_congr (fileName?_entering hinfo _)]
  exact firstMatch_append_congr hlines hi _ _

omit hinfo

/-- The instruction of the first acceptable candidate is found if no candidate before it is
dangling. An access is elsewhere if its kernel is not known or has no instructions of its line, or
if a candidate is dangling and none before it is acceptable. Nothing is known in the remaining
cases, in which there are candidates and all of them are passed over. Other kernels, instructions of
other lines and those behind an acceptable candidate do not change what is found. -/
theorem first_candidate_decides (scope : KernelScope) (m : Message) :
    let answer := fun s : KernelScope => (ofMessage m (some s)).value
    (∀ found, answer scope = .found found ↔
      ∃ before i after, scope.candidates m = before ++ i :: after ∧ Accepts scope m i found ∧
        ∀ j ∈ before, ¬IsDangling scope j ∧ ¬IsAcceptable scope m j) ∧
    (answer scope = .elsewhere ↔
      scope.symbols.kernel? scope.kernel = none ∨ scope.candidates m = [] ∨
        ∃ before i after, scope.candidates m = before ++ i :: after ∧ IsDangling scope i ∧
          ∀ j ∈ before, ¬IsAcceptable scope m j) ∧
    (answer scope = .unknown ↔
      scope.candidates m ≠ [] ∧
        ∀ j ∈ scope.candidates m, ¬IsDangling scope j ∧ ¬IsAcceptable scope m j) ∧
    (∀ name info, name ≠ scope.kernel → answer (scope.entering name info) = answer scope) ∧
    ∀ info, scope.symbols.kernel? scope.kernel = some info →
      (∀ instructions, instructions.filter (·.line == m.line) = scope.candidates m →
        answer (scope.entering scope.kernel ⟨info.files, instructions⟩) = answer scope) ∧
      ∀ before i after other, info.instructions = before ++ i :: after → i.line = m.line →
        IsAcceptable scope m i →
        answer (scope.entering scope.kernel ⟨info.files, before ++ i :: other⟩) =
          answer scope := by
  intro answer
  refine ⟨?_, ?_, ?_, ?_, ?_⟩
  · intro found
    constructor
    · intro h
      cases ofMessage_eq_iff.mp h with
      | accepted heq hbefore hi => exact ⟨_, _, _, heq, hi, hbefore⟩
    · rintro ⟨before, i, after, heq, hi, hbefore⟩
      exact (LookedUp.accepted heq hbefore hi).eq
  · constructor
    · intro h
      cases ofMessage_eq_iff.mp h with
      | noCandidates hnone => exact .inr (.inl hnone)
      | dangling heq hbefore hi => exact .inr (.inr ⟨_, _, _, heq, hi, hbefore⟩)
    · rintro (hkernel | hnone | ⟨before, i, after, heq, hi, hbefore⟩)
      · exact (LookedUp.noCandidates (candidates_eq_nil hkernel)).eq
      · exact (LookedUp.noCandidates hnone).eq
      · exact (LookedUp.dangling heq hbefore hi).eq
  · constructor
    · intro h
      cases ofMessage_eq_iff.mp h with
      | allPassed hsome hall => exact ⟨hsome, hall⟩
    · rintro ⟨hsome, hall⟩
      exact (LookedUp.allPassed hsome hall).eq
  · intro name info hname
    exact value_ofMessage_entering_other hname info
  · intro info hinfo
    constructor
    · intro instructions hsame
      exact value_ofMessage_of_same_line hinfo hsame
    · intro before i after other hinstructions hline hi
      exact value_ofMessage_of_accepted hinfo hinstructions hline hi other

/-- A read at a place whose symbols list an instruction of another width in between. -/
def packedRead : Message where
  space := some .global
  direction := .read
  size := 4
  exec := ⟨1⟩
  lanes := [⟨0, 0⟩]
  fileHash := fnv1a "a.hip"
  line := 7
  column := 1
  arch := 3

/-- A kernel of two files with instructions of two lines, of which two have no file. -/
def packedScope : KernelScope where
  kernel := "scan"
  symbols := ⟨[("scan", ⟨["b.hip", "a.hip"], [⟨"s_load_dword", 1, 7, 1⟩,
    ⟨"global_load_dwordx2", 2, 8, 1⟩, ⟨"global_load_dwordx4", 1, 7, 1⟩,
    ⟨"global_load_dword", 2, 7, 1⟩]⟩)]⟩

/-- An unknown mnemonic is passed over, an instruction of another line does not count, and one
without a file comes too late. Then nothing else can come in between. -/
theorem first_candidate_decides_for_packed_read :
    (ofMessage packedRead (some packedScope)).value =
        .found ⟨"a.hip", "global_load_dwordx4", 16⟩ ∧
      (ofMessage packedRead (some (packedScope.entering "reduce" ⟨[], []⟩))).value =
        .found ⟨"a.hip", "global_load_dwordx4", 16⟩ ∧
      (ofMessage packedRead (some (packedScope.entering "scan" ⟨["b.hip", "a.hip"],
          [⟨"s_load_dword", 1, 7, 1⟩, ⟨"global_load_dwordx2", 2, 8, 1⟩,
            ⟨"global_load_dwordx4", 1, 7, 1⟩]⟩))).value =
        .found ⟨"a.hip", "global_load_dwordx4", 16⟩ := by
  obtain ⟨hfound, -, -, hkernels, hinfo⟩ := first_candidate_decides packedScope packedRead
  have haccepts : Accepts packedScope packedRead ⟨"global_load_dwordx4", 1, 7, 1⟩
      ⟨"a.hip", "global_load_dwordx4", 16⟩ := ⟨rfl, rfl, rfl, rfl, rfl⟩
  have hanswer : (ofMessage packedRead (some packedScope)).value =
      .found ⟨"a.hip", "global_load_dwordx4", 16⟩ := by
    refine (hfound _).mpr ⟨[⟨"s_load_dword", 1, 7, 1⟩], _, [⟨"global_load_dword", 2, 7, 1⟩], rfl,
      haccepts, ?_⟩
    intro j hj
    rw [List.mem_singleton.mp hj]
    refine ⟨nofun, ?_⟩
    rintro ⟨found, h⟩
    have hunknown : widthOf? "s_load_dword" = none := rfl
    cases hunknown.symm.trans h.width
  refine ⟨hanswer, ?_, ?_⟩
  · exact (hkernels "reduce" ⟨[], []⟩ (by decide)).trans hanswer
  · have hbehind := (hinfo _ rfl).2 [⟨"s_load_dword", 1, 7, 1⟩, ⟨"global_load_dwordx2", 2, 8, 1⟩]
      ⟨"global_load_dwordx4", 1, 7, 1⟩ [⟨"global_load_dword", 2, 7, 1⟩] [] rfl rfl ⟨_, haccepts⟩
    exact hbehind.trans hanswer

end Finding

end WaveAccess
