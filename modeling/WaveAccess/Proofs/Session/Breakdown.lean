import Mathlib.Logic.Relation
import WaveAccess.Proofs.CacheLine.Words
import WaveAccess.Proofs.Session.Calls

/-!
# Runs that break down

A run takes in its messages one after the other and then reports. It breaks down exactly if one of
the messages is a misaligned access to the local data share of a size that has bank tables. All
messages are taken in before anything is written, so a run that breaks down has touched no file.
-/

namespace WaveAccess

/-! ## Misaligned messages -/

namespace BankTables

/-- The tables of the hardware cannot count an access of a supported size that is misaligned. -/
lemma countConflicts_hardware_breakdown_iff {size : UInt16} {accesses : List LaneAddress} :
    (∃ b, hardware.countConflicts size accesses = .error (.breakdown b)) ↔
      size ∈ [1, 2, 4, 8, 16] ∧ ∃ a ∈ accesses, ¬size.toNat ∣ a.address.toNat := by
  rw [← isSome_lastOf?_hardware, countConflicts, hardware, tables?_ofPartitions]
  cases hp : lastOf? LanePartition.hardware size with
  | none => simp
  | some p =>
    -- an access of no bytes would be refused too, but there are no tables for it
    have hsize : size ≠ 0 := by
      rintro rfl
      have hmem := isSome_lastOf?_hardware.mp (Option.isSome_of_mem hp)
      revert hmem
      decide
    have herror :
        (∃ b, registerAll size (p.groups.map BankTable.ofLanes) accesses = .error b) ↔ _ :=
      registerAll_eq_error_iff size (p.groups.map BankTable.ofLanes)
    simp only [ne_eq, breakdown?_eq_none_iff hsize] at herror
    simp only [Option.map_some, Option.isSome_some, true_and, ← herror]
    cases registerAll size (p.groups.map BankTable.ofLanes) accesses <;> simp

end BankTables

/-- A message to the local data share of a supported size that an address is no multiple of. -/
def Message.IsMisaligned (m : Message) : Prop :=
  m.space = some .shared ∧ m.size ∈ [1, 2, 4, 8, 16] ∧
    ∃ a ∈ m.lanes, ¬m.size.toNat ∣ a.address.toNat

namespace Session

/-- A session of the hardware breaks down exactly at misaligned messages. -/
lemma observe_breaks_iff {s : Session} (hs : s.tables = .hardware) (scope : Option KernelScope)
    {m : Message} : (∃ b, s.observe scope m = .error b) ↔ m.IsMisaligned := by
  simp only [observe_eq_error_iff, hs, exists_and_left,
    BankTables.countConflicts_hardware_breakdown_iff, Message.IsMisaligned]

/-- A call breaks off exactly if it takes in a misaligned message. -/
lemma after_breaks_iff {s : Session} (hs : s.tables = .hardware) {c : Call} :
    (∃ b, s.after c = .error b) ↔ ∃ m scope, c.message? = some (m, scope) ∧ m.IsMisaligned := by
  have hobserve : ∀ m scope, (∃ b, (s.observe scope m).map (·.value.1) = .error b) ↔
      m.IsMisaligned := by
    intro m scope
    rw [← observe_breaks_iff hs scope]
    cases s.observe scope m <;> simp [Except.map]
  cases c with
  | message m scope => simp [after, hobserve, Call.message?]
  | packet p =>
    rw [after, observePacket, Call.message?]
    cases p.decode with
    | error e => simp [Except.map, Except.toOption]
    | ok m => simp [hobserve, Except.toOption]
  | report around scope => simp [after, Call.message?]
  | clear => simp [after, Call.message?]

/-- Calls break off exactly if one of them takes in a misaligned message. -/
lemma afterAll_breaks_iff {s : Session} (hs : s.tables = .hardware) {calls : List Call} :
    (∃ b, s.afterAll calls = .error b) ↔
      ∃ c ∈ calls, ∃ m scope, c.message? = some (m, scope) ∧ m.IsMisaligned := by
  induction calls generalizing s with
  | nil => simp [afterAll, pure, Except.pure]
  | cons c rest ih =>
    rw [List.exists_mem_cons_iff, ← after_breaks_iff hs, afterAll, List.foldlM_cons]
    cases hc : s.after c with
    | error b => simp [bind, Except.bind]
    | ok next =>
      -- the rest is called on a session of the hardware again
      have hnext := (effect_of_after hc).tables_eq hs
      simp only [reduceCtorEq, exists_false, false_or, ← ih hnext]
      rfl

/-- Calls that take in no misaligned message are carried out. -/
lemma afterAll_ok {s : Session} (hs : s.tables = .hardware) {calls : List Call}
    (haligned : ∀ c ∈ calls, ∀ m scope, c.message? = some (m, scope) → ¬m.IsMisaligned) :
    ∃ s', s.afterAll calls = .ok s' := by
  cases h : s.afterAll calls with
  | ok s' => exact ⟨s', rfl⟩
  | error b =>
    obtain ⟨c, hc, m, scope, hm, hmisaligned⟩ := (afterAll_breaks_iff hs).mp ⟨b, h⟩
    exact absurd hmisaligned (haligned c hc m scope hm)

/-- Messages break down exactly if one of them is misaligned. -/
lemma observeAll_breaks_iff {s : Session} (hs : s.tables = .hardware)
    {scope : Option KernelScope} {messages : List Message} :
    (∃ b, s.observeAll scope messages = .error b) ↔ ∃ m ∈ messages, m.IsMisaligned := by
  have hcalls : (∃ b, s.observeAll scope messages = .error b) ↔
      ∃ b, s.afterAll (messages.map (.message · scope)) = .error b := by
    rw [← map_observeAll]
    cases s.observeAll scope messages <;> simp [Except.map]
  rw [hcalls, afterAll_breaks_iff hs]
  simp [Call.message?]

/-! ## Runs step by step -/

/-- How far a run has come, and what is in the files and on the console. -/
structure RunState where
  session : Session
  /-- The messages that are still to be taken in; nothing once the results have been reported. -/
  pending : Option (List Message)
  consumed : Nat
  tree : FileTree
  console : String

/-- A run that has not begun. -/
def RunState.begin (s : Session) (tree : FileTree) (messages : List Message) : RunState where
  session := s
  pending := some messages
  consumed := 0
  tree := tree
  console := ""

/-- A run that has taken in a message, with the session afterwards and whether it was consumed. -/
def RunState.take (r : RunState) (rest : List Message) (taken : Session × Bool) : RunState :=
  { r with
    session := taken.1
    pending := some rest
    consumed := r.consumed + if taken.2 then 1 else 0 }

/-- A run that has reported its results. -/
def RunState.conclude (r : RunState) (reported : Reported) : RunState :=
  { r with
    session := reported.session
    pending := none
    tree := reported.tree
    console := r.console ++ reported.console }

/-- A step of a run: it takes in the next message, or reports when there is none. -/
inductive RunStep (time : String) (scope : Option KernelScope) : RunState → RunState → Prop where
  | take {r m rest x} : r.pending = some (m :: rest) → r.session.observe scope m = .ok x →
    RunStep time scope r (r.take rest x.value)
  | report {r} : r.pending = some [] →
    RunStep time scope r (r.conclude (r.session.report ⟨r.tree, time⟩ scope).value)

/-- The next message breaks the run off. -/
def RunState.BreaksDown (scope : Option KernelScope) (r : RunState) (b : Breakdown) : Prop :=
  ∃ m rest, r.pending = some (m :: rest) ∧ r.session.observe scope m = .error b

/-- A run that still has messages to take in, or has yet to report, has written nothing. -/
def RunState.IsUntouched (tree : FileTree) (r : RunState) : Prop :=
  r.pending ≠ none → r.tree = tree ∧ r.console = ""

/-- A step keeps a run from having written before it reports. -/
lemma RunStep.isUntouched {time : String} {scope : Option KernelScope} {tree : FileTree}
    {r r' : RunState} (h : RunStep time scope r r') (hr : r.IsUntouched tree) :
    r'.IsUntouched tree := by
  cases h with
  | take hpending _ =>
    intro _
    exact hr (by rw [hpending]; exact Option.some_ne_none _)
  | report => exact fun hpending => absurd rfl hpending

/-- A run that goes on has not written anything yet if it had not before. -/
lemma isUntouched_of_steps {time : String} {scope : Option KernelScope} {tree : FileTree}
    {r r' : RunState} (h : Relation.ReflTransGen (RunStep time scope) r r')
    (hr : r.IsUntouched tree) : r'.IsUntouched tree := by
  induction h with
  | refl => exact hr
  | tail _ hstep ih => exact hstep.isUntouched ih

/-- The messages of a run that are still to be taken in would break down. -/
def RunState.IsDoomed (scope : Option KernelScope) (r : RunState) (b : Breakdown) : Prop :=
  ∃ messages, r.pending = some messages ∧ r.session.observeAll scope messages = .error b

/-- Once a message has been taken in, the others break down if they do from there. -/
lemma observeAll_cons_eq_error_iff {s : Session} {scope : Option KernelScope} {m : Message}
    {rest : List Message} {x : Logged (Session × Bool)} (h : s.observe scope m = .ok x)
    {b : Breakdown} :
    s.observeAll scope (m :: rest) = .error b ↔ x.value.1.observeAll scope rest = .error b := by
  rw [observeAll, h]
  cases hrest : x.value.1.observeAll scope rest <;> simp [hrest]

/-- A run was doomed before a step if it is afterwards. -/
lemma RunStep.isDoomed {time : String} {scope : Option KernelScope} {r r' : RunState}
    (h : RunStep time scope r r') {b : Breakdown} (hr : r'.IsDoomed scope b) :
    r.IsDoomed scope b := by
  obtain ⟨messages, hpending', herror⟩ := hr
  cases h with
  | @take m rest x hpending hobserve =>
    cases hpending'
    exact ⟨m :: messages, hpending, (observeAll_cons_eq_error_iff hobserve).mpr herror⟩
  | report => cases hpending'

/-- A doomed run comes to a message that breaks it off. -/
lemma RunState.IsDoomed.breaksDown {time : String} {scope : Option KernelScope} {r : RunState}
    {b : Breakdown} (h : r.IsDoomed scope b) :
    ∃ r', Relation.ReflTransGen (RunStep time scope) r r' ∧ r'.BreaksDown scope b := by
  obtain ⟨messages, hpending, herror⟩ := h
  induction messages generalizing r with
  | nil => cases herror
  | cons m rest ih =>
    cases hx : r.session.observe scope m with
    | error b' =>
      rw [observeAll, hx] at herror
      cases herror
      exact ⟨r, .refl, m, rest, hpending, hx⟩
    | ok x =>
      have hstep : RunStep time scope r (r.take rest x.value) := .take hpending hx
      have hrest := (observeAll_cons_eq_error_iff hx).mp herror
      obtain ⟨r', hsteps, hbreaks⟩ := ih (r := r.take rest x.value) rfl hrest
      exact ⟨r', .head hstep hsteps, hbreaks⟩

/-- A run whose next message breaks it off would break down. -/
lemma RunState.BreaksDown.isDoomed {scope : Option KernelScope} {r : RunState} {b : Breakdown}
    (h : r.BreaksDown scope b) : r.IsDoomed scope b := by
  obtain ⟨m, rest, hpending, hobserve⟩ := h
  exact ⟨m :: rest, hpending, by rw [observeAll, hobserve]⟩

/-- A run is doomed exactly if its steps can lead to a message that breaks it off. -/
lemma isDoomed_iff_breaksDown (time : String) {scope : Option KernelScope} {r : RunState}
    {b : Breakdown} :
    r.IsDoomed scope b ↔
      ∃ r', Relation.ReflTransGen (RunStep time scope) r r' ∧ r'.BreaksDown scope b := by
  constructor
  · exact fun h => h.breaksDown
  · rintro ⟨r', hsteps, hbreaks⟩
    have hdoomed := hbreaks.isDoomed
    clear hbreaks
    -- from the message that breaks the run off, back along the steps
    induction hsteps with
    | refl => exact hdoomed
    | tail _ hstep ih => exact ih (hstep.isDoomed hdoomed)

/-- The kernel in whose symbols a run looks its messages up. -/
def scopeIn (s : Session) (symbols : Option SymbolTable) : Option KernelScope :=
  symbols.map fun table => ⟨s.kernel.name, table⟩

/-- A run breaks down exactly if taking in its messages does. -/
lemma run_eq_error_iff {s : Session} {around : Surroundings} {symbols : Option SymbolTable}
    {messages : List Message} {b : Breakdown} :
    s.run around symbols messages = .error b ↔
      s.observeAll (s.scopeIn symbols) messages = .error b := by
  rw [run, scopeIn]
  cases s.observeAll (symbols.map fun table => ⟨s.kernel.name, table⟩) messages <;>
    simp [Except.map]

/-- A run that ends has taken in its messages and reported. -/
lemma observeAll_of_run {s : Session} {around : Surroundings} {symbols : Option SymbolTable}
    {messages : List Message} {x : Logged RunResult}
    (h : s.run around symbols messages = .ok x) :
    ∃ observed, s.observeAll (s.scopeIn symbols) messages = .ok observed ∧
      x.value = ⟨(observed.value.1.report around (s.scopeIn symbols)).value,
        observed.value.2⟩ := by
  rw [run] at h
  cases hall : s.observeAll (s.scopeIn symbols) messages with
  | error b =>
    rw [scopeIn] at hall
    rw [hall] at h
    cases h
  | ok observed =>
    rw [scopeIn] at hall
    rw [hall] at h
    cases h
    exact ⟨observed, rfl, rfl⟩

/-- Messages that are all taken in are taken in by steps. -/
lemma steps_of_observeAll (time : String) {scope : Option KernelScope} {r : RunState}
    {messages : List Message} {x : Logged (Session × Nat)} (hr : r.pending = some messages)
    (h : r.session.observeAll scope messages = .ok x) :
    Relation.ReflTransGen (RunStep time scope) r
      { r with session := x.value.1, pending := some [], consumed := r.consumed + x.value.2 } := by
  induction messages generalizing r x with
  | nil =>
    cases h
    obtain ⟨session, pending, consumed, tree, console⟩ := r
    cases hr
    exact .refl
  | cons m rest ih =>
    obtain ⟨first, others, hfirst, hrest, hx⟩ := observeAll_cons_ok h
    have hsteps := ih (r := r.take rest first.value) rfl hrest
    rw [RunState.take, Nat.add_assoc, Nat.add_comm (ite _ _ _)] at hsteps
    rw [hx]
    exact .head (.take hr hfirst) hsteps

/-- A run that ends is what its steps lead to. -/
lemma steps_of_run {s : Session} {around : Surroundings} {symbols : Option SymbolTable}
    {messages : List Message} {x : Logged RunResult}
    (h : s.run around symbols messages = .ok x) :
    Relation.ReflTransGen (RunStep around.time (s.scopeIn symbols))
      (.begin s around.tree messages)
      ⟨x.value.reported.session, none, x.value.consumed, x.value.reported.tree,
        x.value.reported.console⟩ := by
  obtain ⟨observed, hall, hvalue⟩ := observeAll_of_run h
  have hsteps := steps_of_observeAll around.time (r := .begin s around.tree messages) rfl hall
  have hreported := hsteps.tail (RunStep.report rfl)
  rw [RunState.conclude, RunState.begin, String.empty_append, Nat.zero_add] at hreported
  rw [hvalue]
  exact hreported

/-! ## Arithmetic on the way -/

/-- No computation about a message leaves the words of a machine: the cache lines of its addresses
can be counted and shown, at its own size or any other, and its addresses lie in banks. -/
structure FitsWords (m : Message) : Prop where
  usage : ∀ line, lineSizeOfId? m.arch = some line → ∀ size : UInt16, m.numLanes < 2 ^ 48 →
    CacheLine.usageInWords? m.addresses size.toNat line.bytes =
      some (CacheLine.usage m.addresses size.toNat line)
  lowest : ∀ line, lineSizeOfId? m.arch = some line → ∀ size : UInt16,
    ∀ n ∈ CacheLine.touched m.addresses size.toNat line,
      Word.mul? n line.bytes = some (n * line.bytes)
  bank : ∀ address ∈ m.addresses, Bank.ofAddress address < Bank.count

/-- Every message keeps to the words of a machine. -/
lemma fitsWords (m : Message) : FitsWords m where
  usage line _ size hlanes := by
    refine CacheLine.usageInWords?_eq line ?_
    have hlength : m.addresses.length < 2 ^ 48 := by
      rw [Message.addresses, List.length_map]
      exact hlanes
    have hsize : size.toNat < 2 ^ 16 := size.toNat_lt
    have hproduct : m.addresses.length * size.toNat ≤ 2 ^ 48 * (2 ^ 16 - 1) :=
      Nat.mul_le_mul hlength.le (Nat.le_sub_one_of_lt hsize)
    unfold maxAddress
    omega
  lowest line _ size n hn := if_pos (CacheLine.lowest_le_maxAddress hn)
  bank address _ := Nat.mod_lt _ (by decide)

/-! ## Breakdowns of runs -/

/-- A run of a session breaks down exactly if one of its messages is misaligned, wherever that
stands, and by then it has written to no file and not to the console. Any other run ends with its
report. -/
theorem run_breaks_iff_misaligned {s : Session} (hs : s.IsReachable) (around : Surroundings)
    (symbols : Option SymbolTable) (messages : List Message) :
    ((∃ b, s.run around symbols messages = .error b) ↔ ∃ m ∈ messages, m.IsMisaligned) ∧
      (∀ b, s.run around symbols messages = .error b ↔
        ∃ r, Relation.ReflTransGen (RunStep around.time (s.scopeIn symbols))
          (.begin s around.tree messages) r ∧ r.BreaksDown (s.scopeIn symbols) b) ∧
      (∀ r b, Relation.ReflTransGen (RunStep around.time (s.scopeIn symbols))
          (.begin s around.tree messages) r → r.BreaksDown (s.scopeIn symbols) b →
        r.tree = around.tree ∧ r.console = "") ∧
      (∀ x, s.run around symbols messages = .ok x →
        Relation.ReflTransGen (RunStep around.time (s.scopeIn symbols))
          (.begin s around.tree messages)
          ⟨x.value.reported.session, none, x.value.consumed, x.value.reported.tree,
            x.value.reported.console⟩) ∧
      ∀ m ∈ messages, FitsWords m := by
  refine ⟨?_, ?_, ?_, fun _ => steps_of_run, fun m _ => fitsWords m⟩
  · simp only [run_eq_error_iff]
    exact observeAll_breaks_iff hs.tables_eq
  · intro b
    rw [run_eq_error_iff, ← isDoomed_iff_breaksDown]
    constructor
    · intro h
      exact ⟨messages, rfl, h⟩
    · rintro ⟨_, hpending, h⟩
      cases hpending
      exact h
  · intro r b hsteps hbreaks
    obtain ⟨m, rest, hpending, -⟩ := hbreaks
    have huntouched : r.IsUntouched around.tree :=
      isUntouched_of_steps hsteps fun _ => ⟨rfl, rfl⟩
    exact huntouched (by rw [hpending]; exact Option.some_ne_none _)

/-- An access of four bytes to addresses of the local data share, one by a lane that no wavefront
has. -/
def sharedAccess (first second : UInt64) : Message where
  space := some .shared
  direction := .read
  size := 4
  exec := ⟨0⟩
  lanes := [⟨0, first⟩, ⟨70, second⟩]
  fileHash := 0
  line := 7
  column := 1
  arch := 3

/-- A run over an aligned and a misaligned message breaks down before it has written anything. -/
theorem run_breaks_at_second_message :
    let s := start ⟨"reduce", 1⟩ false (.create .console .text) none
    let around : Surroundings := ⟨.empty [], "2024-01-01 00:00:00"⟩
    let messages := [sharedAccess 8 12, sharedAccess 8 2]
    s.IsReachable ∧ ∃ b r, s.run around none messages = .error b ∧
      Relation.ReflTransGen (RunStep around.time none) (.begin s around.tree messages) r ∧
      r.BreaksDown none b ∧ r.tree = around.tree ∧ r.console = "" := by
  intro s around messages
  have hs : s.IsReachable := ⟨_, _, _, _, [], rfl⟩
  have hmisaligned : (sharedAccess 8 2).IsMisaligned :=
    ⟨rfl, by decide, ⟨70, 2⟩, by decide, by decide⟩
  obtain ⟨hbreaks, hsteps, huntouched, -⟩ := run_breaks_iff_misaligned hs around none messages
  obtain ⟨b, hrun⟩ := hbreaks.mpr ⟨sharedAccess 8 2, by simp [messages], hmisaligned⟩
  obtain ⟨r, hr, hb⟩ := (hsteps b).mp hrun
  exact ⟨hs, b, r, hrun, hr, hb, huntouched r b hr hb⟩

end Session

end WaveAccess
