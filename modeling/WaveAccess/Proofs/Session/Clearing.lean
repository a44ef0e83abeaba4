import WaveAccess.Proofs.Session.SharedTally

/-!
# What clearing leaves behind

Clearing empties the tallies and nothing else. Of what is left, messages are answered by the bank
tables alone, and these are always those of the hardware. The file names decide where accesses to
the local data share are filed, and the architecture and the outlet are not looked at before a
report. So a cleared session takes in messages as one that was just started with the same file names
does.
-/

namespace WaveAccess.Session

/-! ## Taking in messages and packets -/

/-- What is handed to a session to be taken in. -/
inductive Intake where
  /-- A message, with the kernel in whose symbols it is looked up if there is one. -/
  | message (m : Message) (scope : Option KernelScope)
  | packet (packet : Packet)

namespace Intake

/-- The call that hands it over. -/
def call : Intake → Call
  | message m scope => .message m scope
  | packet p => .packet p

/-- To take in a message is not to clear. -/
lemma isClear_call (i : Intake) : i.call.isClear = false := by
  cases i <;> rfl

end Intake

/-- Takes in a message or packet: the session afterwards, and whether a message was consumed. -/
def takeIn (s : Session) : Intake → Except Breakdown (Logged (Session × Bool))
  | .message m scope => s.observe scope m
  | .packet p => s.observePacket p

/-- Takes in messages and packets, one after the other: the session afterwards, and its answers,
each with the records about it. -/
def takeInAll (s : Session) : List Intake → Except Breakdown (Session × List (Logged Bool))
  | [] => .ok (s, [])
  | i :: rest => do
    let x ← s.takeIn i
    let (s', answers) ← takeInAll x.value.1 rest
    pure (s', (Prod.snd <$> x) :: answers)

variable {s s' t t' : Session} {scope : Option KernelScope} {m : Message} {c : Call}
  {calls : List Call} {i : Intake} {intakes : List Intake} {answers : List (Logged Bool)}

/-- Messages are taken in by the first of them and then by the others, each with an answer of its
own. -/
lemma takeInAll_cons_eq_ok_iff :
    s.takeInAll (i :: intakes) = .ok (s', answers) ↔
      ∃ x others, s.takeIn i = .ok x ∧ x.value.1.takeInAll intakes = .ok (s', others) ∧
        (Prod.snd <$> x) :: others = answers := by
  rw [takeInAll]
  cases s.takeIn i with
  | error b => simp [bind, Except.bind]
  | ok x =>
    cases hrest : x.value.1.takeInAll intakes with
    | error b => simp [bind, Except.bind, hrest]
    | ok y => simp [bind, Except.bind, pure, Except.pure, hrest, Prod.ext_iff, and_assoc]

/-- Taking in a message is the call for it. -/
lemma after_call (s : Session) (i : Intake) :
    s.after i.call = (s.takeIn i).map (·.value.1) := by
  cases i <;> rfl

/-- Taking in is a sequence of calls. -/
lemma map_takeInAll (s : Session) (intakes : List Intake) :
    (s.takeInAll intakes).map (·.1) = s.afterAll (intakes.map Intake.call) := by
  induction intakes generalizing s with
  | nil => rfl
  | cons i intakes ih =>
    rw [takeInAll, List.map_cons, afterAll, List.foldlM_cons, after_call]
    cases s.takeIn i with
    | error b => rfl
    | ok x =>
      change _ = x.value.1.afterAll (intakes.map Intake.call)
      rw [← ih]
      cases hrest : x.value.1.takeInAll intakes with
      | error b => simp [bind, Except.bind, Except.map, hrest]
      | ok y => simp [bind, Except.bind, Except.map, pure, Except.pure, hrest]

/-- Taking in messages is calling for each of them. -/
lemma afterAll_of_takeInAll (h : s.takeInAll intakes = .ok (s', answers)) :
    s.afterAll (intakes.map Intake.call) = .ok s' := by
  rw [← map_takeInAll, h]
  rfl

/-- Taking in a message has the effect of the call for it. -/
lemma effect_of_takeIn {x : Logged (Session × Bool)} (h : s.takeIn i = .ok x) :
    Effect s i.call x.value.1 := by
  apply effect_of_after
  rw [after_call, h]
  rfl

/-! ## Answers -/

/-- What is noted about a global access does not depend on the session. -/
lemma records_analyzeFinding_congr (s t : Session) (line : LineSize) (m : Message) (f : Finding) :
    (s.analyzeFinding line m f).records = (t.analyzeFinding line m f).records := by
  unfold analyzeFinding
  simp only
  split <;> split
  · rfl
  · split <;> rfl
  · rfl
  · split <;> rfl

/-- Why a message is skipped, and what is noted on the way, is up to the bank tables only. -/
lemma skipped_congr (h : s.tables = t.tables) (scope : Option KernelScope) (m : Message) :
    (s.analyze scope m).map (Observation.skipped <$> ·) =
      (t.analyze scope m).map (Observation.skipped <$> ·) := by
  unfold analyze
  simp only
  split
  · unfold analyzeGlobal
    cases lineSizeOfId? m.arch with
    | none => rfl
    | some line =>
      have hfinding := records_analyzeFinding_congr (s.noteArch m) (t.noteArch m) line m
      cases hf : (Finding.ofMessage m scope).value with
      | elsewhere => simp [Functor.map, bind, hf, Except.map, pure]
      | unknown => simp [Functor.map, bind, hf, Except.map, pure, hfinding]
      | found i => simp [Functor.map, bind, hf, Except.map, pure, hfinding]
  · have htables : (s.noteArch m).tables = (t.noteArch m).tables := h
    unfold analyzeShared
    rw [htables]
    split <;> rfl
  · rfl

/-- The answer to a message, which may be skipped for a reason. -/
def answerTo : Option SkipReason → Logged Bool
  | none => pure true
  | some reason => do
    reason.note
    pure false

/-- The answer to a message, with what is noted, depends on its analysis alone. -/
lemma map_snd_observe (s : Session) (scope : Option KernelScope) (m : Message) :
    (s.observe scope m).map (Prod.snd <$> ·) =
      ((s.analyze scope m).map (Observation.skipped <$> ·)).map (· >>= answerTo) := by
  rw [observe]
  cases s.analyze scope m with
  | error b => rfl
  | ok o =>
    obtain ⟨⟨session, skipped⟩, records⟩ := o
    cases skipped with
    | none => simp [Except.map, Functor.map, bind, answerTo, pure]
    | some reason => simp [Except.map, Functor.map, bind, answerTo, pure]

/-- What a session answers when it takes something in is up to the bank tables only. -/
lemma map_snd_takeIn_congr (h : s.tables = t.tables) (i : Intake) :
    (s.takeIn i).map (Prod.snd <$> ·) = (t.takeIn i).map (Prod.snd <$> ·) := by
  have hmessage : ∀ scope m,
      (s.observe scope m).map (Prod.snd <$> ·) = (t.observe scope m).map (Prod.snd <$> ·) := by
    intro scope m
    rw [map_snd_observe, map_snd_observe, skipped_congr h]
  cases i with
  | message m scope => exact hmessage scope m
  | packet p =>
    change (s.observePacket p).map _ = (t.observePacket p).map _
    rw [observePacket, observePacket]
    cases p.decode with
    | error e => rfl
    | ok m => exact hmessage none m

/-- What a session of the hardware takes in, any other takes in with the same answers. -/
lemma takeInAll_congr (hs : s.tables = .hardware) (ht : t.tables = .hardware)
    (h : s.takeInAll intakes = .ok (s', answers)) :
    ∃ t', t.takeInAll intakes = .ok (t', answers) := by
  induction intakes generalizing s t answers with
  | nil => cases h; exact ⟨t, rfl⟩
  | cons i intakes ih =>
    obtain ⟨x, others, hx, hrest, rfl⟩ := takeInAll_cons_eq_ok_iff.mp h
    have hanswer := map_snd_takeIn_congr (hs.trans ht.symm) i
    rw [hx] at hanswer
    cases hy : t.takeIn i with
    | error b => rw [hy] at hanswer; cases hanswer
    | ok y =>
      rw [hy] at hanswer
      have hnext := (effect_of_takeIn hx).tables_eq hs
      have hnext' := (effect_of_takeIn hy).tables_eq ht
      obtain ⟨t', hothers⟩ := ih hnext hnext' hrest
      have hfirst : Prod.snd <$> x = Prod.snd <$> y := Except.ok.inj hanswer
      rw [hfirst]
      exact ⟨t', takeInAll_cons_eq_ok_iff.mpr ⟨y, others, hy, hothers, rfl⟩⟩

/-! ## The files of accesses to the local data share -/

/-- Two sessions file the accesses of calls under the same files: for every access to the local data
share, they agree on the name under its hash, or a call before it finds one. -/
def SameFiles (s t : Session) (calls : List Call) : Prop :=
  ∀ before c later m scope, calls = before ++ c :: later → c.message? = some (m, scope) →
    m.space = some .shared → s.fileNames.lookup m.fileHash = t.fileNames.lookup m.fileHash ∨
      ∃ c' ∈ before, ∃ name, c'.resolved? = some (m.fileHash, name)

/-- Sessions that agree on the files of calls still do so once they have made the first of them. -/
lemma SameFiles.tail (h : SameFiles s t (c :: calls)) (hs : Effect s c s') (ht : Effect t c t') :
    SameFiles s' t' calls := by
  intro before d later m scope hcalls hm hspace
  rw [hs.lookup_fileNames, ht.lookup_fileNames]
  rcases h (c :: before) d later m scope (congrArg (c :: ·) hcalls) hm hspace with
    hsame | ⟨c', hc', name, hfound⟩
  · rw [hsame]
    exact .inl rfl
  · rcases List.mem_cons.mp hc' with rfl | hc'
    · -- the name that the call finds takes the place of those from before
      rw [hfound]
      simp
    · exact .inr ⟨c', hc', name, hfound⟩

/-- Where an access to the local data share is filed depends on nothing but the name of its file. -/
lemma Call.sharedExecution?_congr {fileOf fileOf' : UInt64 → String}
    (h : ∀ m scope, c.message? = some (m, scope) → m.space = some .shared →
      fileOf m.fileHash = fileOf' m.fileHash) :
    c.sharedExecution? fileOf = c.sharedExecution? fileOf' := by
  apply Option.ext
  intro x
  rw [sharedExecution?_eq_some_iff, sharedExecution?_eq_some_iff]
  constructor
  · rintro ⟨m, scope, p, hm, hspace, hp, rfl⟩
    exact ⟨m, scope, p, hm, hspace, hp, by rw [h m scope hm hspace]⟩
  · rintro ⟨m, scope, p, hm, hspace, hp, rfl⟩
    exact ⟨m, scope, p, hm, hspace, hp, by rw [h m scope hm hspace]⟩

/-- The first of the calls is an access of the same file in sessions that agree on files. -/
lemma SameFiles.head (h : SameFiles s t (c :: calls)) :
    c.sharedExecution? s.fileNameOf = c.sharedExecution? t.fileNameOf := by
  apply Call.sharedExecution?_congr
  intro m scope hm hspace
  rcases h [] c calls m scope rfl hm hspace with hsame | ⟨c', hc', -⟩
  · rw [fileNameOf, fileNameOf, hsame]
  · cases hc'

/-- Calls that do not clear sessions of the hardware record the same accesses to the local data
share if the sessions agree on their files. -/
lemma shared_eq_of_sameFiles (hs : s.tables = .hardware) (ht : t.tables = .hardware)
    (hshared : s.shared = t.shared) (hfiles : SameFiles s t calls)
    (hclear : ∀ c ∈ calls, c.isClear = false) (h : s.afterAll calls = .ok s')
    (h' : t.afterAll calls = .ok t') : s'.shared = t'.shared := by
  induction calls generalizing s t with
  | nil => cases h; cases h'; exact hshared
  | cons c calls ih =>
    obtain ⟨next, hc, hrest⟩ := afterAll_cons h
    obtain ⟨next', hc', hrest'⟩ := afterAll_cons h'
    have heffect := effect_of_after hc
    have heffect' := effect_of_after hc'
    have hnot : c.isClear = false := hclear c List.mem_cons_self
    have hnext : next.shared = next'.shared := by
      rw [heffect.shared_eq hs hnot, heffect'.shared_eq ht hnot, hshared, hfiles.head]
    exact ih (heffect.tables_eq hs) (heffect'.tables_eq ht) hnext (hfiles.tail heffect heffect')
      (fun c hm => hclear c (List.mem_cons_of_mem _ hm)) hrest hrest'

/-! ## Cleared sessions -/

variable {kernel : KernelDispatch} {verbose : Bool} {outlet : Outlet} {arch : Option Architecture}
  {history : List Call}

/-- No call changes the kernel, or how much reports show. -/
lemma Effect.keeps (h : Effect s c s') : s'.kernel = s.kernel ∧ s'.verbose = s.verbose := by
  cases h with
  | took _ htaken => exact ⟨htaken.keeps.1, htaken.keeps.2.1⟩
  | undecodable | reported | cleared => exact ⟨rfl, rfl⟩

/-- Calls change neither the kernel nor how much is reported. -/
lemma keeps_of_afterAll (h : s.afterAll calls = .ok s') :
    s'.kernel = s.kernel ∧ s'.verbose = s.verbose := by
  have step : ∀ {s' s'' : Session} {c}, c ∈ calls →
      s'.kernel = s.kernel ∧ s'.verbose = s.verbose → s'.after c = .ok s'' →
        s''.kernel = s.kernel ∧ s''.verbose = s.verbose := by
    intro s' s'' c _ ⟨hkernel, hverbose⟩ hc
    obtain ⟨hkernel', hverbose'⟩ := (effect_of_after hc).keeps
    exact ⟨hkernel'.trans hkernel, hverbose'.trans hverbose⟩
  exact afterAll_induction (P := fun s' => s'.kernel = s.kernel ∧ s'.verbose = s.verbose) step
    ⟨rfl, rfl⟩ h

/-- Only file names, the architecture and what the outlet remembers outlast clearing. -/
lemma clear_eq (h : (start kernel verbose outlet arch).afterAll history = .ok s) :
    s.clear = { start kernel verbose s.outlet s.arch with fileNames := s.fileNames } := by
  have htables : s.tables = .hardware := IsReachable.tables_eq ⟨_, _, _, _, history, h⟩
  obtain ⟨hkernel, hverbose⟩ := keeps_of_afterAll h
  rw [clear, start, htables, hkernel, hverbose]
  rfl

section Cleared

variable (hhistory : (start kernel verbose outlet arch).afterAll history = .ok s)
  (h : s.clear.takeInAll intakes = .ok (s', answers))

include hhistory h

/-- A cleared session and one without tallies take in the same, answer alike, and tally the same
global accesses. If they agree on files, they tally the same accesses to the local data share. -/
lemma takeInAll_of_clear (ht : t.tables = .hardware) (hglobal : t.global = .empty)
    (hshared : t.shared = .empty) :
    ∃ t', t.takeInAll intakes = .ok (t', answers) ∧ s'.global = t'.global ∧
      (SameFiles s t (intakes.map Intake.call) → s'.shared = t'.shared) := by
  have hreachable : s.IsReachable := ⟨_, _, _, _, history, hhistory⟩
  have hs : s.clear.tables = .hardware := hreachable.tables_eq
  have hclear : ∀ c ∈ intakes.map Intake.call, c.isClear = false := by
    intro c hc
    obtain ⟨i, -, rfl⟩ := List.mem_map.mp hc
    exact i.isClear_call
  obtain ⟨t', h'⟩ := takeInAll_congr hs ht h
  have hcalls := afterAll_of_takeInAll h
  have hcalls' := afterAll_of_takeInAll h'
  refine ⟨t', h', ?_, ?_⟩
  · rw [global_of_afterAll hclear hcalls, global_of_afterAll hclear hcalls', hglobal]
    rfl
  · intro hfiles
    exact shared_eq_of_sameFiles hs ht hshared.symm hfiles hclear hcalls hcalls'

/-- After any history, a cleared session is a started one but for the file names, the architecture
and what the outlet remembers. It takes in messages and packets with the same answers as any session
that was just started, which then has the same tally of global accesses. A session that was started
with the file names of the history has the same tally of accesses to the local data share too. So
has one without any file name, if every such access has a hash under which the history left no name,
or follows a global access that counts and whose instruction is found in a file of that hash. -/
theorem takeInAll_after_clear (kernel' : KernelDispatch) (verbose' : Bool) (outlet' : Outlet)
    (arch' : Option Architecture) :
    let fresh := start kernel' verbose' outlet' arch'
    s.clear = { start kernel verbose s.outlet s.arch with fileNames := s.fileNames } ∧
      (∃ g, { fresh with fileNames := s.fileNames }.takeInAll intakes = .ok (g, answers) ∧
        s'.global = g.global ∧ s'.shared = g.shared) ∧
      ∃ f, fresh.takeInAll intakes = .ok (f, answers) ∧ s'.global = f.global ∧
        ((∀ before c later m scope, intakes.map Intake.call = before ++ c :: later →
          c.message? = some (m, scope) → m.space = some .shared →
            s.fileNames.lookup m.fileHash = none ∨
              ∃ c' ∈ before, ∃ name, c'.resolved? = some (m.fileHash, name)) →
          s'.shared = f.shared) := by
  intro fresh
  refine ⟨clear_eq hhistory, ?_, ?_⟩
  · let named : Session := { fresh with fileNames := s.fileNames }
    obtain ⟨g, hg, hglobal, hshared⟩ := takeInAll_of_clear (t := named) hhistory h rfl rfl rfl
    exact ⟨g, hg, hglobal, hshared fun _ _ _ _ _ _ _ _ => .inl rfl⟩
  · obtain ⟨f, hf, hglobal, hshared⟩ := takeInAll_of_clear (t := fresh) hhistory h rfl rfl rfl
    exact ⟨f, hf, hglobal, hshared⟩

end Cleared

/-- A read that names its file, and a read of the local data share from that file. -/
def namedReads : List Intake :=
  [.message knownRead (some readScope), .message sharedRead none]

/-- Each read of the local data share comes behind one that found its file. -/
lemma resolved?_of_namedReads {before later : List Call} {c : Call} {scope : Option KernelScope}
    (hcalls : namedReads.map Intake.call = before ++ c :: later)
    (hm : c.message? = some (m, scope)) (hspace : m.space = some .shared) :
    ∃ c' ∈ before, ∃ name, c'.resolved? = some (m.fileHash, name) := by
  match before, hcalls with
  | [], hcalls =>
    cases hcalls
    cases hm
    cases hspace
  | [first], hcalls =>
    cases hcalls
    cases hm
    exact ⟨_, List.mem_singleton_self _, "a.hip", resolved?_knownRead⟩
  | _ :: _ :: _, hcalls => simp [namedReads] at hcalls

/-- The reads leave the same tallies after other reads and a clearing as in a session that was just
started. -/
theorem takeInAll_after_clear_of_named_reads :
    let fresh := start ⟨"reduce", 1⟩ false (.create .console .text) none
    ∃ s s' f answers, fresh.afterAll (namedReads.map Intake.call) = .ok s ∧
      s.clear.takeInAll namedReads = .ok (s', answers) ∧
      fresh.takeInAll namedReads = .ok (f, answers) ∧
      s'.global = f.global ∧ s'.shared = f.shared := by
  intro fresh
  have haligned : ∀ c ∈ namedReads.map Intake.call, ∀ m scope,
      c.message? = some (m, scope) → ¬m.IsMisaligned := by
    intro c hc m scope hm
    simp only [namedReads, List.map_cons, List.map_nil, List.mem_cons, List.not_mem_nil,
      or_false] at hc
    rcases hc with rfl | rfl <;> cases hm
    · exact not_isMisaligned_knownRead
    · exact not_isMisaligned_sharedRead
  obtain ⟨s, hs⟩ : ∃ s, fresh.afterAll (namedReads.map Intake.call) = .ok s :=
    afterAll_ok rfl haligned
  have hreachable : s.IsReachable := ⟨_, _, _, _, _, hs⟩
  obtain ⟨s', hs'⟩ := afterAll_ok (s := s.clear) hreachable.tables_eq haligned
  rw [← map_takeInAll] at hs'
  cases h : s.clear.takeInAll namedReads with
  | error b => rw [h] at hs'; cases hs'
  | ok taken =>
    obtain ⟨last, answers⟩ := taken
    obtain ⟨-, -, f, hf, hglobal, hshared⟩ := takeInAll_after_clear hs h ⟨"reduce", 1⟩ false
      (.create .console .text) none
    have hfiles := hshared fun _ _ _ _ _ hcalls hm hspace =>
      .inr (resolved?_of_namedReads hcalls hm hspace)
    exact ⟨s, last, f, answers, hs, h, hf, hglobal, hfiles⟩

end WaveAccess.Session
