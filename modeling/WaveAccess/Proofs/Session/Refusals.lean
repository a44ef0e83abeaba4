import WaveAccess.Proofs.Session.MessageOrder

/-!
# Refused messages

A session answers whether it consumed a message. Which messages it refuses depends on their space,
hardware and size only, and not on the session or its symbols. A refused message leaves behind no
more than its architecture, and so does a consumed one that is placed elsewhere or that comes from
fusion. A run counts the messages that were consumed.
-/

namespace WaveAccess

/-- A message that no analysis takes. -/
inductive Message.IsRefused (m : Message) : Prop where
  | space : m.space ≠ some .global → m.space ≠ some .shared → m.IsRefused
  | hardware : m.space = some .global → lineSizeOfId? m.arch = none → m.IsRefused
  | size : m.space = some .shared → m.size ∉ [1, 2, 4, 8, 16] → m.IsRefused

/-- The hardware has no tables for any other size. -/
lemma BankTables.countConflicts_hardware_unsupported_iff {size : UInt16}
    {accesses : List LaneAddress} :
    (∃ e, hardware.countConflicts size accesses = .error (.unsupported e)) ↔
      size ∉ [1, 2, 4, 8, 16] := by
  rw [← isSome_lastOf?_hardware, countConflicts, hardware, tables?_ofPartitions]
  cases lastOf? LanePartition.hardware size with
  | none => simp
  | some p => cases h : registerAll size (p.groups.map BankTable.ofLanes) accesses <;> simp [h]

/-- A message that is refused is not misaligned. -/
lemma Message.IsRefused.not_isMisaligned {m : Message} (h : m.IsRefused) : ¬m.IsMisaligned := by
  intro ⟨hspace, hsize, _⟩
  cases h with
  | space _ hshared => exact hshared hspace
  | hardware hglobal => rw [hspace] at hglobal; cases hglobal
  | size _ hother => exact hother hsize

namespace Session

variable {s s' : Session} {scope : Option KernelScope} {m : Message} {consumed : Bool}

/-! ## One message -/

/-- A session of the hardware refuses what no analysis takes. -/
lemma Taken.eq_false_iff (h : Taken s scope m s' consumed) (hs : s.tables = .hardware) :
    consumed = false ↔ m.IsRefused := by
  constructor
  · intro hconsumed
    cases h with
    | foreign hspace harch => exact .hardware hspace harch
    | dropped | counted | shared => cases hconsumed
    | unsupported hspace hcount =>
      rw [hs] at hcount
      exact .size hspace (BankTables.countConflicts_hardware_unsupported_iff.mp ⟨_, hcount⟩)
    | unhandled hglobal hshared => exact .space hglobal hshared
  · intro hrefused
    cases h with
    | foreign | unsupported | unhandled => rfl
    | dropped hspace harch =>
      cases hrefused with
      | space hglobal => exact absurd hspace hglobal
      | hardware _ hnone => rw [hnone] at harch; cases harch
      | size hshared => rw [hspace] at hshared; cases hshared
    | counted hu =>
      obtain ⟨hspace, ⟨line, hline, -⟩, -⟩ := countedUse?_eq_some_iff.mp hu
      cases hrefused with
      | space hglobal => exact absurd hspace hglobal
      | hardware _ hnone => rw [hnone] at hline; cases hline
      | size hshared => rw [hspace] at hshared; cases hshared
    | shared hspace hcount =>
      cases hrefused with
      | space _ hshared => exact absurd hspace hshared
      | hardware hglobal => rw [hspace] at hglobal; cases hglobal
      | size _ hsize =>
        obtain ⟨e, he⟩ := BankTables.countConflicts_hardware_unsupported_iff.mpr hsize
        rw [hs, he] at hcount
        cases hcount

/-- A refused message leaves no more than its architecture. -/
lemma Taken.eq_noteArch (h : Taken s scope m s' false) : s' = s.noteArch m := by
  cases h <;> rfl

/-- A message that is not misaligned does not break an analysis down. -/
lemma observe_ok_of_not_isMisaligned (hs : s.tables = .hardware) (scope : Option KernelScope)
    (h : ¬m.IsMisaligned) : ∃ x, s.observe scope m = .ok x := by
  cases hx : s.observe scope m with
  | ok x => exact ⟨x, rfl⟩
  | error b => exact absurd ((observe_breaks_iff hs scope).mp ⟨b, hx⟩) h

/-- A message is answered with no exactly if it is refused. -/
lemma observe_eq_false_iff (hs : s.tables = .hardware) (scope : Option KernelScope) (m : Message) :
    (∃ x, s.observe scope m = .ok x ∧ x.value.2 = false) ↔ m.IsRefused := by
  constructor
  · intro ⟨x, hx, hfalse⟩
    exact ((taken_of_observe hx).eq_false_iff hs).mp hfalse
  · intro h
    obtain ⟨x, hx⟩ := observe_ok_of_not_isMisaligned hs scope h.not_isMisaligned
    exact ⟨x, hx, ((taken_of_observe hx).eq_false_iff hs).mpr h⟩

/-- A message is answered with yes exactly if it is neither refused nor misaligned. -/
lemma observe_eq_true_iff (hs : s.tables = .hardware) (scope : Option KernelScope) (m : Message) :
    (∃ x, s.observe scope m = .ok x ∧ x.value.2 = true) ↔ ¬m.IsRefused ∧ ¬m.IsMisaligned := by
  constructor
  · intro ⟨x, hx, htrue⟩
    constructor
    · intro hrefused
      rw [((taken_of_observe hx).eq_false_iff hs).mpr hrefused] at htrue
      cases htrue
    · intro hmisaligned
      obtain ⟨b, hb⟩ := (observe_breaks_iff hs scope).mpr hmisaligned
      rw [hx] at hb
      cases hb
  · intro ⟨hrefused, hmisaligned⟩
    obtain ⟨x, hx⟩ := observe_ok_of_not_isMisaligned hs scope hmisaligned
    apply Exists.intro x
    apply And.intro hx
    cases hconsumed : x.value.2 with
    | true => rfl
    | false => exact absurd (((taken_of_observe hx).eq_false_iff hs).mp hconsumed) hrefused

/-- A message that is answered with no leaves nothing but its architecture. -/
lemma noteArch_of_observe_eq_false {x : Logged (Session × Bool)} (hx : s.observe scope m = .ok x)
    (h : x.value.2 = false) : x.value.1 = s.noteArch m := by
  have htaken := taken_of_observe hx
  rw [h] at htaken
  exact htaken.eq_noteArch

/-- A global access of known hardware that does not count is consumed, but leaves no more than its
architecture. -/
lemma Taken.eq_of_not_counted (h : Taken s scope m s' consumed) {line : LineSize}
    (hspace : m.space = some .global) (hline : lineSizeOfId? m.arch = some line)
    (hnone : countedUse? scope m = none) : s' = s.noteArch m ∧ consumed = true := by
  cases h with
  | foreign _ harch => rw [harch] at hline; cases hline
  | dropped => exact ⟨rfl, rfl⟩
  | counted hu => rw [hnone] at hu; cases hu
  | shared hshared => rw [hspace] at hshared; cases hshared
  | unsupported hshared => rw [hspace] at hshared; cases hshared
  | unhandled hglobal => exact absurd hspace hglobal

/-- A global access that does not count leaves nothing but its architecture, and is answered with
yes. -/
lemma observe_of_dropped (hs : s.tables = .hardware) {line : LineSize}
    (hspace : m.space = some .global) (hline : lineSizeOfId? m.arch = some line)
    (h : (Finding.ofMessage m scope).value = .elsewhere ∨
      IsFusionArtifact (Finding.ofMessage m scope).value m (CacheLine.usage m.addresses
        (effectiveSize (Finding.ofMessage m scope).value m).toNat line)) :
    ∃ x, s.observe scope m = .ok x ∧ x.value = (s.noteArch m, true) := by
  have hnone : countedUse? scope m = none := by
    rw [countedUse?, hspace, hline]
    exact if_pos h
  have haligned : ¬m.IsMisaligned := by
    intro hmisaligned
    have hshared := hmisaligned.1
    rw [hspace] at hshared
    cases hshared
  obtain ⟨x, hx⟩ := observe_ok_of_not_isMisaligned hs scope haligned
  obtain ⟨hsession, hconsumed⟩ := (taken_of_observe hx).eq_of_not_counted hspace hline hnone
  exact ⟨x, hx, Prod.ext hsession hconsumed⟩

/-! ## Packets -/

/-- A packet is answered with no exactly if it cannot be decoded or its message is refused. -/
lemma observePacket_eq_false_iff (hs : s.tables = .hardware) (packet : Packet) :
    (∃ x, s.observePacket packet = .ok x ∧ x.value.2 = false) ↔
      (∃ e, packet.decode = .error e) ∨ ∃ m, packet.decode = .ok m ∧ m.IsRefused := by
  rw [observePacket]
  cases packet.decode with
  | error e => simp
  | ok m => simp [observe_eq_false_iff hs]

/-! ## Several messages -/

/-- What a session answers to messages, one after the other. -/
inductive Answers (scope : Option KernelScope) : Session → List Message → List Bool → Prop where
  | nil (s : Session) : Answers scope s [] []
  | cons {s : Session} {m : Message} {rest answers} {x : Logged (Session × Bool)} :
    s.observe scope m = .ok x → Answers scope x.value.1 rest answers →
    Answers scope s (m :: rest) (x.value.2 :: answers)

/-- As many messages are consumed as are answered with `true`. -/
lemma answers_of_observeAll {messages : List Message} {x : Logged (Session × Nat)}
    (h : s.observeAll scope messages = .ok x) :
    ∃ answers, Answers scope s messages answers ∧ x.value.2 = answers.count true := by
  induction messages generalizing s x with
  | nil =>
    cases h
    exact ⟨[], .nil s, rfl⟩
  | cons m rest ih =>
    obtain ⟨first, others, hfirst, hrest, hx⟩ := observeAll_cons_ok h
    obtain ⟨answers, hanswers, hcount⟩ := ih hrest
    apply Exists.intro (first.value.2 :: answers)
    apply And.intro (.cons hfirst hanswers)
    rw [hx, hcount, List.count_cons]
    simp

/-- The architecture is that of the message, or remains if its hardware is not supported. -/
lemma noteArch_eq (s : Session) (m : Message) :
    s.noteArch m = { s with arch := (Architecture.ofId? m.arch).or s.arch } := by
  rw [noteArch]
  cases Architecture.ofId? m.arch <;> rfl

/-- Every session that calls lead to refuses exactly the messages that no analysis takes, and takes
in all others but those that break it off. A refused message changes nothing but the architecture,
which becomes that of its hardware if that is supported; a packet without a message changes nothing.
A consumed message that is placed elsewhere or comes from fusion leaves no more behind. A run counts
the messages that are answered with `true`. -/
theorem refuses_exactly {s : Session} (hs : s.IsReachable) :
    (∀ scope m, (∃ x, s.observe scope m = .ok x ∧ x.value.2 = false) ↔ m.IsRefused) ∧
      (∀ scope m, (∃ x, s.observe scope m = .ok x ∧ x.value.2 = true) ↔
        ¬m.IsRefused ∧ ¬m.IsMisaligned) ∧
      (∀ packet, (∃ x, s.observePacket packet = .ok x ∧ x.value.2 = false) ↔
        (∃ e, packet.decode = .error e) ∨ ∃ m, packet.decode = .ok m ∧ m.IsRefused) ∧
      (∀ scope m x, s.observe scope m = .ok x → x.value.2 = false →
        x.value.1 = { s with arch := (Architecture.ofId? m.arch).or s.arch }) ∧
      (∀ packet x, s.observePacket packet = .ok x → x.value.2 = false →
        x.value.1 = match packet.decode with
          | .ok m => { s with arch := (Architecture.ofId? m.arch).or s.arch }
          | .error _ => s) ∧
      (∀ scope m line, m.space = some .global → lineSizeOfId? m.arch = some line →
        let f := (Finding.ofMessage m scope).value
        let u := CacheLine.usage m.addresses (effectiveSize f m).toNat line
        f = .elsewhere ∨ IsFusionArtifact f m u →
        ∃ x, s.observe scope m = .ok x ∧
          x.value = ({ s with arch := (Architecture.ofId? m.arch).or s.arch }, true)) ∧
      (∀ around symbols messages x, s.run around symbols messages = .ok x →
        ∃ answers, Answers (s.scopeIn symbols) s messages answers ∧
          x.value.consumed = answers.count true) := by
  have htables := hs.tables_eq
  simp only [← noteArch_eq]
  refine ⟨observe_eq_false_iff htables, observe_eq_true_iff htables,
    observePacket_eq_false_iff htables, ?_, ?_, ?_, ?_⟩
  · intro scope m x hx hfalse
    exact noteArch_of_observe_eq_false hx hfalse
  · intro packet x hx hfalse
    rw [observePacket] at hx
    cases hdecode : packet.decode with
    | error e =>
      rw [hdecode] at hx
      cases hx
      rfl
    | ok m =>
      rw [hdecode] at hx
      exact noteArch_of_observe_eq_false hx hfalse
  · intro scope m line hspace hline h
    exact observe_of_dropped htables hspace hline h
  · intro around symbols messages x hx
    obtain ⟨observed, hall, hvalue⟩ := observeAll_of_run hx
    rw [hvalue]
    exact answers_of_observeAll hall

/-- An access to scratch memory is refused, and so is one of three bytes to the local data share.
A read that the symbols place elsewhere is consumed. -/
theorem refuses_scratch_read :
    let s := start ⟨"reduce", 1⟩ false (.create .console .text) none
    let scratch := { globalRead 0 with space := some .scratch }
    let triple := { sharedRead with size := 3, arch := 9 }
    let elsewhere := { knownRead with line := 8 }
    s.IsReachable ∧
      (∃ x, s.observe none scratch = .ok x ∧ x.value = ({ s with arch := some .gfx90a }, false)) ∧
      (∃ x, s.observe none triple = .ok x ∧ x.value = (s, false)) ∧
      ∃ x, s.observe (some readScope) elsewhere = .ok x ∧
        x.value = ({ s with arch := some .gfx90a }, true) := by
  intro s scratch triple elsewhere
  have hs : s.IsReachable := ⟨_, _, _, _, [], rfl⟩
  obtain ⟨hrefused, -, -, hleft, -, hdropped, -⟩ := refuses_exactly hs
  refine ⟨hs, ?_, ?_, ?_⟩
  · obtain ⟨x, hx, hfalse⟩ := (hrefused none scratch).mpr (.space nofun nofun)
    exact ⟨x, hx, Prod.ext (hleft none scratch x hx hfalse) hfalse⟩
  · obtain ⟨x, hx, hfalse⟩ := (hrefused none triple).mpr (.size rfl (by decide))
    exact ⟨x, hx, Prod.ext (hleft none triple x hx hfalse) hfalse⟩
  · exact hdropped (some readScope) elsewhere ⟨128, by decide⟩ rfl rfl (.inl rfl)

end Session

end WaveAccess
