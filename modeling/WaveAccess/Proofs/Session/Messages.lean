import Mathlib.Tactic.Lemma
import Mathlib.Tactic.Push
import WaveAccess.Session.Observe

/-!
# What a message does to a session

Taking in a message either counts a global access, or counts an access to the local data share, or
notes no more than the architecture. `Taken` has a case for each, so that a property of messages
needs no look into the analyses. The only message that breaks an analysis off is an access to the
local data share that its bank tables cannot count.
-/

namespace WaveAccess.Session

/-! ## Global accesses that count -/

/-- The bytes per lane that an access is analyzed with: those of its instruction if it is known. -/
def effectiveSize (f : Finding) (m : Message) : UInt16 :=
  if f.size ≠ 0 then f.size else m.size

/-- The instruction's size replaced that of the message, and one line too many is touched. -/
def IsFusionArtifact (f : Finding) (m : Message) (u : CacheUsage) : Prop :=
  f.size ≠ 0 ∧ f.size ≠ m.size ∧ u.used = u.needed + 1

instance (f : Finding) (m : Message) (u : CacheUsage) : Decidable (IsFusionArtifact f m u) :=
  inferInstanceAs (Decidable (_ ∧ _ ∧ _))

/-- The finding and the cache line use of a message that counts as a global access. It goes to
global memory, its hardware has a known line size, its symbols do not place it elsewhere, and its
use does not come from fusion. -/
def countedUse? (scope : Option KernelScope) (m : Message) : Option (Finding × CacheUsage) :=
  match m.space, lineSizeOfId? m.arch with
  | some .global, some line =>
    let f := (Finding.ofMessage m scope).value
    let u := CacheLine.usage m.addresses (effectiveSize f m).toNat line
    if f = .elsewhere ∨ IsFusionArtifact f m u then none else some (f, u)
  | _, _ => none

/-- A message counts exactly if its space is global, its hardware has a known line size, its symbols
do not place it elsewhere, and its use does not come from fusion. -/
lemma countedUse?_eq_some_iff {scope : Option KernelScope} {m : Message} {f : Finding}
    {u : CacheUsage} :
    countedUse? scope m = some (f, u) ↔
      m.space = some .global ∧
        (∃ line, lineSizeOfId? m.arch = some line ∧
          u = CacheLine.usage m.addresses (effectiveSize f m).toNat line) ∧
        (Finding.ofMessage m scope).value = f ∧ f ≠ .elsewhere ∧ ¬IsFusionArtifact f m u := by
  unfold countedUse?
  split
  · next line hspace hline =>
    simp only [hspace, hline, true_and, Option.some.injEq, exists_eq_left']
    constructor
    · intro h
      split at h
      · cases h
      · next hdropped =>
        cases h
        obtain ⟨helsewhere, hfusion⟩ := not_or.mp hdropped
        exact ⟨rfl, rfl, helsewhere, hfusion⟩
    · rintro ⟨rfl, rfl, helsewhere, hfusion⟩
      rw [if_neg (not_or.mpr ⟨helsewhere, hfusion⟩)]
  · next hother =>
    apply iff_of_false nofun
    rintro ⟨hspace, ⟨line, hline, _⟩, _⟩
    exact hother line hspace hline

/-- The size that counts is the corrected one, if there is one. -/
lemma correctedSize?_getD (f : Finding) (m : Message) :
    (correctedSize? f m).getD m.size = effectiveSize f m := by
  unfold correctedSize? effectiveSize
  by_cases h0 : f.size = 0
  · simp [h0]
  · by_cases hm : f.size = m.size
    · simp [hm]
    · simp [h0, hm]

/-- An analysis takes a use for one that comes from fusion exactly if it is a fusion artifact. -/
lemma comesFromFusion_iff {f : Finding} {m : Message} {u : CacheUsage} :
    CacheLine.comesFromFusion u (correctedSize? f m).isSome = true ↔ IsFusionArtifact f m u := by
  unfold CacheLine.comesFromFusion correctedSize? IsFusionArtifact
  by_cases h : f.size ≠ 0 ∧ f.size ≠ m.size
  · simp [h]
  · rw [if_neg h]
    simp only [Option.isSome_none, Bool.false_and, Bool.false_eq_true, false_iff]
    rintro ⟨h0, hm, _⟩
    exact h ⟨h0, hm⟩

/-- An analyzed access is recorded unless its use comes from fusion. -/
lemma value_analyzeFinding (s : Session) (line : LineSize) (m : Message) (f : Finding) :
    (s.analyzeFinding line m f).value =
      let u := CacheLine.usage m.addresses (effectiveSize f m).toNat line
      if IsFusionArtifact f m u then s else s.recordGlobal f m u := by
  unfold analyzeFinding
  simp only [correctedSize?_getD, comesFromFusion_iff]
  by_cases hf : IsFusionArtifact f m (CacheLine.usage m.addresses (effectiveSize f m).toNat line)
  · simp only [if_pos hf]
    split <;> rfl
  · -- the notes that an analysis makes on its way do not touch the session
    simp only [if_neg hf]
    split <;> split <;> rfl

/-- A global message is recorded exactly if it counts. -/
lemma session_analyzeGlobal {m : Message} (hm : m.space = some .global) (s : Session)
    (scope : Option KernelScope) :
    (s.analyzeGlobal scope m).value.session =
      match countedUse? scope m with
      | some (f, u) => s.recordGlobal f m u
      | none => s := by
  unfold analyzeGlobal countedUse?
  rw [hm]
  cases lineSizeOfId? m.arch with
  | none => rfl
  | some line =>
    simp only [Logged.value_bind]
    cases hf : (Finding.ofMessage m scope).value with
    | elsewhere => simp
    | unknown => simp [value_analyzeFinding]; split <;> rfl
    | found i => simp [value_analyzeFinding]; split <;> rfl

/-! ## All messages -/

/-- How a message is taken in: the session afterwards, and whether the message was consumed. -/
inductive Taken (s : Session) (scope : Option KernelScope) (m : Message) :
    Session → Bool → Prop where
  /-- The hardware of a global access is not supported. -/
  | foreign : m.space = some .global → lineSizeOfId? m.arch = none →
    Taken s scope m (s.noteArch m) false
  /-- A global access is placed elsewhere or comes from fusion. -/
  | dropped : m.space = some .global → (lineSizeOfId? m.arch).isSome →
    countedUse? scope m = none → Taken s scope m (s.noteArch m) true
  /-- A global access counts. -/
  | counted {f u} : countedUse? scope m = some (f, u) →
    Taken s scope m ((s.noteArch m).recordGlobal f m u) true
  /-- The conflicts of an access to the local data share are counted. -/
  | shared {count} : m.space = some .shared →
    s.tables.countConflicts m.size m.lanes = .ok count →
    Taken s scope m ((s.noteArch m).recordShared m count) true
  /-- There are no tables for the size of an access to the local data share. -/
  | unsupported {e} : m.space = some .shared →
    s.tables.countConflicts m.size m.lanes = .error (.unsupported e) →
    Taken s scope m (s.noteArch m) false
  /-- There is no analysis for the address space. -/
  | unhandled : m.space ≠ some .global → m.space ≠ some .shared →
    Taken s scope m (s.noteArch m) false

/-- A message to another address space has no cache lines to count. -/
lemma countedUse?_of_space_ne {scope : Option KernelScope} {m : Message}
    (h : m.space ≠ some .global) : countedUse? scope m = none := by
  cases hu : countedUse? scope m with
  | none => rfl
  | some fu => exact absurd (countedUse?_eq_some_iff.mp hu).1 h

namespace Taken

variable {s s' : Session} {scope : Option KernelScope} {m : Message} {consumed : Bool}

/-- A message that counts as a global access is recorded. No other message touches the tally of
global accesses or the file names. -/
lemma global_cases (h : Taken s scope m s' consumed) :
    (∃ f u, countedUse? scope m = some (f, u) ∧ s' = (s.noteArch m).recordGlobal f m u) ∨
      (countedUse? scope m = none ∧ s'.global = s.global ∧ s'.fileNames = s.fileNames) := by
  cases h with
  | foreign hspace harch => exact .inr ⟨by simp [countedUse?, hspace, harch], rfl, rfl⟩
  | dropped _ _ hnone => exact .inr ⟨hnone, rfl, rfl⟩
  | counted hu => exact .inl ⟨_, _, hu, rfl⟩
  | shared hspace => exact .inr ⟨countedUse?_of_space_ne (by simp [hspace]), rfl, rfl⟩
  | unsupported hspace => exact .inr ⟨countedUse?_of_space_ne (by simp [hspace]), rfl, rfl⟩
  | unhandled hspace => exact .inr ⟨countedUse?_of_space_ne hspace, rfl, rfl⟩

/-- A message to the local data share is recorded if its conflicts are counted. No other message
touches the tally of these accesses or the bank tables. -/
lemma shared_cases (h : Taken s scope m s' consumed) :
    (∃ count, m.space = some .shared ∧ s.tables.countConflicts m.size m.lanes = .ok count ∧
        s' = (s.noteArch m).recordShared m count) ∨
      ((m.space = some .shared →
          ∃ e, s.tables.countConflicts m.size m.lanes = .error (.unsupported e)) ∧
        s'.shared = s.shared ∧ s'.tables = s.tables) := by
  cases h with
  | foreign hspace => exact .inr ⟨fun h => by simp [hspace] at h, rfl, rfl⟩
  | dropped hspace => exact .inr ⟨fun h => by simp [hspace] at h, rfl, rfl⟩
  | counted hu =>
    have hspace := (countedUse?_eq_some_iff.mp hu).1
    exact .inr ⟨fun h => by simp [hspace] at h, rfl, rfl⟩
  | shared hspace hcount => exact .inl ⟨_, hspace, hcount, rfl⟩
  | unsupported _ hcount => exact .inr ⟨fun _ => ⟨_, hcount⟩, rfl, rfl⟩
  | unhandled _ hshared => exact .inr ⟨fun h => absurd h hshared, rfl, rfl⟩

/-- No message changes the kernel, or how and where reports are made. -/
lemma keeps (h : Taken s scope m s' consumed) :
    s'.kernel = s.kernel ∧ s'.verbose = s.verbose ∧ s'.outlet = s.outlet := by
  cases h <;> exact ⟨rfl, rfl, rfl⟩

end Taken

/-- A message is taken in as it is analyzed, and consumed unless it is skipped. -/
lemma analyze_of_observe {s : Session} {scope : Option KernelScope} {m : Message}
    {x : Logged (Session × Bool)} (h : s.observe scope m = .ok x) :
    ∃ o, s.analyze scope m = .ok o ∧ x.value = (o.value.session, o.value.skipped.isNone) := by
  unfold observe at h
  cases ho : s.analyze scope m with
  | error b => rw [ho] at h; cases h
  | ok o =>
    rw [ho] at h
    cases h
    refine ⟨o, rfl, ?_⟩
    rw [Logged.value_bind]
    cases o.value.skipped <;> rfl

/-- A global access is skipped exactly if its hardware is not supported. -/
lemma skipped_analyzeGlobal (s : Session) (scope : Option KernelScope) (m : Message) :
    (s.analyzeGlobal scope m).value.skipped.isNone = (lineSizeOfId? m.arch).isSome := by
  unfold analyzeGlobal
  cases lineSizeOfId? m.arch with
  | none => rfl
  | some line =>
    simp only [Logged.value_bind]
    cases (Finding.ofMessage m scope).value <;> rfl

/-- Taking in a message ends in one of the ways of `Taken`. -/
lemma taken_of_observe {s : Session} {scope : Option KernelScope} {m : Message}
    {x : Logged (Session × Bool)} (h : s.observe scope m = .ok x) :
    Taken s scope m x.value.1 x.value.2 := by
  obtain ⟨o, ho, hx⟩ := analyze_of_observe h
  rw [hx]
  unfold analyze at ho
  split at ho
  · next hm =>
    cases ho
    rw [session_analyzeGlobal hm, skipped_analyzeGlobal]
    cases harch : lineSizeOfId? m.arch with
    | none =>
      have hu : countedUse? scope m = none := by rw [countedUse?, hm, harch]
      rw [hu]
      exact .foreign hm harch
    | some line =>
      cases hu : countedUse? scope m with
      | none => exact .dropped hm (by rw [harch]; rfl) hu
      | some fu => exact .counted hu
  · next hm =>
    unfold analyzeShared at ho
    dsimp only at ho
    split at ho
    · cases ho
    · next e hcount =>
      cases ho
      exact .unsupported hm hcount
    · next count hcount =>
      cases ho
      exact .shared hm hcount
  · next hglobal hshared =>
    cases ho
    exact .unhandled hglobal hshared

/-- A message breaks an analysis off exactly if it goes to the local data share and its conflicts
cannot be counted. -/
lemma observe_eq_error_iff {s : Session} {scope : Option KernelScope} {m : Message}
    {b : Breakdown} :
    s.observe scope m = .error b ↔
      m.space = some .shared ∧ s.tables.countConflicts m.size m.lanes = .error (.breakdown b) := by
  have hmap : s.observe scope m = .error b ↔ s.analyze scope m = .error b := by
    unfold observe
    cases s.analyze scope m <;> simp [Except.map]
  rw [hmap]
  unfold analyze
  split
  · next hm => simp [hm]
  · next hm =>
    have htables : (s.noteArch m).tables = s.tables := rfl
    rw [analyzeShared, htables]
    cases hcount : s.tables.countConflicts m.size m.lanes with
    | ok count => simp
    | error e => cases e <;> simp [hm]
  · next hshared => exact ⟨nofun, fun ⟨hm, _⟩ => (hshared hm).elim⟩

end WaveAccess.Session
