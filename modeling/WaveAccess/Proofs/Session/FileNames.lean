import WaveAccess.Proofs.Session.Calls
import WaveAccess.Proofs.Symbols.Findings

/-!
# The file names of a session

A global access that counts, and whose instruction is found, files the name of its source file under
its hash, in place of the name that was there. Nothing else touches the names, and they outlast
clearing. So the name under a hash is always the one that was found for it last, and it has that
hash.
-/

namespace WaveAccess.Session

/-- The hash of a message and the file name that is found for it, if the message counts. -/
def resolved? (scope : Option KernelScope) (m : Message) : Option (UInt64 × String) :=
  (countedUse? scope m).bind fun (f, _) => f.fileName?.map (m.fileHash, ·)

/-- The hash and the file name that a call finds. -/
def Call.resolved? (c : Call) : Option (UInt64 × String) :=
  c.message?.bind fun (m, scope) => Session.resolved? scope m

/-- A name is found for a hash exactly by a message of that hash that counts, and whose instruction
stands in the file of that name. -/
lemma resolved?_eq_some_iff {scope : Option KernelScope} {m : Message} {hash : UInt64}
    {name : String} :
    resolved? scope m = some (hash, name) ↔
      m.fileHash = hash ∧ ∃ i u, countedUse? scope m = some (.found i, u) ∧ i.fileName = name := by
  constructor
  · intro h
    obtain ⟨⟨f, u⟩, hu, hf⟩ := Option.bind_eq_some_iff.mp h
    cases f with
    | elsewhere => cases hf
    | unknown => cases hf
    | found i => cases hf; exact ⟨rfl, i, u, hu, rfl⟩
  · rintro ⟨rfl, i, u, hu, rfl⟩
    rw [resolved?, hu]
    rfl

/-- A file is found by the hash of its name. -/
lemma fnv1a_of_resolved? {scope : Option KernelScope} {m : Message} {hash : UInt64} {name : String}
    (h : resolved? scope m = some (hash, name)) : fnv1a name = hash := by
  obtain ⟨rfl, i, u, hu, rfl⟩ := resolved?_eq_some_iff.mp h
  obtain ⟨-, -, hfound, -⟩ := countedUse?_eq_some_iff.mp hu
  exact (Finding.fits_of_ofMessage hfound).hash

/-! ## One call -/

/-- A file name is put under its hash. -/
lemma putsUnderKey_putName : PutsUnderKey putName where
  nil _ _ := rfl
  cons _ _ _ _ := rfl

/-- The names after a message are those before, with the one that was found put among them. -/
lemma Taken.fileNames_eq {s s' : Session} {scope : Option KernelScope} {m : Message}
    {consumed : Bool} (h : Taken s scope m s' consumed) :
    s'.fileNames = (resolved? scope m).elim s.fileNames fun found =>
      putName found.1 found.2 s.fileNames := by
  rw [resolved?]
  rcases h.global_cases with ⟨f, u, hu, rfl⟩ | ⟨hnone, -, hnames⟩
  · rw [hu]
    cases f <;> rfl
  · rw [hnone]
    exact hnames

/-- A call files the name that it found, if it did. -/
lemma Effect.fileNames_eq {s s' : Session} {c : Call} (h : Effect s c s') :
    s'.fileNames = c.resolved?.elim s.fileNames fun found =>
      putName found.1 found.2 s.fileNames := by
  rw [Call.resolved?]
  cases h with
  | took hm htaken =>
    rw [hm]
    exact htaken.fileNames_eq
  | undecodable hnone =>
    rw [hnone]
    rfl
  | reported => rfl
  | cleared => rfl

/-- The name under a hash is the one that a call found, or else the one before. -/
lemma Effect.lookup_fileNames {s s' : Session} {c : Call} (h : Effect s c s') (hash : UInt64) :
    s'.fileNames.lookup hash = (c.resolved?.toList.lookup hash).or (s.fileNames.lookup hash) := by
  rw [h.fileNames_eq]
  cases hfound : c.resolved? with
  | none => rfl
  | some found =>
    obtain ⟨key, name⟩ := found
    rw [Option.elim_some, putsUnderKey_putName.lookup_eq]
    by_cases hkey : hash = key
    · simp [hkey]
    · simp [List.lookup_cons, hkey, beq_eq_false_iff_ne.mpr hkey]

/-- Names remain filed under their hashes. -/
lemma Effect.fnv1a_fileNames {s s' : Session} {c : Call} (h : Effect s c s')
    (hs : ∀ pair ∈ s.fileNames, fnv1a pair.2 = pair.1) :
    ∀ pair ∈ s'.fileNames, fnv1a pair.2 = pair.1 := by
  intro pair hpair
  rw [h.fileNames_eq] at hpair
  cases hfound : c.resolved? with
  | none =>
    rw [hfound] at hpair
    exact hs pair hpair
  | some found =>
    rw [hfound] at hpair
    rcases putsUnderKey_putName.mem hpair with rfl | hpair
    · obtain ⟨⟨m, scope⟩, -, hfound⟩ := Option.bind_eq_some_iff.mp hfound
      exact fnv1a_of_resolved? hfound
    · exact hs pair hpair

/-! ## All calls -/

/-- What calls found, from the last to the first. -/
def findings (calls : List Call) : List (UInt64 × String) :=
  (calls.filterMap Call.resolved?).reverse

/-- What a call found comes behind what later calls found. -/
lemma findings_cons (c : Call) (calls : List Call) :
    findings (c :: calls) = findings calls ++ c.resolved?.toList := by
  cases h : c.resolved? <;> simp [findings, h]

/-- The source file under which calls leave an access: the one that was found last for its hash. -/
def fileAfter (calls : List Call) (hash : UInt64) : String :=
  ((findings calls).lookup hash).getD unknownSourceFile

/-- A file name is the last that calls found for a hash, or none of them found any. -/
inductive IsLastFound (calls : List Call) (hash : UInt64) : String → Prop where
  | found {before c later name} : calls = before ++ c :: later → c.resolved? = some (hash, name) →
    (∀ c' ∈ later, ∀ other, c'.resolved? ≠ some (hash, other)) → IsLastFound calls hash name
  | unknown : (∀ c ∈ calls, ∀ name, c.resolved? ≠ some (hash, name)) →
    IsLastFound calls hash "<unknown source file>"

/-- If nothing is found for a hash, no call found anything for it. -/
lemma lookup_findings_eq_none {calls : List Call} {hash : UInt64}
    (h : (findings calls).lookup hash = none) :
    ∀ c ∈ calls, ∀ name, c.resolved? ≠ some (hash, name) := by
  intro c hc name hfound
  have hmem : (hash, name) ∈ findings calls :=
    List.mem_reverse.mpr (List.mem_filterMap.mpr ⟨c, hc, hfound⟩)
  have hne := List.lookup_eq_none_iff.mp h _ hmem
  simp at hne

/-- What is found for a hash was found by a call, and by none after it for the same hash. -/
lemma lookup_findings_eq_some {calls : List Call} {hash : UInt64} {name : String}
    (h : (findings calls).lookup hash = some name) :
    ∃ before c later, calls = before ++ c :: later ∧ c.resolved? = some (hash, name) ∧
      ∀ c' ∈ later, ∀ other, c'.resolved? ≠ some (hash, other) := by
  induction calls with
  | nil => cases h
  | cons c calls ih =>
    rw [findings_cons, List.lookup_append, Option.or_eq_some_iff] at h
    rcases h with h | ⟨hnone, hfirst⟩
    · obtain ⟨before, c', later, rfl, hfound, hlast⟩ := ih h
      exact ⟨c :: before, c', later, rfl, hfound, hlast⟩
    · -- no later call found a name, so that of the first call counts
      refine ⟨[], c, calls, rfl, ?_, lookup_findings_eq_none hnone⟩
      obtain ⟨l, l', hlist, -⟩ := List.lookup_eq_some_iff.mp hfirst
      have hmem : (hash, name) ∈ c.resolved?.toList := by simp [hlist]
      exact Option.mem_toList.mp hmem

/-- The file under which calls leave a hash is the last that they found. -/
lemma isLastFound_fileAfter (calls : List Call) (hash : UInt64) :
    IsLastFound calls hash (fileAfter calls hash) := by
  rw [fileAfter]
  cases h : (findings calls).lookup hash with
  | none => exact .unknown (lookup_findings_eq_none h)
  | some name =>
    obtain ⟨before, c, later, hcalls, hfound, hlast⟩ := lookup_findings_eq_some h
    exact .found hcalls hfound hlast

/-- The name under a hash is the last that calls found, or else the one before. -/
lemma lookup_fileNames_of_afterAll {s s' : Session} {calls : List Call}
    (h : s.afterAll calls = .ok s') (hash : UInt64) :
    s'.fileNames.lookup hash = ((findings calls).lookup hash).or (s.fileNames.lookup hash) := by
  induction calls generalizing s with
  | nil => cases h; rfl
  | cons c calls ih =>
    obtain ⟨next, hc, hrest⟩ := afterAll_cons h
    rw [ih hrest, (effect_of_after hc).lookup_fileNames, findings_cons, List.lookup_append,
      Option.or_assoc]

/-- An access is filed under the name that was found last for its hash since the session began. -/
lemma fileNameOf_of_afterAll {kernel : KernelDispatch} {verbose : Bool} {outlet : Outlet}
    {arch : Option Architecture} {s : Session} {calls : List Call}
    (h : (start kernel verbose outlet arch).afterAll calls = .ok s) (hash : UInt64) :
    s.fileNameOf hash = fileAfter calls hash := by
  rw [fileNameOf, lookup_fileNames_of_afterAll h]
  exact congrArg (Option.getD · unknownSourceFile) Option.or_none

/-- The names of a session have the hashes under which they are filed. -/
lemma IsReachable.fnv1a_fileNames {s : Session} (hs : s.IsReachable) :
    ∀ pair ∈ s.fileNames, fnv1a pair.2 = pair.1 := by
  obtain ⟨kernel, verbose, outlet, arch, calls, h⟩ := hs
  have hstart : ∀ pair ∈ (start kernel verbose outlet arch).fileNames, fnv1a pair.2 = pair.1 :=
    fun _ hpair => absurd hpair List.not_mem_nil
  refine afterAll_induction (P := fun s => ∀ pair ∈ s.fileNames, fnv1a pair.2 = pair.1) ?_ hstart h
  intro s s' c _ hs hc
  exact (effect_of_after hc).fnv1a_fileNames hs

end WaveAccess.Session
