import WaveAccess.Proofs.Bank.Requests
import WaveAccess.Proofs.Session.Messages
import WaveAccess.Session.Report

/-!
# Calls of a session

A session changes by calls only: it takes in messages and packets, it reports, and it is cleared.
The lemmas of this module say what each call does to the session, so that a property of all sessions
needs one case per call. The first such property is that the bank tables are always those of the
hardware, empty as they were built.
-/

namespace WaveAccess.Session

/-- A call of a session. -/
inductive Call where
  /-- A message, with the kernel in whose symbols it is looked up if there is one. -/
  | message (m : Message) (scope : Option KernelScope)
  | packet (packet : Packet)
  | report (around : Surroundings) (scope : Option KernelScope)
  | clear

namespace Call

/-- Whether a call clears the session. -/
def isClear : Call → Bool
  | clear => true
  | _ => false

/-- Whether a call reports the results. -/
def isReport : Call → Bool
  | report _ _ => true
  | _ => false

/-- The message that a call makes the session take in, if it does. -/
def message? : Call → Option (Message × Option KernelScope)
  | message m scope => some (m, scope)
  | packet p => p.decode.toOption.map (·, none)
  | report _ _ => none
  | clear => none

end Call

/-- The session after a call. -/
def after (s : Session) : Call → Except Breakdown Session
  | .message m scope => (s.observe scope m).map (·.value.1)
  | .packet p => (s.observePacket p).map (·.value.1)
  | .report around scope => .ok (s.report around scope).value.session
  | .clear => .ok s.clear

/-- The session after calls. -/
def afterAll (s : Session) (calls : List Call) : Except Breakdown Session :=
  calls.foldlM after s

/-- A session as some calls leave it that was started before them. -/
def IsReachable (s : Session) : Prop :=
  ∃ kernel verbose outlet arch calls, (start kernel verbose outlet arch).afterAll calls = .ok s

/-- Calls are made by the first of them and then by the others. -/
lemma afterAll_cons {s s' : Session} {c : Call} {calls : List Call}
    (h : s.afterAll (c :: calls) = .ok s') :
    ∃ next, s.after c = .ok next ∧ next.afterAll calls = .ok s' := by
  rw [afterAll, List.foldlM_cons] at h
  cases hc : s.after c with
  | error b => rw [hc] at h; cases h
  | ok next => exact ⟨next, rfl, by rw [hc] at h; exact h⟩

/-- Calls are carried out one part after the other. -/
lemma afterAll_append {s s' : Session} {calls more : List Call} :
    s.afterAll (calls ++ more) = .ok s' ↔
      ∃ next, s.afterAll calls = .ok next ∧ next.afterAll more = .ok s' := by
  rw [afterAll, List.foldlM_append]
  cases h : calls.foldlM after s with
  | error b => simp [afterAll, h, bind, Except.bind]
  | ok next => simp [afterAll, h, bind, Except.bind]

/-- Messages are taken in if the first of them is, and then the others. -/
lemma observeAll_cons_ok {s : Session} {scope : Option KernelScope} {m : Message}
    {rest : List Message} {x : Logged (Session × Nat)}
    (h : s.observeAll scope (m :: rest) = .ok x) :
    ∃ first others, s.observe scope m = .ok first ∧
      first.value.1.observeAll scope rest = .ok others ∧
      x.value = (others.value.1, others.value.2 + if first.value.2 then 1 else 0) := by
  rw [observeAll] at h
  cases hfirst : s.observe scope m with
  | error b => rw [hfirst] at h; cases h
  | ok first =>
    simp only [hfirst] at h
    cases hrest : first.value.1.observeAll scope rest with
    | error b => rw [hrest] at h; cases h
    | ok others =>
      rw [hrest] at h
      cases h
      exact ⟨first, others, rfl, hrest, rfl⟩

/-- Taking in messages is calling the session with each of them. -/
lemma map_observeAll (s : Session) (scope : Option KernelScope) (messages : List Message) :
    (s.observeAll scope messages).map (·.value.1) =
      s.afterAll (messages.map (.message · scope)) := by
  induction messages generalizing s with
  | nil => rfl
  | cons m rest ih =>
    rw [observeAll, List.map_cons, afterAll, List.foldlM_cons, after]
    cases s.observe scope m with
    | error b => rfl
    | ok first =>
      change _ = first.value.1.afterAll (rest.map (.message · scope))
      rw [← ih]
      cases h : first.value.1.observeAll scope rest with
      | error b => simp only [h]
      | ok others => simp only [h]; rfl

/-- Calls lead from one reachable session to another. -/
lemma IsReachable.afterAll {s s' : Session} (hs : s.IsReachable) {calls : List Call}
    (h : s.afterAll calls = .ok s') : s'.IsReachable := by
  obtain ⟨kernel, verbose, outlet, arch, earlier, hearlier⟩ := hs
  exact ⟨kernel, verbose, outlet, arch, earlier ++ calls, afterAll_append.mpr ⟨s, hearlier, h⟩⟩

/-- What holds of a session and is kept by every call holds after calls. -/
lemma afterAll_induction {P : Session → Prop} {s s' : Session} {calls : List Call}
    (step : ∀ {s s' : Session} {c}, c ∈ calls → P s → s.after c = .ok s' → P s') (hs : P s)
    (h : s.afterAll calls = .ok s') : P s' := by
  induction calls generalizing s with
  | nil => cases h; exact hs
  | cons c calls ih =>
    obtain ⟨next, hc, hrest⟩ := afterAll_cons h
    have hnext := step List.mem_cons_self hs hc
    exact ih (fun hm => step (List.mem_cons_of_mem c hm)) hnext hrest

/-! ## Effects -/

/-- What a call does to a session. -/
inductive Effect (s : Session) : Call → Session → Prop where
  | took {c m scope s' consumed} : c.message? = some (m, scope) →
    Taken s scope m s' consumed → Effect s c s'
  /-- A packet that cannot be decoded changes nothing. -/
  | undecodable {p} : (Call.packet p).message? = none → Effect s (.packet p) s
  /-- A report changes nothing but what the outlet remembers. -/
  | reported {around scope} (outlet : Outlet) : Effect s (.report around scope) { s with outlet }
  | cleared : Effect s .clear s.clear

/-- A call that is carried out has one of the effects of `Effect`. -/
lemma effect_of_after {s s' : Session} {c : Call} (h : s.after c = .ok s') : Effect s c s' := by
  cases c with
  | message m scope =>
    rw [after] at h
    cases hx : s.observe scope m with
    | error b => rw [hx] at h; cases h
    | ok x =>
      rw [hx] at h
      cases h
      exact .took rfl (taken_of_observe hx)
  | packet p =>
    rw [after, observePacket] at h
    cases hp : p.decode with
    | error e =>
      rw [hp] at h
      cases h
      exact .undecodable (by rw [Call.message?, hp]; rfl)
    | ok m =>
      simp only [hp] at h
      cases hx : s.observe none m with
      | error b => rw [hx] at h; cases h
      | ok x =>
        rw [hx] at h
        cases h
        exact .took (by rw [Call.message?, hp]; rfl) (taken_of_observe hx)
  | report around scope =>
    cases h
    cases scope with
    | none => exact .reported _
    | some scope => exact .reported _
  | clear =>
    cases h
    exact .cleared

/-! ## Outlets -/

/-- The outlet is up to reports only. -/
lemma Effect.outlet_eq {s s' : Session} {c : Call} (h : Effect s c s')
    (hc : c.isReport = false) : s'.outlet = s.outlet := by
  cases h with
  | took _ htaken => exact htaken.keeps.2.2
  | undecodable => rfl
  | reported => cases hc
  | cleared => rfl

/-- Calls that are no reports leave the outlet as it is. -/
lemma outlet_of_afterAll {s s' : Session} {calls : List Call}
    (hcalls : ∀ c ∈ calls, c.isReport = false) (h : s.afterAll calls = .ok s') :
    s'.outlet = s.outlet := by
  have step : ∀ {s₁ s₂ : Session} {c}, c ∈ calls → s₁.outlet = s.outlet → s₁.after c = .ok s₂ →
      s₂.outlet = s.outlet := by
    intro s₁ s₂ c hc hs hafter
    exact ((effect_of_after hafter).outlet_eq (hcalls c hc)).trans hs
  exact afterAll_induction (P := fun s' => s'.outlet = s.outlet) step rfl h

/-! ## Bank tables -/

/-- A call leaves the tables of the hardware as they are. -/
lemma Effect.tables_eq {s s' : Session} {c : Call} (h : Effect s c s')
    (hs : s.tables = .hardware) : s'.tables = .hardware := by
  cases h with
  | took _ htaken =>
    rcases htaken.shared_cases with ⟨count, -, hcount, rfl⟩ | ⟨-, -, htables⟩
    · rw [hs] at hcount
      have accepted : ∀ p ∈ LanePartition.hardware, p.IsAccepted :=
        fun _ => LanePartition.isAccepted_of_mem_hardware
      exact (BankTables.countConflicts_ok accepted hcount).2
    · rw [htables, hs]
  | undecodable => exact hs
  | reported => exact hs
  | cleared => exact hs

/-- The bank tables of a reachable session are those of the hardware. -/
lemma IsReachable.tables_eq {s : Session} (h : s.IsReachable) : s.tables = .hardware := by
  obtain ⟨kernel, verbose, outlet, arch, calls, h⟩ := h
  have step : ∀ {s s' : Session} {c}, c ∈ calls → s.tables = .hardware → s.after c = .ok s' →
      s'.tables = .hardware := by
    intro s s' c _ hs hafter
    exact (effect_of_after hafter).tables_eq hs
  exact afterAll_induction step rfl h

end WaveAccess.Session
