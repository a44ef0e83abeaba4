import WaveAccess.Proofs.Bank.Bounds
import WaveAccess.Proofs.Changes

/-!
# A bank table step by step

A bank table is a state that changes whenever the access of a lane is registered or the table is
cleared. After any steps it holds the words that lanes of its group have accessed since the last
clearing. So its conflicts are those of the set of these accesses, in whatever order and however
often they came, and one more access adds one conflict at most.
-/

namespace WaveAccess

namespace Bank

/-- One more access puts one more word into one bank, or none. -/
lemma peak_insert_le (group : List ℕ) (a : LaneAddress) (accesses : Finset LaneAddress) :
    peak group (insert a accesses) ≤ peak group accesses + 1 := by
  obtain ⟨bank, hbank, hpeak⟩ := exists_card_demand_eq_peak group (insert a accesses)
  have hsubset : demand group (insert a accesses) bank ⊆
      insert (a.address.toNat / 4) (demand group accesses bank) := by
    intro word hword
    rw [mem_demand, mem_words] at hword
    obtain ⟨⟨b, hb, hlane, rfl⟩, hin⟩ := hword
    rcases Finset.mem_insert.mp hb with rfl | hb
    · exact Finset.mem_insert_self _ _
    · apply Finset.mem_insert_of_mem
      exact mem_demand.mpr ⟨mem_words.mpr ⟨b, hb, hlane, rfl⟩, hin⟩
  calc peak group (insert a accesses)
      = (demand group (insert a accesses) bank).card := hpeak.symm
    _ ≤ (insert (a.address.toNat / 4) (demand group accesses bank)).card :=
        Finset.card_le_card hsubset
    _ ≤ (demand group accesses bank).card + 1 := Finset.card_insert_le _ _
    _ ≤ peak group accesses + 1 := Nat.add_le_add_right (card_demand_le_peak bank hbank) 1

end Bank

namespace BankTable

/-! ## Steps -/

/-- A table after the access of a lane is registered or the table is cleared. An access that it
turns away leaves it as it was. -/
def after (t : BankTable) (step : Change LaneAddress) : BankTable :=
  step.apply offer clear t

/-- A table after steps. -/
def afterAll (t : BankTable) (steps : List (Change LaneAddress)) : BankTable :=
  steps.foldl after t

/-- The last step is made after the others. -/
lemma afterAll_concat (t : BankTable) (steps : List (Change LaneAddress))
    (step : Change LaneAddress) : t.afterAll (steps ++ [step]) = (t.afterAll steps).after step :=
  List.foldl_concat ..

/-- Of the steps only what was registered since the last clearing is left. -/
lemma afterAll_ofLanes (lanes : List ℕ) (steps : List (Change LaneAddress)) :
    (ofLanes lanes).afterAll steps = (ofLanes lanes).absorb (Change.recordedSinceClear steps) :=
  Change.foldl_apply (clear_absorb_ofLanes lanes) steps

/-- No step changes the lanes of a table. -/
lemma lanes_afterAll (lanes : List ℕ) (steps : List (Change LaneAddress)) :
    ((ofLanes lanes).afterAll steps).lanes = lanes := by
  rw [afterAll_ofLanes, lanes_absorb]
  rfl

/-! ## Conflicts -/

/-- After steps, a table has the conflicts of what was registered since the last clearing. -/
lemma conflicts_afterAll (lanes : List ℕ) (steps : List (Change LaneAddress)) :
    ((ofLanes lanes).afterAll steps).conflicts =
      Bank.peak lanes (Change.recordedSinceClear steps).toFinset - 1 := by
  rw [afterAll_ofLanes, conflicts_absorb]

/-- Registering one more access takes no conflict away and adds one at most. -/
lemma conflicts_register (lanes : List ℕ) (steps : List (Change LaneAddress)) (a : LaneAddress) :
    let t := (ofLanes lanes).afterAll steps
    t.conflicts ≤ (t.after (.record a)).conflicts ∧
      (t.after (.record a)).conflicts ≤ t.conflicts + 1 := by
  intro t
  have hregistered : (Change.recordedSinceClear (steps ++ [.record a])).toFinset =
      insert a (Change.recordedSinceClear steps).toFinset := by
    rw [Change.recordedSinceClear_record, List.toFinset_append, Finset.union_comm]
    rfl
  have hbefore : t.conflicts = Bank.peak lanes (Change.recordedSinceClear steps).toFinset - 1 :=
    conflicts_afterAll lanes steps
  have hafter : (t.after (.record a)).conflicts =
      Bank.peak lanes (insert a (Change.recordedSinceClear steps).toFinset) - 1 := by
    rw [← hregistered, ← conflicts_afterAll, afterAll_concat]
  have hmono : Bank.peak lanes (Change.recordedSinceClear steps).toFinset ≤
      Bank.peak lanes (insert a (Change.recordedSinceClear steps).toFinset) :=
    Bank.peak_mono (Finset.subset_insert _ _)
  have hone := Bank.peak_insert_le lanes a (Change.recordedSinceClear steps).toFinset
  omega

/-- After any steps, a table has the conflicts of the accesses that were registered since it was
last cleared: the words of the busiest bank after the first. It takes the accesses of its lanes and
no others, which leave it as it is. One more access takes no conflict away and adds one at most, and
other steps that register the same accesses, in whatever order and however often, lead to as many
conflicts. -/
theorem conflicts_after_steps (lanes : List ℕ) (steps : List (Change LaneAddress)) :
    let t := (ofLanes lanes).afterAll steps
    let registered := Change.recordedSinceClear steps
    t.conflicts = Bank.peak lanes registered.toFinset - 1 ∧
      (∀ a : LaneAddress, (t.register? a.lane.toNat a.address.toNat).isSome = true ↔
        a.lane.toNat ∈ lanes) ∧
      (∀ a : LaneAddress, a.lane.toNat ∉ lanes → t.after (.record a) = t) ∧
      (∀ a : LaneAddress, t.conflicts ≤ (t.after (.record a)).conflicts ∧
        (t.after (.record a)).conflicts ≤ t.conflicts + 1) ∧
      ∀ others : List (Change LaneAddress),
        (∀ a, a ∈ Change.recordedSinceClear others ↔ a ∈ registered) →
        ((ofLanes lanes).afterAll others).conflicts = t.conflicts := by
  intro t registered
  have hcontains : ∀ lane : ℕ, t.contains lane = true ↔ lane ∈ lanes := by
    intro lane
    rw [contains, lanes_afterAll, List.contains_iff_mem]
  refine ⟨conflicts_afterAll lanes steps, ?_, ?_, conflicts_register lanes steps, ?_⟩
  · intro a
    rw [register?, Option.isSome_ite, hcontains]
  · intro a ha
    apply offer_of_not_contains
    rw [← Bool.not_eq_true, hcontains]
    exact ha
  · intro others hsame
    have hset : (Change.recordedSinceClear others).toFinset = registered.toFinset := by
      ext a
      rw [List.mem_toFinset, List.mem_toFinset, hsame]
    rw [conflicts_afterAll, hset]
    exact (conflicts_afterAll lanes steps).symm

/-- Since the table was cleared, lanes 0 and 1 have registered two words of bank 0, one of them
twice, while lane 9 was turned away. In another order the conflict is the same. -/
theorem conflicts_after_steps_of_two_lanes :
    let outside : LaneAddress := ⟨9, 512⟩
    let steps : List (Change LaneAddress) := [.record ⟨2, 256⟩, .clear, .record ⟨1, 128⟩,
      .record ⟨0, 0⟩, .record outside, .record ⟨1, 128⟩]
    let others : List (Change LaneAddress) :=
      [.record ⟨0, 0⟩, .record ⟨1, 128⟩, .record outside]
    let t := (ofLanes [0, 1, 2]).afterAll steps
    outside.lane.toNat ∉ [0, 1, 2] ∧
      (∀ a, a ∈ Change.recordedSinceClear others ↔ a ∈ Change.recordedSinceClear steps) ∧
      t.conflicts = 1 ∧ t.after (.record outside) = t ∧
      (t.after (.record ⟨2, 256⟩)).conflicts = 2 ∧
      ((ofLanes [0, 1, 2]).afterAll others).conflicts = 1 := by
  intro outside steps others t
  have houtside : outside.lane.toNat ∉ [0, 1, 2] := by decide
  have hsteps : Change.recordedSinceClear steps = [⟨1, 128⟩, ⟨0, 0⟩, outside, ⟨1, 128⟩] := rfl
  have hothers : Change.recordedSinceClear others = [⟨0, 0⟩, ⟨1, 128⟩, outside] := rfl
  have hsame : ∀ a, a ∈ Change.recordedSinceClear others ↔ a ∈ Change.recordedSinceClear steps := by
    intro a
    rw [hothers, hsteps]
    simp only [List.mem_cons, List.not_mem_nil, or_false]
    tauto
  have hone : t.conflicts = 1 := by decide +kernel
  obtain ⟨-, -, hleft, -, hreordered⟩ := conflicts_after_steps [0, 1, 2] steps
  exact ⟨houtside, hsame, hone, hleft outside houtside, by decide +kernel,
    (hreordered others hsame).trans hone⟩

end BankTable

end WaveAccess
