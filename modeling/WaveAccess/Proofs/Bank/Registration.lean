import Mathlib.Data.Finset.Card
import Mathlib.Data.Finset.Lattice.Fold
import Mathlib.Data.Finset.Range
import Mathlib.Order.Lattice.Nat
import WaveAccess.Bank.Conflict
import WaveAccess.Proofs.Bank.Partition

/-!
# Registered accesses

What bank tables hold after a wavefront's access has been registered lane by lane. As no lane is in
two groups, taking the first table that has a lane is the same as offering the lane to every table,
so each table can be followed on its own: it ends with the words that the lanes of its group access.
-/

namespace WaveAccess

namespace BankTable

/-! ## One table -/

/-- Offers a lane's access to a table, which passes over lanes outside its group. -/
def offer (t : BankTable) (a : LaneAddress) : BankTable :=
  (t.register? a.lane.toNat a.address.toNat).getD t

/-- Offers accesses to a table one after the other. -/
def absorb (t : BankTable) (accesses : List LaneAddress) : BankTable :=
  accesses.foldl offer t

/-- A table takes the word of an access by one of its lanes. -/
lemma offer_of_contains {t : BankTable} {a : LaneAddress} (h : t.contains a.lane.toNat = true) :
    t.offer a = t.insertWord (Bank.wordOf a.address.toNat) := by
  rw [offer, register?, if_pos h, Option.getD_some]

/-- A table ignores the access of a lane outside its group. -/
lemma offer_of_not_contains {t : BankTable} {a : LaneAddress}
    (h : t.contains a.lane.toNat = false) : t.offer a = t := by
  rw [offer, register?_eq_none_iff.mpr h, Option.getD_none]

/-- An offer leaves the group of a table as it is. -/
@[simp]
lemma lanes_offer (t : BankTable) (a : LaneAddress) : (t.offer a).lanes = t.lanes := by
  cases h : t.contains a.lane.toNat with
  | true => rw [offer_of_contains h, lanes_insertWord]
  | false => rw [offer_of_not_contains h]

/-- After an offer, a table holds what it held before and the word of the access, if it took it. -/
lemma mem_words_offer {t : BankTable} {a : LaneAddress} {w : Nat} :
    w ∈ (t.offer a).words ↔
      w ∈ t.words ∨ (a.lane.toNat ∈ t.lanes ∧ w = Bank.wordOf a.address.toNat) := by
  cases h : t.contains a.lane.toNat with
  | true =>
    have hl : a.lane.toNat ∈ t.lanes := List.contains_iff_mem.mp h
    rw [offer_of_contains h, mem_words_insertWord]
    tauto
  | false =>
    have hl : a.lane.toNat ∉ t.lanes := by
      intro hm
      rw [contains, List.contains_iff_mem.mpr hm] at h
      cases h
    rw [offer_of_not_contains h]
    tauto

/-- An offer leaves no word in a table twice. -/
lemma nodup_words_offer {t : BankTable} (h : t.words.Nodup) (a : LaneAddress) :
    (t.offer a).words.Nodup := by
  cases hc : t.contains a.lane.toNat with
  | true => rw [offer_of_contains hc]; exact nodup_words_insertWord h _
  | false => rw [offer_of_not_contains hc]; exact h

/-- Any number of offers leave the group of a table as it is. -/
@[simp]
lemma lanes_absorb (t : BankTable) (accesses : List LaneAddress) :
    (t.absorb accesses).lanes = t.lanes := by
  induction accesses generalizing t with
  | nil => rfl
  | cons a rest ih => exact (ih (t.offer a)).trans (lanes_offer t a)

/-- The words after a series of accesses are those before and those of the group's lanes. -/
lemma mem_words_absorb {t : BankTable} {accesses : List LaneAddress} {w : Nat} :
    w ∈ (t.absorb accesses).words ↔
      w ∈ t.words ∨
        ∃ a ∈ accesses, a.lane.toNat ∈ t.lanes ∧ w = Bank.wordOf a.address.toNat := by
  induction accesses generalizing t with
  | nil =>
    refine ⟨.inl, ?_⟩
    rintro (hw | ⟨_, ha, _⟩)
    · exact hw
    · cases ha
  | cons a rest ih =>
    have hstep : t.absorb (a :: rest) = (t.offer a).absorb rest := rfl
    rw [hstep, ih, mem_words_offer, lanes_offer, List.exists_mem_cons_iff, or_assoc]

/-- Any number of offers leave no word in a table twice. -/
lemma nodup_words_absorb {t : BankTable} (h : t.words.Nodup) (accesses : List LaneAddress) :
    (t.absorb accesses).words.Nodup := by
  induction accesses generalizing t with
  | nil => exact h
  | cons a rest ih => exact ih (nodup_words_offer h a)

/-- Clearing takes back all that a fresh table has absorbed. -/
lemma clear_absorb_ofLanes (lanes : List Nat) (accesses : List LaneAddress) :
    ((ofLanes lanes).absorb accesses).clear = ofLanes lanes := by
  rw [clear, lanes_absorb, ofLanes]

/-! ## Loads -/

/-- The greatest value below a bound is the supremum over the numbers below it. -/
lemma foldl_max_range (f : Nat → Nat) (n : Nat) :
    ((List.range n).map f).foldl max 0 = (Finset.range n).sup f := by
  induction n with
  | zero => rfl
  | succ n ih =>
    rw [List.range_succ, List.map_append, List.foldl_append, ih, Finset.range_add_one,
      Finset.sup_insert]
    exact Nat.max_comm _ _

/-- The busiest bank's load is the greatest load. -/
lemma maxLoad_eq_sup (t : BankTable) : t.maxLoad = (Finset.range Bank.count).sup t.bankLoad :=
  foldl_max_range t.bankLoad Bank.count

/-- The load of a bank counts its distinct words. -/
lemma bankLoad_eq_card {t : BankTable} (h : t.words.Nodup) (bank : Nat) :
    t.bankLoad bank = (t.words.toFinset.filter fun w => Bank.ofWord w = bank).card := by
  have hcount : t.bankLoad bank = (t.words.filter (Bank.ofWord · == bank)).length :=
    List.countP_eq_length_filter
  have hset : (t.words.filter (Bank.ofWord · == bank)).toFinset =
      t.words.toFinset.filter fun w => Bank.ofWord w = bank := by
    ext w
    simp
  rw [hcount, ← hset, List.toFinset_card_of_nodup (h.filter _)]

end BankTable

namespace BankTables
open BankTable LanePartition

/-! ## All tables of a size -/

/-- No lane belongs to the groups of two tables. -/
def Disjoint (tables : List BankTable) : Prop :=
  Separate (tables.map BankTable.lanes)

/-- Tables of disjoint groups still have them after an offer. -/
lemma Disjoint.offer {tables : List BankTable} (h : Disjoint tables) (a : LaneAddress) :
    Disjoint (tables.map (·.offer a)) := by
  rw [Disjoint, List.map_map]
  have hlanes : BankTable.lanes ∘ (·.offer a) = BankTable.lanes := funext fun t => lanes_offer t a
  rw [hlanes]
  exact h

/-- All tables but the first have disjoint groups as well. -/
lemma Disjoint.tail {table : BankTable} {rest : List BankTable} (h : Disjoint (table :: rest)) :
    Disjoint rest := by
  intro lane
  have hcount := h lane
  rw [List.map_cons, List.countP_cons] at hcount
  omega

/-- A lane of the first table is in no other group. -/
lemma Disjoint.not_contains {table : BankTable} {rest : List BankTable}
    (h : Disjoint (table :: rest)) {lane : Nat} (hc : table.contains lane = true)
    {other : BankTable} (hm : other ∈ rest) : other.contains lane = false := by
  have hlane : table.lanes.contains lane = true := hc
  have hcount := h lane
  rw [List.map_cons, List.countP_cons, if_pos hlane] at hcount
  have hzero : (rest.map BankTable.lanes).countP (·.contains lane) = 0 := by omega
  have hnot := List.countP_eq_zero.mp hzero other.lanes (List.mem_map_of_mem hm)
  exact Bool.eq_false_iff.mpr hnot

/-- Registering in the first table that has the lane is offering the access to all tables. -/
lemma registerFirst?_getD {tables : List BankTable} (h : Disjoint tables) (a : LaneAddress) :
    (registerFirst? a.lane.toNat a.address.toNat tables).getD tables = tables.map (·.offer a) := by
  induction tables with
  | nil => rfl
  | cons table rest ih =>
    rw [registerFirst?, List.map_cons]
    cases hr : table.register? a.lane.toNat a.address.toNat with
    | some table' =>
      have hc : table.contains a.lane.toNat = true := by
        rw [← Bool.not_eq_false]
        intro hc
        rw [register?_eq_none_iff.mpr hc] at hr
        cases hr
      -- no later table has the lane, so offering the access changes none of them
      have hrest : rest.map (·.offer a) = rest := by
        apply (List.map_congr_left _).trans (List.map_id rest)
        intro other hm
        exact offer_of_not_contains (h.not_contains hc hm)
      rw [hrest, BankTable.offer, hr]
      rfl
    | none =>
      rw [offer_of_not_contains (register?_eq_none_iff.mp hr), ← ih h.tail]
      cases registerFirst? a.lane.toNat a.address.toNat rest <;> rfl

/-- Accesses against which nothing stands are all registered. -/
lemma registerAll_ok {size : UInt16} {tables : List BankTable} (h : Disjoint tables)
    {accesses : List LaneAddress} (ha : ∀ a ∈ accesses, breakdown? size a = none) :
    ∃ uncovered,
      registerAll size tables accesses = .ok (tables.map (·.absorb accesses), uncovered) := by
  induction accesses generalizing tables with
  | nil => exact ⟨[], by simp [registerAll, absorb]⟩
  | cons a rest ih =>
    obtain ⟨uncovered, hrest⟩ := ih (h.offer a) fun b hb => ha b (List.mem_cons_of_mem a hb)
    have hmap : (tables.map (·.offer a)).map (·.absorb rest) =
        tables.map (·.absorb (a :: rest)) := List.map_map
    have hfirst := registerFirst?_getD h a
    rw [hmap] at hrest
    rw [registerAll, ha a List.mem_cons_self]
    cases hr : registerFirst? a.lane.toNat a.address.toNat tables with
    | some tables' =>
      rw [hr, Option.getD_some] at hfirst
      exact ⟨uncovered, hfirst ▸ hrest⟩
    | none =>
      -- a lane in no group is noted, and the tables stay as they are
      rw [hr, Option.getD_none] at hfirst
      rw [← hfirst] at hrest
      exact ⟨a.lane :: uncovered, by simp [hrest, bind, Except.bind]⟩

/-- Registration fails exactly if the lane is in no group. -/
lemma registerFirst?_eq_none_iff {tables : List BankTable} {lane address : Nat} :
    registerFirst? lane address tables = none ↔
      (tables.map BankTable.lanes).any (·.contains lane) = false := by
  induction tables with
  | nil => exact ⟨fun _ => rfl, fun _ => rfl⟩
  | cons table rest ih =>
    rw [registerFirst?, List.map_cons, List.any_cons, Bool.or_eq_false_iff, ← ih]
    cases hr : table.register? lane address with
    | some table' =>
      refine ⟨nofun, fun h => ?_⟩
      rw [register?_eq_none_iff.mpr h.1] at hr
      cases hr
    | none =>
      rw [Option.map_eq_none_iff]
      exact ⟨fun h => ⟨register?_eq_none_iff.mp hr, h⟩, And.right⟩

/-- Registration leaves the groups of all tables as they are. -/
lemma lanes_registerFirst? {tables tables' : List BankTable} {lane address : Nat}
    (h : registerFirst? lane address tables = some tables') :
    tables'.map BankTable.lanes = tables.map BankTable.lanes := by
  induction tables generalizing tables' with
  | nil => cases h
  | cons table rest ih =>
    rw [registerFirst?] at h
    cases hr : table.register? lane address with
    | some table' =>
      rw [hr] at h
      cases h
      rw [register?] at hr
      split at hr
      · cases hr
        rw [List.map_cons, List.map_cons, lanes_insertWord]
      · cases hr
    | none =>
      rw [hr] at h
      obtain ⟨rest', hrest, rfl⟩ := Option.map_eq_some_iff.mp h
      rw [List.map_cons, List.map_cons, ih hrest]

/-- The lanes that accesses list, in their order, without those of any group. -/
def lanesOutside (groups : List (List Nat)) (accesses : List LaneAddress) : List UInt64 :=
  (accesses.map (·.lane)).filter fun lane => !groups.any (·.contains lane.toNat)

/-- Registration lists the lanes that belong to no group, whatever they access. -/
lemma uncovered_registerAll {size : UInt16} {tables tables' : List BankTable}
    {accesses : List LaneAddress} {uncovered : List UInt64}
    (h : registerAll size tables accesses = .ok (tables', uncovered)) :
    uncovered = lanesOutside (tables.map BankTable.lanes) accesses := by
  induction accesses generalizing tables uncovered with
  | nil => cases h; rfl
  | cons a rest ih =>
    rw [registerAll] at h
    split at h
    · cases h
    · rw [lanesOutside, List.map_cons, List.filter_cons]
      cases hr : registerFirst? a.lane.toNat a.address.toNat tables with
      | some tables'' =>
        have hany : (tables.map BankTable.lanes).any (·.contains a.lane.toNat) = true := by
          rw [← Bool.not_eq_false]
          intro hnone
          rw [registerFirst?_eq_none_iff.mpr hnone] at hr
          cases hr
        rw [hr] at h
        rw [hany, ih h, lanes_registerFirst? hr]
        rfl
      | none =>
        rw [hr] at h
        rw [registerFirst?_eq_none_iff.mp hr]
        cases hrest : registerAll size tables rest with
        | error b => simp [hrest, bind, Except.bind] at h
        | ok result =>
          obtain ⟨tables'', outside⟩ := result
          simp only [hrest, bind, Except.bind, Except.ok.injEq, Prod.mk.injEq] at h
          obtain ⟨rfl, rfl⟩ := h
          rw [ih hrest]
          rfl

/-- Registration fails exactly if something stands against one of the accesses. -/
lemma registerAll_eq_error_iff (size : UInt16) (tables : List BankTable)
    {accesses : List LaneAddress} :
    (∃ b, registerAll size tables accesses = .error b) ↔
      ∃ a ∈ accesses, breakdown? size a ≠ none := by
  induction accesses generalizing tables with
  | nil => simp [registerAll]
  | cons a rest ih =>
    rw [List.exists_mem_cons_iff, registerAll]
    cases hb : breakdown? size a with
    | some b => simp
    | none =>
      simp only [ne_eq, not_true_eq_false, false_or]
      cases hr : registerFirst? a.lane.toNat a.address.toNat tables with
      | some tables' => exact ih tables'
      | none =>
        rw [← ih tables]
        cases registerAll size tables rest <;> simp [bind, Except.bind]

end BankTables

end WaveAccess
