import Mathlib.Data.List.Nodup
import Mathlib.Tactic.Lemma
import WaveAccess.Json.Decode

/-!
# Records in JSON are decoded as they are encoded

A record that is encoded as an object names each of its fields once, so a decoder that asks for
these names gets the values of the fields. Scalars, options and lists are decoded to what they were.
-/

namespace WaveAccess.Json

/-! ## Scalars -/

/-- A text is read back. -/
@[simp]
lemma text?_ofText (text : String) : (ofText text).text? = some text :=
  textOf?_piecesOf text

/-- A number below the bound is read back. -/
lemma nat?_ofNat {n bound : Nat} (h : n < bound) : (ofNat n).nat? bound = some n :=
  if_pos h

/-- A choice is read back from its name. -/
@[simp]
lemma choice?_ofText (text : String) : (ofText text).choice? = some text :=
  textOf?_piecesOf text

/-- A number of 8 bits is read back. -/
@[simp]
lemma uint8?_ofNat (n : UInt8) : (ofNat n.toNat).uint8? = some n := by
  rw [uint8?, nat?_ofNat n.toNat_lt, Option.map_some, UInt8.ofNat_toNat]

/-- A number of 16 bits is read back. -/
@[simp]
lemma uint16?_ofNat (n : UInt16) : (ofNat n.toNat).uint16? = some n := by
  rw [uint16?, nat?_ofNat n.toNat_lt, Option.map_some, UInt16.ofNat_toNat]

/-- A number of 32 bits is read back. -/
@[simp]
lemma uint32?_ofNat (n : UInt32) : (ofNat n.toNat).uint32? = some n := by
  rw [uint32?, nat?_ofNat n.toNat_lt, Option.map_some, UInt32.ofNat_toNat]

/-- A number of 64 bits is read back. -/
@[simp]
lemma uint64?_ofNat (n : UInt64) : (ofNat n.toNat).uint64? = some n := by
  rw [uint64?, nat?_ofNat n.toNat_lt, Option.map_some, UInt64.ofNat_toNat]

/-! ## Options and lists -/

section Containers

variable {α : Type} {encode : α → Json} {decode? : Json → Option α}

/-- An option is decoded if its value is, and if no value is written like none. -/
lemma optional?_ofOption (h : ∀ a, decode? (encode a) = some a) (hnull : ∀ a, encode a ≠ .null)
    (o : Option α) : (ofOption encode o).optional? decode? = some o := by
  cases o with
  | none => rfl
  | some a =>
    rw [ofOption]
    unfold optional?
    split
    · next heq => exact absurd heq (hnull a)
    · rw [h, Option.map_some]

/-- A list is read back if its items are. -/
lemma list?_ofList (h : ∀ a, decode? (encode a) = some a) (items : List α) :
    (ofList encode items).list? decode? = some items := by
  rw [ofList, list?, List.mapM_map]
  induction items with
  | nil => rfl
  | cons a items ih => simp [List.mapM_cons, h, ih]

end Containers

/-! ## Records -/

/-- The value of a name that no other member has. -/
lemma valuesOf_of_mem {members : List (String × Json)} (hnodup : (members.map Prod.fst).Nodup)
    {name : String} {value : Json} (h : (name, value) ∈ members) :
    valuesOf name members = [value] := by
  induction members with
  | nil => cases h
  | cons member members ih =>
    obtain ⟨hnew, hrest⟩ := List.nodup_cons.mp hnodup
    rw [valuesOf, List.filter_cons]
    rcases List.mem_cons.mp h with rfl | h
    · have hnone : members.filter (·.1 == name) = [] := by
        rw [List.filter_eq_nil_iff]
        intro other hother hname
        exact hnew (List.mem_map.mpr ⟨other, hother, by simpa using hname⟩)
      simp [hnone]
    · have hne : member.1 ≠ name := by
        rintro rfl
        exact hnew (List.mem_map.mpr ⟨_, h, rfl⟩)
      rw [if_neg (by simpa using hne)]
      exact ih hrest h

/-- The names of members are read back. -/
lemma mapM_textOf?_piecesOf (members : List (String × Json)) :
    (members.map fun (name, value) => (piecesOf name, value)).mapM
      (fun (name, value) => (textOf? name).map (·, value)) = some members := by
  rw [List.mapM_map]
  induction members with
  | nil => rfl
  | cons member members ih => simp [List.mapM_cons, ih]

/-- The fields of a record are decoded from an object that names each of them once. -/
lemma fields?_ofMembers {members : List (String × Json)} {names : List String} {defaulted : Nat}
    (hnames : members.map Prod.fst = names) (hnodup : names.Nodup) :
    (ofMembers members).fields? names defaulted =
      some (members.map fun member => some member.2) := by
  subst hnames
  -- an induction over the names leaves the members in which they are looked up as they are
  have hvalues : ∀ chosen ⊆ members, (chosen.map Prod.fst).mapM (uniqueValue? members) =
      some (chosen.map fun member => some member.2) := by
    intro chosen hsub
    induction chosen with
    | nil => rfl
    | cons member rest ih =>
      obtain ⟨hmember, hrest⟩ := List.cons_subset.mp hsub
      have hvalue : uniqueValue? members member.1 = some (some member.2) := by
        rw [uniqueValue?, valuesOf_of_mem hnodup hmember]
      simp [List.mapM_cons, hvalue, ih hrest]
  rw [ofMembers, fields?]
  simp only [mapM_textOf?_piecesOf, Option.bind_eq_bind, Option.bind_some]
  exact hvalues members (List.Subset.refl _)

end WaveAccess.Json
