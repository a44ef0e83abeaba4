import Mathlib.Tactic.Lemma
import Mathlib.Tactic.SplitIfs
import WaveAccess.Symbols.Finding

/-!
# What a finding says

An instruction that is found for an access stands in a file whose name has the access's hash, and
its mnemonic is known to have the access's direction and the found width. As no two mnemonics agree
in width and direction, these two determine the instruction.
-/

namespace WaveAccess

/-! ## Known mnemonics -/

/-- A width is known if the instruction is listed with it. -/
lemma mem_of_widthOf? {mnemonic : String} {width : UInt16 × Direction}
    (h : widthOf? mnemonic = some width) : (mnemonic, width) ∈ instructionWidths := by
  obtain ⟨before, after, heq, -⟩ := List.lookup_eq_some_iff.mp h
  rw [heq]
  exact List.mem_append_right _ List.mem_cons_self

/-- A width and a direction belong to one mnemonic at most. -/
lemma mnemonic_eq_of_widthOf? {mnemonic other : String} {width : UInt16 × Direction}
    (h : widthOf? mnemonic = some width) (h' : widthOf? other = some width) : mnemonic = other := by
  have hunique : ∀ a ∈ instructionWidths, ∀ b ∈ instructionWidths, a.2 = b.2 → a.1 = b.1 := by
    decide
  exact hunique _ (mem_of_widthOf? h) _ (mem_of_widthOf? h') rfl

/-- No known width is zero. -/
lemma width_ne_zero {mnemonic : String} {size : UInt16} {direction : Direction}
    (h : widthOf? mnemonic = some (size, direction)) : size ≠ 0 := by
  have hpos : ∀ a ∈ instructionWidths, a.2.1 ≠ 0 := by decide
  exact hpos _ (mem_of_widthOf? h)

/-! ## Found instructions -/

/-- An instruction fits an access: its file has the hash of the access, and its mnemonic is known to
have its width and the direction of the access. -/
structure FoundInstruction.Fits (i : FoundInstruction) (m : Message) : Prop where
  hash : fnv1a i.fileName = m.fileHash
  width : widthOf? i.mnemonic = some (i.size, m.direction)

namespace KernelScope

variable {scope : KernelScope} {m : Message} {i : FoundInstruction}

/-- An instruction that is accepted fits the access. -/
lemma accept?_eq_some {file : String} {candidate : Instruction} (hat : isAt m file candidate = true)
    (h : accept? m file candidate = some i) : i.Fits m := by
  unfold accept? at h
  split at h
  · next size direction hwidth =>
    split_ifs at h with hdirection
    cases h
    cases hdirection
    simp only [isAt, Bool.and_eq_true, beq_iff_eq] at hat
    exact ⟨hat.1.1, hwidth⟩
  · cases h

/-- A first candidate that is the access's instruction is found. -/
lemma firstMatch_of_accept? {file : String} {candidate : Instruction} (rest : List Instruction)
    (hfile : scope.symbols.fileName? scope.kernel candidate.pathId = some file)
    (hat : isAt m file candidate = true) (haccept : accept? m file candidate = some i) :
    (scope.firstMatch m (candidate :: rest)).value = .found i := by
  rw [firstMatch, Logged.value_bind, hfile]
  dsimp only
  rw [if_pos hat, Logged.value_bind, haccept]
  rfl

/-- The first match among candidates fits the access. -/
lemma fits_of_firstMatch {candidates : List Instruction}
    (h : (scope.firstMatch m candidates).value = .found i) : i.Fits m := by
  induction candidates with
  | nil => cases h
  | cons candidate rest ih =>
    rw [firstMatch, Logged.value_bind] at h
    split at h
    · cases h
    · next file _ =>
      split_ifs at h with hat
      · rw [Logged.value_bind] at h
        split at h
        · next found haccept =>
          cases h
          exact accept?_eq_some hat haccept
        · exact ih h
      · exact ih h

end KernelScope

namespace Finding

variable {scope : Option KernelScope} {m : Message}

/-- An instruction that is found for an access fits it. -/
lemma fits_of_ofMessage {i : FoundInstruction} (h : (ofMessage m scope).value = .found i) :
    i.Fits m := by
  cases scope with
  | none => cases h
  | some scope =>
    rw [ofMessage, KernelScope.find, Logged.value_bind] at h
    split at h
    · exact KernelScope.fits_of_firstMatch h
    · cases h

/-- The mnemonic of an access is known to have its size and its direction, if it is known at all. -/
lemma widthOf?_mnemonic (m : Message) (scope : Option KernelScope) :
    let f := (ofMessage m scope).value
    f.size = 0 ∧ f.mnemonic = "" ∨ widthOf? f.mnemonic = some (f.size, m.direction) := by
  cases h : (ofMessage m scope).value with
  | elsewhere => exact .inl ⟨rfl, rfl⟩
  | unknown => exact .inl ⟨rfl, rfl⟩
  | found i => exact .inr (fits_of_ofMessage h).width

/-- Accesses of one size and one direction have one mnemonic, whatever symbols they are looked up
in. -/
lemma mnemonic_eq {m m' : Message} {scope scope' : Option KernelScope}
    (hsize : (ofMessage m scope).value.size = (ofMessage m' scope').value.size)
    (hdirection : m.direction = m'.direction) :
    (ofMessage m scope).value.mnemonic = (ofMessage m' scope').value.mnemonic := by
  rcases widthOf?_mnemonic m scope with ⟨hzero, hnone⟩ | hwidth
  · rcases widthOf?_mnemonic m' scope' with ⟨-, hnone'⟩ | hwidth'
    · rw [hnone, hnone']
    · exact absurd (hsize.symm.trans hzero) (width_ne_zero hwidth')
  · rcases widthOf?_mnemonic m' scope' with ⟨hzero', -⟩ | hwidth'
    · exact absurd (hsize.trans hzero') (width_ne_zero hwidth)
    · rw [hsize, hdirection] at hwidth
      exact mnemonic_eq_of_widthOf? hwidth hwidth'

end Finding

end WaveAccess
