import Mathlib.Data.List.Forall2
import Mathlib.Tactic.Lemma
import WaveAccess.Report.Document.Basic
import WaveAccess.Report.Listing

/-!
# Reports entry by entry

A report goes through entries in their order and quotes the source line of each. What it says about
an entry depends on the lines that were read before in nothing but the quotation, so the blocks of a
listing and the records of an analysis follow the entries one by one.
-/

namespace WaveAccess

/-- The records of steps follow each other, however the steps are grouped. -/
lemma Logged.lawfulMonad : LawfulMonad Logged := by
  refine LawfulMonad.mk' Logged ?_ ?_ ?_
  · intro α x
    cases x
    simp [Functor.map]
  · intro α β a f
    rfl
  · intro α β γ x f g
    simp [Bind.bind]

/-! ## Reading for one element after the other -/

/-- What a computation answers that begins with a slot. -/
def SourceReading.answer {α : Type} (reading : SourceReading α) (slot : SourceSlot) : α :=
  (reading slot).value.1

/-- Going through a list answers for each element in turn, with whatever slot it comes to. -/
lemma SourceReading.forall₂_mapM {α β : Type} (f : α → SourceReading β) (as : List α)
    (slot : SourceSlot) :
    List.Forall₂ (fun a b => ∃ slot, b = (f a).answer slot) as (answer (as.mapM f) slot) := by
  have := Logged.lawfulMonad
  induction as generalizing slot with
  | nil => exact .nil
  | cons a as ih =>
    rw [List.mapM_cons]
    exact .cons ⟨slot, rfl⟩ (ih _)

/-! ## Listings -/

namespace Listing

/-- A block has a location and what is said about it, and may quote a line between them. -/
inductive IsBlock (location : SourcePosition) (said : String) : String → Prop where
  | plain : IsBlock location said (location.text ++ "\n" ++ said)
  | quoted (line : String) : IsBlock location said
    (location.text ++ "\n" ++ FileTree.excerptOf location.column.toNat line ++ said)

/-- Blocks follow a list: there is one for each element, with its location and what is said about
it. -/
def Follow {A : Type} (location : A → SourcePosition) (said : A → String) :
    List A → List String → Prop :=
  List.Forall₂ fun a block => IsBlock (location a) (said a) block

/-- The text of a section: its blocks between its first line and its last, or a line that stands for
no blocks. -/
def sectionText (opening nothing closing : String) : List String → String
  | [] => "\n" ++ opening ++ "\n" ++ nothing ++ "\n" ++ closing ++ "\n"
  | block :: rest => "\n" ++ opening ++ "\n" ++ String.join (block :: rest) ++ closing ++ "\n"

/-- The text of the section on cache lines. -/
def cacheText : List String → String :=
  sectionText "=== L2 cache line use report ======================"
    "No excess cache lines used for global memory accesses"
    "=== End of L2 cache line use report ==============="

/-- The text of the section on bank conflicts. -/
def conflictText : List String → String :=
  sectionText "=== Bank conflicts report ========================="
    "No bank conflicts found"
    "=== End of bank conflicts report ===================="

/-- The section on cache lines without blocks says that there is no excess. -/
lemma cacheText_nil : cacheText [] =
    "\n=== L2 cache line use report ======================\n" ++
      "No excess cache lines used for global memory accesses\n" ++
      "=== End of L2 cache line use report ===============\n" := by
  decide +kernel

/-- A section is laid out as its text. -/
lemma layOut_eq (frame : Frame) (blocks : List String) :
    layOut frame blocks = sectionText frame.opening frame.nothing frame.closing blocks := by
  cases blocks with
  | nil => simp [layOut, sectionText, String.append_assoc]
  | cons block rest => rfl

/-- The section on cache lines is laid out as its text. -/
lemma layOut_cacheFrame : layOut cacheFrame = cacheText :=
  funext (layOut_eq cacheFrame)

/-- The section on bank conflicts is laid out as its text. -/
lemma layOut_conflictFrame : layOut conflictFrame = conflictText :=
  funext (layOut_eq conflictFrame)

/-- The line that stands for no blocks is one line, but every block takes up two lines at least. So
only a section without blocks looks like one. -/
lemma sectionText_eq_iff {opening nothing closing : String} {blocks : List String}
    (hnothing : nothing.toList.count '\n' = 0)
    (hblocks : ∀ block ∈ blocks, 2 ≤ block.toList.count '\n') :
    sectionText opening nothing closing blocks = sectionText opening nothing closing [] ↔
      blocks = [] := by
  constructor
  · intro heq
    cases blocks with
    | nil => rfl
    | cons block blocks =>
      have hcount := congrArg (fun text : String => text.toList.count '\n') heq
      have hblock := hblocks block List.mem_cons_self
      simp only [sectionText, String.join_cons, String.toList_append, List.count_append] at hcount
      have hend : "\n".toList.count '\n' = 1 := rfl
      omega
  · rintro rfl
    rfl

/-- A block takes up a line more than what is said in it. -/
lemma IsBlock.two_le_count {location : SourcePosition} {said block : String}
    (h : IsBlock location said block) (hsaid : 1 ≤ said.toList.count '\n') :
    2 ≤ block.toList.count '\n' := by
  have hend : "\n".toList.count '\n' = 1 := rfl
  cases h with
  | plain =>
    simp only [String.toList_append, List.count_append]
    omega
  | quoted line =>
    simp only [String.toList_append, List.count_append]
    omega

/-- What is said about cache lines takes up a line. -/
lemma one_le_count_describeCacheUse (e : TallyEntry CacheUsage) :
    1 ≤ (describeCacheUse e).toList.count '\n' := by
  have hend : '\n' ∈ " cache lines used\n".toList := by decide
  apply List.count_pos_iff.mpr
  simp only [describeCacheUse, String.toList_append, List.mem_append]
  exact .inr (.inr hend)

/-- What is said about bank conflicts takes up a line. -/
lemma one_le_count_describeConflicts (e : TallyEntry ConflictTotal) :
    1 ≤ (describeConflicts e).toList.count '\n' := by
  have hend : '\n' ∈ " bank conflicts in total\n".toList := by decide
  apply List.count_pos_iff.mpr
  simp only [describeConflicts, String.toList_append, List.mem_append]
  exact .inr (.inr hend)

/-- Blocks that follow a list take up two lines each. -/
lemma Follow.two_le_count {A : Type} {location : A → SourcePosition} {said : A → String}
    {as : List A} {blocks : List String} (h : Follow location said as blocks)
    (hsaid : ∀ a, 1 ≤ (said a).toList.count '\n') :
    ∀ block ∈ blocks, 2 ≤ block.toList.count '\n' := by
  induction h with
  | nil => exact nofun
  | @cons a block as blocks hblock _ ih =>
    exact List.forall_mem_cons.mpr ⟨hblock.two_le_count (hsaid a), ih⟩

/-- The section on cache lines says that there is no excess exactly if it has no blocks. -/
lemma cacheText_eq_iff {entries : List (SourcePosition × TallyEntry CacheUsage)}
    {blocks : List String} (h : Follow (·.1) (describeCacheUse ·.2) entries blocks) :
    cacheText blocks = cacheText [] ↔ entries = [] := by
  rw [cacheText, sectionText_eq_iff (by decide)
    (h.two_le_count fun x => one_le_count_describeCacheUse x.2), ← List.length_eq_zero_iff,
    ← h.length_eq, List.length_eq_zero_iff]

/-- The section on bank conflicts says that there are none exactly if it has no blocks. -/
lemma conflictText_eq_iff {entries : List (SourcePosition × TallyEntry ConflictTotal)}
    {blocks : List String} (h : Follow (·.1) (describeConflicts ·.2) entries blocks) :
    conflictText blocks = conflictText [] ↔ entries = [] := by
  rw [conflictText, sectionText_eq_iff (by decide)
    (h.two_le_count fun x => one_le_count_describeConflicts x.2), ← List.length_eq_zero_iff,
    ← h.length_eq, List.length_eq_zero_iff]

variable {M : Type} (t : FileTree) (describe : TallyEntry M → String)

/-- A block is made of a location and what is said about it. -/
lemma isBlock_block (x : SourcePosition × TallyEntry M) (slot : SourceSlot) :
    IsBlock x.1 (describe x.2) ((block t describe x).answer slot) := by
  obtain ⟨location, e⟩ := x
  let line? := (t.sourceLine ⟨location.file⟩ location.line.toNat).answer slot
  have hblock : (block t describe (location, e)).answer slot = location.text ++ "\n" ++
      (line?.map (FileTree.excerptOf location.column.toNat)).getD "" ++ describe e := rfl
  rw [hblock]
  cases line? with
  | none =>
    rw [Option.map_none, Option.getD_none, String.append_empty]
    exact .plain
  | some line => exact .quoted line

/-- The blocks of entries follow these. -/
lemma follow_blocks (entries : List (SourcePosition × TallyEntry M)) (slot : SourceSlot) :
    Follow (·.1) (describe ·.2) entries ((blocks t describe entries).answer slot) := by
  apply (SourceReading.forall₂_mapM (block t describe) entries slot).imp
  intro x _ hblock
  obtain ⟨slot, rfl⟩ := hblock
  exact isBlock_block t describe x slot

/-- A listing has the blocks of the entries that are worth reporting, section by section. -/
lemma answer_render (results : Results) (slot : SourceSlot) :
    ∃ cacheBlocks conflictBlocks,
      (render t results).answer slot =
        (if results.verbose then heading results.kernel else "") ++
          cacheText cacheBlocks ++ conflictText conflictBlocks ∧
      Follow (·.1) (describeCacheUse ·.2) (results.global.worthReporting results.verbose)
        cacheBlocks ∧
      Follow (·.1) (describeConflicts ·.2) (results.shared.worthReporting results.verbose)
        conflictBlocks := by
  rw [← layOut_cacheFrame, ← layOut_conflictFrame]
  exact ⟨_, _, rfl, follow_blocks t _ _ slot, follow_blocks t _ _ _⟩

end Listing

/-! ## Analyses -/

/-- What records list, apart from the quoted lines, is what the entries have. -/
lemma AccessRecord.map_answer {M I α : Type} (t : FileTree) (describe : TallyEntry M → I)
    {f : AccessRecord I → α} {g : SourcePosition × TallyEntry M → α}
    (h : ∀ x context, f ⟨x.1, context, describe x.2⟩ = g x)
    (entries : List (SourcePosition × TallyEntry M)) (slot : SourceSlot) :
    (SourceReading.answer (entries.mapM (ofEntry t describe)) slot).map f = entries.map g := by
  have hrecords := SourceReading.forall₂_mapM (ofEntry t describe) entries slot
  generalize SourceReading.answer (entries.mapM (ofEntry t describe)) slot = records at hrecords
  induction hrecords with
  | nil => rfl
  | cons hrecord _ ih =>
    obtain ⟨slot, rfl⟩ := hrecord
    rw [List.map_cons, List.map_cons, ih]
    congr 1
    exact h _ _

end WaveAccess
