import Mathlib.Data.List.SplitBy
import WaveAccess.Proofs.Report.Readings

/-!
# Runs of queries for source lines

The slot takes in the lines of a file at a query for it and keeps them for as long as the queries
that follow are for the same path, whatever happens to the file meanwhile. So a history of queries
falls into runs, and the queries of a run are answered from the lines that its first query read.
-/

namespace WaveAccess

/-! ## Paths that agree -/

namespace Path

/-- A path is the same as itself. -/
@[simp]
lemma isSame_refl (p : Path) : p.isSame p = true := by
  rw [isSame, beq_self_eq_true]

/-- Paths are the same if their components are. -/
lemma isSame_iff {p q : Path} : p.isSame q = true ↔ p.components = q.components :=
  beq_iff_eq

/-- Paths that are the same are so to any other. -/
lemma isSame_congr {p q : Path} (h : p.isSame q = true) (r : Path) : p.isSame r = q.isSame r := by
  rw [isSame, isSame_iff.mp h, ← isSame]

end Path

/-! ## Queries -/

/-- A query for the source line with a number. -/
inductive SourceQuery where
  | line (path : Path) (number : Nat)
  | excerpt (path : Path) (number column : Nat)
  | context (path : Path) (number : Nat)

/-- The answer to a query. A line that is not there has no excerpt, and an empty context. -/
inductive SourceAnswer where
  | line (text : Option String)
  | excerpt (text : Option String)
  | context (text : String)
  deriving DecidableEq

/-- Two steps of reading go on with the slot that the first leaves. -/
lemma SourceReading.value_bind {α β : Type} (reading : SourceReading α) (f : α → SourceReading β)
    (slot : SourceSlot) :
    ((reading >>= f) slot).value = (f (reading slot).value.1 (reading slot).value.2).value :=
  rfl

namespace SourceQuery

/-- The path of the file that is asked for. -/
def path : SourceQuery → Path
  | line path _ => path
  | excerpt path _ _ => path
  | context path _ => path

/-- The number of the line that is asked for, from 1 on. -/
def number : SourceQuery → Nat
  | line _ number => number
  | excerpt _ number _ => number
  | context _ number => number

/-- Asks a query of the files in a tree. -/
def ask (t : FileTree) : SourceQuery → SourceReading SourceAnswer
  | line path number => do return .line (← t.sourceLine path number)
  | excerpt path number column => do return .excerpt (← t.excerpt path number column)
  | context path number => do return .context (← t.context path number)

/-- The answer to a query from the line that it asks for, if this is there. -/
def answerWith (line? : Option String) : SourceQuery → SourceAnswer
  | line _ _ => .line line?
  | excerpt _ _ column => .excerpt (line?.map (FileTree.excerptOf column))
  | context _ _ => .context ((line?.map fun text => Text.trim (Text.expandTabs text)).getD "")

/-- The answer to a query from the lines of its file. -/
def answerFrom (lines : List String) (q : SourceQuery) : SourceAnswer :=
  q.answerWith (if q.number = 0 then none else lines[q.number - 1]?)

/-- A query is answered from the lines that the slot holds once the file has been taken in. -/
lemma value_ask (t : FileTree) (q : SourceQuery) (slot : SourceSlot) :
    (q.ask t slot).value =
      (q.answerFrom (t.load q.path slot).value.lines, (t.load q.path slot).value) := by
  cases q with
  | line path number => rfl
  | excerpt path number column => rfl
  | context path number =>
    -- a context decides by the line what it answers, so the line is looked at first
    let held := (t.load path slot).value
    have hline : (t.sourceLine path number slot).value = (held.line? number, held) := rfl
    have hanswer : (context path number).answerFrom held.lines =
        (context path number).answerWith (held.line? number) := rfl
    change _ = ((context path number).answerFrom held.lines, held)
    rw [ask, SourceReading.value_bind, FileTree.context, SourceReading.value_bind, hline, hanswer]
    cases held.line? number <;> rfl

/-- Line 0 and lines past the end are not there. -/
lemma answerFrom_of_missing {lines : List String} {q : SourceQuery}
    (h : q.number = 0 ∨ lines.length < q.number) : q.answerFrom lines = q.answerWith none := by
  rw [answerFrom]
  split
  · rfl
  · next hpos =>
    have hlength : lines.length ≤ q.number - 1 := by omega
    rw [List.getElem?_eq_none hlength]

end SourceQuery

/-! ## Taking in a file -/

namespace FileTree

/-- The lines of a text file. What cannot be opened, or is no text throughout, has none. -/
def linesRead (t : FileTree) (p : Path) : List String :=
  match t.openAt p with
  | .ok (.file content) => ((String.fromUTF8? content).map Text.lines).getD []
  | _ => []

/-- A slot that holds the lines of a file is not loaded again. -/
lemma value_load_of_holds (t : FileTree) {p : Path} {slot : SourceSlot} (h : slot.holds p = true) :
    (t.load p slot).value = slot := by
  rw [load, if_pos h, Logged.value_pure]

/-- A slot that does not hold the lines of a file is loaded with them. -/
lemma value_load_of_not_holds (t : FileTree) {p : Path} {slot : SourceSlot}
    (h : slot.holds p = false) : (t.load p slot).value = ⟨some p, t.linesRead p⟩ := by
  rw [load, if_neg (by simp [h]), readLines, linesRead]
  cases t.openAt p with
  | error fault => rfl
  | ok node =>
    cases node with
    | directory => rfl
    | file content => cases h : String.fromUTF8? content <;> simp [h]

end FileTree

/-! ## Histories -/

/-- A query and the files as they are when it is asked. -/
structure Asked where
  tree : FileTree
  query : SourceQuery

namespace Asked

/-- Whether two queries are for the same path, component by component. -/
def sameFile (a b : Asked) : Bool :=
  a.query.path.isSame b.query.path

/-- The lines of the file that is asked for, as they are when it is asked for. -/
def lines (a : Asked) : List String :=
  a.tree.linesRead a.query.path

/-- Asks the queries of a history one after the other. -/
def askAll (history : List Asked) : SourceReading (List SourceAnswer) :=
  history.mapM fun a => a.query.ask a.tree

/-- The runs that make up a history: all queries of a run are for the path of its first one, and a
run ends only where the query that follows is for another path. -/
structure AreRuns (history : List Asked) (runs : List (List Asked)) : Prop where
  joined : runs.flatten = history
  same : ∀ run ∈ runs, ∃ first rest, run = first :: rest ∧ ∀ a ∈ rest, first.sameFile a = true
  apart : runs.IsChain fun run next => ∃ hrun hnext,
    (run.getLast hrun).sameFile (next.head hnext) = false

/-- The runs of a history. -/
def runs (history : List Asked) : List (List Asked) :=
  history.splitBy sameFile

/-- The answers to the queries of a run from the lines that its first query reads. -/
def answersOfRun : List Asked → List SourceAnswer
  | [] => []
  | first :: rest => (first :: rest).map fun a => a.query.answerFrom first.lines

variable {slot : SourceSlot} {first a : Asked} {rest run history : List Asked}

/-- Two queries are for the same file if a third is for the file of both. -/
lemma sameFile_trans {b c : Asked} (hab : a.sameFile b = true) (hbc : b.sameFile c = true) :
    a.sameFile c = true := by
  rw [sameFile, Path.isSame_congr hab]
  exact hbc

instance : Trans (fun a b : Asked => a.sameFile b = true) (fun a b => a.sameFile b = true)
    (fun a b => a.sameFile b = true) :=
  ⟨sameFile_trans⟩

/-- A history is asked by its first query, and the others then find the lines that it has left. -/
lemma value_askAll_cons (a : Asked) (rest : List Asked) (slot : SourceSlot) :
    (askAll (a :: rest) slot).value =
      let held := (a.tree.load a.query.path slot).value
      (a.query.answerFrom held.lines :: (askAll rest held).value.1,
        (askAll rest held).value.2) := by
  have := Logged.lawfulMonad
  rw [askAll, List.mapM_cons, SourceReading.value_bind, SourceQuery.value_ask]
  rfl

/-- A history is asked by one part after the other. -/
lemma value_askAll_append (before after : List Asked) (slot : SourceSlot) :
    (askAll (before ++ after) slot).value =
      let held := (askAll before slot).value
      (held.1 ++ (askAll after held.2).value.1, (askAll after held.2).value.2) := by
  induction before generalizing slot with
  | nil => rfl
  | cons a before ih =>
    rw [List.cons_append, value_askAll_cons, value_askAll_cons]
    dsimp only
    rw [ih]
    rfl

/-- Queries for the path in the slot are answered from its lines, and leave it. -/
lemma value_askAll_of_holds (h : ∀ a ∈ run, slot.holds a.query.path = true) :
    (askAll run slot).value = (run.map fun a => a.query.answerFrom slot.lines, slot) := by
  induction run with
  | nil => rfl
  | cons a run ih =>
    rw [value_askAll_cons, FileTree.value_load_of_holds _ (h a List.mem_cons_self)]
    dsimp only
    rw [ih fun b hb => h b (List.mem_cons_of_mem _ hb), List.map_cons]

/-- The first query of a run takes in its file, and the others find it in the slot. -/
lemma value_askAll_run (hslot : slot.holds first.query.path = false)
    (hrest : ∀ a ∈ rest, first.sameFile a = true) :
    (askAll (first :: rest) slot).value =
      (answersOfRun (first :: rest), ⟨some first.query.path, first.lines⟩) := by
  have hheld : ∀ a ∈ rest,
      SourceSlot.holds ⟨some first.query.path, first.lines⟩ a.query.path = true := hrest
  rw [value_askAll_cons, FileTree.value_load_of_not_holds _ hslot]
  dsimp only
  rw [← lines, value_askAll_of_holds hheld]
  rfl

/-! ## Runs -/

/-- The runs of a history make it up. -/
lemma areRuns_runs (history : List Asked) : AreRuns history (runs history) where
  joined := List.flatten_splitBy _ _
  same run h := by
    cases run with
    | nil => exact absurd rfl (List.ne_nil_of_mem_splitBy h)
    | cons first rest =>
      have hchain := List.isChain_of_mem_splitBy h
      exact ⟨first, rest, rfl, (List.pairwise_cons.mp (List.isChain_iff_pairwise.mp hchain)).1⟩
  apart := List.isChain_getLast_head_splitBy _ _

/-- All runs but the first make up the history behind it. -/
lemma AreRuns.tail {others : List (List Asked)} (h : AreRuns history (run :: others)) :
    AreRuns others.flatten others where
  joined := rfl
  same next hnext := h.same next (List.mem_cons_of_mem _ hnext)
  apart := h.apart.tail

/-- The query after a run is for another path than the run's first one. -/
lemma AreRuns.not_sameFile {next : List Asked} {others : List (List Asked)}
    (h : AreRuns history ((first :: rest) :: next :: others))
    (hrest : ∀ a ∈ rest, first.sameFile a = true) (ha : a ∈ next.head?) :
    first.sameFile a = false := by
  obtain ⟨hlast, hnext, hbreak⟩ := (List.isChain_cons_cons.mp h.apart).1
  rw [List.head_of_mem_head? ha] at hbreak
  have hpath : first.sameFile ((first :: rest).getLast hlast) = true := by
    rcases List.mem_cons.mp (List.getLast_mem hlast) with heq | hmem
    · rw [heq]
      exact Path.isSame_refl _
    · exact hrest _ hmem
  exact (Path.isSame_congr hpath _).trans hbreak

/-- Runs are answered each from the lines that its first query reads, if the first of them does not
find its file in the slot. -/
lemma AreRuns.answer_askAll {runs : List (List Asked)} (h : AreRuns history runs)
    (hslot : ∀ run ∈ runs.head?, ∀ a ∈ run.head?, slot.holds a.query.path = false) :
    (askAll history).answer slot = runs.flatMap answersOfRun := by
  induction runs generalizing history slot with
  | nil =>
    rw [← h.joined]
    rfl
  | cons run others ih =>
    obtain ⟨first, rest, rfl, hsame⟩ := h.same run List.mem_cons_self
    have hrun := value_askAll_run (hslot _ rfl _ rfl) hsame
    rw [← h.joined, List.flatten_cons, SourceReading.answer, value_askAll_append, hrun,
      List.flatMap_cons]
    dsimp only
    congr 1
    apply ih h.tail
    -- what the run leaves in the slot is not for the query that follows
    intro next hnext a ha
    cases others with
    | nil => cases hnext
    | cons _ others =>
      cases hnext
      exact h.not_sameFile hsame ha

/-- With an empty slot, all queries are answered by runs. -/
lemma answer_askAll_empty (history : List Asked) :
    (askAll history).answer SourceSlot.empty = (runs history).flatMap answersOfRun :=
  (areRuns_runs history).answer_askAll fun _ _ _ _ => rfl

/-- The answer to a query when nothing has been asked before. -/
def freshAnswer (a : Asked) : SourceAnswer :=
  (a.query.ask a.tree).answer SourceSlot.empty

/-- A query that comes first is answered from the lines of its file. -/
lemma freshAnswer_eq (a : Asked) : a.freshAnswer = a.query.answerFrom a.lines := by
  rw [freshAnswer, SourceReading.answer, SourceQuery.value_ask,
    FileTree.value_load_of_not_holds _ rfl]
  rfl

/-- If the files stay as they are and every path is always spelled alike, a run is answered as if
each of its queries came first. -/
lemma answersOfRun_eq_map_freshAnswer (htree : ∀ a ∈ history, ∀ b ∈ history, a.tree = b.tree)
    (hspelled : ∀ a ∈ history, ∀ b ∈ history,
      a.sameFile b = true → a.query.path = b.query.path)
    (hrun : run ∈ runs history) : answersOfRun run = run.map freshAnswer := by
  have h := areRuns_runs history
  have hmem : ∀ a ∈ run, a ∈ history := by
    intro a ha
    rw [← h.joined]
    exact List.mem_flatten.mpr ⟨run, hrun, ha⟩
  obtain ⟨first, rest, rfl, hsame⟩ := h.same run hrun
  have hfirst := hmem first List.mem_cons_self
  apply List.map_congr_left
  intro a ha
  have hpath : first.query.path = a.query.path := by
    rcases List.mem_cons.mp ha with rfl | hrest
    · rfl
    · exact hspelled first hfirst a (hmem a ha) (hsame a hrest)
  rw [freshAnswer_eq, lines, lines, hpath, htree first hfirst a (hmem a ha)]

/-- A history falls into runs, and the queries of each are answered from the lines of the file as
its first query found them, those for lines that are not there like the others. If the files stay as
they are and every path is always spelled alike, each query is thus answered as if it came first. -/
theorem answers_by_runs (history : List Asked) :
    AreRuns history (runs history) ∧
    (askAll history).answer SourceSlot.empty = (runs history).flatMap answersOfRun ∧
    (∀ (lines : List String) (q : SourceQuery), q.number = 0 ∨ lines.length < q.number →
      q.answerFrom lines = q.answerWith none) ∧
    ((∀ a ∈ history, ∀ b ∈ history, a.tree = b.tree) →
      (∀ a ∈ history, ∀ b ∈ history, a.sameFile b = true → a.query.path = b.query.path) →
        (askAll history).answer SourceSlot.empty = history.map freshAnswer) := by
  refine ⟨areRuns_runs history, answer_askAll_empty history,
    fun _ _ => SourceQuery.answerFrom_of_missing, ?_⟩
  intro htree hspelled
  have hrun : ∀ run ∈ runs history, answersOfRun run = run.map freshAnswer :=
    fun _ => answersOfRun_eq_map_freshAnswer htree hspelled
  calc (askAll history).answer SourceSlot.empty
      = (runs history).flatMap answersOfRun := answer_askAll_empty history
    _ = (runs history).flatMap (List.map freshAnswer) := List.flatMap_congr hrun
    _ = (runs history).flatten.map freshAnswer := List.map_flatten.symm
    _ = history.map freshAnswer := by rw [(areRuns_runs history).joined]

/-- A tree whose working directory holds a source file. -/
def withSource (content : String) : FileTree :=
  (FileTree.empty ["work"]).put ⟨"a.hip"⟩ content.toUTF8

/-- Line 0 is not there, and neither is a file. The queries between them and behind them are
answered as if they came first. -/
theorem answers_by_runs_while_source_stays :
    let t := withSource "x\n\ty\n"
    let history : List Asked := [⟨t, .line ⟨"a.hip"⟩ 0⟩, ⟨t, .excerpt ⟨"a.hip"⟩ 2 9⟩,
      ⟨t, .context ⟨"b.hip"⟩ 1⟩, ⟨t, .line ⟨"a.hip"⟩ 1⟩]
    (∀ a ∈ history, ∀ b ∈ history, a.tree = b.tree) ∧
      (∀ a ∈ history, ∀ b ∈ history, a.sameFile b = true → a.query.path = b.query.path) ∧
      (askAll history).answer SourceSlot.empty =
        [.line none, .excerpt (some "        y\n        ^\n"), .context "", .line (some "x")] := by
  intro t history
  have htree : ∀ a ∈ history, ∀ b ∈ history, a.tree = b.tree := by simp [history]
  have hspelled : ∀ a ∈ history, ∀ b ∈ history,
      a.sameFile b = true → a.query.path = b.query.path := by decide
  refine ⟨htree, hspelled, ?_⟩
  rw [(answers_by_runs history).2.2.2 htree hspelled]
  decide +kernel

/-- The lines of the first spelling answer for the second, which could not be opened itself,
although the file has changed in between. After a query for another path the file is read anew. -/
example :
    (askAll [⟨withSource "x\n", .line ⟨"a.hip"⟩ 7⟩, ⟨withSource "y\n", .line ⟨"a.hip/"⟩ 1⟩,
      ⟨withSource "y\n", .context ⟨"b.hip"⟩ 1⟩, ⟨withSource "y\n", .line ⟨"a.hip"⟩ 1⟩]).answer
        SourceSlot.empty = [.line none, .line (some "x"), .context "", .line (some "y")] := by
  decide +kernel

end Asked

end WaveAccess
