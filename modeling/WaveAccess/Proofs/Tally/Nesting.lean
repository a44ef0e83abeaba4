import Mathlib.Data.List.Basic
import Mathlib.Data.Prod.Lex
import Mathlib.Data.String.Basic
import Mathlib.Tactic.Lemma
import WaveAccess.Tally

/-!
# Nested tallies as lists

A tally files its entries by file, line and column, but most of what is said about it concerns its
entries as one list. To record executions is to insert them into that list, and as no file, line or
column is ever without entries, the list determines the tally.
-/

namespace WaveAccess

/-! ## Locations -/

namespace SourcePosition

/-- A location as its file, line and column, of which the first that differ decide the order. -/
def rank (l : SourcePosition) : String ×ₗ ℕ ×ₗ ℕ :=
  toLex (l.file, toLex (l.line.toNat, l.column.toNat))

/-- Locations of one rank are the same. -/
lemma rank_injective : Function.Injective rank := by
  intro a b h
  obtain ⟨file, line, column⟩ := a
  obtain ⟨file', line', column'⟩ := b
  simp only [rank, toLex_inj, Prod.mk.injEq, UInt32.toNat_inj] at h
  obtain ⟨rfl, rfl, rfl⟩ := h
  rfl

instance : LinearOrder SourcePosition :=
  LinearOrder.lift' rank rank_injective

/-- A location comes before another by file, then by line, then by column. -/
lemma lt_iff {a b : SourcePosition} :
    a < b ↔ a.file < b.file ∨
      a.file = b.file ∧ (a.line < b.line ∨ a.line = b.line ∧ a.column < b.column) := by
  have hlt : a < b ↔ a.rank < b.rank := Iff.rfl
  rw [hlt, rank, rank, Prod.Lex.toLex_lt_toLex, Prod.Lex.toLex_lt_toLex]
  simp [UInt32.lt_iff_toNat_lt, UInt32.toNat_inj]

end SourcePosition

/-! ## Maps in order -/

namespace OrderedMap

variable {κ ν : Type} [LT κ] {m m' : OrderedMap κ ν} {p : ν → Prop}

/-- A map without values is the empty one. -/
lemma eq_empty_of_isEmpty (h : m.isEmpty = true) : m = empty := by
  obtain ⟨pairs, hascending⟩ := m
  cases List.isEmpty_iff.mp h
  rfl

/-- All values of a map have a property. -/
def ForallValues (m : OrderedMap κ ν) (p : ν → Prop) : Prop :=
  ∀ x ∈ m.pairs, p x.2

section Lists

variable {α : Type} {expand : κ × ν → List α} {keyOf : α → κ} {pairs pairs' : List (κ × ν)}

/-- The values of a map that has some expand to something, if each of them does. -/
lemma flatMap_ne_nil (h : m.isEmpty = false) (hp : m.ForallValues p)
    (hne : ∀ k v, p v → expand (k, v) ≠ []) : m.pairs.flatMap expand ≠ [] := by
  cases hpairs : m.pairs with
  | nil =>
    rw [isEmpty, hpairs] at h
    cases h
  | cons x rest =>
    intro hnil
    have hx : x ∈ m.pairs := by rw [hpairs]; exact List.mem_cons_self
    exact hne x.1 x.2 (hp x hx) (List.flatMap_eq_nil_iff.mp hnil x List.mem_cons_self)

variable [LE κ] [Std.LawfulOrderLT κ]

/-- The first key of ascending pairs is that of no element behind its own. -/
lemma ne_of_mem_flatMap {k : κ} {v : ν} (hkey : ∀ x, ∀ y ∈ expand x, keyOf y = x.1)
    (h : ((k, v) :: pairs).Pairwise fun a b => a.1 < b.1) :
    ∀ y ∈ pairs.flatMap expand, keyOf y ≠ k := by
  intro y hy
  obtain ⟨x, hx, hy⟩ := List.mem_flatMap.mp hy
  have hlt : k < x.1 := (List.pairwise_cons.mp h).1 x hx
  rw [hkey x y hy]
  rintro rfl
  exact Std.lt_irrefl hlt

variable [DecidableEq κ]

/-- What the value under the first key expands to is the part of that key. -/
lemma filter_flatMap_cons {k : κ} {v : ν} (hkey : ∀ x, ∀ y ∈ expand x, keyOf y = x.1)
    (h : ((k, v) :: pairs).Pairwise fun a b => a.1 < b.1) :
    (((k, v) :: pairs).flatMap expand).filter (keyOf · = k) = expand (k, v) := by
  have hfirst : ∀ y ∈ expand (k, v), keyOf y = k := hkey (k, v)
  have hrest := ne_of_mem_flatMap hkey h
  rw [List.flatMap_cons, List.filter_append, List.filter_eq_self.mpr (by simpa using hfirst),
    List.filter_eq_nil_iff.mpr (by simpa using hrest), List.append_nil]

/-- Ascending pairs are determined by what their values expand to, if every value expands to
something and different values of one key expand differently. -/
lemma pairs_eq_of_flatMap (hkey : ∀ x, ∀ y ∈ expand x, keyOf y = x.1)
    (hne : ∀ k v, p v → expand (k, v) ≠ [])
    (hinj : ∀ k v v', p v → p v' → expand (k, v) = expand (k, v') → v = v')
    (h : pairs.Pairwise fun a b => a.1 < b.1) (h' : pairs'.Pairwise fun a b => a.1 < b.1)
    (hp : ∀ x ∈ pairs, p x.2) (hp' : ∀ x ∈ pairs', p x.2)
    (heq : pairs.flatMap expand = pairs'.flatMap expand) : pairs = pairs' := by
  induction pairs generalizing pairs' with
  | nil =>
    cases pairs' with
    | nil => rfl
    | cons x rest =>
      have hx := List.flatMap_eq_nil_iff.mp heq.symm x List.mem_cons_self
      exact absurd hx (hne x.1 x.2 (hp' x List.mem_cons_self))
  | cons x rest ih =>
    cases pairs' with
    | nil =>
      have hx := List.flatMap_eq_nil_iff.mp heq x List.mem_cons_self
      exact absurd hx (hne x.1 x.2 (hp x List.mem_cons_self))
    | cons x' rest' =>
      obtain ⟨k, v⟩ := x
      obtain ⟨k', v'⟩ := x'
      have hv := hp (k, v) List.mem_cons_self
      have hv' := hp' (k', v') List.mem_cons_self
      -- the first element of both expansions has the first key of both
      have hkk' : k = k' := by
        obtain ⟨y, ys, hy⟩ := List.exists_cons_of_ne_nil (hne k v hv)
        obtain ⟨y', ys', hy'⟩ := List.exists_cons_of_ne_nil (hne k' v' hv')
        have hyk : keyOf y = k := hkey (k, v) y (by rw [hy]; exact List.mem_cons_self)
        have hyk' : keyOf y' = k' := hkey (k', v') y' (by rw [hy']; exact List.mem_cons_self)
        rw [List.flatMap_cons, List.flatMap_cons, hy, hy'] at heq
        rw [← hyk, (List.cons.inj heq).1, hyk']
      subst hkk'
      have hfirst : expand (k, v) = expand (k, v') := by
        rw [← filter_flatMap_cons hkey h, heq, filter_flatMap_cons hkey h']
      have hvv' : v = v' := hinj k v v' hv hv' hfirst
      subst hvv'
      rw [List.flatMap_cons, List.flatMap_cons] at heq
      rw [ih (List.pairwise_cons.mp h).2 (List.pairwise_cons.mp h').2
        (fun y hy => hp y (List.mem_cons_of_mem _ hy))
        (fun y hy => hp' y (List.mem_cons_of_mem _ hy)) (List.append_cancel_left heq)]

/-- A map is determined by what its values expand to. -/
lemma ext_of_flatMap (keyOf : α → κ) (hkey : ∀ x, ∀ y ∈ expand x, keyOf y = x.1)
    (hne : ∀ k v, p v → expand (k, v) ≠ [])
    (hinj : ∀ k v v', p v → p v' → expand (k, v) = expand (k, v') → v = v')
    (hp : m.ForallValues p) (hp' : m'.ForallValues p)
    (heq : m.pairs.flatMap expand = m'.pairs.flatMap expand) : m = m' := by
  have hpairs := pairs_eq_of_flatMap hkey hne hinj m.ascending m'.ascending hp hp' heq
  obtain ⟨pairs, hascending⟩ := m
  obtain ⟨pairs', hascending'⟩ := m'
  subst hpairs
  rfl

end Lists

section Update

variable [LE κ] [Std.IsLinearOrder κ] [Std.LawfulOrderLT κ] [DecidableEq κ] [DecidableLT κ]
  {key : κ} {fresh : ν} {change : ν → ν}

/-- An update leaves a property of all values that the change keeps and gives. -/
lemma ForallValues.update (h : m.ForallValues p) (hfresh : p (change fresh))
    (hchange : ∀ v, p v → p (change v)) : (m.update key fresh change).ForallValues p := by
  have hpairs : ∀ pairs : List (κ × ν), (∀ x ∈ pairs, p x.2) →
      ∀ x ∈ updatePairs key fresh change pairs, p x.2 := by
    intro pairs hp
    fun_induction updatePairs key fresh change pairs with
    | case1 => exact List.forall_mem_singleton.mpr hfresh
    | case2 v rest =>
      obtain ⟨hv, hrest⟩ := List.forall_mem_cons.mp hp
      exact List.forall_mem_cons.mpr ⟨hchange v hv, hrest⟩
    | case3 => exact List.forall_mem_cons.mpr ⟨hfresh, hp⟩
    | case4 k v rest _ _ ih =>
      obtain ⟨hv, hrest⟩ := List.forall_mem_cons.mp hp
      exact List.forall_mem_cons.mpr ⟨hv, ih hrest⟩
  exact hpairs m.pairs h

/-- An updated map has a value. -/
lemma isEmpty_update : (m.update key fresh change).isEmpty = false := by
  rw [isEmpty, update]
  unfold updatePairs
  split
  · rfl
  · split
    · rfl
    · split <;> rfl

end Update

section MapValues

variable {μ : Type} {f : ν → μ} {q : μ → Prop}

/-- A map with its values changed under their keys. -/
def mapValues (f : ν → μ) (m : OrderedMap κ ν) : OrderedMap κ μ where
  pairs := m.pairs.map fun x => (x.1, f x.2)
  ascending := List.pairwise_map.mpr m.ascending

/-- Changed values are as many as before. -/
lemma isEmpty_mapValues : (m.mapValues f).isEmpty = m.isEmpty :=
  List.isEmpty_map

/-- Changed values have a property that the change gives to all with another. -/
lemma ForallValues.mapValues (h : m.ForallValues p) (hf : ∀ v, p v → q (f v)) :
    (m.mapValues f).ForallValues q := by
  intro x hx
  obtain ⟨y, hy, rfl⟩ := List.mem_map.mp hx
  exact hf y.2 (h y hy)

end MapValues

end OrderedMap

namespace Tally

variable {M : Type} {l : SourcePosition} {e : TallyEntry M}
  {entries front back : List (SourcePosition × TallyEntry M)}

/-! ## Entries of a level -/

/-- The entries of a column at their location. -/
def entriesAt (file : String) (line : UInt32) (x : UInt32 × List (TallyEntry M)) :
    List (SourcePosition × TallyEntry M) :=
  x.2.map fun e => (⟨file, line, x.1⟩, e)

/-- The entries of a line at their locations. -/
def entriesOfLine (file : String) (x : UInt32 × Columns M) : List (SourcePosition × TallyEntry M) :=
  x.2.pairs.flatMap (entriesAt file x.1)

/-- The entries of a file at their locations. -/
def entriesOfFile (x : String × Lines M) : List (SourcePosition × TallyEntry M) :=
  x.2.pairs.flatMap (entriesOfLine x.1)

/-- The entries of a tally are those of its files. -/
lemma entries_eq (t : Tally M) : t.entries = t.files.pairs.flatMap entriesOfFile :=
  rfl

/-- The entries of a column are at its location. -/
lemma location_of_mem_entriesAt {file : String} {line : UInt32} {x : UInt32 × List (TallyEntry M)}
    {y : SourcePosition × TallyEntry M} (h : y ∈ entriesAt file line x) :
    y.1 = ⟨file, line, x.1⟩ := by
  obtain ⟨e, -, rfl⟩ := List.mem_map.mp h
  rfl

/-- The entries of a line are in its file and on it. -/
lemma location_of_mem_entriesOfLine {file : String} {x : UInt32 × Columns M}
    {y : SourcePosition × TallyEntry M} (h : y ∈ entriesOfLine file x) :
    y.1.file = file ∧ y.1.line = x.1 := by
  obtain ⟨c, -, hy⟩ := List.mem_flatMap.mp h
  rw [location_of_mem_entriesAt hy]
  exact ⟨rfl, rfl⟩

/-- The entries of a file are in it. -/
lemma file_of_mem_entriesOfFile {x : String × Lines M} {y : SourcePosition × TallyEntry M}
    (h : y ∈ entriesOfFile x) : y.1.file = x.1 := by
  obtain ⟨line, -, hy⟩ := List.mem_flatMap.mp h
  exact (location_of_mem_entriesOfLine hy).1

/-! ## Recording -/

section Recording

variable [Statistic M]

/-- Merges executions into the entry that takes them, or puts them behind the entries whose
locations are not after theirs. -/
def insert (l : SourcePosition) (e : TallyEntry M) :
    List (SourcePosition × TallyEntry M) → List (SourcePosition × TallyEntry M)
  | [] => [(l, e)]
  | head :: rest =>
    if head.1 = l ∧ head.2.takes e then (l, head.2.merge e) :: rest
    else if l < head.1 then (l, e) :: head :: rest
    else head :: insert l e rest

/-- Executions go in front of entries that are all at later locations. -/
lemma insert_of_lt (h : ∀ y ∈ entries, l < y.1) : insert l e entries = (l, e) :: entries := by
  cases entries with
  | nil => rfl
  | cons head rest =>
    have hlt : l < head.1 := h head List.mem_cons_self
    rw [insert, if_neg fun hsame => hlt.ne hsame.1.symm, if_pos hlt]

/-- Executions are inserted in front of entries at later locations. -/
lemma insert_append_of_lt (h : ∀ y ∈ back, l < y.1) :
    insert l e (front ++ back) = insert l e front ++ back := by
  induction front with
  | nil => exact insert_of_lt h
  | cons head rest ih =>
    rw [List.cons_append, insert, insert, ih]
    split_ifs <;> rfl

/-- Executions are inserted behind entries at earlier locations. -/
lemma insert_append_of_gt (h : ∀ y ∈ front, y.1 < l) :
    insert l e (front ++ back) = front ++ insert l e back := by
  induction front with
  | nil => rfl
  | cons head rest ih =>
    obtain ⟨hhead, hrest⟩ := List.forall_mem_cons.mp h
    rw [List.cons_append, insert, if_neg fun hsame => hhead.ne hsame.1, if_neg hhead.not_gt,
      ih hrest, List.cons_append]

/-- At one location, executions are inserted as they are added to the entries there. -/
lemma map_addTo (l : SourcePosition) (e : TallyEntry M) (es : List (TallyEntry M)) :
    (e.addTo es).map (l, ·) = insert l e (es.map (l, ·)) := by
  induction es with
  | nil => rfl
  | cons head rest ih =>
    rw [TallyEntry.addTo, List.map_cons, insert]
    by_cases htakes : head.takes e = true
    · rw [if_pos htakes, if_pos ⟨rfl, htakes⟩, List.map_cons]
    · rw [if_neg htakes, if_neg fun hsame => htakes hsame.2, if_neg (lt_irrefl l), List.map_cons,
        ih]

/-- An update of one level inserts executions, if the change inserts them into the part of the key,
and the parts of other keys are at earlier or later locations as the keys are. -/
lemma flatMap_updatePairs {κ ν : Type} [LT κ] [LE κ] [Std.IsLinearOrder κ] [Std.LawfulOrderLT κ]
    [DecidableEq κ] [DecidableLT κ] {key : κ} {fresh : ν} {change : ν → ν}
    {expand : κ × ν → List (SourcePosition × TallyEntry M)}
    (hbefore : ∀ x, x.1 < key → ∀ y ∈ expand x, y.1 < l)
    (hafter : ∀ x, key < x.1 → ∀ y ∈ expand x, l < y.1)
    (hchange : ∀ v, expand (key, change v) = insert l e (expand (key, v)))
    (hfresh : expand (key, fresh) = []) {pairs : List (κ × ν)}
    (h : pairs.Pairwise fun a b => a.1 < b.1) :
    (OrderedMap.updatePairs key fresh change pairs).flatMap expand =
      insert l e (pairs.flatMap expand) := by
  have hnew : expand (key, change fresh) = [(l, e)] := by rw [hchange, hfresh]; rfl
  have hlater : ∀ pairs : List (κ × ν), (∀ x ∈ pairs, key < x.1) →
      ∀ y ∈ pairs.flatMap expand, l < y.1 := by
    intro pairs hpairs y hy
    obtain ⟨x, hx, hy⟩ := List.mem_flatMap.mp hy
    exact hafter x (hpairs x hx) y hy
  fun_induction OrderedMap.updatePairs key fresh change pairs with
  | case1 => rw [List.flatMap_singleton, hnew]; rfl
  | case2 v rest =>
    have hrest := hlater rest (List.pairwise_cons.mp h).1
    rw [List.flatMap_cons, List.flatMap_cons, hchange, insert_append_of_lt hrest]
  | case3 k v rest _ hlt =>
    have hall : ∀ x ∈ (k, v) :: rest, key < x.1 := by
      intro x hx
      rcases List.mem_cons.mp hx with rfl | hx
      · exact hlt
      · exact Std.lt_trans hlt ((List.pairwise_cons.mp h).1 x hx)
    rw [List.flatMap_cons, hnew, insert_of_lt (hlater _ hall)]
    rfl
  | case4 k v rest hne hnotlt ih =>
    have hlt : k < key := by
      rcases Std.lt_trichotomy k key with hlt | heq | hgt
      · exact hlt
      · exact absurd heq.symm hne
      · exact absurd hgt hnotlt
    rw [List.flatMap_cons, List.flatMap_cons, ih (List.pairwise_cons.mp h).2,
      insert_append_of_gt (hbefore (k, v) hlt)]

/-- To record executions is to insert them into the entries. -/
lemma entries_record (t : Tally M) (l : SourcePosition) (e : TallyEntry M) :
    (t.record l e).entries = insert l e t.entries := by
  have hcolumns : ∀ columns : Columns M,
      entriesOfLine l.file (l.line, columns.update l.column [] e.addTo) =
        insert l e (entriesOfLine l.file (l.line, columns)) := by
    intro columns
    apply flatMap_updatePairs _ _ (map_addTo l e) rfl columns.ascending
    · intro x hx y hy
      rw [location_of_mem_entriesAt hy, SourcePosition.lt_iff]
      exact .inr ⟨rfl, .inr ⟨rfl, hx⟩⟩
    · intro x hx y hy
      rw [location_of_mem_entriesAt hy, SourcePosition.lt_iff]
      exact .inr ⟨rfl, .inr ⟨rfl, hx⟩⟩
  have hlines : ∀ lines : Lines M,
      entriesOfFile (l.file, lines.update l.line .empty fun columns =>
          columns.update l.column [] e.addTo) =
        insert l e (entriesOfFile (l.file, lines)) := by
    intro lines
    apply flatMap_updatePairs _ _ hcolumns rfl lines.ascending
    · intro x hx y hy
      obtain ⟨hfile, hline⟩ := location_of_mem_entriesOfLine hy
      rw [SourcePosition.lt_iff, hline]
      exact .inr ⟨hfile, .inl hx⟩
    · intro x hx y hy
      obtain ⟨hfile, hline⟩ := location_of_mem_entriesOfLine hy
      rw [SourcePosition.lt_iff, hline]
      exact .inr ⟨hfile.symm, .inl hx⟩
  apply flatMap_updatePairs _ _ hlines rfl t.files.ascending
  · intro x hx y hy
    rw [SourcePosition.lt_iff, file_of_mem_entriesOfFile hy]
    exact .inl hx
  · intro x hx y hy
    rw [SourcePosition.lt_iff, file_of_mem_entriesOfFile hy]
    exact .inl hx

end Recording

/-! ## Levels without gaps -/

/-- No column of a line is without entries, and the line is not without columns. -/
def Columns.IsFilled (columns : Columns M) : Prop :=
  columns.isEmpty = false ∧ columns.ForallValues (· ≠ [])

/-- No line of a file is without entries, and the file is not without lines. -/
def Lines.IsFilled (lines : Lines M) : Prop :=
  lines.isEmpty = false ∧ lines.ForallValues Columns.IsFilled

/-- No file, line or column is without entries. -/
def IsFilled (t : Tally M) : Prop :=
  t.files.ForallValues Lines.IsFilled

/-- Nothing is filed in the empty tally. -/
lemma isFilled_empty : (empty : Tally M).IsFilled :=
  nofun

/-- Recording files executions under a file, a line and a column. -/
lemma IsFilled.record [Statistic M] {t : Tally M} (h : t.IsFilled) (l : SourcePosition)
    (e : TallyEntry M) : (t.record l e).IsFilled := by
  have hentries : ∀ es, e.addTo es ≠ [] := by
    intro es
    cases es with
    | nil => exact List.cons_ne_nil _ _
    | cons head rest =>
      rw [TallyEntry.addTo]
      split <;> exact List.cons_ne_nil _ _
  have hcolumns : ∀ columns : Columns M, columns.ForallValues (· ≠ []) →
      Columns.IsFilled (columns.update l.column [] e.addTo) := by
    intro columns hall
    exact ⟨OrderedMap.isEmpty_update, hall.update (hentries _) fun es _ => hentries es⟩
  have hlines : ∀ lines : Lines M, lines.ForallValues Columns.IsFilled →
      Lines.IsFilled (lines.update l.line .empty fun columns =>
        columns.update l.column [] e.addTo) := by
    intro lines hall
    exact ⟨OrderedMap.isEmpty_update,
      hall.update (hcolumns _ nofun) fun columns hfilled => hcolumns columns hfilled.2⟩
  exact h.update (hlines _ nofun) fun lines hfilled => hlines lines hfilled.2

/-- A column with entries shows some. -/
lemma entriesAt_ne_nil {file : String} {line : UInt32} {column : UInt32}
    {es : List (TallyEntry M)} (h : es ≠ []) : entriesAt file line (column, es) ≠ [] :=
  mt List.map_eq_nil_iff.mp h

/-- A line that is filled shows entries. -/
lemma entriesOfLine_ne_nil {file : String} {line : UInt32} {columns : Columns M}
    (h : Columns.IsFilled columns) : entriesOfLine file (line, columns) ≠ [] :=
  OrderedMap.flatMap_ne_nil h.1 h.2 fun _ _ => entriesAt_ne_nil

/-- A file that is filled shows entries. -/
lemma entriesOfFile_ne_nil {file : String} {lines : Lines M} (h : Lines.IsFilled lines) :
    entriesOfFile (file, lines) ≠ [] :=
  OrderedMap.flatMap_ne_nil h.1 h.2 fun _ _ => entriesOfLine_ne_nil

/-- A filled tally has no file exactly if it has no entries. -/
lemma IsFilled.isEmpty_iff {t : Tally M} (h : t.IsFilled) : t.isEmpty = true ↔ t.entries = [] := by
  rw [isEmpty, OrderedMap.isEmpty, List.isEmpty_iff]
  constructor
  · intro hnil
    rw [entries_eq, hnil]
    rfl
  · intro hnil
    apply List.eq_nil_iff_forall_not_mem.mpr
    intro x hx
    exact entriesOfFile_ne_nil (h x hx) (List.flatMap_eq_nil_iff.mp hnil x hx)

/-- A tally without files is the empty one. -/
lemma eq_empty_of_isEmpty {t : Tally M} (h : t.isEmpty = true) : t = empty :=
  congrArg Tally.mk (OrderedMap.eq_empty_of_isEmpty h)

/-- The entries of a filled tally determine it. -/
lemma IsFilled.ext {t t' : Tally M} (h : t.IsFilled) (h' : t'.IsFilled)
    (heq : t.entries = t'.entries) : t = t' := by
  have hcolumns : ∀ file line (columns columns' : Columns M), Columns.IsFilled columns →
      Columns.IsFilled columns' →
      entriesOfLine file (line, columns) = entriesOfLine file (line, columns') →
        columns = columns' := by
    intro file line columns columns' hfilled hfilled' hsame
    refine OrderedMap.ext_of_flatMap (fun y => y.1.column) ?_
      (fun _ _ => entriesAt_ne_nil) ?_ hfilled.2 hfilled'.2 hsame
    · intro x y hy
      rw [location_of_mem_entriesAt hy]
    · intro column es es' _ _ hes
      exact List.map_injective_iff.mpr (Prod.mk_right_injective _) hes
  have hlines : ∀ file (lines lines' : Lines M), Lines.IsFilled lines → Lines.IsFilled lines' →
      entriesOfFile (file, lines) = entriesOfFile (file, lines') → lines = lines' := by
    intro file lines lines' hfilled hfilled' hsame
    refine OrderedMap.ext_of_flatMap (fun y => y.1.line) ?_
      (fun _ _ => entriesOfLine_ne_nil) (hcolumns file) hfilled.2 hfilled'.2 hsame
    intro x y hy
    exact (location_of_mem_entriesOfLine hy).2
  have hfiles : t.files = t'.files := by
    refine OrderedMap.ext_of_flatMap (fun y => y.1.file) ?_
      (fun _ _ => entriesOfFile_ne_nil) hlines h h' heq
    intro x y hy
    exact file_of_mem_entriesOfFile hy
  exact congrArg Tally.mk hfiles

end Tally

end WaveAccess
