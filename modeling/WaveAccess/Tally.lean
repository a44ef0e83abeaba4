import WaveAccess.CacheLine
import WaveAccess.Message.Basic

/-!
# Tallies

Statistics of accesses by source location. Executions at one location with the same sizes and the
same direction are merged into one entry, whose count and statistic are sums; the entry keeps the
instruction of the first of them. A tally files its entries by file, then by line, then by column,
each in a map of its own whose keys are in ascending order. The entries of one location are in the
order in which they were first recorded.
-/

namespace WaveAccess

/-! ## Maps in order -/

/-- Values under keys, with the keys in ascending order. -/
structure OrderedMap (κ ν : Type) [LT κ] where
  pairs : List (κ × ν)
  ascending : pairs.Pairwise fun a b => a.1 < b.1
  deriving DecidableEq, Repr

namespace OrderedMap

variable {κ ν : Type} [LT κ]

/-- The map without values. -/
def empty : OrderedMap κ ν := ⟨[], .nil⟩

/-- Whether a map has no values. -/
def isEmpty (m : OrderedMap κ ν) : Bool :=
  m.pairs.isEmpty

variable [DecidableEq κ] [DecidableLT κ]

/-- Changes the value under a key of ascending pairs, or a fresh one that takes its place there. -/
def updatePairs (key : κ) (fresh : ν) (change : ν → ν) : List (κ × ν) → List (κ × ν)
  | [] => [(key, change fresh)]
  | (k, v) :: rest =>
    if key = k then (k, change v) :: rest
    else if key < k then (key, change fresh) :: (k, v) :: rest
    else (k, v) :: updatePairs key fresh change rest

/-- An update adds no key but its own. -/
theorem key_of_mem_updatePairs {key : κ} {fresh : ν} {change : ν → ν} {pairs : List (κ × ν)}
    {x : κ × ν} (h : x ∈ updatePairs key fresh change pairs) :
    x.1 = key ∨ ∃ y ∈ pairs, y.1 = x.1 := by
  fun_induction updatePairs key fresh change pairs with
  | case1 =>
    rw [List.mem_singleton.mp h]
    exact .inl rfl
  | case2 v rest =>
    rcases List.mem_cons.mp h with rfl | h
    · exact .inl rfl
    · exact .inr ⟨x, List.mem_cons_of_mem _ h, rfl⟩
  | case3 =>
    rcases List.mem_cons.mp h with rfl | h
    · exact .inl rfl
    · exact .inr ⟨x, h, rfl⟩
  | case4 k v rest _ _ ih =>
    rcases List.mem_cons.mp h with rfl | h
    · exact .inr ⟨(k, v), List.mem_cons_self, rfl⟩
    · rcases ih h with hkey | ⟨y, hy, hsame⟩
      · exact .inl hkey
      · exact .inr ⟨y, List.mem_cons_of_mem _ hy, hsame⟩

variable [LE κ] [Std.IsLinearOrder κ] [Std.LawfulOrderLT κ]

/-- An update keeps the keys in ascending order. -/
theorem pairwise_updatePairs (key : κ) (fresh : ν) (change : ν → ν) {pairs : List (κ × ν)}
    (h : pairs.Pairwise fun a b => a.1 < b.1) :
    (updatePairs key fresh change pairs).Pairwise fun a b => a.1 < b.1 := by
  fun_induction updatePairs key fresh change pairs with
  | case1 => exact List.pairwise_singleton _ _
  | case2 v rest => exact List.pairwise_cons.mpr (List.pairwise_cons.mp h)
  | case3 k v rest _ hlt =>
    refine List.pairwise_cons.mpr ⟨?_, h⟩
    intro y hy
    rcases List.mem_cons.mp hy with rfl | hy
    · exact hlt
    · exact Std.lt_trans hlt ((List.pairwise_cons.mp h).1 y hy)
  | case4 k v rest hne hnotlt ih =>
    obtain ⟨hk, hrest⟩ := List.pairwise_cons.mp h
    have hlt : k < key := by
      rcases Std.lt_trichotomy k key with hlt | heq | hgt
      · exact hlt
      · exact absurd heq.symm hne
      · exact absurd hgt hnotlt
    refine List.pairwise_cons.mpr ⟨?_, ih hrest⟩
    intro y hy
    rcases key_of_mem_updatePairs hy with hkey | ⟨z, hz, hsame⟩
    · rw [hkey]
      exact hlt
    · rw [← hsame]
      exact hk z hz

/-- Changes the value under a key, or a fresh one if there is none. -/
def update (m : OrderedMap κ ν) (key : κ) (fresh : ν) (change : ν → ν) : OrderedMap κ ν :=
  ⟨updatePairs key fresh change m.pairs, pairwise_updatePairs key fresh change m.ascending⟩

end OrderedMap

/-! ## Statistics -/

/-- A statistic that is summed over executions. -/
class Statistic (M : Type) where
  add : M → M → M
  /-- Whether a sum shows something worth reporting. -/
  isInefficient : M → Bool

instance : Statistic CacheUsage where
  add := CacheUsage.add
  isInefficient u := !u.isEfficient

/-- A number of bank conflicts. -/
structure ConflictTotal where
  total : Nat
  deriving DecidableEq, Repr

instance : Statistic ConflictTotal where
  add a b := ⟨a.total + b.total⟩
  isInefficient a := decide (0 < a.total)

/-! ## Entries -/

/-- A place in a source file. -/
structure SourcePosition where
  file : String
  line : UInt32
  column : UInt32
  deriving DecidableEq, Repr

namespace SourcePosition

/-- The text of a location. -/
def text (l : SourcePosition) : String :=
  s!"{l.file}:{l.line.toNat}:{l.column.toNat}"

end SourcePosition

/-- The merged executions of an access. -/
structure TallyEntry (M : Type) where
  /-- Bytes per lane as the instrumentation saw the access. -/
  irSize : UInt16
  /-- Bytes per lane of the compiled instruction, or 0 if it is not known. -/
  isaSize : UInt16
  direction : Direction
  /-- The compiled instruction, or nothing if it is not known. -/
  instruction : String
  /-- The number of executions. -/
  count : Nat
  statistic : M
  deriving DecidableEq, Repr

namespace TallyEntry

/-- Whether an entry takes in the executions of another. -/
def takes {M : Type} (e other : TallyEntry M) : Bool :=
  e.irSize == other.irSize && e.isaSize == other.isaSize && e.direction == other.direction

/-- An entry together with the executions of another. -/
def merge {M : Type} [Statistic M] (e other : TallyEntry M) : TallyEntry M :=
  { e with count := e.count + other.count, statistic := Statistic.add e.statistic other.statistic }

/-- Merges executions into the first of the entries that takes them, or puts them behind all. -/
def addTo {M : Type} [Statistic M] (e : TallyEntry M) : List (TallyEntry M) → List (TallyEntry M)
  | [] => [e]
  | head :: rest => if head.takes e then head.merge e :: rest else head :: addTo e rest

end TallyEntry

/-! ## Tallies -/

/-- Entries by column. -/
abbrev Tally.Columns (M : Type) := OrderedMap UInt32 (List (TallyEntry M))

/-- Entries by line, then by column. -/
abbrev Tally.Lines (M : Type) := OrderedMap UInt32 (Tally.Columns M)

/-- Merged executions by file, then by line, then by column. -/
structure Tally (M : Type) where
  files : OrderedMap String (Tally.Lines M)
  deriving DecidableEq, Repr

namespace Tally

variable {M : Type}

/-- The tally of no executions. -/
def empty : Tally M := ⟨.empty⟩

/-- Records executions at a location. -/
def record [Statistic M] (t : Tally M) (l : SourcePosition) (e : TallyEntry M) : Tally M where
  files := t.files.update l.file .empty fun lines =>
    lines.update l.line .empty fun columns =>
      columns.update l.column [] e.addTo

/-- Forgets all executions. -/
def clear (t : Tally M) : Tally M :=
  { t with files := .empty }

/-- The entries with their locations, in ascending order of these. -/
def entries (t : Tally M) : List (SourcePosition × TallyEntry M) :=
  t.files.pairs.flatMap fun (file, lines) =>
    lines.pairs.flatMap fun (line, columns) =>
      columns.pairs.flatMap fun (column, entries) =>
        entries.map fun e => (⟨file, line, column⟩, e)

/-- The entries worth reporting; all of them, if asked for. -/
def worthReporting [Statistic M] (t : Tally M) (all : Bool) :
    List (SourcePosition × TallyEntry M) :=
  t.entries.filter fun (_, e) => all || Statistic.isInefficient e.statistic

/-- The number of entries. -/
def size (t : Tally M) : Nat :=
  t.entries.length

/-- Whether nothing is filed under any file. -/
def isEmpty (t : Tally M) : Bool :=
  t.files.isEmpty

end Tally

end WaveAccess
