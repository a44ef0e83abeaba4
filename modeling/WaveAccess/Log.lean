/-!
# Log records

An analysis does not write its log: it answers a value together with the records made on the way, in
their order. `Logged` is that pair, and a monad in which the records of two steps follow each other.
-/

namespace WaveAccess

/-- How much detail a record adds, from the least to the most. -/
inductive Log.Level where
  | warn
  | info
  | debug
  | trace
  deriving DecidableEq, Repr

/-- The name of a level. -/
def Log.Level.name : Log.Level → String
  | .warn => "WARN"
  | .info => "INFO"
  | .debug => "DEBUG"
  | .trace => "TRACE"

/-- The position of a level among the levels. -/
def Log.Level.detail : Log.Level → Nat
  | .warn => 1
  | .info => 2
  | .debug => 3
  | .trace => 4

/-- A line of the log. -/
structure Log.Record where
  level : Log.Level
  text : String
  deriving DecidableEq, Repr

/-- A value and the records made on the way to it. -/
structure Logged (α : Type) where
  value : α
  records : List Log.Record

namespace Logged

instance : Monad Logged where
  pure a := ⟨a, []⟩
  bind x f := ⟨(f x.value).value, x.records ++ (f x.value).records⟩

/-- A value on its own is the result. -/
@[simp]
theorem value_pure {α : Type} (a : α) : (pure a : Logged α).value = a := rfl

/-- The result of two steps is that of the second, which starts from that of the first. -/
@[simp]
theorem value_bind {α β : Type} (x : Logged α) (f : α → Logged β) :
    (x >>= f).value = (f x.value).value := rfl

/-- Makes one record. -/
def note (level : Log.Level) (text : String) : Logged Unit :=
  ⟨(), [⟨level, text⟩]⟩

end Logged

end WaveAccess
