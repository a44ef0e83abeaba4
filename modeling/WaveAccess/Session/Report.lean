import WaveAccess.Session.Observe

/-!
# Reports of a session

A session reports its results through its outlet. Whether or not the report can be delivered, the
session keeps its results; only the outlet remembers which source file it read last.
-/

namespace WaveAccess.Session

/-- What a report leaves behind. -/
structure Reported where
  session : Session
  tree : FileTree
  /-- What was written to the console. -/
  console : String
  fault : Option ReportFault

/-- Delivers the session's results. -/
def deliver (s : Session) (around : Surroundings) (kernelsFound : Option Nat) :
    Logged Reported := do
  let d ← s.outlet.deliver around (s.results kernelsFound)
  pure ⟨{ s with outlet := d.outlet }, d.tree, d.console, d.fault⟩

/-- Reports the results, and the number of kernels in the symbol table if there is one. -/
def report (s : Session) (around : Surroundings) : Option KernelScope → Logged Reported
  | none => s.deliver around none
  | some scope => do
    let found := scope.symbols.names.length
    Logged.note .debug s!"reporting kernel {Text.quote scope.kernel} ({found} kernels in database)"
    s.deliver around (some found)

/-- The text of a report in a format, without delivering it. -/
def render (s : Session) (around : Surroundings) (format : ReportFormat) : Logged String := do
  let (text, _) ← Outlet.renderIn format around (s.results none) .empty
  pure text

/-- What a run leaves behind, and how many messages were consumed. -/
structure RunResult where
  reported : Reported
  consumed : Nat

/-- Takes in messages, correlated with the session's kernel in the symbol table if there is one, and
reports the results. -/
def run (s : Session) (around : Surroundings) (symbols : Option SymbolTable)
    (messages : List Message) : Except Breakdown (Logged RunResult) :=
  let scope := symbols.map fun table => (⟨s.kernel.name, table⟩ : KernelScope)
  (s.observeAll scope messages).map fun observed => do
    let (s, consumed) ← observed
    Logged.note .debug s!"handled {consumed} of {messages.length} messages"
    let reported ← s.report around scope
    pure ⟨reported, consumed⟩

end WaveAccess.Session
