import WaveAccess.CacheLine
import WaveAccess.Message.Basic
import WaveAccess.Session.Basic
import WaveAccess.Text.Basic

/-!
# Observing messages

How a session takes in a message. What it answers is whether an analysis consumed the message. A
skipped message changes nothing but the architecture, and neither does an access that the symbols
place elsewhere or one whose excess comes from fusion.

A global access that touches more or fewer cache lines than the fewest possible leaves a debug
record with a dump: every lane's address and every line's lowest address, four to a row.
-/

namespace WaveAccess

/-! ## Dumps of inefficient accesses -/

namespace Dump

/-- Items in rows of four. Each row takes at least one item, so as much fuel as there are items is
enough. -/
def rowsOf : Nat → List String → List String
  | 0, _ => []
  | _ + 1, [] => []
  | fuel + 1, items => "   ".intercalate (items.take 4) :: rowsOf fuel (items.drop 4)

/-- Items as a block of rows. -/
def block (items : List String) : String :=
  "\n\t".intercalate (rowsOf items.length items)

/-- A number and an address. -/
def item (n address : Nat) : String :=
  s!"{Text.twoColumns n}: {Text.hexLiteral address}"

/-- The dump of an access that was analyzed with the given bytes per lane. -/
def text (m : Message) (size : Nat) (line : LineSize) (u : CacheUsage) : String :=
  let lanes := m.lanes.map fun a => item a.lane.toNat a.address.toNat
  let lines := (CacheLine.touched m.addresses size line).zipIdx.map fun (n, i) =>
    item i (n * line.bytes)
  s!"line {m.line.toNat}: global memory access by {m.numLanes} lanes:\n" ++
    s!"\t{m.direction.description} of {size} bytes/lane, minimum L2 cache lines required " ++
    s!"{u.needed}, cache lines used {u.used} ({u.excess} excess)\n" ++
    s!"\texecution mask = {m.exec.binary}\n" ++
    s!"\tAddresses accessed (lane: address)\n\t{block lanes}\n" ++
    s!"\tCache line size = {Text.hexLiteral line.bytes}. " ++
    s!"Lowest addresses on cache lines used:\n\t{block lines}"

end Dump

namespace Session

/-- A session after a message, and why the message was skipped if it was. -/
structure Observation where
  session : Session
  skipped : Option SkipReason

/-- Notes the architecture of a message from supported hardware. -/
def noteArch (s : Session) (m : Message) : Session :=
  { s with arch := Architecture.ofId? m.arch <|> s.arch }

/-! ## Global memory -/

/-- The bytes per lane that an access is analyzed with, if its instruction corrects them. -/
def correctedSize? (f : Finding) (m : Message) : Option UInt16 :=
  if f.size ≠ 0 ∧ f.size ≠ m.size then some f.size else none

/-- The entry that one execution of a global access makes. -/
def globalEntry (f : Finding) (m : Message) (u : CacheUsage) : TallyEntry CacheUsage where
  irSize := m.size
  isaSize := f.size
  direction := m.direction
  instruction := f.mnemonic
  count := 1
  statistic := u

/-- Records a global access. -/
def recordGlobal (s : Session) (f : Finding) (m : Message) (u : CacheUsage) : Session :=
  let file := f.fileName?.getD unknownSourceFile
  { s with
    global := s.global.record ⟨file, m.line, m.column⟩ (globalEntry f m u)
    fileNames :=
      match f.fileName? with
      | some name => putName m.fileHash name s.fileNames
      | none => s.fileNames }

/-- Analyzes the cache line use of a global access about which the symbols have spoken. -/
def analyzeFinding (s : Session) (line : LineSize) (m : Message) (f : Finding) :
    Logged Session := do
  let corrected := correctedSize? f m
  let size := corrected.getD m.size
  if corrected.isSome then
    Logged.note .debug <|
      s!"corrected access size from {m.size.toNat} to {size.toNat} bytes " ++
        "using debug information"
  let u := CacheLine.usage m.addresses size.toNat line
  if CacheLine.comesFromFusion u corrected.isSome then pure s
  else
    if !u.isEfficient then Logged.note .debug (Dump.text m size.toNat line u)
    pure (s.recordGlobal f m u)

/-- Analyzes the cache line use of a global access. -/
def analyzeGlobal (s : Session) (scope : Option KernelScope) (m : Message) :
    Logged Observation :=
  match lineSizeOfId? m.arch with
  | none => pure ⟨s, some (.unsupportedHardware m.arch)⟩
  | some line => do
    match ← Finding.ofMessage m scope with
    | .elsewhere => pure ⟨s, none⟩
    | finding => pure ⟨← s.analyzeFinding line m finding, none⟩

/-! ## The local data share -/

/-- The entry that one execution of an access to the local data share makes. -/
def sharedEntry (m : Message) (conflicts : Nat) : TallyEntry ConflictTotal where
  irSize := m.size
  isaSize := 0
  direction := m.direction
  instruction := ""
  count := 1
  statistic := ⟨conflicts⟩

/-- Records an access to the local data share. -/
def recordShared (s : Session) (m : Message) (count : ConflictCount) : Session :=
  let location : SourcePosition := ⟨s.fileNameOf m.fileHash, m.line, m.column⟩
  { s with
    tables := count.tables
    shared := s.shared.record location (sharedEntry m count.conflicts) }

/-- The records about an access to the local data share. -/
def noteShared (m : Message) (count : ConflictCount) : Logged Unit := do
  count.uncovered.forM fun lane =>
    Logged.note .debug
      s!"lane {lane.toNat} is not covered by any {m.size.toNat}-byte conflict set"
  Logged.note .debug <|
    s!"line {m.line.toNat}: LDS {m.direction.description} of {m.size.toNat} bytes/lane, " ++
      s!"{count.conflicts} bank conflicts, execution mask = {m.exec.binary}"

/-- Analyzes the bank conflicts of an access to the local data share. -/
def analyzeShared (s : Session) (m : Message) : Except Breakdown (Logged Observation) :=
  match s.tables.countConflicts m.size m.lanes with
  | .error (.breakdown b) => .error b
  | .error (.unsupported e) => .ok (pure ⟨s, some (.unsupportedSize e)⟩)
  | .ok count => .ok do
    noteShared m count
    pure ⟨s.recordShared m count, none⟩

/-! ## Messages -/

/-- Analyzes a message. -/
def analyze (s : Session) (scope : Option KernelScope) (m : Message) :
    Except Breakdown (Logged Observation) :=
  let s := s.noteArch m
  match m.space with
  | some .global => .ok (s.analyzeGlobal scope m)
  | some .shared => s.analyzeShared m
  | space => .ok (pure ⟨s, some (.unhandledSpace space)⟩)

/-- Takes in a message: the session afterwards, and whether the message was consumed. -/
def observe (s : Session) (scope : Option KernelScope) (m : Message) :
    Except Breakdown (Logged (Session × Bool)) :=
  (s.analyze scope m).map fun observation => do
    let o ← observation
    match o.skipped with
    | none => pure (o.session, true)
    | some reason => do
      reason.note
      pure (o.session, false)

/-- Decodes a packet and takes its message in. -/
def observePacket (s : Session) (packet : Packet) : Except Breakdown (Logged (Session × Bool)) :=
  match packet.decode with
  | .ok m => s.observe none m
  | .error e => .ok do
    (SkipReason.undecodable e).note
    pure (s, false)

/-- Takes in messages one after the other: the session afterwards, and how many were consumed. -/
def observeAll (s : Session) (scope : Option KernelScope) :
    List Message → Except Breakdown (Logged (Session × Nat))
  | [] => .ok (pure (s, 0))
  | m :: rest =>
    match s.observe scope m with
    | .error b => .error b
    | .ok first =>
      match observeAll first.value.1 scope rest with
      | .error b => .error b
      | .ok others => .ok do
        let (_, consumed) ← first
        let (s, count) ← others
        pure (s, count + if consumed then 1 else 0)

end Session

end WaveAccess
