import WaveAccess.Bank.Conflict
import WaveAccess.Message.Packet
import WaveAccess.Report.Outlet
import WaveAccess.Symbols.Finding

/-!
# Analysis sessions

A session analyzes the messages of kernel dispatches. Accesses to global memory are tallied by their
cache line use, accesses to the local data share by their bank conflicts, and any other message is
skipped. The symbols know no instructions of the local data share, so such an access is filed under
the source file that was last found for a global access with the same file hash.
-/

namespace WaveAccess

/-- The source file of accesses whose file is not known. -/
def unknownSourceFile : String := "<unknown source file>"

/-- Why a message is skipped. -/
inductive SkipReason where
  | undecodable (e : DecodeError)
  | unsupportedHardware (arch : UInt8)
  | unsupportedSize (e : UnsupportedSize)
  | unhandledSpace (space : Option AddressSpace)
  deriving DecidableEq, Repr

namespace SkipReason

/-- The text of a reason. -/
def message : SkipReason → String
  | undecodable e => e.message
  | unsupportedHardware arch =>
    s!"message from unsupported GPU hardware (architecture id {arch.toNat})"
  | unsupportedSize e => e.message
  | unhandledSpace space =>
    let name := space.elim "unknown" AddressSpace.name
    s!"no analysis for {name} memory accesses"

/-- The record that is made of a skipped message. -/
def note : SkipReason → Logged Unit
  | unsupportedSize e => Logged.note .warn e.message
  | reason => Logged.note .debug s!"skipping message: {reason.message}"

end SkipReason

/-- The state of an analysis. -/
structure Session where
  kernel : KernelDispatch
  verbose : Bool
  tables : BankTables
  global : Tally CacheUsage
  shared : Tally ConflictTotal
  /-- The source files of global accesses by the hash of their names. -/
  fileNames : List (UInt64 × String)
  /-- The architecture of the last message from supported hardware, or the one given before any. -/
  arch : Option Architecture
  outlet : Outlet

namespace Session

/-- The session that has seen no message. -/
def start (kernel : KernelDispatch) (verbose : Bool) (outlet : Outlet)
    (arch : Option Architecture) : Session where
  kernel := kernel
  verbose := verbose
  tables := .hardware
  global := .empty
  shared := .empty
  fileNames := []
  arch := arch
  outlet := outlet

/-- Forgets the tallies, as between dispatches. -/
def clear (s : Session) : Session :=
  { s with global := s.global.clear, shared := s.shared.clear }

/-- The results so far. -/
def results (s : Session) (kernelsFound : Option Nat) : Results where
  kernel := s.kernel
  verbose := s.verbose
  arch := s.arch
  global := s.global
  shared := s.shared
  kernelsFound := kernelsFound

/-! ## File names by hash -/

/-- Files a name under a hash, in place of the name that was there. -/
def putName (hash : UInt64) (name : String) : List (UInt64 × String) → List (UInt64 × String)
  | [] => [(hash, name)]
  | entry :: rest =>
    if entry.1 = hash then (hash, name) :: rest else entry :: putName hash name rest

/-- The source file filed under a hash. -/
def fileNameOf (s : Session) (hash : UInt64) : String :=
  (s.fileNames.lookup hash).getD unknownSourceFile

end Session

end WaveAccess
