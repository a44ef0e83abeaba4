import WaveAccess.Json.Mismatch
import WaveAccess.Main
import WaveAccess.Proofs.Bank.EveryWord
import WaveAccess.Proofs.Report.Accumulation
import WaveAccess.Proofs.Session.Breakdown
import WaveAccess.Proofs.Session.GlobalTally
import WaveAccess.Proofs.Report.Readback
import WaveAccess.Proofs.Symbols.Findings
import WaveAccess.Proofs.Session.FileNames
import WaveAccess.Proofs.Session.SharedTally
import WaveAccess.Proofs.FileTree.Contents
import WaveAccess.Proofs.Tally.Permutation
import WaveAccess.Proofs.Report.Deliveries
import WaveAccess.Proofs.Session.MessageOrder
import WaveAccess.Proofs.Message.Layout
import WaveAccess.Proofs.Session.Refusals
import WaveAccess.Proofs.Report.Readings
import WaveAccess.Proofs.Report.Rebuilding
import WaveAccess.Proofs.Session.ExcessLines
import WaveAccess.Proofs.CacheLine.Bytes
import WaveAccess.Proofs.Message.Readback
import WaveAccess.Proofs.Session.Instructions
import WaveAccess.Proofs.Session.Clearing
import WaveAccess.Proofs.Bank.Acceptance
import WaveAccess.Proofs.Symbols.Candidates
import WaveAccess.Proofs.Session.FusedAccesses
import WaveAccess.Proofs.Tally.Histories
import WaveAccess.Proofs.Bank.Offsets
import WaveAccess.Proofs.Bank.Bounds
import WaveAccess.Proofs.Path.Resolution
import WaveAccess.Proofs.Report.SourceRuns
import WaveAccess.Proofs.FileTree.Creation
import WaveAccess.Proofs.FileTree.Atomicity
import WaveAccess.Proofs.Report.Listings
import WaveAccess.Proofs.Report.Failures
import WaveAccess.Proofs.Tally.Nesting
import WaveAccess.Proofs.Changes
import WaveAccess.Proofs.CacheLine.Growth
import WaveAccess.Proofs.Path.NormalForm
import WaveAccess.Proofs.Bank.Steps
import WaveAccess.Proofs.LaneMask
