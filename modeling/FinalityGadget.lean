import FinalityGadget.Config.Load
import FinalityGadget.Gadget
import FinalityGadget.Json.Records
import FinalityGadget.Metrics.Line
import FinalityGadget.RoundRobin
import FinalityGadget.Proofs.Codec
import FinalityGadget.Proofs.Ledger
import FinalityGadget.Proofs.Quorum
import FinalityGadget.Proofs.Height
import FinalityGadget.Proofs.Votes
import FinalityGadget.Proofs.Ballot
import FinalityGadget.Proofs.Round
import FinalityGadget.Proofs.Run
import FinalityGadget.Proofs.Tallies
import FinalityGadget.Proofs.Contradiction
import FinalityGadget.Proofs.ForkSafety
import FinalityGadget.Proofs.RetainedHeaders
import FinalityGadget.Proofs.HonestRuns
import FinalityGadget.Proofs.Reload
import FinalityGadget.Proofs.Turns
import FinalityGadget.Proofs.TurnRuns
import FinalityGadget.Proofs.BoundedHistory
import FinalityGadget.Proofs.Effects
import FinalityGadget.Proofs.Dependence
import FinalityGadget.Proofs.Interleaving
import FinalityGadget.Proofs.Restart
import FinalityGadget.Proofs.Advance
import FinalityGadget.Proofs.PrevotedHeight
import FinalityGadget.Proofs.PrevotedBounds
import FinalityGadget.Proofs.PrecommitBacking
import FinalityGadget.Proofs.Slot
import FinalityGadget.Proofs.ForkChoice
import FinalityGadget.Proofs.Overflow
import FinalityGadget.Proofs.Entries
import FinalityGadget.Proofs.FixedWidth
import FinalityGadget.Proofs.LedgerBytes
import FinalityGadget.Proofs.StorageHistory
import FinalityGadget.Proofs.JsonTree
import FinalityGadget.Proofs.Paths
import FinalityGadget.Proofs.ConfigTree
import FinalityGadget.Proofs.ConfigDump
import FinalityGadget.Proofs.JsonText
import FinalityGadget.Proofs.ConfigFile
import FinalityGadget.Proofs.Counting
import FinalityGadget.Proofs.ForgingHistory
import FinalityGadget.Proofs.DoubleForging
import FinalityGadget.Proofs.Verification
import FinalityGadget.Proofs.Replay
import FinalityGadget.Proofs.Compliance
import FinalityGadget.Proofs.TieBreak
import FinalityGadget.Proofs.Pruning
import FinalityGadget.Proofs.SelfDelimiting
import FinalityGadget.Proofs.RecordBytes
import FinalityGadget.Proofs.HighestHeaders
