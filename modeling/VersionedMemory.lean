import VersionedMemory.Program
import VersionedMemory.Script.Chains
import VersionedMemory.Script.Rules
import VersionedMemory.Script.Run
import VersionedMemory.Script.Timelines
import VersionedMemory.Proofs.Buffers
import VersionedMemory.Proofs.Publication
import VersionedMemory.Proofs.Scene
import VersionedMemory.Proofs.Anchors
import VersionedMemory.Proofs.RetainedHistory
import VersionedMemory.Proofs.EngineService
import VersionedMemory.Proofs.Snapshot
import VersionedMemory.Proofs.Replay
import VersionedMemory.Proofs.Logs
import VersionedMemory.Proofs.Validation
import VersionedMemory.Proofs.Commitments
import VersionedMemory.Proofs.Serializability
import VersionedMemory.Proofs.Adoption
import VersionedMemory.Proofs.Stacks
import VersionedMemory.Proofs.Footprint
import VersionedMemory.Proofs.Overlay
import VersionedMemory.Proofs.Tasks
import VersionedMemory.Proofs.FanOut
import VersionedMemory.Proofs.FailedBatches
import VersionedMemory.Proofs.Handles
import VersionedMemory.Proofs.HostInvariants
import VersionedMemory.Proofs.ProgramSteps
import VersionedMemory.Proofs.SideBySide
import VersionedMemory.Proofs.Clients
import VersionedMemory.Proofs.Tracing
import VersionedMemory.Proofs.ReadSets
import VersionedMemory.Proofs.Recording
import VersionedMemory.Proofs.Reruns
import VersionedMemory.Proofs.TraceFaithfulness
import VersionedMemory.Proofs.RunningAlone
import VersionedMemory.Proofs.ValidatedReads
import VersionedMemory.Proofs.Nesting
import VersionedMemory.Proofs.Accesses
import VersionedMemory.Proofs.Chronicle
import VersionedMemory.Proofs.ChronicleErasure
import VersionedMemory.Proofs.TypedBuffers
import VersionedMemory.Proofs.BufferContents
import VersionedMemory.Proofs.TransactionMoves
import VersionedMemory.Proofs.ChronicleInvariant
import VersionedMemory.Proofs.CommitOutcomes
import VersionedMemory.Proofs.FaithfulPrograms
import VersionedMemory.Proofs.CommitVerdicts
import VersionedMemory.Proofs.Accumulators
import VersionedMemory.Proofs.Compaction
import VersionedMemory.Proofs.LowWater
import VersionedMemory.Proofs.Turns
import VersionedMemory.Proofs.Listings
import VersionedMemory.Proofs.EngineInvariant
import VersionedMemory.Proofs.ExactFloor
import VersionedMemory.Proofs.FailedCommits
import VersionedMemory.Proofs.Accounting
import VersionedMemory.Proofs.Tokens
import VersionedMemory.Proofs.Refusals
import VersionedMemory.Proofs.ObserverLists
import VersionedMemory.Proofs.PassCounts
import VersionedMemory.Proofs.StrictReading
import VersionedMemory.Proofs.Reorderings
import VersionedMemory.Proofs.OrderFree
import VersionedMemory.Proofs.Retention
import VersionedMemory.Proofs.CounterBalance
import VersionedMemory.Proofs.Collapse
import VersionedMemory.Proofs.Rollback
import VersionedMemory.Proofs.ProgramTurns
import VersionedMemory.Proofs.Retries
import VersionedMemory.Proofs.AccumulatorReads
import VersionedMemory.Proofs.TransactionInvariants
import VersionedMemory.Proofs.ReachedContexts
import VersionedMemory.Proofs.AccumulatorResults
import VersionedMemory.Proofs.Handover
import VersionedMemory.Proofs.InlinePasses
import VersionedMemory.Proofs.CellCalls
import VersionedMemory.Proofs.Gathering
import VersionedMemory.Proofs.SharedTasks
