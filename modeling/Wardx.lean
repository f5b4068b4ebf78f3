import Wardx.Lib.Check
import Wardx.Lib.Table
import Wardx.Lib.KeyedMerge
import Wardx.Lib.Action
import Wardx.Control.Decision
import Wardx.Control.ControlStateChange
import Wardx.Control.ValidateExperiment
import Wardx.Control.ProjectState
import Wardx.Control.ExperimentDecision
import Wardx.Control.MutationJournal
import Wardx.Storage.ExperimentLedger
import Wardx.Storage.HistoryStore
import Wardx.Storage.LedgerBatch
import Wardx.Json
import Wardx.Aggregation.HyperLogLog
import Wardx.Aggregation.HistoryBucket
import Wardx.Ingest.Envelope
import Wardx.Aggregation.HistoryAccumulator
import Wardx.Aggregation.HistoryCompaction
import Wardx.Lib.Run
import Wardx.Lib.DayMask
import Wardx.Lib.FirstTouch
import Wardx.Storage.RetentionLedger
import Wardx.Storage.RetentionSpec
import Wardx.Storage.RetentionHistory
import Wardx.Storage.ChannelCap
import Wardx.Ingest.ExperimentEvents
import Wardx.Control.ControlService
import Wardx.Control.StoredExperiments
import Wardx.Control.ServiceSpec
import Wardx.Control.ControlRun
import Wardx.Control.ControlEffects
import Wardx.Control.TerminalDecisions
import Wardx.Lib.Memo
import Wardx.Config.ConfigRules
import Wardx.Config.ConfigRepository
import Wardx.Config.ConfigSync
import Wardx.Control.Published
import Wardx.Core.ExperimentResolver
import Wardx.Config.ConfigContract
import Wardx.Control.Performed
import Wardx.Control.JournalIntegrity
import Wardx.Control.ReservedRows
import Wardx.Config.RoleIsolation
import Wardx.Control.RetainedChanges
import Wardx.Control.ExperimentOrder
import Wardx.Control.RollbackRestores
import Wardx.Control.PersistLogs
import Wardx.Core.SubjectState
import Wardx.Core.Exposure
import Wardx.Core.GoalAttribution
import Wardx.Core.GoalMetric
import Wardx.Lib.NextFit
import Wardx.Frames.FrameBuilder
import Wardx.Frames.FrameSplit
import Wardx.Frames.ClientSplitters
import Wardx.Frames.Envelopes
import Wardx.Aggregation.SketchText
import Wardx.Ingest.ValidateMetrics
import Wardx.Core.MetricsRegistry
import Wardx.Core.AdmittedMetrics
import Wardx.Core.SnapshotRows
import Wardx.Aggregation.FrameAggregator
import Wardx.Aggregation.Completeness
import Wardx.Lib.MergeTotals
import Wardx.Aggregation.SeriesAlgebra
import Wardx.Aggregation.FrameOrder
import Wardx.Aggregation.CompactionExact
import Wardx.Lib.BoundedHeap
import Wardx.Aggregation.RankOutcomes
import Wardx.Lib.Pieces
import Wardx.JsonText
import Wardx.Aggregation.SeriesIdentity
import Wardx.Lib.TableTotal
import Wardx.JsonBytes
import Wardx.Aggregation.HistoryBytes
import Wardx.Core.Sketch
import Wardx.Aggregation.SketchUnion
import Wardx.Clients.FrameWindows
import Wardx.Capacity.ConcurrencyGate
import Wardx.Lib.Debounce
import Wardx.Ops.ReadinessMonitor
import Wardx.Lib.TopSelection
import Wardx.Core.LogBuffer
import Wardx.Lib.RingBuffer
import Wardx.Events.RecentEvents
import Wardx.Control.HolmCorrection
import Wardx.Lib.Thresholds
import Wardx.Core.VariantSplit
import Wardx.Storage.RetentionCapacity
import Wardx.Lib.Relation
import Wardx.Storage.RetentionQuery
import Wardx.Storage.ChannelSplit
import Wardx.Aggregation.MergedHistogram
import Wardx.Core.MeasurementWindows
import Wardx.Lib.XxHash64
import Wardx.Clients.XxHash64
import Wardx.Clients.RankAfterIndex
import Wardx.Lib.Arrivals
import Wardx.Clients.BoundedSubjects
import Wardx.Clients.SnapshotSequence
import Wardx.Lib.JsonGrammar
import Wardx.Lib.Binary64
import Wardx.Clients.CSharpJson
import Wardx.Clients.JsonAcceptance
import Wardx.Clients.JsonRoundTrip
import Wardx.Lib.SubjectLog
import Wardx.Control.EvidenceLog
import Wardx.Lib.Recency
import Wardx.Projects.Project
import Wardx.Lib.Lockstep
import Wardx.Storage.SameEvidence
import Wardx.Ingest.IngestPipeline
import Wardx.Ingest.ValidateEnvelope
import Wardx.Lib.Readings
import Wardx.Ingest.AcceptedEnvelopes
import Wardx.Auth.CredentialRegistry
import Wardx.Ingest.SyncHandler
import Wardx.Ingest.RefusedRequests
import Wardx.Ingest.AcceptedViews
import Wardx.Storage.ProjectRows
import Wardx.Ingest.ProjectIsolation
import Wardx.Ingest.Provenance
import Wardx.Ingest.InternalErrors
import Wardx.Lib.Progress
import Wardx.Control.PersistenceCoordinator
import Wardx.Control.PersistenceProgress
