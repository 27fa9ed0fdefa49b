import Snapshot.LockedProgram
import Snapshot.CheckedFold
import Snapshot.OrderedMap
import Snapshot.Interleaving
import Snapshot.GuardedSection
import Snapshot.VersionedServer
import Snapshot.LexicalPath
import Snapshot.Utf8
import Snapshot.ByteText
import Snapshot.FieldFrames
import Snapshot.PagedListing
import Snapshot.FileTree
import Snapshot.ApiObjects
import Snapshot.MaintenanceQueue
import Snapshot.MaintenanceSafety
import Snapshot.PodSnapshotReconciler
import Snapshot.PodSnapshotSystem
import Snapshot.PodSnapshotDeletion
import Snapshot.SnapshotJobReconciler
import Snapshot.SnapshotJobSystem
import Snapshot.SnapshotJobSafety
import Snapshot.SnapshotJobOutcome
import Snapshot.SnapshotJobStatus
import Snapshot.CallProtocol
import Snapshot.KeyedLocker
import Snapshot.MaintenanceLocks
import Snapshot.NriReports
import Snapshot.AgentCapture
import Snapshot.AgentCaptureExclusion
import Snapshot.AgentCaptureOutcome
import Snapshot.AgentRestore
import Snapshot.AgentRestoreOnce
import Snapshot.RootfsDeletions
import Snapshot.RootfsDeletionsExact
import Snapshot.CuInterposeProtocol
import Snapshot.CuInterposeDriver
import Snapshot.CoordinatorTopology
import Snapshot.CoordinatorTopologySpec
import Snapshot.CoordinatorTopologyAccept
import Snapshot.CoordinatorPlan
import Snapshot.CoordinatorState
import Snapshot.MessagePack
import Snapshot.MessagePackCodec
import Snapshot.CuInterposeWire
import Snapshot.CoordinatorPublication
import Snapshot.StorageIdentity
import Snapshot.S3Layout
import Snapshot.S3Maintenance
import Snapshot.StoreIdentity
import Snapshot.GpuDiscovery
import Snapshot.GpuPositions
import Snapshot.RootfsWhiteouts
import Snapshot.ErrorTree
import Snapshot.CaptureErrors
import Snapshot.CaptureFailure
import Snapshot.ExecutorCheckpoint
import Snapshot.ExecutorCheckpointCleanup
import Snapshot.PageBrokerAdmission
import Snapshot.RestoreConf
import Snapshot.GpuArtifact
import Snapshot.CheckpointIndex
import Snapshot.CheckpointTree
import Snapshot.CheckpointTransport
import Snapshot.RestoreBatches
import Snapshot.ObservedProgram
import Snapshot.QueueWalk
import Snapshot.ProcessRemap
import Snapshot.CheckpointReadiness
import Snapshot.NonTargetSweep
import Snapshot.CoordinationLock
import Snapshot.CancellationScopes
import Snapshot.ManifestText
import Snapshot.RootfsKept
import Snapshot.StreamerWorker
import Snapshot.InterposeContext
import Snapshot.InterposeExports
import Snapshot.ProcessOutput
