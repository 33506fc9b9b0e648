import Velocity.Core.Chain
import Velocity.Wal.Rotation
import Velocity.Services.QueryExecution
import Velocity.Services.QuotedValues
import Velocity.Services.ConflictResolution
import Velocity.Services.Raft
import Velocity.Services.Schedules
import Velocity.Services.LruCache
import Velocity.Services.LeaseLocks
import Velocity.Services.RateLimiter
import Velocity.Services.ConcurrencyLimiter
import Velocity.Services.ColdStorage
import Velocity.Services.CompactionRanges
import Velocity.Services.Matching
import Velocity.Services.CircuitBreaker
import Velocity.Services.HashRing
import Velocity.Services.EventApplier
import Velocity.Services.WorkflowReset
import Velocity.Services.ApplyReplay
import Velocity.Services.DependencyOrder
import Velocity.Engine.Durability
import Velocity.Engine.PayloadRecovery
import Velocity.Engine.SignalRecovery
import Velocity.Engine.RestartRecovery
import Velocity.Engine.JournalMerge
import Velocity.Engine.Closed
import Velocity.Engine.Integrity
import Velocity.Engine.StepAgreement
import Velocity.Engine.ResumePointer
import Velocity.Engine.RunIds
import Velocity.Engine.HistoryReplay
import Velocity.Engine.ReplicationSources
import Velocity.Engine.CronFires
import Velocity.Engine.ActivityRetry
import Velocity.Engine.SelfHeal
import Velocity.Tasks.Priority
import Velocity.Tasks.Blocking
import Velocity.Embedded.Restart
import Velocity.Embedded.State
import Velocity.Embedded.Independence
import Velocity.Wal.Corruption
import Velocity.Vctp.ReplayWindow
import Velocity.Vctp.Retransmit
import Velocity.Vctp.Transport
import Velocity.Vctp.ReorderDiscipline
import Velocity.Vctp.Admission
import Velocity.Vctp.SignalWithStart
import Velocity.Nmcp.Router
import Velocity.Nmcp.ShmemRun
import Velocity.Crdt.Counter
import Velocity.Crdt.Convergence
import Velocity.Crdt.ObservedRemove
import Velocity.Saga.Compensation
import Velocity.Objects.SingleWriter
import Velocity.Objects.KeyIsolation
import Velocity.Objects.Idempotency
import Velocity.Search.LikeMatch
import Velocity.Search.RoundTrip
