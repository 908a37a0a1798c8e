import GenericBackground.Lib.Path
import GenericBackground.Lib.RowStore
import GenericBackground.Lib.WaitsFor
import GenericBackground.Lib.Scan
import GenericBackground.Lib.Dict
import GenericBackground.Lib.C3
import GenericBackground.Lib.Traced
import GenericBackground.Lib.Query
import GenericBackground.Lib.Batch
import GenericBackground.Lib.UniqueIndex
import GenericBackground.Lib.WriteBack
import GenericBackground.Lib.Forest
import GenericBackground.Lib.Traverse
import GenericBackground.Lib.StopWake
import GenericBackground.Lib.TextOrder
import GenericBackground.Lib.Joins
import GenericBackground.Lib.Drain
import GenericBackground.TaskQueue.Task
import GenericBackground.TaskQueue.Table
import GenericBackground.TaskQueue.Claim
import GenericBackground.TaskQueue.Waiting
import GenericBackground.TaskQueue.Reattempt
import GenericBackground.TaskQueue.Transactions
import GenericBackground.TaskQueue.System
import GenericBackground.TaskQueue.Fencing
import GenericBackground.TaskQueue.Ownership
import GenericBackground.TaskQueue.DroppedWrites
import GenericBackground.TaskQueue.Singleton
import GenericBackground.TaskQueue.Outcome
import GenericBackground.TaskQueue.StateMachine
import GenericBackground.TaskQueue.OwnerFields
import GenericBackground.TaskQueue.RetryBudget
import GenericBackground.TaskQueue.Recovery
import GenericBackground.TaskQueue.StaleWorkers
import GenericBackground.TaskQueue.LiveThread
import GenericBackground.TaskQueue.Supervisor
import GenericBackground.TaskQueue.Respawn
import GenericBackground.TaskQueue.Enqueue
import GenericBackground.TaskQueue.AutoRetry
import GenericBackground.TaskQueue.Cancellation
import GenericBackground.TaskQueue.RetrySchedule
import GenericBackground.TaskQueue.Vacuum
import GenericBackground.TaskQueue.LeastPrivilege
import GenericBackground.TaskQueue.ChildReports
import GenericBackground.TaskQueue.Timeouts
import GenericBackground.TaskQueue.MultiPhase
import GenericBackground.TaskQueue.PipelineResult
import GenericBackground.TaskQueue.PipelineProgress
import GenericBackground.TaskQueue.Progress
import GenericBackground.BackgroundService.Workers
import GenericBackground.TaskQueue.TypeRegistry
import GenericBackground.TaskQueue.TypeSync
import GenericBackground.TaskQueue.ParentDecision
import GenericBackground.TaskQueue.FailureHooks
import GenericBackground.TaskQueue.CompletedParents
import GenericBackground.TaskQueue.Rpc
import GenericBackground.TaskQueue.TaskSpecs
import GenericBackground.TaskQueue.SingleAndBatch
import GenericBackground.TaskQueue.ProtectedFields
import GenericBackground.TaskQueue.Confinement
import GenericBackground.BackgroundMigration.Migration
import GenericBackground.BackgroundMigration.System
import GenericBackground.BackgroundMigration.Change
import GenericBackground.BackgroundMigration.Steps
import GenericBackground.BackgroundMigration.Reachable
import GenericBackground.BackgroundMigration.Agreement
import GenericBackground.BackgroundMigration.OneShot
import GenericBackground.BackgroundMigration.Marked
import GenericBackground.BackgroundMigration.Discovery
import GenericBackground.TaskQueue.AttemptData
import GenericBackground.TaskQueue.BatchActions
import GenericBackground.TaskQueue.Slots
import GenericBackground.BackgroundService.Watchdog
import GenericBackground.BackgroundService.StopSignal
import GenericBackground.TaskQueue.TreeRecursion
import GenericBackground.TaskQueue.RowHistory
import GenericBackground.TaskQueue.Notifications
import GenericBackground.TaskQueue.IsCancelled
import GenericBackground.TaskQueue.Ledger
import GenericBackground.TaskQueue.Deadlocks
import GenericBackground.TaskQueue.Alone
import GenericBackground.TaskQueue.SkipLocked
import GenericBackground.TaskQueue.WorkOff
import GenericBackground.TaskQueue.ModelMethod
import GenericBackground.TaskQueue.Overtaking
import GenericBackground.BackgroundService.Prefork
import GenericBackground.BackgroundService.Shutdown
import GenericBackground.TaskQueue.ShutdownTimes
import GenericBackground.BackgroundService.Databases
import GenericBackground.BackgroundService.Container
