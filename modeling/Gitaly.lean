import Gitaly.Praefect.CoordinatorPartition
import Gitaly.Datastore.QueueAcknowledge
import Gitaly.Datastore.QueueAddress
import Gitaly.Praefect.ReplicatorContent
import Gitaly.Praefect.Removal
import Gitaly.Praefect.ReconcilerConcurrency
import Gitaly.Praefect.DeletionSafety
import Gitaly.Middleware.ConcurrencyLimiter
import Gitaly.Safe.LockingFileWriter
import Gitaly.Datastore.StorageProvider
import Gitaly.Cache.InfoRefs
import Gitaly.Praefect.ProxyDelivery
import Gitaly.Git.Pktline
import Gitaly.Git.ConflictRoundTrip
import Gitaly.Git.CatfileReaders
import Gitaly.Git.DiffReports
import Gitaly.Praefect.TransactionStop
import Gitaly.Praefect.TransactionLedger
import Gitaly.Praefect.SubtransactionOrder
import Gitaly.Praefect.CoordinatorStrategy
import Gitaly.Praefect.CoordinatorErrors
import Gitaly.Praefect.ReplMgr
import Gitaly.Datastore.MemoryCompletion
import Gitaly.Git.UpdateRefLock
import Gitaly.Praefect.ValidPrimaries
import Gitaly.Praefect.AssignmentStore
import Gitaly.Praefect.ErrorTracker
import Gitaly.Praefect.RouterAccessor
import Gitaly.Praefect.SqlElector
import Gitaly.Praefect.TargetRepo
import Gitaly.Streamcache.PipeWakeup
import Gitaly.Streamcache.Cache
import Gitaly.Git.BatchCacheRuns
import Gitaly.Git.RawDiff
import Gitaly.Helper.Chunker
import Gitaly.Git.DiffQuoting
import Gitaly.Git.DiffTotals
import Gitaly.Commit.TreePages
import Gitaly.Git.Dirs
import Gitaly.Git.Housekeeping
import Gitaly.Operations.CommitFiles
import Gitaly.Backup.Pointer
import Gitaly.Supervisor.Watch
import Gitaly.Storage.Paths
