import Xqueue.Retirement
import Xqueue.Sequential
import Xqueue.Acknowledgement
import Xqueue.Provenance
import Xqueue.Resubmission
import Xqueue.PullKey
import Xqueue.Lease
import Xqueue.LostUpdate
import Xqueue.RetirementCauses
import Xqueue.FailedPull
import Xqueue.SameWork
import Xqueue.FileUrls
import Xqueue.OneChance
import Xqueue.BothLeases
import Xqueue.QueueLength
import Xqueue.ConcurrentResults
import Xqueue.RetireOld
import Xqueue.RetireLimit
import Xqueue.DeleteOld
import Xqueue.ReplyFormat
import Xqueue.RequestFormat
import Xqueue.WorkerMonitor
import Xqueue.QueueMetrics
import Xqueue.FileColumns
import Xqueue.Isolation
import Xqueue.Serializable
import Xqueue.Quiescence
import Xqueue.RowHistory
import Xqueue.GraderStubs
import Xqueue.Client
import Xqueue.Supervision
import Xqueue.Redelivery
import Xqueue.QueueIsolation
import Xqueue.Overtaking
