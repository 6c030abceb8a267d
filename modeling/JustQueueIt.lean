import JustQueueIt.ServerPlan
import JustQueueIt.TaskJson
import JustQueueIt.ErrorAnswers
import JustQueueIt.SessionReplies
import JustQueueIt.TaskIds
import JustQueueIt.RouteOrder
import JustQueueIt.OwnAnswers
import JustQueueIt.HttpHead
import JustQueueIt.ServerShutdown
import JustQueueIt.PathValues
import JustQueueIt.PathGroups
import JustQueueIt.Registrations
import JustQueueIt.StorageLaws
import JustQueueIt.QueryLoop
import JustQueueIt.WireFraming
import JustQueueIt.ApiReference
import JustQueueIt.PostedTasks
import JustQueueIt.NetworkOrder
import JustQueueIt.ConcurrentClients
import JustQueueIt.StorageThreads
import JustQueueIt.LockedProgress
import JustQueueIt.BackendMain
import JustQueueIt.PathScan
import JustQueueIt.PathCaptures
import JustQueueIt.Retries
