import ShimService.Library.Transition
import ShimService.Library.CondTable
import ShimService.Library.Text
import ShimService.Library.TextOrder
import ShimService.Library.Base64
import ShimService.Library.Expression
import ShimService.Library.ItemUpdate
import ShimService.Library.PyValue
import ShimService.Library.Chunks
import ShimService.Library.Program
import ShimService.Library.Execution
import ShimService.Library.OrderedDict
import ShimService.Library.Percent
import ShimService.Library.Runs
import ShimService.Library.Heap
import ShimService.Library.Folds
import ShimService.Library.Fields
import ShimService.Library.Once
import ShimService.Library.RLock
import ShimService.Bean.BeanImpl
import ShimService.Bean.BeanSteps
import ShimService.Bean.StepKeeps
import ShimService.Bean.Initialized
import ShimService.Bean.Faults
import ShimService.Bean.NoDeadlock
import ShimService.Bean.BeanName
import ShimService.Bean.Handlers
import ShimService.Lambda.AppHandler
import ShimService.Lambda.Invoker
import ShimService.Lambda.Relay
import ShimService.Repo
import ShimService.Time.NextMinute
import ShimService.Collections.Partition
import ShimService.Collections.BufferedList
import ShimService.Collections.FlatIterator
import ShimService.Cache.TtlCache
import ShimService.Cache.EvictionOrder
import ShimService.Cache.ConcurrentTtlCache
import ShimService.Cache.LastStored
import ShimService.Cache.BoundedMap
import ShimService.Cache.SharedCache
import ShimService.Cache.SharedSteps
import ShimService.Cache.SharedKept
import ShimService.Cache.SharedRuns
import ShimService.Cache.SharedSound
import ShimService.Cache.SharedEvictions
import ShimService.Keys.CompoundKey
import ShimService.Keys.Repositories
import ShimService.Keys.RoundTrip
import ShimService.Keys.Agreement
import ShimService.Keys.DueRange
import ShimService.Dynamo.UpdateItem
import ShimService.Dynamo.SameUpdate
import ShimService.Dynamo.BatchGet
import ShimService.Dynamo.BatchRounds
import ShimService.Dynamo.InRequestOrder
import ShimService.Dynamo.AttributeValue
import ShimService.Dynamo.BatchWrite
import ShimService.Sequence.Execute
import ShimService.Sequence.Unique
import ShimService.Sequence.ExecuteWithEvent
import ShimService.Sequence.Conflict
import ShimService.Sequence.ExecuteWithEvents
import ShimService.ResourceLock.TryAcquire
import ShimService.ResourceLock.MutualExclusion
import ShimService.ResourceLock.AutoRefresh
import ShimService.ResourceLock.StopsAtRelease
import ShimService.Threading.AsyncProcessorGroup
import ShimService.Threading.GroupSteps
import ShimService.Threading.EachOnce
import ShimService.Threading.JoinReturns
import ShimService.Threading.Supplier
import ShimService.Threading.SupplierOnce
import ShimService.Threading.Throttler
import ShimService.Threading.ThrottlerSteps
import ShimService.Threading.NoneDropped
import ShimService.Threading.SignalEvent
import ShimService.Threading.SignalSteps
import ShimService.Threading.SoleWaiter
import ShimService.Threading.OnePerNotify
import ShimService.Paging.ResultSet
import ShimService.Paging.ReadOnce
import ShimService.Paging.CountOnly
import ShimService.Paging.AllPages
import ShimService.Poll.PollingGroup
import ShimService.Poll.Slots
import ShimService.Poll.Collect
import ShimService.Auth.Signing
import ShimService.Auth.Accepted
import ShimService.Auth.Unambiguous
import ShimService.Web.Parameters
import ShimService.Web.InvokeApi
import ShimService.Web.PathUtils
import ShimService.Web.PathMatching
import ShimService.Web.JoinPaths
import ShimService.Web.Router
import ShimService.Web.RouteTable
import ShimService.Session.Session
import ShimService.Session.Store
import ShimService.Session.Complete
import ShimService.Session.Locking
import ShimService.Session.Manager
import ShimService.Session.Owner
import ShimService.Session.OneLive
import ShimService.Session.Pending
import ShimService.Session.Expiry
import ShimService.Session.Token
import ShimService.Session.Channels
import ShimService.Web.RequestBody
import ShimService.Web.BodyValues
import ShimService.Web.BodyAccepted
import ShimService.Session.CreateSession
import ShimService.Session.CreateRetries
import ShimService.LiveAgent.OmniChannelApi
import ShimService.LiveAgent.Sequencing
import ShimService.LiveAgent.WorkEvents
import ShimService.LiveAgent.WorkStored
import ShimService.LiveAgent.WorkOwner
import ShimService.LiveAgent.PollerSettings
import ShimService.LiveAgent.Polling
import ShimService.LiveAgent.PollScheduling
import ShimService.Tenant.Poll
import ShimService.Tenant.Scheduled
import ShimService.Tenant.Context
import ShimService.Tenant.NoLostUpdate
import ShimService.Tenant.StaleDelete
import ShimService.TableListener.Processor
import ShimService.TableListener.DeletedContexts
import ShimService.PlatformEvent.Stream
import ShimService.PlatformEvent.Replay
import ShimService.PushNotification.Processor
import ShimService.PushNotification.Cursor
import ShimService.PushNotification.InOrder
import ShimService.PushNotification.NoLoss
import ShimService.PushNotification.Wakeups
import ShimService.PushNotification.Covered
import ShimService.PushNotification.NoneStranded
import ShimService.Cli.PollingEvent
import ShimService.Cli.SessionState
import ShimService.Cli.MessageFrame
import ShimService.Cli.DataBuffer
import ShimService.Cli.DartText
import ShimService.Cli.IniConfig
import ShimService.Cli.IniText
import ShimService.Cli.IniBuilt
import ShimService.Cli.IniRoundTrip
