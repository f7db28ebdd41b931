import PegaFlow.Lib.Run
import PegaFlow.Lib.Table
import PegaFlow.Lib.Text
import PegaFlow.Lib.Range
import PegaFlow.Lib.CircularLog
import PegaFlow.Block
import PegaFlow.Common.HllTracker
import PegaFlow.Ssd.Ring
import PegaFlow.Ssd.RingInvariant
import PegaFlow.Ssd.Writer
import PegaFlow.Ssd.BlockWrite
import PegaFlow.Ssd.Overlap
import PegaFlow.Ssd.Pruning
import PegaFlow.Ssd.Persist
import PegaFlow.Connector.SaveWorker
import PegaFlow.Connector.SaveSafety
import PegaFlow.Connector.SaveLoop
import PegaFlow.Connector.SaveAccounting
import PegaFlow.Connector.ForwardPass
import PegaFlow.Connector.LoadCompletion
import PegaFlow.Connector.LoadSafety
import PegaFlow.Connector.Scheduler
import PegaFlow.Connector.SaveIntents
import PegaFlow.Storage.Lease
import PegaFlow.Storage.LeaseClock
import PegaFlow.Storage.Prefetch
import PegaFlow.Storage.QueryIsolation
import PegaFlow.Storage.PrefetchTask
import PegaFlow.Storage.PrefetchShape
import PegaFlow.Storage.PrefetchBudget
import PegaFlow.Storage.WritePath
import PegaFlow.Storage.InsertWorker
import PegaFlow.Storage.ReadCache
import PegaFlow.Storage.PinnedPool
import PegaFlow.Storage.Reclaim
import PegaFlow.Storage.Worker
import PegaFlow.Storage.WorkerContent
import PegaFlow.Storage.MetaServer
import PegaFlow.Storage.Advertise
import PegaFlow.Storage.WorkerDelivery
import PegaFlow.Storage.Flush
import PegaFlow.Storage.FlushBarrier
import PegaFlow.MetaServer.Store
import PegaFlow.MetaServer.Sessions
import PegaFlow.MetaServer.PrefixQuery
import PegaFlow.Connector.QueryProbe
import PegaFlow.Connector.QueryIdentity
import PegaFlow.Connector.SchedulerConnector
import PegaFlow.Connector.LeaseOwnership
import PegaFlow.Lib.Copy
import PegaFlow.Lib.Packing
import PegaFlow.Lib.Loop
import PegaFlow.Lib.Claims
import PegaFlow.Lib.Pairing
import PegaFlow.Lib.Tiles
import PegaFlow.Pd.Handshake
import PegaFlow.Pd.BlockMap
import PegaFlow.Pd.LayerPush
import PegaFlow.Pd.PushCompleteness
import PegaFlow.Pd.PushTasks
import PegaFlow.Pd.WriteWindow
import PegaFlow.Pd.PushDone
import PegaFlow.Pd.HeadMapping
import PegaFlow.Pd.HeadPlan
import PegaFlow.Pd.TpMapping
import PegaFlow.Engine.Layout
import PegaFlow.Engine.Geometry
import PegaFlow.Engine.Topology
import PegaFlow.Engine.Instance
import PegaFlow.Engine.SealOrder
import PegaFlow.Engine.Registration
import PegaFlow.Engine.Memcpy
import PegaFlow.Engine.Transfer
import PegaFlow.Engine.Load
import PegaFlow.Engine.Offload
import PegaFlow.Engine.SavePlan
import PegaFlow.Engine.PagePlan
import PegaFlow.Engine.SaveMachine
import PegaFlow.Engine.RoundTrip
import PegaFlow.Server.Registry
import PegaFlow.Server.Service
import PegaFlow.Server.SessionCleanup
import PegaFlow.Server.DeviceMappings
import PegaFlow.Rdma.Backend
import PegaFlow.Rdma.Handshakes
import PegaFlow.Rdma.Identity
import PegaFlow.Rdma.PendingSessions
import PegaFlow.Rdma.RemoteFetch
import PegaFlow.Rdma.ReadLifetime
import PegaFlow.Pd.DecodeWait
import PegaFlow.Pd.ImmIds
import PegaFlow.Pd.DecodeWaiter
import PegaFlow.Pd.PrefillHandler
import PegaFlow.Pd.SingleSignal
import PegaFlow.Pd.SignalPromise
import PegaFlow.Pd.WaitEnds
import PegaFlow.Pd.Wire
import PegaFlow.Pd.Transfers
import PegaFlow.Pd.BlockRelease
