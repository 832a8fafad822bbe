import Malkuth.LeaseExclusion
import Malkuth.ApprovalHistory
import Malkuth.SupervisePolicy
import Malkuth.SuperviseDrain
import Malkuth.SuperviseBudget
import Malkuth.RestartAcceptance
import Malkuth.RestartSignal
import Malkuth.RestartRefusal
import Malkuth.RestartWhileDraining
import Malkuth.ServerWorker
import Malkuth.DrainCalls
import Malkuth.LeaseOverwrite
import Malkuth.SupervisePublished
import Malkuth.Circle
import Malkuth.RoundRobin
import Malkuth.Proxy
import Malkuth.RingLaws
import Malkuth.StickyRouting
import Malkuth.Pool
import Malkuth.PodRestart
import Malkuth.PoolRing
import Malkuth.Pipeline
import Malkuth.RemoteChange
import Malkuth.SuperviseCounts
import Malkuth.PodDrain
import Malkuth.RollingRestart
import Malkuth.PodTurns
import Malkuth.Daemon
import Malkuth.DaemonReload
import Malkuth.DaemonLoop
import Malkuth.DrainThreads
import Malkuth.DrainKind
import Malkuth.Lines
import Malkuth.Codec
import Malkuth.ApprovalGate
import Malkuth.PgLock
import Malkuth.Service
import Malkuth.LockFile
import Malkuth.Process
import Malkuth.Singleton
import Malkuth.SingletonExclusion
import Malkuth.DaemonLock
import Malkuth.Leader
import Malkuth.LeaderTerm
import Malkuth.LeaseStanding
import Malkuth.LeaderRenewal
import Malkuth.Headers
import Malkuth.ServeDoor
import Malkuth.LandingPage
import Malkuth.Json
import Malkuth.JsonRpc
import Malkuth.FrameReader
import Malkuth.ServeConn
import Malkuth.RpcMatching
import Malkuth.ConnTask
import Malkuth.ApprovalPairs
import Malkuth.RestartBudget
import Malkuth.Newest
import Malkuth.RunRegistry
import Malkuth.LogRing
import Malkuth.LogPage
import Malkuth.DbBackup
import Malkuth.DbLabel
import Malkuth.DbDumps
import Malkuth.Watcher
import Malkuth.OneSignal
import Malkuth.BuildDiff
import Malkuth.BinaryPath
import Malkuth.PipelineJob
import Malkuth.PipelineBackoff
import Malkuth.Failover
import Malkuth.Buffered
import Malkuth.BackendResponse
import Malkuth.ResponseBytes
import Malkuth.ChunkedBody
import Malkuth.BodyBound
import Malkuth.PacketBoundaries
import Malkuth.PassThrough
import Malkuth.FamilyIdentity
import Malkuth.ForwardedRequest
import Malkuth.IdentityGrammar
import Malkuth.LeaseCadence
import Malkuth.LogLineCap
import Malkuth.SingletonEnds
import Malkuth.LogForward
import Malkuth.LogShedding
import Malkuth.InstanceRegistry
import Malkuth.Encoders
import Malkuth.LockPaths
import Malkuth.FileLock
import Malkuth.LeaseKeys
import Malkuth.DrainDeadline
import Malkuth.PickCalls
import Malkuth.UpgradeRequest
import Malkuth.LifecycleStatus
import Malkuth.BinaryMemo
import Malkuth.ProxyConn
import Malkuth.SupervisorRun
import Malkuth.LogsArm
import Malkuth.BackupRounds
import Malkuth.BuildLock
import Malkuth.ApprovalSpending
import Malkuth.StatusArm
import Malkuth.ClientPool
