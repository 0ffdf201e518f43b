import Lmao.Machine
import Lmao.Greedy
import Lmao.Bytes
import Lmao.Bloom
import Lmao.SdsMessage
import Lmao.Channel
import Lmao.ChannelSpecs
import Lmao.ChannelRuns
import Lmao.ExactlyOnce
import Lmao.Convergence
import Lmao.Suppression
import Lmao.BloomReset
import Lmao.Base64
import Lmao.Crypto
import Lmao.Task
import Lmao.Node
import Lmao.Poll
import Lmao.Stranded
import Lmao.RemotePanic
import Lmao.AckRepair
import Lmao.BatchIsolation
import Lmao.TaskCompleteness
import Lmao.TrustRequests
import Lmao.TrustFrontEnds
import Lmao.PaymentGate
import Lmao.TrustRaces
import Lmao.PaymentReplay
import Lmao.Delegation
import Lmao.DelegationLaws
import Lmao.TrustEnforcement
import Lmao.Agent
import Lmao.Consumers
import Lmao.ResponseLoops
import Lmao.JsonReading
import Lmao.Offload
import Lmao.StableSort
import Lmao.Streaming
import Lmao.Frame
import Lmao.History
import Lmao.DelegationHistory
import Lmao.OutgoingBuffer
import Lmao.ImplicitAcks
import Lmao.Repair
import Lmao.SdsReading
import Lmao.SyncShadows
import Lmao.Clock
import Lmao.Bounds
import Lmao.Sessions
import Lmao.StorageTransfers
import Lmao.DelegateRequests
import Lmao.ReliableSend
import Lmao.HexNumbers
import Lmao.StatusNetwork
import Lmao.PaymentLogs
import Lmao.PresenceSigning
import Lmao.PresencePoll
import Lmao.TextPreviews
import Lmao.SealedLoads
import Lmao.BloomCodec
import Lmao.CodexCid
import Lmao.NwakuBase64
import Lmao.RetryLayer
import Lmao.TrustMerge
import Lmao.HandBuiltJson
import Lmao.StorageModule
import Lmao.StreamFollow
import Lmao.BloomOccupancy
import Lmao.Gregorian
import Lmao.LoadAccounting
import Lmao.UnixTime
import Lmao.MemoryTransport
import Lmao.CallFutures
import Lmao.DeliveryModule
import Lmao.Discovery
import Lmao.LogosCore
import Lmao.DaemonIpc
import Lmao.FirstOccurrences
import Lmao.GroupedLists
import Lmao.KeyFiles
import Lmao.McpBridge
import Lmao.NwakuPolling
import Lmao.PeerEviction
import Lmao.TaskThreads
