import Galay.Http.ChunkEncoding
import Galay.Http.RangeCoverage
import Galay.Http.RequestFraming
import Galay.Http.RequestRoundTrip
import Galay.Http.ResponseHeaderBlocks
import Galay.Http.RouterCorrect
import Galay.Http2.FlowControl
import Galay.Http2.FrameBatch
import Galay.Http2.FrameDispatcher
import Galay.Http2.HeaderBlocks
import Galay.Http2.Hpack.HuffmanCodec
import Galay.Http2.Hpack.RequestTarget
import Galay.Http2.Hpack.TableFifo
import Galay.Http2.Outbound.BytesAgreement
import Galay.Http2.Outbound.ConnectionCore
import Galay.Http2.Outbound.Conservation
import Galay.Http2.Replenish
import Galay.Http2.StreamQueue
import Galay.Kernel.AsyncMutexOwnership
import Galay.Kernel.AsyncMutexStranding
import Galay.Kernel.AsyncWaiterOnce
import Galay.Kernel.BoundedChannel
import Galay.Kernel.DeferredOrder
import Galay.Kernel.EpollRuns
import Galay.Kernel.ReadyPassBound
import Galay.Kernel.TimeoutArbitration
import Galay.Kernel.TimerPunctuality
import Galay.Kernel.WakeCoverage
import Galay.Mongo.OpMsg
import Galay.Mysql.Framing
import Galay.Postgres.Authenticated
import Galay.Postgres.Conversation
import Galay.Redis.ClusterSlots
import Galay.Redis.CommandRoundTrip
import Galay.Rpc.Cancellation
import Galay.Rpc.ConnectionPoolRuns
import Galay.Rpc.GovernanceAccounting
import Galay.Rpc.MetadataLimits
import Galay.Rpc.StreamReaderRuns
import Galay.Utils.Base64Codec
import Galay.Utils.HalfOpenLaw
import Galay.Utils.Huffman
import Galay.Utils.LruRun
import Galay.Utils.MvccIsolation
import Galay.Utils.RingBackends
import Galay.Utils.RingIntegrity
import Galay.Utils.SlidingWindow
import Galay.Utils.SmoothWeights
import Galay.Utils.TomlRoundTrip
import Galay.Utils.Trie
import Galay.Utils.TypeRingFifo
import Galay.Ws.SessionRun
import Galay.Ws.Utf8
