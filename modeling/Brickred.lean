import Brickred.RankSet.Model
import Brickred.RankSet.Rep
import Brickred.RankSet.Insert
import Brickred.Lib.SortedList
import Brickred.RankSet.Query
import Brickred.RankSet.Erase
import Brickred.RankSet.EraseNode
import Brickred.RankSet.Copy
import Brickred.RankSet.World
import Brickred.RankSet.Interface
import Brickred.RankSet.Refinement
import Brickred.RankSet.Iteration
import Brickred.Lib.BinaryHeap
import Brickred.Timer.Timestamp
import Brickred.Timer.HeapOps
import Brickred.Timer.Invariant
import Brickred.Timer.Runs
import Brickred.Timer.Termination
import Brickred.Buffer.DynamicBuffer
import Brickred.Buffer.Queue
import Brickred.Buffer.Growth
import Brickred.Buffer.Integers
import Brickred.Lib.Incremental
import Brickred.Lib.SortedMap
import Brickred.Protocol.HttpDelivery
import Brickred.Protocol.HttpWire
import Brickred.Protocol.HttpAwait
import Brickred.Protocol.HttpHeaders
import Brickred.Protocol.HttpCalls
import Brickred.Codec.Sha1
import Brickred.Codec.Base64
import Brickred.Codec.Base64Decode
import Brickred.Protocol.WebSocketParse
import Brickred.Protocol.WebSocketReader
import Brickred.Protocol.WebSocketFeed
import Brickred.Protocol.WebSocketFrame
import Brickred.Protocol.WebSocketAccept
import Brickred.Lib.Transition
import Brickred.Protocol.WebSocketSend
import Brickred.Protocol.WebSocketSession
import Brickred.Protocol.WebSocketClient
import Brickred.Protocol.WebSocketHandshake
import Brickred.Protocol.WebSocketClose
import Brickred.Protocol.WebSocketService
import Brickred.Protocol.WebSocketBounds
import Brickred.Protocol.WebSocketPair
import Brickred.Protocol.WebSocketPeer
import Brickred.Protocol.WebSocketExchange
import Brickred.Protocol.WebSocketReassembly
import Brickred.Protocol.WebSocketPong
import Brickred.Timer.Lookup
import Brickred.Service.TcpService
import Brickred.Lib.Outcome
import Brickred.Service.Table
import Brickred.Service.Moves
import Brickred.Service.Good
import Brickred.Service.Sending
import Brickred.Service.Handlers
import Brickred.Service.Steps
import Brickred.Service.Callbacks
import Brickred.Service.Closing
import Brickred.Service.Traffic
import Brickred.Service.Messages
import Brickred.Service.Connections
import Brickred.Service.Identity
import Brickred.Service.Maps
import Brickred.Lib.Monitor
import Brickred.Thread.ConcurrentQueue
import Brickred.Thread.MessageQueue
import Brickred.Thread.LogAsyncSink
import Brickred.Thread.LogDelivery
import Brickred.Timer.Lifetime
import Brickred.Loop.IOService
import Brickred.Loop.Dispatch
import Brickred.Loop.Delivery
import Brickred.Timer.CatchUp
import Brickred.Timer.Deadlines
import Brickred.Loop.Timeout
import Brickred.Service.Receiving
import Brickred.Protocol.HttpPrinting
import Brickred.Protocol.HttpChunkHeads
import Brickred.Protocol.HttpSized
import Brickred.Protocol.HttpChunked
import Brickred.Protocol.HttpRewrite
import Brickred.Lib.BlockFold
import Brickred.Codec.BlockHash
import Brickred.Codec.Md5
import Brickred.Codec.Sha256
import Brickred.Codec.Digests
import Brickred.Codec.Url
import Brickred.Log.LogFileSink
import Brickred.Text.Split
import Brickred.Text.CommandLineOption
import Brickred.Protocol.HeaderMap
import Brickred.Codec.Mt19937
import Brickred.Thread.Thread
import Brickred.Lib.ShiftRegister
import Brickred.Codec.Mt19937Words
import Brickred.Thread.SignalQueue
import Brickred.Log.LogCore
import Brickred.Log.SinkOwnership
import Brickred.Log.SinkTexts
import Brickred.RankSet.Leaks
import Brickred.Service.Buffers
import Brickred.Service.ReadBuffers
import Brickred.Service.WriteBuffers
import Brickred.Service.EchoServer
import Brickred.Lib.Machine
import Brickred.Net.SocketAddress
import Brickred.Net.AddressViews
import Brickred.Net.Sockets
import Brickred.Net.Places
import Brickred.Net.EpollSets
import Brickred.Net.Descriptors
import Brickred.Net.Losses
