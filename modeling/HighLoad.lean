import HighLoad.Lib.Transition
import HighLoad.Lib.Progress
import HighLoad.Lib.Parts
import HighLoad.Lib.Rewriting
import HighLoad.Lib.Loop
import HighLoad.Lib.Lines
import HighLoad.Lib.KeyedLog
import HighLoad.Lib.Expiry
import HighLoad.Lib.Words
import HighLoad.Lib.Bytes
import HighLoad.Lib.HttpMessage
import HighLoad.Lib.Grid
import HighLoad.Lib.Convolution
import HighLoad.ShardedCache.Shard
import HighLoad.ShardedCache.Invariant
import HighLoad.ShardedCache.Shutdown
import HighLoad.ShardedCache.Wakeup
import HighLoad.ShardedCache.Drain
import HighLoad.ShardedCache.Cache
import HighLoad.ShardedCache.ReadYourWrites
import HighLoad.ShardedCache.Reads
import HighLoad.ThreadPool.Pool
import HighLoad.ThreadPool.Shutdown
import HighLoad.ThreadPool.Drain
import HighLoad.Http.Parser
import HighLoad.Http.Cache
import HighLoad.Http.CacheLog
import HighLoad.Http.Workers
import HighLoad.Http.Framing
import HighLoad.Http.RequestLine
import HighLoad.Http.Client
import HighLoad.Http.SendLoop
import HighLoad.Http.EventLoop
import HighLoad.Http.Service
import HighLoad.Http.Served
import HighLoad.Http.Settling
import HighLoad.Messenger.Server
import HighLoad.Messenger.Members
import HighLoad.Messenger.Broadcast
import HighLoad.Messenger.Streams
import HighLoad.Messenger.Network
import HighLoad.Messenger.Delivery
import HighLoad.Account.Database
import HighLoad.Account.Session
import HighLoad.Account.LoginRace
import HighLoad.Account.Logout
import HighLoad.Account.Register
import HighLoad.Account.Authorisation
import HighLoad.Account.Errors
import HighLoad.MetroMaps.QueryResult
import HighLoad.MetroMaps.PostgreSQL
import HighLoad.MetroMaps.Polling
import HighLoad.ImageProcessor.Image
import HighLoad.ImageProcessor.Stream
import HighLoad.ImageProcessor.Reader
import HighLoad.ImageProcessor.FilePositions
import HighLoad.ImageProcessor.Writer
import HighLoad.ImageProcessor.RoundTrip
import HighLoad.ImageProcessor.RowArithmetic
import HighLoad.ImageProcessor.BufferShape
import HighLoad.ImageProcessor.Multiply
import HighLoad.ImageProcessor.Neighbours
import HighLoad.ImageProcessor.Transposition
import HighLoad.ImageProcessor.Flips
import HighLoad.ImageProcessor.Libm
import HighLoad.ImageProcessor.Filters
import HighLoad.ImageProcessor.Effects
import HighLoad.ImageProcessor.Fabrics
import HighLoad.ImageProcessor.Pipeline
import HighLoad.ImageProcessor.Pixels
import HighLoad.ImageProcessor.Statics
import HighLoad.ImageProcessor.Failure
import HighLoad.ImageProcessor.NormalForm
import HighLoad.ImageProcessor.CropSize
import HighLoad.ImageProcessor.FileSize
import HighLoad.ImageProcessor.Kernel
import HighLoad.ImageProcessor.Separable
import HighLoad.ImageProcessor.Tunnel
import HighLoad.ImageProcessor.Locality
import HighLoad.ImageProcessor.Parser
import HighLoad.ImageProcessor.CommandLine
import HighLoad.ImageProcessor.Numerals
import HighLoad.ImageProcessor.Operands
import HighLoad.ImageProcessor.WriteFailure
import HighLoad.ImageProcessor.Program
import HighLoad.ImageProcessor.Pictures
import HighLoad.ImageProcessor.Chaining
import HighLoad.ImageProcessor.Passing
import HighLoad.ImageProcessor.Exchange
