import MyselfServer.Stream
import MyselfServer.Text
import MyselfServer.Machine
import MyselfServer.HttpRequest
import MyselfServer.HttpParser
import MyselfServer.ParserChunks
import MyselfServer.ParserGrammar
import MyselfServer.Timestamp
import MyselfServer.TimerQueue
import MyselfServer.TimerLoop
import MyselfServer.TimerCancel
import MyselfServer.Server
import MyselfServer.Registry
import MyselfServer.ConnLimit
import MyselfServer.Channel
import MyselfServer.Socket
import MyselfServer.Acceptor
import MyselfServer.AcceptLoop
import MyselfServer.Prog
import MyselfServer.TcpConnection
import MyselfServer.WritePath
import MyselfServer.HandleWrite
import MyselfServer.WriteOrder
import MyselfServer.Frames
import MyselfServer.Flow
import MyselfServer.HttpResponse
import MyselfServer.Session
import MyselfServer.SessionFlow
import MyselfServer.ResponseOrder
import MyselfServer.Receiving
import MyselfServer.ReadPath
import MyselfServer.HalfClose
import MyselfServer.LogStream
import MyselfServer.AsyncLogging
import MyselfServer.Rounds
import MyselfServer.EventLoop
import MyselfServer.LoopQuit
import MyselfServer.Wakeup
import MyselfServer.HttpDate
import MyselfServer.Router
import MyselfServer.ZeroCopy
import MyselfServer.ReverseProxy
import MyselfServer.ProxyResponse
import MyselfServer.AcceptedRequest
import MyselfServer.ProxyRequest
import MyselfServer.ProxyRoundTrip
import MyselfServer.ShortFiles
import MyselfServer.Shutdown
import MyselfServer.WriteInterest
import MyselfServer.PathName
import MyselfServer.StaticPaths
import MyselfServer.LastModified
import MyselfServer.TagList
import MyselfServer.IfNoneMatch
import MyselfServer.ParserReads
import MyselfServer.BodyLength
import MyselfServer.ControlBytes
import MyselfServer.TimerRuns
import MyselfServer.Memory
import MyselfServer.NetBuffer
import MyselfServer.TokenBucket
import MyselfServer.Places
import MyselfServer.ThreadPool
import MyselfServer.PoolTasks
import MyselfServer.PoolRuns
import MyselfServer.TokenRefill
import MyselfServer.LegacyDates
import MyselfServer.Histogram
import MyselfServer.Metrics
import MyselfServer.LatencyHistogram
import MyselfServer.MetricsUse
import MyselfServer.ConnectionPeak
import MyselfServer.MetricsSnapshots
import MyselfServer.GatewayPrefix
import MyselfServer.ClientIdentity
import MyselfServer.UpstreamStatus
import MyselfServer.UpstreamFields
import MyselfServer.ChannelTable
import MyselfServer.ParserMemory
import MyselfServer.LogInteger
import MyselfServer.Logger
import MyselfServer.LogFile
import MyselfServer.LogFront
import MyselfServer.ErrorTally
import MyselfServer.ErrorCount
import MyselfServer.IdleTable
import MyselfServer.IdleTimers
import MyselfServer.RequestLives
import MyselfServer.RequestCounts
import MyselfServer.SerialServer
import MyselfServer.SerialSession
import MyselfServer.FinalResponse
import MyselfServer.SerialOutput
import MyselfServer.SerialRuns
import MyselfServer.MessageStream
import MyselfServer.Delimited
import MyselfServer.ClientReads
import MyselfServer.Revalidation
import MyselfServer.CacheCoherence
import MyselfServer.Packing
import MyselfServer.LogPipeline
import MyselfServer.Descriptors
import MyselfServer.ProxyCalls
import MyselfServer.Numeral
import MyselfServer.Exposition
import MyselfServer.MetricsPage
import MyselfServer.TidyResponses
import MyselfServer.Gateway
import MyselfServer.ChannelLives
import MyselfServer.Dispatching
import MyselfServer.Json
import MyselfServer.StatusPage
