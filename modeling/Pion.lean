import Pion.Lib.Scanner
import Pion.Lib.Recogniser
import Pion.Lib.Numeral
import Pion.Lib.Quoting
import Pion.Lib.Delivery
import Pion.Lib.Multimap
import Pion.Lib.Machine
import Pion.Lib.HashTable
import Pion.Lib.WaitTimer
import Pion.Algorithm
import Pion.Uri
import Pion.HttpMessage
import Pion.MessageCalls
import Pion.HeaderTable
import Pion.HttpForms
import Pion.HttpParser
import Pion.ContentWords
import Pion.TcpConnection
import Pion.HttpResponseWriter
import Pion.DefaultHandlers
import Pion.HttpServer
import Pion.HttpRequestReader
import Pion.ReadTimeouts
import Pion.Exchange
import Pion.TcpServer
import Pion.Scheduler
import Pion.ServerLifecycle
import Pion.ServerConnections
import Pion.Websocket
import Pion.WebsocketRegistry
import Pion.WebsocketBroadcasts
import Pion.Proof.Dictionary
import Pion.Proof.Search
import Pion.Proof.Phases
import Pion.Proof.Segmentation
import Pion.Proof.HeaderRun
import Pion.Proof.RoundTrip
import Pion.Proof.ChunkRun
import Pion.Proof.Forms
import Pion.Proof.Chunked
import Pion.Proof.ChunkWriter
import Pion.Proof.ResponseBody
import Pion.Proof.DefaultHandlers
import Pion.Proof.Head
import Pion.Proof.Streaming
import Pion.Proof.Reader
import Pion.Proof.ReadTimeouts
import Pion.Proof.TimedSessions
import Pion.Proof.Dispatch
import Pion.Proof.Pipelining
import Pion.Proof.ReaderStates
import Pion.Proof.Endings
import Pion.Proof.Truncated
import Pion.Proof.Locks
import Pion.Proof.Writes
import Pion.Proof.AnswerOrder
import Pion.Proof.ExchangeSessions
import Pion.Proof.Interims
import Pion.Proof.Assembly
import Pion.Proof.Reassembly
import Pion.Proof.Pings
import Pion.Proof.WebsocketInput
import Pion.Proof.WebsocketCalls
import Pion.Proof.WebsocketOutput
import Pion.Proof.Broadcast
import Pion.Proof.WebsocketBroadcasts
import Pion.Proof.Reset
import Pion.Proof.Clean
import Pion.Proof.Accounting
import Pion.Proof.Version
import Pion.Proof.Terminators
import Pion.Proof.Overlong
import Pion.Proof.Routes
import Pion.Proof.FirstLine
import Pion.Proof.Cookies
import Pion.Proof.ContentBounds
import Pion.Proof.UrlEncoded
import Pion.Proof.Multipart
import Pion.Proof.ChunkSize
import Pion.Proof.SimpleRequest
import Pion.Proof.ValueSpace
import Pion.Proof.HeadGrammar
import Pion.Proof.HeadLanguage
import Pion.Proof.HeadBlocks
import Pion.Proof.Heads
import Pion.Proof.ChunkLanguage
import Pion.Proof.Pauses
import Pion.Proof.RawHeaders
import Pion.Proof.Finish
import Pion.Proof.Uri
import Pion.Proof.SentRequest
import Pion.Proof.ClientRequests
import Pion.Proof.HeaderValues
import Pion.Proof.Submatch
import Pion.Proof.Scheduler
import Pion.Proof.SchedulerWaits
import Pion.Proof.SchedulerTimer
import Pion.Proof.SchedulerCalls
import Pion.Proof.Lifecycle
import Pion.Proof.Connections
import Pion.Proof.ServerStop
import Pion.Proof.HeaderTable
import Pion.Proof.PartHeaders
import Pion.Proof.Parts
import Pion.Proof.PartRuns
import Pion.Proof.MultipartSafety
import Pion.Proof.TextFields
import Pion.Proof.IgnoredLines
