import IMServer.Lib.Endian
import IMServer.Lib.Deframer
import IMServer.Lib.Run
import IMServer.Lib.AssocMap
import IMServer.Lib.Heap
import IMServer.Lib.Sql
import IMServer.Lib.Traced
import IMServer.Lib.Vec
import IMServer.Lib.Pipe
import IMServer.Basic
import IMServer.Decimal
import IMServer.Buffer
import IMServer.OnRead
import IMServer.Framing
import IMServer.BinaryWriter
import IMServer.WriterAppends
import IMServer.BinaryReader
import IMServer.Packet
import IMServer.Json.Value
import IMServer.Json.Number
import IMServer.Json.Reader
import IMServer.Json.Quoted
import IMServer.Json.Grammar
import IMServer.Json.Scalars
import IMServer.Json.Writers
import IMServer.Json.WellFormed
import IMServer.Database
import IMServer.QueryResult
import IMServer.Rows
import IMServer.MysqlTool
import IMServer.ClientCalls
import IMServer.MysqlManager
import IMServer.Schema
import IMServer.Bootstrap
import IMServer.UserManager
import IMServer.ToolRuns
import IMServer.UserIds
import IMServer.AccountNames
import IMServer.Relations
import IMServer.ClientSession
import IMServer.Connections
import IMServer.TcpServer
import IMServer.Bounds
import IMServer.ScalarReads
import IMServer.Cursor
import IMServer.RegistrationSql
import IMServer.Requests
import IMServer.Login
import IMServer.Reload
import IMServer.Answers
import IMServer.AnswerTexts
import IMServer.RequestFormats
import IMServer.ReplyStream
import IMServer.Noninterference
import IMServer.Net.Buffer
import IMServer.Net.Connection
import IMServer.Net.Lifecycle
import IMServer.Net.Fates
import IMServer.Net.Delivery
import IMServer.Net.PollFds
import IMServer.Net.Polling
import IMServer.Net.EventLoop
import IMServer.Net.TimerRuns
import IMServer.Net.Serving
