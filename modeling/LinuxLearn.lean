import LinuxLearn.Lib.Machine
import LinuxLearn.Hlw8032.Decoder
import LinuxLearn.Hlw8032.CallSpec
import LinuxLearn.Hlw8032.Safety
import LinuxLearn.Hlw8032.Energy
import LinuxLearn.Hlw8032.Serial
import LinuxLearn.ConfigItem.ConfigFile
import LinuxLearn.ConfigItem.IniMap
import LinuxLearn.ConfigItem.Update
import LinuxLearn.ChatRoom.Config
import LinuxLearn.ChatRoom.OnlineList
import LinuxLearn.ChatRoom.Chat
import LinuxLearn.ChatRoom.Server
import LinuxLearn.ChatRoom.Sessions
import LinuxLearn.ChatRoom.Dispatch
import LinuxLearn.ChatRoom.Framing
import LinuxLearn.Epoll.EchoServer
import LinuxLearn.Hlw8032.Extraction
import LinuxLearn.Hlw8032.Copies
import LinuxLearn.Hlw8032.Windows
import LinuxLearn.ChatRoom.Interleaving
import LinuxLearn.ChatRoom.Database
import LinuxLearn.ChatRoom.Routing
import LinuxLearn.Lib.Sql
import LinuxLearn.Lib.Calendar
import LinuxLearn.Lib.Statements
import LinuxLearn.ChatRoom.Queries
import LinuxLearn.ChatRoom.History
import LinuxLearn.ChatRoom.Order
import LinuxLearn.Ping.Packet
import LinuxLearn.Ping.Verdict
import LinuxLearn.Button.Recovery
import LinuxLearn.Select.SelectServer
import LinuxLearn.Infrared.RedFrame
import LinuxLearn.Lib.Shell
import LinuxLearn.Qcd.DirHistory
import LinuxLearn.LoopRun.NextCounter
import LinuxLearn.Lib.Threads
import LinuxLearn.MutexTest.Tickets
import LinuxLearn.CondTest.SlotBuffer
import LinuxLearn.QueueTest.LinkQueue
import LinuxLearn.ConfigItem.Lookup
import LinuxLearn.ConfigItem.IntValue
import LinuxLearn.ChatRoom.Assembly
import LinuxLearn.Hlw8032.Overflow
import LinuxLearn.Hlw8032.Rejection
import LinuxLearn.Lib.OnesComplement
import LinuxLearn.Ping.Checksum
import LinuxLearn.Infrared.WindSpeed
import LinuxLearn.Ping.Reply
import LinuxLearn.Pipe.FifoClient
import LinuxLearn.Hlw8032.Scan
import LinuxLearn.Lib.Comparator
import LinuxLearn.Qsort.Comp
import LinuxLearn.HttpClient.ParseUrl
import LinuxLearn.HttpClient.Header
import LinuxLearn.HttpClient.Download
import LinuxLearn.Lib.Pieces
import LinuxLearn.Socket.Readline
import LinuxLearn.Poll.PollServer
import LinuxLearn.Json.Item
import LinuxLearn.Json.Print
import LinuxLearn.Json.Parse
import LinuxLearn.Json.RoundTrip
import LinuxLearn.Json.Outcome
import LinuxLearn.Json.Buffered
import LinuxLearn.Json.Unicode
import LinuxLearn.Json.Minify
import LinuxLearn.Json.Preserve
import LinuxLearn.Lib.Ring
import LinuxLearn.ListHead.Functions
import LinuxLearn.ListHead.Runs
import LinuxLearn.ListHead.SafeLoop
import LinuxLearn.Aes.Cipher
import LinuxLearn.Pipe.Dialogue
