import CodingDemo.Container.ListHeap
import CodingDemo.Datetime.TimerQueue.Cancel
import CodingDemo.Datetime.TimerQueue.Deadline
import CodingDemo.Datetime.TimerQueue.Expired
import CodingDemo.Datetime.TimerWheel.Early
import CodingDemo.Datetime.TimerWheel.Scheduled
import CodingDemo.Datetime.TimerWheel.Repeating
import CodingDemo.Datetime.TimerWheel.Cancel
import CodingDemo.Datetime.TimerWheel.DelayQueue
import CodingDemo.Datetime.TimerWheel.Overflow
import CodingDemo.Dpdk.GetIds.Accepts
import CodingDemo.Dpdk.Int2Str.Fields
import CodingDemo.Dpdk.Int2Str.Int2Hex
import CodingDemo.Dpdk.PicoHttp.Bounds
import CodingDemo.Dpdk.PicoHttp.ChunkedBody
import CodingDemo.Net.RawSocket.TcpChecksum
import CodingDemo.Net.RawSocket.IcmpChecksum
import CodingDemo.Net.RawSocket.UdpPacket
import CodingDemo.Hash.CuckooHash.MinPrime
import CodingDemo.Hash.CuckooHash.SignedKeys
import CodingDemo.Hash.SimpleHash.Probing
import CodingDemo.Him.HimServer
import CodingDemo.Http.HttpParser
import CodingDemo.Http.Response
import CodingDemo.Http.Trailer
import CodingDemo.Io.SizedBuffer
import CodingDemo.Kcp.Datagram
import CodingDemo.Kcp.Ikcp.Check
import CodingDemo.Kcp.Ikcp.Progress
import CodingDemo.Kcp.KcpLayer.Stack
import CodingDemo.Kcp.KcpLayer.Peer
import CodingDemo.Kcp.KcpLayer.Receive
import CodingDemo.Logging.AsyncLogging.Stop
import CodingDemo.Logging.Log
import CodingDemo.Logging.LogAsync.Append
import CodingDemo.Logging.LogFile.Roll
import CodingDemo.Logging.LogFileName
import CodingDemo.Reactor.EventLoop.Wakeup
import CodingDemo.Reactor.Poller
import CodingDemo.Net.Connector.Abort
import CodingDemo.Net.EpollServer
import CodingDemo.Net.SelectServer
import CodingDemo.Net.TcpConnection.HalfClose
import CodingDemo.Net.TcpConnection.Lifecycle
import CodingDemo.Net.TcpConnection.Send
import CodingDemo.Net.TcpServer.Lifecycle
import CodingDemo.Net.UdpServer
import CodingDemo.Thread.RwLock
import CodingDemo.Kcp.Ikcp.Answer
import CodingDemo.Kcp.Ikcp.Conversation
import CodingDemo.Kcp.Ikcp.Network
