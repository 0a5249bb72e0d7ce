import TcpMuduo.Lib.Machine
import TcpMuduo.Lib.Memory
import TcpMuduo.Lib.RoundRobin
import TcpMuduo.Net.Syscall
import TcpMuduo.Net.Buffer
import TcpMuduo.Net.BufferQueue
import TcpMuduo.Net.BufferAccess
import TcpMuduo.Net.BufferLimits
import TcpMuduo.Net.BufferSpace
import TcpMuduo.Net.Channel
import TcpMuduo.Net.Registration
import TcpMuduo.Net.Interest
import TcpMuduo.Net.CtlFailure
import TcpMuduo.Net.Poll
import TcpMuduo.Net.EventLoop
import TcpMuduo.Net.EventQueue
import TcpMuduo.Net.Quit
import TcpMuduo.Net.Rounds
import TcpMuduo.Net.EventLoopThread
import TcpMuduo.Net.InetAddress
import TcpMuduo.Net.TcpConnection
import TcpMuduo.Net.OutputStream
import TcpMuduo.Net.FlowControl
import TcpMuduo.Net.Server
import TcpMuduo.Net.ConnOps
import TcpMuduo.Net.ServerSteps
import TcpMuduo.Net.Confinement
import TcpMuduo.Net.ThreadPool
import TcpMuduo.Net.InFlight
import TcpMuduo.Net.Lifecycle
import TcpMuduo.Net.Protocol
import TcpMuduo.Net.Registry
import TcpMuduo.Net.Establishment
import TcpMuduo.Net.Send
import TcpMuduo.Net.HalfClose
import TcpMuduo.Net.Pollers
import TcpMuduo.Net.Dispatch
import TcpMuduo.Net.Startup
import TcpMuduo.Net.Service
import TcpMuduo.Net.Lifetime
import TcpMuduo.Net.Removal
import TcpMuduo.Net.Ownership
import TcpMuduo.Net.Disconnect
import TcpMuduo.Net.Delivery
import TcpMuduo.Net.Reception
import TcpMuduo.Net.Load
import TcpMuduo.Net.StateOrder
import TcpMuduo.Net.TearDown
import TcpMuduo.Net.Joining
import TcpMuduo.Net.Progress
import TcpMuduo.Net.Polling
import TcpMuduo.Net.PollStep
import TcpMuduo.Net.Echo
import TcpMuduo.Net.EchoStages
import TcpMuduo.Net.EchoStream
import TcpMuduo.Net.EchoLimits
