import EpollServer.Lib.Machine
import EpollServer.Lib.Trace
import EpollServer.Lib.Tally
import EpollServer.Lib.Framing
import EpollServer.Lib.Word32
import EpollServer.Lib.Slice
import EpollServer.Lib.CInt
import EpollServer.Syscall
import EpollServer.Tlv
import EpollServer.Buffer
import EpollServer.Channel
import EpollServer.Epoller
import EpollServer.Connection
import EpollServer.Session
import EpollServer.EdgeTriggered
import EpollServer.Lifetime
import EpollServer.EchoServer
import EpollServer.EventLoop
import EpollServer.Reactor
import EpollServer.Server
import EpollServer.Proof.Queue
import EpollServer.Proof.Registration
import EpollServer.Proof.Stack
import EpollServer.Proof.Reading
import EpollServer.Proof.Delivery
import EpollServer.Proof.Bounds
import EpollServer.Proof.Closing
import EpollServer.Proof.Writing
import EpollServer.Proof.Calls
import EpollServer.Proof.RoundTrip
import EpollServer.Proof.Acceptance
import EpollServer.Proof.Answering
import EpollServer.Proof.Stranding
import EpollServer.Proof.Flushing
import EpollServer.Proof.Echo
import EpollServer.Proof.HalfClose
import EpollServer.Proof.Lifetime
import EpollServer.Proof.Reactor
import EpollServer.Proof.Control
import EpollServer.Proof.Wired
import EpollServer.Proof.Connecting
import EpollServer.Proof.Confinement
import EpollServer.Proof.Ledger
import EpollServer.Proof.Teardown
import EpollServer.Proof.TeardownStep
import EpollServer.Proof.CloseProtocol
import EpollServer.Proof.Dispatch
import EpollServer.Proof.Lingering
import EpollServer.Proof.Returning
import EpollServer.Client
import EpollServer.Proof.Package
import EpollServer.Proof.Response
import EpollServer.Lib.Interleaving
import EpollServer.Lib.Mutex
import EpollServer.Logger
import EpollServer.Proof.Logger
import EpollServer.Proof.Draining
import EpollServer.Logging
import EpollServer.Proof.Logging
import EpollServer.Proof.Locking
import EpollServer.Proof.Backlog
import EpollServer.Proof.Recording
import EpollServer.EventLoopThread
import EpollServer.EventLoopThreadPool
import EpollServer.Proof.Startup
import EpollServer.Proof.Balance
import EpollServer.Proof.Loops
import EpollServer.Proof.Rest
import EpollServer.Proof.Settling
import EpollServer.Proof.Rounds
import EpollServer.Proof.Callbacks
import EpollServer.Proof.Resting
import EpollServer.LoadTest
import EpollServer.Proof.LoadTest
import EpollServer.Proof.Waiting
import EpollServer.Network
import EpollServer.Proof.Batches
import EpollServer.Proof.Network
import EpollServer.Proof.Service
import EpollServer.Proof.Debts
import EpollServer.Proof.Quiet
import EpollServer.Acceptor
import EpollServer.Proof.Accepting
