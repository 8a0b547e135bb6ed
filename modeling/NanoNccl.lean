import NanoNccl.Lib.Execution
import NanoNccl.Lib.Memory
import NanoNccl.Lib.Numbered
import NanoNccl.Lib.Placement
import NanoNccl.Lib.Tiling
import NanoNccl.Geometry
import NanoNccl.Kernel.Schedule
import NanoNccl.Partition
import NanoNccl.Kernel.Ring
import NanoNccl.Kernel.Control
import NanoNccl.Kernel.Credit
import NanoNccl.Kernel.Plan
import NanoNccl.Kernel.Rounds
import NanoNccl.Kernel.Pairing
import NanoNccl.Kernel.Tracking
import NanoNccl.Kernel.Edges
import NanoNccl.Kernel.Progress
import NanoNccl.Kernel.Passes
import NanoNccl.Kernel.BlockData
import NanoNccl.Kernel.Delivery
import NanoNccl.Kernel.Coverage
import NanoNccl.Kernel.Layout
import NanoNccl.Kernel.Collectives
import NanoNccl.Rdma.Fifo
import NanoNccl.Rdma.Proxy
import NanoNccl.Rdma.SendRecv
import NanoNccl.Rdma.SendRecvDelivery
import NanoNccl.Rdma.WriteCts
import NanoNccl.Rdma.WriteCtsInvariant
import NanoNccl.Rdma.WriteCtsDelivery
import NanoNccl.Rdma.WriteCtsCredit
import NanoNccl.Lib.Ledger
import NanoNccl.Rdma.Books
import NanoNccl.Rdma.SenderBooks
import NanoNccl.Rdma.ReceiverBooks
import NanoNccl.Rdma.Signaling
import NanoNccl.Lib.Mutex
import NanoNccl.Failure
import NanoNccl.Rdma.AsyncError
import NanoNccl.Socket.AsyncError
import NanoNccl.Lib.ByteOrder
import NanoNccl.Socket.Proxy
import NanoNccl.Socket.Delivery
import NanoNccl.Lib.FailStop
import NanoNccl.Rdma.SendFailure
import NanoNccl.Rdma.RecvFailure
import NanoNccl.Socket.ProxyFailure
import NanoNccl.Publication
import NanoNccl.Communicator.Args
import NanoNccl.Communicator.Launch
import NanoNccl.Communicator.Timing
import NanoNccl.Communicator.Splits
import NanoNccl.Lib.Spmd
import NanoNccl.Bootstrap.Topology
import NanoNccl.Bootstrap.Setup
import NanoNccl.Bootstrap.Consensus
import NanoNccl.Socket.Hello
import NanoNccl.Bootstrap.Connect
import NanoNccl.Bootstrap.Matching
import NanoNccl.Bootstrap.Handshake
import NanoNccl.Bootstrap.HandshakeStep
import NanoNccl.Bootstrap.Delivery
import NanoNccl.Bootstrap.Ends
import NanoNccl.Bootstrap.Uses
import NanoNccl.Bootstrap.Progress
import NanoNccl.Communicator.CApi
import NanoNccl.Kernel.Slots
import NanoNccl.Kernel.Posts
import NanoNccl.Lib.WordArith
import NanoNccl.Communicator.Overflow
import NanoNccl.Lib.Transfer
import NanoNccl.Socket.Framing
import NanoNccl.Kernel.Wait
import NanoNccl.Lib.Streams
import NanoNccl.Lib.Throwing
import NanoNccl.Communicator.Lifetime
import NanoNccl.Communicator.Release
import NanoNccl.Lib.Threads
import NanoNccl.Lib.Strided
import NanoNccl.Kernel.Movers
import NanoNccl.Kernel.Workers
import NanoNccl.Kernel.SliceBranches
import NanoNccl.Kernel.SelfEdge
import NanoNccl.Kernel.OneRank
import NanoNccl.Transport.Connection
import NanoNccl.Transport.Counters
import NanoNccl.P2p.Create
import NanoNccl.P2p.Ownership
import NanoNccl.P2p.OwnershipStep
import NanoNccl.P2p.Links
import NanoNccl.P2p.Teardown
import NanoNccl.Lib.Pipe
import NanoNccl.Transport.DirectFifo
import NanoNccl.Rdma.Pipes
import NanoNccl.Socket.Pipe
import NanoNccl.Transport.Services
import NanoNccl.Kernel.PipeRing
import NanoNccl.Kernel.PipePlan
import NanoNccl.Kernel.PipeSteps
import NanoNccl.Kernel.PipeTracking
import NanoNccl.Kernel.PipeDelivery
import NanoNccl.Kernel.PipeCollectives
import NanoNccl.Kernel.Termination
import NanoNccl.Communicator.MpiLeases
import NanoNccl.Lib.ScriptRuns
import NanoNccl.Rdma.PeerInfo
import NanoNccl.Bootstrap.RdmaReady
import NanoNccl.Lib.Custody
import NanoNccl.Communicator.Objects
import NanoNccl.Communicator.Acquisition
import NanoNccl.Communicator.SetupCustody
