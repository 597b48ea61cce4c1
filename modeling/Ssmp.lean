import Ssmp.Lib.TransSys
import Ssmp.Lib.OneSlot
import Ssmp.Lib.PhaseBarrier
import Ssmp.Lib.GroupBarrier
import Ssmp.Lib.RoundRobin
import Ssmp.Lib.ShiftRegister
import Ssmp.Lib.Accounts
import Ssmp.Lib.Network
import Ssmp.Lib.Meetings
import Ssmp.Lib.LocalProof
import Ssmp.Lib.Part
import Ssmp.Lib.Ascending
import Ssmp.Lib.Blocks
import Ssmp.Lib.StoreLog
import Ssmp.Message
import Ssmp.Process
import Ssmp.Actions
import Ssmp.Discipline
import Ssmp.Channel
import Ssmp.Line
import Ssmp.Api
import Ssmp.Memory
import Ssmp.ColorBuf
import Ssmp.Pow2roundup
import Ssmp.Xorshf96
import Ssmp.Prof.Measurements
import Ssmp.Platform.Generic
import Ssmp.Platform.Niagara
import Ssmp.Platform.Opteron
import Ssmp.Platform.Xeon
import Ssmp.Platform.Sockets
import Ssmp.Platform.Build
import Ssmp.Platform.StoreOrder
import Ssmp.Platform.Prefetch
import Ssmp.Platform.Overrun
import Ssmp.Receive.Taking
import Ssmp.Receive.Sender
import Ssmp.Receive.Fair
import Ssmp.Receive.Alone
import Ssmp.Receive.Cyclic
import Ssmp.Receive.Restrict
import Ssmp.Receive.Forward
import Ssmp.Broadcast.Publications
import Ssmp.Broadcast.Delivery
import Ssmp.Big.Model
import Ssmp.Big.Events
import Ssmp.Big.Ledger
import Ssmp.Big.Runs
import Ssmp.Big.Handshake
import Ssmp.Big.RoundTrip
import Ssmp.Big.Routing
import Ssmp.Big.Tiling
import Ssmp.Barrier.Model
import Ssmp.Barrier.Phases
import Ssmp.Barrier.Rounds
import Ssmp.Barrier.Progress
import Ssmp.Barrier.Participants
import Ssmp.Barrier.Isolation
import Ssmp.Tile.Barrier
import Ssmp.Tile.Udn
import Ssmp.Startup.Model
import Ssmp.Startup.Clean
import Ssmp.Startup.Ready
import Ssmp.Startup.Segments
import Ssmp.Startup.Bounds
import Ssmp.Startup.Layout
import Ssmp.Linked.Model
import Ssmp.Linked.Calls
import Ssmp.Linked.Refines
import Ssmp.Whole.Model
import Ssmp.Whole.Refines
import Ssmp.Whole.Progress
import Ssmp.Whole.Completion
import Ssmp.Bench.Roles
import Ssmp.Bench.Homes
import Ssmp.Bench.Procs
import Ssmp.Bench.Bank
import Ssmp.Bench.BankRuns
import Ssmp.Bench.BankServers
import Ssmp.Bench.BankLedger
import Ssmp.Bench.BankShutdown
import Ssmp.Bench.ClientServer
import Ssmp.Bench.ExitCount
import Ssmp.Bench.RoundTrip
import Ssmp.Bench.OneToOne
import Ssmp.Bench.OneToOneRuns
import Ssmp.Bench.OneToOneEnd
import Ssmp.Bench.OneToOneLibrary
import Ssmp.Bench.BarrierTest
import Ssmp.Bench.BarrierTestRuns
import Ssmp.Bench.BarrierTestLibrary
import Ssmp.Bench.ClientServerMain
import Ssmp.Bench.ClientServerMainRuns
import Ssmp.Bench.ClientServerMainEnd
import Ssmp.Bench.ClientServerMainLibrary
import Ssmp.Bench.BankMain
import Ssmp.Bench.BankMainRuns
import Ssmp.Bench.BankMainEnd
import Ssmp.Bench.BankMainLibrary
