import Taotu.Lib.Machine
import Taotu.Lib.Guarded
import Taotu.Lib.LockOrder
import Taotu.Lib.Table
import Taotu.Lib.Turns
import Taotu.Lib.Region
import Taotu.Lib.BigEndian
import Taotu.Lib.Framing
import Taotu.Lib.Adler32
import Taotu.Lib.Separated
import Taotu.Lib.Heap
import Taotu.Lib.Holding
import Taotu.Lib.Loop
import Taotu.Lib.Schedule
import Taotu.Buffer.IoBuffer
import Taotu.Buffer.ByteQueue
import Taotu.Buffer.TypedValues
import Taotu.Connection.NetAddress
import Taotu.Connection.Connecting
import Taotu.Connection.Solo
import Taotu.Connection.Inbound
import Taotu.Connection.Outbound
import Taotu.Connection.Frozen
import Taotu.Connection.HalfClose
import Taotu.Connection.Closing
import Taotu.Connection.LifeCycle
import Taotu.Connection.Duplex
import Taotu.Connection.Draining
import Taotu.Connection.Messages
import Taotu.Connection.Noticing
import Taotu.Connection.Pausing
import Taotu.Connection.Connector
import Taotu.Connection.Retrying
import Taotu.EventLoop.RingSetup
import Taotu.EventLoop.Poller
import Taotu.EventLoop.Polling
import Taotu.EventLoop.Incarnations
import Taotu.EventLoop.Interest
import Taotu.EventLoop.Contexts
import Taotu.EventLoop.Timer
import Taotu.EventLoop.EventManager
import Taotu.EventLoop.InFlight
import Taotu.EventLoop.Destroying
import Taotu.EventLoop.ForceClosing
import Taotu.EventLoop.Reaping
import Taotu.EventLoop.Shutdown
import Taotu.EventLoop.Client
import Taotu.EventLoop.Accepting
import Taotu.EventLoop.Balancer
import Taotu.EventLoop.TimeTasks
import Taotu.EventLoop.Periodic
import Taotu.EventLoop.Quitting
import Taotu.Logger.Ring
import Taotu.Logger.Stopping
import Taotu.Logger.Waking
import Taotu.Logger.Files
import Taotu.Rpc.Codec
import Taotu.Rpc.Stream
import Taotu.Rpc.Damage
import Taotu.Rpc.Limits
import Taotu.Rpc.Channel
import Taotu.Rpc.Correlation
import Taotu.Rpc.Wire
import Taotu.Rpc.Endpoint
import Taotu.Rpc.SyncChannel
import Taotu.Rpc.Blocking
import Taotu.Rpc.Agreement
import Taotu.Buffer.SpaceTest
import Taotu.Threads.SpinLock
import Taotu.Memory.MemoryPool
import Taotu.Memory.SharedPool
import Taotu.Threads.ThreadPool
import Taotu.Threads.Waking
import Taotu.Threads.Refinement
import Taotu.Threads.Turns
import Taotu.Threads.History
import Taotu.Threads.Resting
import Taotu.Threads.Locks
import Taotu.App.Echo
import Taotu.App.ChatCodec
import Taotu.App.ChatRoom
