import LuvCoro.Lib.Transition
import LuvCoro.Lib.ParkingQueue
import LuvCoro.Lib.WaiterPool
import LuvCoro.Channel.System
import LuvCoro.Channel.Frame
import LuvCoro.Channel.Refinement
import LuvCoro.Channel.Conservation
import LuvCoro.Channel.Wakeup
import LuvCoro.Channel.Flush
import LuvCoro.Channel.Next
import LuvCoro.Channel.Recv
import LuvCoro.TaskScope.System
import LuvCoro.Select.Lossless
import LuvCoro.TaskScope.Join
import LuvCoro.Lib.PermitQueue
import LuvCoro.Sync.Primitive
import LuvCoro.Sync.Acquire
import LuvCoro.Sync.Once
import LuvCoro.Sync.Local
import LuvCoro.Sync.Permits
import LuvCoro.Sync.Condition
import LuvCoro.Sync.ConditionOnce
import LuvCoro.Sync.Stops
import LuvCoro.Sync.Contract
import LuvCoro.Sync.LocalCondition
import LuvCoro.Sync.Broadcast
import LuvCoro.Request.InFlight
import LuvCoro.Runtime.Handshake
import LuvCoro.Runtime.Post
import LuvCoro.Request.Outcome
import LuvCoro.Lib.Stateful
import LuvCoro.Fs.File
import LuvCoro.Runtime.Blocking
import LuvCoro.Stream.Phases
import LuvCoro.Stream.Invariant
import LuvCoro.Stream.Protocol
import LuvCoro.Stream.Close
import LuvCoro.Fs.RemoveAll
import LuvCoro.Fs.Subtree
import LuvCoro.Io.StreamBuffer
import LuvCoro.Io.ReadUntil
import LuvCoro.Lib.Coroutine
import LuvCoro.Fs.Content
import LuvCoro.Fs.RoundTrip
import LuvCoro.Fs.Appends
import LuvCoro.Accept.System
import LuvCoro.Accept.Delivery
import LuvCoro.Accept.Cancellation
import LuvCoro.Accept.Closures
import LuvCoro.Process.Wait
import LuvCoro.Process.Awaiters
import LuvCoro.Handles.System
import LuvCoro.Handles.Disposal
import LuvCoro.TaskScope.Outcome
import LuvCoro.Channel.SenderErrors
import LuvCoro.Channel.History
import LuvCoro.Channel.Failure
import LuvCoro.Io.Copy
import LuvCoro.Io.Session
import LuvCoro.Timing.FixedRate
import LuvCoro.Channel.Foreach
import LuvCoro.Lib.FilePath
import LuvCoro.Lib.MakeDirectory
import LuvCoro.Fs.CreateDirectories
import LuvCoro.Sync.Rejected
import LuvCoro.Sync.SameThread
import LuvCoro.Channel.Timer
import LuvCoro.Channel.TimedWait
import LuvCoro.Channel.RecvFor
import LuvCoro.Control.System
import LuvCoro.Control.FirstEvent
import LuvCoro.Io.Delimiters
import LuvCoro.Io.Lines
import LuvCoro.Io.Agreement
import LuvCoro.Io.Lengths
import LuvCoro.Fs.Sendfile
import LuvCoro.Handles.Watching
import LuvCoro.Process.Lifecycle
import LuvCoro.Process.Answers
import LuvCoro.Handles.Signals
import LuvCoro.Request.Dns
import LuvCoro.Handles.SignalClose
import LuvCoro.Io.Stdio
import LuvCoro.Io.StdioInvariant
import LuvCoro.Lib.Linear
import LuvCoro.Runtime.Call
import LuvCoro.Io.Framing
import LuvCoro.Lib.Custody
import LuvCoro.Stream.Datagrams
import LuvCoro.Sync.Guards
import LuvCoro.Fs.DescriptorRuns
import LuvCoro.Timing.Logged
import LuvCoro.Channel.Consumers
import LuvCoro.Channel.Drained
import LuvCoro.Channel.Endings
import LuvCoro.Request.Returns
import LuvCoro.Stream.Sent
import LuvCoro.Stream.Wire
