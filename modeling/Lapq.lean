import Lapq.Lib.Bytes
import Lapq.Lib.OrderedMap
import Lapq.Lib.Reader
import Lapq.Lib.Machine
import Lapq.Lib.Numeral
import Lapq.Semantics.Error
import Lapq.Semantics.Result
import Lapq.Semantics.Protocol
import Lapq.Semantics.World
import Lapq.Semantics.Fsm
import Lapq.Semantics.Connection
import Lapq.Semantics.Context
import Lapq.Semantics.Environment
import Lapq.Steps.Dispatch
import Lapq.Steps.Machine
import Lapq.Steps.Blocking
import Lapq.Steps.Frame
import Lapq.Steps.Context
import Lapq.Steps.Environment
import Lapq.Steps.Trust
import Lapq.Wire.Frontend
import Lapq.Wire.Backend
import Lapq.Wire.Inverse
import Lapq.Wire.Bounds
import Lapq.Wire.Lists
import Lapq.Wire.Lengths
import Lapq.Runs.Gating
import Lapq.Runs.Inside
import Lapq.Runs.Exclusive
import Lapq.Runs.Agreement
import Lapq.Runs.Truthful
import Lapq.Runs.Tls
import Lapq.Runs.Failures
import Lapq.Runs.Implements
import Lapq.Runs.Stopped
import Lapq.Runs.Tunnel
import Lapq.Runs.Busy
import Lapq.Runs.Account
import Lapq.Runs.Conversation
import Lapq.Runs.Settings
import Lapq.Runs.Orders
import Lapq.Runs.Served
import Lapq.Runs.Framing
import Lapq.Runs.Lifecycle
import Lapq.Runs.Schedule
import Lapq.Replies.Receive
import Lapq.Replies.Password
import Lapq.Replies.Completion
import Lapq.Replies.Operation
import Lapq.Replies.Assemble
import Lapq.Replies.Rows
import Lapq.Replies.Session
import Lapq.Replies.Flag
import Lapq.Replies.Truncated
import Lapq.Replies.Isolation
import Lapq.Replies.Prepare
import Lapq.Replies.Facade
import Lapq.Replies.Transparent
import Lapq.Replies.Lifetime
import Lapq.Replies.Access
import Lapq.Replies.Typed
import Lapq.Replies.Pipeline
import Lapq.Replies.Atomic
