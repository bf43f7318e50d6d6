import Repics.Asyncio
import Repics.Lib.Binary64
import Repics.Lib.Transition
import Repics.Lib.LabelTree
import Repics.Lib.Locks
import Repics.Lib.Separated
import Repics.Lib.Squashed
import Repics.Ca.Server.World
import Repics.Ca.Server.Lifetime
import Repics.Ca.Server.Survival
import Repics.Ca.Server.Threads
import Repics.Lib.Linearizable
import Repics.Ca.Server.Cell
import Repics.Ca.Server.Cell.Shape
import Repics.Ca.Server.Cell.Order
import Repics.Ca.Server.Cell.Atomic
import Repics.Ca.Hub.Subscription
import Repics.Ca.Hub.Grammar
import Repics.Ca.Hub.Timeout
import Repics.Ca.Counts
import Repics.Ca.Client.Monitor
import Repics.Lib.FairLock
import Repics.Ca.Client.Drain
import Repics.Ca.Client.Pause
import Repics.Ca.Client.Awaiting
import Repics.Ca.Client.Value
import Repics.Ca.Client.Pv
import Repics.Ca.Client.Readback
import Repics.Lib.Utf8
import Repics.Ca.Client.Text
import Repics.Lib.SideBySide
import Repics.Ca.Client.Operations
import Repics.Ca.Client.History
import Repics.Ca.Client.Ending
import Repics.Ca.Client.Lists
import Repics.Pva.Desc
import Repics.Pva.Field
import Repics.Pva.Snapshot
import Repics.Pva.Value.Assign
import Repics.Lib.Locking
import Repics.Lib.Columns
import Repics.Lib.Dict
import Repics.Lib.Strided
import Repics.Pva.Value.Python
import Repics.Pva.Value.Build
import Repics.Pva.Value.Spec
import Repics.Pva.Value.Create
import Repics.Pva.Value.Variant
import Repics.Pva.Value.ToPy
import Repics.Pva.Value.Root
import Repics.Pva.Value.RootLock
import Repics.Pva.Value.Copyable
import Repics.Pva.Value.Union
import Repics.Pva.Value.Typed
import Repics.Pva.Value.Forms
import Repics.Pva.Value.Copy
import Repics.Pva.Value.SelfWait
import Repics.Pva.Value.Sent
import Repics.Pva.Value.Marks
import Repics.Pva.Value.ChangedSet
import Repics.Pva.Value.Leaves
import Repics.Pva.Value.Integers
import Repics.Pva.Nt
import Repics.Pva.Nt.Table
import Repics.Pva.Nt.Scalar
import Repics.Pva.Nt.Image
import Repics.Pva.Nt.PutImage
import Repics.Pva.Nt.PutBack
import Repics.Pva.Server.Entry
import Repics.Pva.Server.Served
import Repics.Pva.Server.Subscribers
import Repics.Pva.Server.Versions
import Repics.Pva.Server.Hooks
import Repics.Pva.Server.Lifecycle
import Repics.Pva.Server.Attached
import Repics.Server.WorkQueue
import Repics.Server.Handlers
import Repics.Pva.Server.Rpc
import Repics.Monitor.Dispatcher
import Repics.Monitor.Close
import Repics.Lib.Collapse
import Repics.Lib.Collapse.Projection
import Repics.Monitor.Order
import Repics.Monitor.Projection
import Repics.Monitor.Pipeline
import Repics.Monitor.Register
import Repics.Pva.Client.Unwrapper
import Repics.Pva.Client.EnumChoices
import Repics.Pva.Client.Put
import Repics.Pva.Client.Isolation
import Repics.Pva.Client.Commit
import Repics.Pva.Client.Flavours
import Repics.Pva.Client.Rpc
import Repics.Pva.Hub.Monitor
import Repics.Pva.Hub.Decoder
import Repics.Pva.Link
import Repics.Pva.Hub.Announce
