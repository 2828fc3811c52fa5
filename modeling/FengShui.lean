import FengShui.Core.EventFormat
import FengShui.Core.Iovecs
import FengShui.Core.Lifecycle
import FengShui.Core.PointerArray
import FengShui.Core.Time
import FengShui.Core.TupleViews
import FengShui.Executor.Accounting
import FengShui.Executor.LiveReferences
import FengShui.Executor.RoutingRuns
import FengShui.Executor.Submissions
import FengShui.Memory.Deadlock
import FengShui.Memory.Objects
import FengShui.Memory.TupleWriters
import FengShui.Reactive.CallbackProtocol
import FengShui.Reactive.Coalescing
import FengShui.Reactive.ConnectionFrame
import FengShui.Reactive.Credit
import FengShui.Reactive.Delivery
import FengShui.Reactive.GracefulClose
import FengShui.Reactive.HostileInput
import FengShui.Reactive.Isolation
import FengShui.Reactive.KeepAliveExpiry
import FengShui.Reactive.Leasing
import FengShui.Reactive.Orphans
import FengShui.Reactive.OwnerClose
import FengShui.Reactive.StreamIds
import FengShui.Reactive.WriteSize
import FengShui.Storage.Extractions
import FengShui.Storage.Failures
import FengShui.Storage.Iteration
import FengShui.Storage.Iterator
import FengShui.Storage.RequestPools
import FengShui.Storage.RingLoop
import FengShui.Storage.SchemaStatements
import FengShui.Storage.Updater
import FengShui.Transport.Aggregation
import FengShui.Transport.AllOrNothing
import FengShui.Transport.ClientClose
import FengShui.Transport.ClockSteps
import FengShui.Transport.ConfiguredSockets
import FengShui.Transport.Datagrams
import FengShui.Transport.EventCancels
import FengShui.Transport.EventTable
import FengShui.Transport.FileWrites
import FengShui.Transport.LoadBuffers
import FengShui.Transport.PendingOperations
import FengShui.Transport.ServerLifetime
import FengShui.Transport.SocketPaths
import FengShui.Transport.Timeouts
import FengShui.Transport.WriteOrder
import FengShui.Transport.WrittenWhole
