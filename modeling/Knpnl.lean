import Knpnl.Lib.CString
import Knpnl.Lib.Feed
import Knpnl.Lib.BoundedFifo
import Knpnl.Base.Buffer
import Knpnl.Base.BufferRead
import Knpnl.Base.BufferFifo
import Knpnl.Base.BufferPointers
import Knpnl.Base.BufferMoves
import Knpnl.Base.LogStream
import Knpnl.Base.LogRecord
import Knpnl.Http.Request
import Knpnl.Http.Reference
import Knpnl.Http.Lines
import Knpnl.Http.HeadRounds
import Knpnl.Http.Segmentation
import Knpnl.Http.Body
import Knpnl.Event.Channel
import Knpnl.Net.TcpConnection
import Knpnl.Http.Response
import Knpnl.Http.Server
import Knpnl.Http.KeepAlive
import Knpnl.Event.EventLoop
import Knpnl.Event.Wakeup
import Knpnl.Http.ResponseLeak
import Knpnl.Net.Delivery
import Knpnl.Net.Dispatch
import Knpnl.Net.EdgeTriggered
import Knpnl.Net.Mask
import Knpnl.Base.PoolStop
import Knpnl.Base.PoolWakeup
import Knpnl.Base.TaskQueue
import Knpnl.Event.Finishing
import Knpnl.Net.Closing
import Knpnl.Net.OutputOrder
import Knpnl.Event.TimerIndex
import Knpnl.Event.TimerLifetime
import Knpnl.Http.Bookkeeping
import Knpnl.Net.Resuming
import Knpnl.Net.Lifecycle
import Knpnl.Http.Teardown
import Knpnl.Http.Consuming
import Knpnl.Http.BodyLength
import Knpnl.Http.HeadEnd
import Knpnl.Http.Accesses
import Knpnl.Http.Renewal
import Knpnl.Lib.WorkQueue
import Knpnl.Net.Ownership
import Knpnl.Event.LoopThread
import Knpnl.Event.LoopThreadPool
import Knpnl.Event.Poller
import Knpnl.Http.Rejection
import Knpnl.Http.RequestLine
import Knpnl.Net.ReadClosing
import Knpnl.Http.Serialising
import Knpnl.Base.FileMapping
import Knpnl.Http.OpenFile
import Knpnl.Event.TimerRemoval
import Knpnl.Event.TimerHead
import Knpnl.Event.TimerPass
import Knpnl.Event.TimerReset
import Knpnl.Event.TimerArming
import Knpnl.Lib.Simulation
import Knpnl.Event.AgendaRefinement
import Knpnl.Event.Schedule
import Knpnl.Http.ClientRequest
import Knpnl.Http.Exchange
import Knpnl.Net.Acceptor
import Knpnl.Http.Draining
import Knpnl.Http.Serving
import Knpnl.Event.Resting
import Knpnl.Base.BufferBounds
import Knpnl.Base.PoolDrain
import Knpnl.Http.Bounds
import Knpnl.Http.Refusing
import Knpnl.Http.Hearing
