import Mathlib.Logic.Function.Basic
import Knpnl.Http.Server
import Knpnl.Net.Closing

/-!
# `net/TcpServer` under `HttpServer`: the connections of all loops

The accepting loop and the I/O loops take steps in any order: `accept` or `epoll_wait`
returns, a callback or a task runs, a task is pushed to the queue of a loop. The loops of the
pool have threads of their own, so `RunInLoop` always queues here. Connections are numbered in
the order in which they are accepted. The kernel may use a descriptor again once
`~TcpConnection` has closed it. An assertion that fails is recorded, and the run goes on.
-/
namespace Knpnl.Http

open Lib
open Base (Recv)
open Event
open Net (TcpConnection Writev)
open Function (update)

/-- What is queued with a connection bound to it. -/
inductive TaskFunc where
  | Established
  | removeInLoop
  | Destroy
  | WriteCompleteCallback
  | handleClose
  deriving DecidableEq

/-- A queued function, its connection and the connection's loop. -/
structure ConnTask (ι : Type*) where
  func : TaskFunc
  conn : Nat
  ioLoop : ι
  deriving DecidableEq

/-- A connection, its descriptor and its loop. -/
structure Conn (ι : Type*) where
  tcp : TcpConnection HttpContext
  fd : Nat
  mLoop : ι

/-- A channel in a `channelMap`: one of the loop's own, or that of a connection. -/
inductive Entry where
  | own
  | conn (c : Nat)
  deriving DecidableEq

/-- Where the thread of a loop is: in `epoll_wait`, among the active connections with the
events they were reported for, or among the tasks of `doTask`. The loop's own channels may be
active too, and change nothing here. -/
inductive LoopPhase (ι : Type*) where
  | poll
  | events (activeChannel : List (Nat × UInt32))
  | tasks (ran rest : List (ConnTask ι))

/-- `queueing` are the calls of `QueueInLoop` that the callback or task of the thread has yet
to make. -/
structure ConnLoop (ι : Type*) where
  mTasks : List (ConnTask ι)
  phase : LoopPhase ι
  queueing : List (ConnTask ι)

/-- The assertions, and that `newConnection` finds no entry. -/
inductive Fault where
  | overwrites
  | eraseMissing
  | addPresent
  | modAbsent
  | deleteAbsent
  | deleteBusy
  | destroyBusy
  deriving DecidableEq

/-- The server's own loop is `none`, and the loops of its pool are `some i`. -/
structure TcpServer (ι : Type*) where
  conns : Nat → Option (Conn ι)
  next : Nat
  connMap : Nat → Option Nat
  channelMap : ι → Nat → Option Entry
  loops : Option ι → ConnLoop ι
  faults : List Fault

namespace HttpServer

/-- The connection on which `onMessageCallback` calls `Send`, if it does. -/
def answered (HttpCallback : HttpServeFunc) (c : TcpConnection HttpContext) :
    Option (TcpConnection HttpContext) :=
  let out := c.mContext.Request.processRead c.mReadBuffer
  let resp := c.mContext.Response
  let c := { c with mReadBuffer := out.buf, mContext := { c.mContext with Request := out.req } }
  match out.ret with
  | none | some .NO_REQUEST => none
  | some .BAD_REQUEST =>
    some (respond (c.SetAlive false) (resp.setStatusCode .CLIENT_ERROR_BAD_REQUEST))
  | some .GET_REQUEST =>
    let resp := HttpCallback out.req (resp.setStatusCode .SUCCESS_OK)
    let c := respond c resp
    let c := if resp.hasFile then c.setFile resp.mFile else c
    let c := c.SetAlive (resp.isAlive && out.req.isAlive)
    some { c with mContext := { c.mContext with Request := out.req.Init } }
  | some _ => some c

/-- The masks that `onMessageCallback` asks the poller for. -/
def messageMods (HttpCallback : HttpServeFunc) (c : TcpConnection HttpContext) : List UInt32 :=
  match answered HttpCallback c with
  | none => []
  | some c => c.sendMods

def readMods (HttpCallback : HttpServeFunc) (c : TcpConnection HttpContext) : List UInt32 :=
  let r := c.recvMessage
  if r.1 ≤ 0 then r.2.closeMods else messageMods HttpCallback r.2

/-- The masks that `HandleEventWithGuard` asks for. -/
def eventMods (HttpCallback : HttpServeFunc) (rEvent : UInt32) (c : TcpConnection HttpContext) :
    List UInt32 :=
  if has rEvent EPOLLHUP ∧ ¬ has rEvent EPOLLIN then c.closeMods
  else if has rEvent EPOLLERR then []
  else if has rEvent (EPOLLRDHUP ||| EPOLLPRI ||| EPOLLIN) then readMods HttpCallback c
  else if has rEvent EPOLLOUT then c.writeMods
  else []

/-- `Channel::HandleEvent` on the channel of a connection. -/
def HandleEvent (HttpCallback : HttpServeFunc) (rEvent : UInt32) (c : TcpConnection HttpContext) :
    TcpConnection HttpContext :=
  ((TcpConnection.callbacks fun c => (onMessageCallback HttpCallback c).conn).HandleEventWithGuard
    rEvent c).1

end HttpServer

section
variable {ι : Type*}

namespace ConnTask

/-- The loop whose thread runs a task. -/
def runsIn (t : ConnTask ι) : Option ι :=
  match t.func with
  | .removeInLoop => none
  | _ => some t.ioLoop

/-- The loop whose thread queues a task. -/
def queuedBy (t : ConnTask ι) : Option ι :=
  match t.func with
  | .Established | .Destroy => none
  | _ => some t.ioLoop

end ConnTask

namespace Conn

def bind (x : Conn ι) (c : Nat) (func : TaskFunc) : ConnTask ι := ⟨func, c, x.mLoop⟩

/-- The calls of `closeCallback` and those queued to `writeCompleteCallback`, when `x.tcp` has
become `tcp`. -/
def queued (x : Conn ι) (c : Nat) (tcp : TcpConnection HttpContext) : List (ConnTask ι) :=
  List.replicate (tcp.closes - x.tcp.closes) (x.bind c .removeInLoop) ++
    List.replicate (tcp.writeCompletes - x.tcp.writeCompletes) (x.bind c .WriteCompleteCallback)

end Conn

namespace ConnLoop

variable (L : ConnLoop ι)

/-- The tasks that the thread has yet to run. -/
def pending : List (ConnTask ι) :=
  match L.phase with
  | .tasks _ rest => rest ++ L.mTasks
  | _ => L.mTasks

/-- The tasks that own their connection. `doTask` drops them when it returns. -/
def held : List (ConnTask ι) :=
  match L.phase with
  | .tasks ran rest => ran ++ rest ++ L.mTasks ++ L.queueing
  | _ => L.mTasks ++ L.queueing

def activeChannel : List (Nat × UInt32) :=
  match L.phase with
  | .events activeChannel => activeChannel
  | _ => []

end ConnLoop
end

namespace TcpServer

variable {ι : Type*} [DecidableEq ι] (s : TcpServer ι)

/-- All loops have been started, and each has its own channels in its poller. -/
def start (own : ι → List Nat) : TcpServer ι where
  conns _ := none
  next := 0
  connMap _ := none
  channelMap i fd := if fd ∈ own i then some .own else none
  loops _ := ⟨[], .poll, []⟩
  faults := []

def assert (cond : Bool) (fault : Fault) : TcpServer ι :=
  if cond then s else { s with faults := s.faults ++ [fault] }

def setChannel (i : ι) (fd : Nat) (e : Option Entry) : TcpServer ι :=
  { s with channelMap := update s.channelMap i (update (s.channelMap i) fd e) }

def Add (i : ι) (fd c : Nat) : TcpServer ι :=
  (s.assert (s.channelMap i fd).isNone .addPresent).setChannel i fd (some (.conn c))

def Mod (i : ι) (fd c : Nat) : TcpServer ι :=
  (s.assert (s.channelMap i fd).isSome .modAbsent).setChannel i fd (some (.conn c))

/-- The loop's own channels listen for input. -/
def isIdle : Entry → Bool
  | .own => false
  | .conn c => (s.conns c).any fun x => x.tcp.mChannel.isIdle

def Delete (i : ι) (fd : Nat) : TcpServer ι :=
  ((s.assert (s.channelMap i fd).isSome .deleteAbsent).assert
    ((s.channelMap i fd).any s.isIdle) .deleteBusy).setChannel i fd none

def setConn (c : Nat) (x : Conn ι) : TcpServer ι := { s with conns := update s.conns c (some x) }

/-- The connection has become `tcp`, and has asked its poller for `mods`. -/
def handled (c : Nat) (x : Conn ι) (tcp : TcpConnection HttpContext) (mods : List UInt32) : TcpServer ι :=
  (mods.foldl (fun s _ => s.Mod x.mLoop x.fd c) s).setConn c { x with tcp := tcp }

def newConnection (connfd : Nat) (ioLoop : ι) (tcp : TcpConnection HttpContext) : TcpServer ι :=
  { s.assert (s.connMap connfd).isNone .overwrites with
    conns := update s.conns s.next (some ⟨tcp, connfd, ioLoop⟩)
    next := s.next + 1
    connMap := update s.connMap connfd (some s.next) }

/-- `size_t sz = connMap.erase(connfd)`. -/
def removeInLoop (x : Conn ι) : TcpServer ι :=
  { s.assert (s.connMap x.fd).isSome .eraseMissing with connMap := update s.connMap x.fd none }

def Established (c : Nat) (x : Conn ι) : TcpServer ι :=
  (((s.Add x.mLoop x.fd c).Mod x.mLoop x.fd c)).setConn c
    { x with tcp := x.tcp.Established HttpServer.connectedCb }

def Destroy (c : Nat) (x : Conn ι) : TcpServer ι :=
  ((s.assert x.tcp.mChannel.isIdle .destroyBusy).Delete x.mLoop x.fd).setConn c
    { x with tcp := { x.tcp with mState := .CLOSED } }

/-- `TcpServer::Close`: what it queues. -/
def Close (c : Nat) (x : Conn ι) : List (ConnTask ι) :=
  if (s.connMap x.fd).isSome then [x.bind c .handleClose] else []

def WriteCompleteCallback (c : Nat) (x : Conn ι) : List (ConnTask ι) :=
  if x.tcp.mAlive then [] else s.Close c x

/-- A task, and what it queues. -/
def runTask (t : ConnTask ι) (x : Conn ι) : TcpServer ι × List (ConnTask ι) :=
  match t.func with
  | .Established => (s.Established t.conn x, [])
  | .removeInLoop => (s.removeInLoop x, [x.bind t.conn .Destroy])
  | .Destroy => (s.Destroy t.conn x, [])
  | .WriteCompleteCallback => (s, s.WriteCompleteCallback t.conn x)
  | .handleClose =>
    (s.handled t.conn x x.tcp.handleClose x.tcp.closeMods, x.queued t.conn x.tcp.handleClose)

/-- The event of a connection, and what it queues. -/
def HandleEvent (HttpCallback : HttpServeFunc) (recvs : List Recv) (writevs : List Writev) (rEvent : UInt32)
    (c : Nat) (x : Conn ι) : TcpServer ι × List (ConnTask ι) :=
  let tcp := (x.tcp.withRecvs recvs).withWritevs writevs
  let tcp' := HttpServer.HandleEvent HttpCallback rEvent tcp
  (s.handled c x tcp' (HttpServer.eventMods HttpCallback rEvent tcp), x.queued c tcp')

/-- The thread of a loop goes on, and is to queue `queueing`. -/
def proceed (l : Option ι) (phase : LoopPhase ι) (queueing : List (ConnTask ι)) : TcpServer ι :=
  { s with loops := update s.loops l { s.loops l with phase := phase, queueing := queueing } }

/-- `tasks.swap(mTasks)`. -/
def swap (l : Option ι) : TcpServer ι :=
  { s with loops := update s.loops l ⟨[], .tasks [] (s.loops l).mTasks, []⟩ }

/-- The thread of `l` pushes a task, and has yet to push `rest`. -/
def QueueInLoop (l : Option ι) (t : ConnTask ι) (rest : List (ConnTask ι)) : TcpServer ι :=
  let loops := update s.loops l { s.loops l with queueing := rest }
  { s with
    loops := update loops t.runsIn { loops t.runsIn with mTasks := (loops t.runsIn).mTasks ++ [t] } }

/-- The thread of `l` is there, and is not about to queue anything. -/
def At (l : Option ι) (phase : LoopPhase ι) : Prop :=
  (s.loops l).phase = phase ∧ (s.loops l).queueing = []

/-- No loop's own channel and no connection has the descriptor. -/
def NotOpen (own : ι → List Nat) (fd : Nat) : Prop :=
  (∀ i, fd ∉ own i) ∧ ∀ c x, s.conns c = some x → x.fd ≠ fd

/-- What `epoll_wait` can report: a channel once, for events it is registered for, errors and
hangups. The accepting loop's poller has no connections. -/
def CanReport : Option ι → List (Nat × UInt32) → Prop
  | none, activeChannel => activeChannel = []
  | some i, activeChannel => (activeChannel.map Prod.fst).Nodup ∧
      ∀ a ∈ activeChannel, ∃ x, s.conns a.1 = some x ∧ s.channelMap i x.fd = some (.conn a.1) ∧
        a.2 &&& (x.tcp.mChannel.registered ||| EPOLLERR ||| EPOLLHUP) = a.2

/-- There is a `TcpConnPtr` to the connection. -/
def Held (c : Nat) : Prop :=
  (∃ fd, s.connMap fd = some c) ∨ ∃ l, ∃ t ∈ (s.loops l).held, t.conn = c

/-- `~TcpConnection`, which closes the descriptor. -/
def destruct (c : Nat) : TcpServer ι := { s with conns := update s.conns c none }

/-- One step of one thread. -/
inductive Step (own : ι → List Nat) (s : TcpServer ι) : TcpServer ι → Prop where
  /-- `accept` returns any descriptor that is not open, and `getNextLoop` any loop. -/
  | accept (connfd : Nat) (i : ι) (rbuf wbuf : Lib.CString.Bytes) (socket : Net.Socket) (garbage : Channel)
      (alive : Bool) (at_ : s.At none (.events [])) (free : s.NotOpen own connfd) :
      Step own s ((s.newConnection connfd i (.new rbuf wbuf {} socket garbage alive)).proceed none
        (.events []) [⟨.Established, s.next, i⟩])
  | push (l : Option ι) (t : ConnTask ι) (rest : List (ConnTask ι))
      (at_ : (s.loops l).queueing = t :: rest) : Step own s (s.QueueInLoop l t rest)
  | poll (l : Option ι) (activeChannel : List (Nat × UInt32)) (at_ : s.At l .poll)
      (can : s.CanReport l activeChannel) : Step own s (s.proceed l (.events activeChannel) [])
  | event (i : ι) (c : Nat) (rEvent : UInt32) (rest : List (Nat × UInt32)) (x : Conn ι)
      (HttpCallback : HttpServeFunc) (recvs : List Recv) (writevs : List Writev)
      (at_ : s.At (some i) (.events ((c, rEvent) :: rest))) (alive : s.conns c = some x) :
      Step own s ((s.HandleEvent HttpCallback recvs writevs rEvent c x).1.proceed (some i) (.events rest)
        (s.HandleEvent HttpCallback recvs writevs rEvent c x).2)
  | doTask (l : Option ι) (at_ : s.At l (.events [])) : Step own s (s.swap l)
  | task (l : Option ι) (t : ConnTask ι) (ran rest : List (ConnTask ι)) (x : Conn ι)
      (at_ : s.At l (.tasks ran (t :: rest))) (alive : s.conns t.conn = some x) :
      Step own s ((s.runTask t x).1.proceed l (.tasks (ran ++ [t]) rest) (s.runTask t x).2)
  | ranAll (l : Option ι) (ran : List (ConnTask ι)) (at_ : s.At l (.tasks ran [])) :
      Step own s (s.proceed l .poll [])
  | destruct (c : Nat) (alive : (s.conns c).isSome) (free : ¬ s.Held c) : Step own s (s.destruct c)

/-- The states that a server gets into. -/
def Reachable (own : ι → List Nat) (s : TcpServer ι) : Prop :=
  Lib.Reachable (· = start own) (Step own) s

end TcpServer
end Knpnl.Http
