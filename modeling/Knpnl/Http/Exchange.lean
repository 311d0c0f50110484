import Knpnl.Http.ClientRequest
import Knpnl.Http.Reading
import Knpnl.Http.Stages
import Knpnl.Net.Resuming

/-!
# A request and its response

A client sends one request, in any pieces, and the loop of its connection handles what the poller
reports for it and runs what was queued: the write-complete callback, and the close that it asks for.
The client gets the response with its file, once, and the connection is closed after the last byte of
it, or kept. A client that hangs up gets no more than a part of it.
-/
namespace Knpnl.Http

open Lib Lib.CString
open Base (FixedBuffer Recv signed)
open Event
open Net (TcpConnection Writev Socket)
open Net.TcpConnection (Sending)
open HttpRequest (Called)

/-- What is queued in the loop of a connection for it. -/
inductive LoopTask where
  | WriteCompleteCallback
  | handleClose
  deriving DecidableEq

/-- A connection, the requests handed to the user, and the tasks of its loop. -/
structure Exchange where
  conn : TcpConnection HttpContext
  calls : List (Head × Bytes)
  mTasks : List LoopTask

/-- What the poller reports, with the answers of the kernel, or the first task, or that the accepting loop
has taken the connection out of `connMap`. `found` says whether `TcpServer::Close` finds it there. -/
inductive ExchangeEvent where
  | event (rEvent : UInt32) (recvs : List Recv) (writevs : List Writev)
  | task (found : Bool)
  | Destroy

namespace Exchange

variable {handler : HttpServeFunc}

/-- A connection of `HttpServer` that has been established. -/
def start (rbuf wbuf : Bytes) (socket : Socket) (garbage : Channel) (alive : Bool) : Exchange where
  conn := (TcpConnection.new rbuf wbuf {} socket garbage alive).Established HttpServer.connectedCb
  calls := []
  mTasks := []

/-- The connection when an event is reported. -/
def given (x : Exchange) (recvs : List Recv) (writevs : List Writev) : TcpConnection HttpContext :=
  (x.conn.withRecvs recvs).withWritevs writevs

/-- The connection has become `conn`, has called the user, and has queued its completed writes. -/
def become (x : Exchange) (conn : TcpConnection HttpContext) (called : List (Head × Bytes)) : Exchange where
  conn := conn
  calls := x.calls ++ called
  mTasks := x.mTasks ++ List.replicate (conn.writeCompletes - x.conn.writeCompletes) .WriteCompleteCallback

def WriteCompleteCallback (x : Exchange) (found : Bool) : List LoopTask :=
  if x.conn.mAlive then [] else if found then [.handleClose] else []

def step (handler : HttpServeFunc) (x : Exchange) : ExchangeEvent → Exchange
  | .event rEvent recvs writevs =>
      x.become (HttpServer.HandleEvent handler rEvent (x.given recvs writevs))
        (HttpServer.eventCalls handler rEvent (x.given recvs writevs))
  | .task found =>
      match x.mTasks with
      | [] => x
      | .WriteCompleteCallback :: rest => { x with mTasks := rest ++ x.WriteCompleteCallback found }
      | .handleClose :: rest => { x with conn := x.conn.handleClose, mTasks := rest }
  | .Destroy => { x with conn := { x.conn with mState := .CLOSED } }

/-- The poller reports what the channel is registered for, errors and hangups. A connection stays in
`connMap` at least until it is closed. -/
def Enabled (x : Exchange) : ExchangeEvent → Prop
  | .event rEvent _ _ => rEvent &&& (x.conn.mChannel.registered ||| EPOLLERR ||| EPOLLHUP) = rEvent
  | .task found => x.mTasks ≠ [] ∧ (x.conn.isOpen → found = true)
  | .Destroy => ¬ x.conn.isOpen

instance (x : Exchange) : (e : ExchangeEvent) → Decidable (x.Enabled e)
  | .event _ _ _ => inferInstanceAs (Decidable (_ = _))
  | .task _ => inferInstanceAs (Decidable (_ ∧ (_ → _)))
  | .Destroy => inferInstanceAs (Decidable (¬ _))

/-- The bytes that are read and passed on. -/
def brought (x : Exchange) : ExchangeEvent → Bytes
  | .event rEvent recvs writevs => HttpServer.eventBytes rEvent (x.given recvs writevs)
  | _ => []

/-- The client does not hang up, a read finds what was reported, and `writev` does not fail. -/
def Undisturbed (x : Exchange) : ExchangeEvent → Prop
  | .event rEvent recvs writevs =>
      HttpServer.picks rEvent ≠ some .close ∧
        (HttpServer.picks rEvent = some .read → ¬ (x.given recvs writevs).Ends) ∧ .error ∉ writevs
  | _ => True

instance (x : Exchange) : (e : ExchangeEvent) → Decidable (x.Undisturbed e)
  | .event _ _ _ => inferInstanceAs (Decidable (_ ∧ _ ∧ _))
  | .task _ | .Destroy => isTrue trivial

def run (handler : HttpServeFunc) (x : Exchange) (events : List ExchangeEvent) : Exchange :=
  events.foldl (step handler) x

/-- The bytes that have come. -/
def received (handler : HttpServeFunc) (x : Exchange) (events : List ExchangeEvent) : Bytes :=
  outputs (step handler) brought x events

end Exchange

namespace HttpResponse

variable {r : HttpResponse}

/-- The bytes of the attached file. -/
def fileBytes (r : HttpResponse) : Bytes := r.mFile.getAddr.bytes.take r.mFile.getLength

/-- The response with its file. -/
def answer (r : HttpResponse) : Parsed := { r.meant with body := r.Body ++ r.fileBytes }

theorem answer_bytes (r : HttpResponse) : r.answer.bytes = r.meant.bytes ++ r.fileBytes := by
  simp [answer, meant, Parsed.bytes]

/-- The response can be sent: its lines go through `snprintf`, it fits the write buffer, and its file
has been mapped. With the file it is not longer than an `int` can say. -/
structure Fits (cap : Nat) (r : HttpResponse) : Prop where
  low : -2 ^ 31 ≤ r.ContentLength
  high : r.ContentLength < 2 ^ 31
  lines : ∀ header ∈ r.Headers.entries, LineWhole header ∧ Readable header
  room : r.meant.bytes.length ≤ cap
  mapped : r.hasFile = true → r.mFile.getLength ≤ r.mFile.getAddr.bytes.length
  short : r.answer.bytes.length < 2 ^ 31

theorem Fits.parse {cap : Nat} (h : Fits cap r) : parseResponse r.answer.bytes = some r.answer := by
  obtain ⟨hnonempty, hstatus, hfield⟩ := meant_plain fun header hmem => (h.lines header hmem).2
  exact parseResponse_bytes ⟨hnonempty, hstatus, hfield⟩

theorem Fits.pieces {cap : Nat} (h : Fits cap r) : r.pieces.flatten = r.meant.bytes :=
  pieces_whole h.low h.high fun header hmem => (h.lines header hmem).1

theorem fileBytes_of_not_hasFile (h : r.hasFile = false) : r.fileBytes = [] := by
  have haddr : r.mFile.getAddr = .null := by simpa [hasFile] using h
  rw [fileBytes, haddr]
  exact List.take_nil

end HttpResponse

section
variable {κ : Type*} {cap : Nat} {out : Bytes} {c c' : TcpConnection κ}

theorem registered_handleClose (h : c.isOpen) : c.handleClose.mChannel.registered = Channel.kNoneEvent := by
  rw [TcpConnection.handleClose, if_pos h]
  rfl

/-- What a message does to the output, however it ends. A connection that it closes asks for no events. -/
theorem sending_sent (h : Sending cap out c) (hc : c.isOpen)
    (hcases : c' = c.sendMessage.2.handleClose ∨ TcpConnection.Sent c.sendMessage.2 c')
    (hsocket : c'.mSocket = c.sendMessage.2.mSocket)
    (herror : c.sendMessage.1 = -1 → c' = c.sendMessage.2.handleClose) :
    c'.mSocket.wire <+: out ∧ (c'.isOpen → Sending cap out c') ∧
      (¬ c'.isOpen → c'.mChannel.registered = Channel.kNoneEvent) := by
  have hstate : c.sendMessage.2.isOpen := by
    rwa [TcpConnection.isOpen, (TcpConnection.sendMessage_onlySent c).state]
  obtain ⟨hwire, _⟩ := h.toWriteSound.output_sent hcases hsocket herror
  refine ⟨h.output ▸ hwire, fun hopen => ?_, fun hclosed => ?_⟩
  · have hret : c.sendMessage.1 ≠ -1 := by
      intro hret
      rw [herror hret] at hopen
      exact TcpConnection.not_isOpen_handleClose _ hopen
    have hsent := hcases.resolve_left fun heq => TcpConnection.not_isOpen_handleClose _ (heq ▸ hopen)
    have hnext := h.sendMessage hret
    refine ⟨hnext.toWriteSound.of_eq hsent.writeBuffer hsent.file, hsent.file ▸ hnext.mapped, ?_, h.short⟩
    rw [← hnext.output, TcpConnection.output_eq, TcpConnection.output_eq, TcpConnection.fileRest,
      TcpConnection.fileRest, hsocket, hsent.writeBuffer, hsent.file]
  · rcases hcases with rfl | hsent
    · exact registered_handleClose hstate
    · rw [TcpConnection.isOpen, hsent.state] at hclosed
      exact absurd hstate hclosed

/-- How a message ends that does not fail. -/
inductive Progress (out : Bytes) (c c' : TcpConnection κ) : Prop where
  | whole (wire : c'.mSocket.wire = out) (state : c'.mState = c.mState)
      (queued : c'.writeCompletes = c.writeCompletes + 1)
  | part (wire : c'.mSocket.wire ≠ out) (state : c'.mState = c.mState)
      (queued : c'.writeCompletes = c.writeCompletes) (left : c.pending ≠ 0)

theorem writeOutcome_of_clean {writevs : List Writev} (hclean : .error ∉ writevs) (n : Nat) :
    TcpConnection.writeOutcome writevs n ≠ .error ∧ TcpConnection.Conforms writevs n := by
  induction writevs generalizing n with
  | nil =>
    rw [TcpConnection.writeOutcome]
    exact ⟨by split <;> simp, trivial⟩
  | cons a rest ih =>
    cases a with
    | error => exact absurd List.mem_cons_self hclean
    | eagain =>
      rw [TcpConnection.writeOutcome]
      exact ⟨by split <;> simp, trivial⟩
    | wrote k =>
      obtain ⟨houtcome, hconforms⟩ := ih (fun h => hclean (List.mem_cons_of_mem _ h)) (n - max 1 (min k n))
      rw [TcpConnection.writeOutcome]
      refine ⟨?_, Or.inr hconforms⟩
      split
      · simp
      · exact houtcome

theorem writeOutcome_of_nothing {writevs : List Writev} (hclean : .error ∉ writevs) :
    TcpConnection.writeOutcome writevs 0 = .zero := by
  cases writevs with
  | nil => rfl
  | cons a rest =>
    cases a with
    | error => exact absurd List.mem_cons_self hclean
    | _ => rfl

/-- Unless `writev` fails, a message ends with a zero when all is out, and with what is left else. -/
theorem sending_ends (h : Sending cap out c) (hclean : .error ∉ c.mSocket.writevs) :
    c.sendMessage.1 = 0 ∧ c.sendMessage.2.mSocket.wire = out ∨
      0 < c.sendMessage.1 ∧ c.sendMessage.1 ≤ out.length ∧ c.sendMessage.2.mSocket.wire ≠ out ∧
        c.pending ≠ 0 := by
  obtain ⟨hnot, hconforms⟩ := writeOutcome_of_clean hclean c.pending
  cases h.ended hconforms with
  | zero he ret wire => exact Or.inl ⟨ret, wire⟩
  | again he pos left =>
    refine Or.inr ⟨pos, by omega, fun hwire => ?_, fun h0 => ?_⟩
    · rw [hwire] at left
      omega
    · rw [h0, writeOutcome_of_nothing hclean] at he
      cases he
  | error he => exact absurd he hnot

theorem progress_Send (h : Sending cap out c) (hclean : .error ∉ c.mSocket.writevs)
    (hshort : out.length < 2 ^ 31) :
    Progress out c c.Send := by
  have honly := TcpConnection.sendMessage_onlySent c
  rcases sending_ends h hclean with ⟨hret, hwire⟩ | ⟨hpos, hle, hwire, hleft⟩
  · have hSend : c.Send = { c.sendMessage.2 with writeCompletes := c.sendMessage.2.writeCompletes + 1 } := by
      unfold TcpConnection.Send TcpConnection.sendInLoop
      dsimp only
      rw [hret]
      rfl
    rw [hSend]
    exact .whole hwire honly.state (congrArg (· + 1) honly.writeCompletes)
  · have hsigned : signed 32 c.sendMessage.1 = c.sendMessage.1 :=
      Int.bmod_eq_of_le (by omega) (by omega)
    have hSend : c.Send = { c.sendMessage.2 with mChannel := c.sendMessage.2.mChannel.EnableWrite } := by
      unfold TcpConnection.Send TcpConnection.sendInLoop
      dsimp only
      rw [hsigned, if_neg (by omega), if_pos (by omega)]
    rw [hSend]
    exact .part hwire honly.state honly.writeCompletes hleft

theorem progress_handleWrite (h : Sending cap out c) (hclean : .error ∉ c.mSocket.writevs) :
    Progress out c c.handleWrite := by
  have honly := TcpConnection.sendMessage_onlySent c
  rcases sending_ends h hclean with ⟨hret, hwire⟩ | ⟨hpos, _, hwire, hleft⟩
  · have hwrite : c.handleWrite = { c.sendMessage.2 with
        writeCompletes := c.sendMessage.2.writeCompletes + 1
        mChannel := c.sendMessage.2.mChannel.DisableWrite } := by
      unfold TcpConnection.handleWrite
      dsimp only
      rw [hret]
      rfl
    rw [hwrite]
    exact .whole hwire honly.state (congrArg (· + 1) honly.writeCompletes)
  · have hwrite : c.handleWrite = c.sendMessage.2 := by
      unfold TcpConnection.handleWrite
      dsimp only
      rw [if_neg (by omega), if_pos hpos]
    rw [hwrite]
    exact .part hwire honly.state honly.writeCompletes hleft

end

theorem Request.Pending.waits {cap : Nat} {q : Request} {f : Head} {s : Called} {seen c : Bytes}
    (h : q.Pending cap f s seen) (hfit : q.bytes.length ≤ cap) (hclean : Clean q.body)
    (hpre : (seen ++ c) <+: q.bytes) (hlt : (seen ++ c).length < q.bytes.length) :
    (s.receive c).ret = some .NO_REQUEST ∧ q.Pending cap f (s.receive c) (seen ++ c) := by
  refine ⟨?_, (h.early hfit hpre hlt).2⟩
  have hacc := h.accepts hpre hfit
  cases h with
  | plain reference noBody n openHead =>
    have hbytes : q.bytes = q.head := by rw [Request.bytes, noBody, List.append_nil]
    rw [hbytes] at hpre hlt
    exact (openHead.stay hacc (referenceHead_proper reference hpre hlt)).1
  | withBody announced awaiting =>
    exact (awaiting.early announced (by simpa [Request.bytes] using hfit) hpre hlt).2.1 (Or.inl hclean)

namespace Session

variable {s : Session} {m : Message}

/-- While a request is incomplete nothing but the reader changes. -/
theorem reply_waiting (h : (s.called.receive m.chunk).ret = some .NO_REQUEST) :
    s.reply m = ⟨some .NO_REQUEST, none, [], none, s.afterRead m⟩ := by
  have hret : (HttpRequest.processRead (s.read m.chunk).mContext.Request (s.read m.chunk).mReadBuffer).ret =
    some .NO_REQUEST := h
  unfold reply HttpServer.onMessageCallback
  simp only [hret]
  simp [afterRead, called, Called.receive, read]

theorem served_frame (s : Session) (m : Message) (resp : HttpResponse) :
    (s.served m resp).mState = s.conn.mState ∧ (s.served m resp).writeCompletes = s.conn.writeCompletes ∧
      (s.served m resp).mAlive = (resp.isAlive && (s.called.receive m.chunk).req.isAlive) ∧
      (s.served m resp).m_iv1 =
        if resp.hasFile then ⟨resp.mFile.getAddr, resp.mFile.getLength⟩ else s.conn.m_iv1 := by
  unfold served
  cases resp.hasFile <;> exact ⟨rfl, rfl, rfl, rfl⟩

end Session

theorem ClientRequest.bytes_ne_nil (q : ClientRequest) : q.bytes ≠ [] := by
  simp [ClientRequest.bytes, Request.bytes, ClientRequest.request, crlf]

namespace Exchange

section
variable {handler : HttpServeFunc} {x : Exchange} {rEvent : UInt32} {recvs : List Recv} {writevs : List Writev}

def session (x : Exchange) : Session := ⟨x.conn, some .NO_REQUEST, x.calls⟩

/-- What a message makes of an exchange. -/
def message (handler : HttpServeFunc) (x : Exchange) (chunk : Bytes) : Exchange :=
  x.become (x.session.reply ⟨chunk, handler⟩).conn
    ((x.session.reply ⟨chunk, handler⟩).called.toList.map HttpRequest.fields)

/-- The exchange before a read that is one append. -/
def reading (x : Exchange) (recvs : List Recv) (writevs : List Writev) (b₀ : FixedBuffer) : Exchange :=
  { x with conn := readingFrom (x.given recvs writevs) b₀ }

/-- An event that brings bytes is a message. -/
theorem step_brings (handler : HttpServeFunc) (hok : x.conn.mReadBuffer.Ok)
    (h : HttpServer.Brings rEvent (x.given recvs writevs)) :
    ∃ b₀ : FixedBuffer, b₀.Ok ∧ b₀.cap = x.conn.mReadBuffer.cap ∧ b₀.unread = x.conn.mReadBuffer.unread ∧
      x.step handler (.event rEvent recvs writevs) =
        (x.reading recvs writevs b₀).message handler (x.brought (.event rEvent recvs writevs)) := by
  obtain ⟨b₀, hok₀, hcap, hunread, hread⟩ := exists_readingFrom (c := x.given recvs writevs) hok h
  refine ⟨b₀, hok₀, hcap, hunread, ?_⟩
  have hreply : (x.reading recvs writevs b₀).session.reply ⟨x.brought (.event rEvent recvs writevs), handler⟩ =
      HttpServer.onMessageCallback handler (x.given recvs writevs).recvMessage.2 :=
    congrArg (HttpServer.onMessageCallback handler) (hread _ _)
  rw [message, hreply, step, HttpServer.HandleEvent_brings h, HttpServer.eventCalls, if_pos h]
  rfl

/-- There is room for what is brought. -/
theorem length_brought_le (hok : x.conn.mReadBuffer.Ok) (h : HttpServer.Brings rEvent (x.given recvs writevs))
    {b₀ : FixedBuffer} (hok₀ : b₀.Ok) (hcap : b₀.cap = x.conn.mReadBuffer.cap)
    (hunread : b₀.unread = x.conn.mReadBuffer.unread) :
    (x.brought (.event rEvent recvs writevs)).length ≤ b₀.cap - b₀.used := by
  have hbytes := (HttpServer.eventBytes_of_brings (c := x.given recvs writevs) hok h).1
  have hused : b₀.used = x.conn.mReadBuffer.used := by
    rw [← hok₀.unread_length, hunread, hok.unread_length]
  show (HttpServer.eventBytes rEvent (x.given recvs writevs)).length ≤ b₀.cap - b₀.used
  rw [hbytes, hcap, hused, ← hok.avail_eq, Base.offer_bytes]
  exact List.length_take_le _ _

/-- Any other event calls no user. -/
theorem step_not_brings (handler : HttpServeFunc) (h : ¬ HttpServer.Brings rEvent (x.given recvs writevs)) :
    x.step handler (.event rEvent recvs writevs) =
        x.become (HttpServer.HandleEvent handler rEvent (x.given recvs writevs)) [] ∧
      x.brought (.event rEvent recvs writevs) = [] := by
  rw [step, HttpServer.eventCalls, if_neg h, brought, HttpServer.eventBytes, if_neg h]
  exact ⟨rfl, rfl⟩

/-- An event that no callback is called for. -/
theorem become_given (x : Exchange) (recvs : List Recv) (writevs : List Writev) :
    x.become (x.given recvs writevs) [] = { x with conn := x.given recvs writevs } := by
  have hnone : (x.given recvs writevs).writeCompletes - x.conn.writeCompletes = 0 := Nat.sub_self _
  rw [become, hnone, List.append_nil]
  exact congrArg (Exchange.mk _ _) (List.append_nil _)

/-- An event of a closed connection. -/
theorem step_closed (handler : HttpServeFunc) (hidle : x.conn.mChannel.registered = Channel.kNoneEvent)
    (hclosed : ¬ x.conn.isOpen) (henabled : x.Enabled (.event rEvent recvs writevs)) :
    x.step handler (.event rEvent recvs writevs) = { x with conn := x.given recvs writevs } ∧
      x.brought (.event rEvent recvs writevs) = [] := by
  have hmask : rEvent &&& (Channel.kNoneEvent ||| EPOLLERR ||| EPOLLHUP) = rEvent := hidle ▸ henabled
  have hbrings : ¬ HttpServer.Brings rEvent (x.given recvs writevs) := fun h =>
    HttpServer.picks_ne_read hmask (by decide) h.1
  obtain ⟨hstep, hbrought⟩ := step_not_brings handler hbrings
  have hsame : HttpServer.HandleEvent handler rEvent (x.given recvs writevs) = x.given recvs writevs :=
    HttpServer.HandleEvent_closed hmask hclosed
  rw [hstep, hsame, become_given]
  exact ⟨rfl, hbrought⟩

end

end Exchange

namespace Exchange

section
variable {handler : HttpServeFunc} {rcap wcap : Nat} {q : ClientRequest} {resp : HttpResponse}
  {calls : List (Head × Bytes)} {alive : Bool} {seen chunk out : Bytes} {x : Exchange} {e : ExchangeEvent}
  {rEvent : UInt32} {recvs : List Recv} {writevs : List Writev}

/-- What the callback makes of a request, on a connection that has answered none. -/
def responseTo (handler : HttpServeFunc) (req : HttpRequest) : HttpResponse :=
  handler req (({} : HttpResponse).setStatusCode .SUCCESS_OK)

/-- Nothing has been sent, queued or asked for. -/
structure Quiet (wcap : Nat) (x : Exchange) : Prop where
  readOk : x.conn.mReadBuffer.Ok
  calls : x.calls = []
  response : x.session.response = {}
  mTasks : x.mTasks = []
  isOpen : x.conn.isOpen
  registered : x.conn.mChannel.registered = Channel.kReadEvent ||| Channel.kEPollET
  writeOk : x.conn.WriteOk wcap
  output : x.conn.output = []
  file : x.conn.m_iv1 = ⟨.null, 0⟩

/-- Not all of the request has come. -/
structure Waiting (rcap wcap : Nat) (q : ClientRequest) (seen : Bytes) (x : Exchange) : Prop extends
    Quiet wcap x where
  pending : q.request.Pending rcap q.head x.session.called seen

/-- The connection has been closed before the whole request had come. -/
structure Gone (x : Exchange) : Prop where
  calls : x.calls = []
  mTasks : x.mTasks = []
  output : x.conn.output = []
  closed : ¬ x.conn.isOpen
  idle : x.conn.mChannel.registered = Channel.kNoneEvent

/-- The user has been called as `calls` say, and `out` is being sent. -/
structure Replying (wcap : Nat) (calls : List (Head × Bytes)) (alive : Bool) (out : Bytes) (x : Exchange) :
    Prop where
  calls : x.calls = calls
  alive : x.conn.mAlive = alive
  readOk : x.conn.mReadBuffer.Ok
  wire : x.conn.mSocket.wire <+: out
  sending : x.conn.isOpen → Sending wcap out x.conn
  idle : ¬ x.conn.isOpen → x.conn.mChannel.registered = Channel.kNoneEvent

/-- Nothing has disturbed the exchange: the connection is closed after the last byte, or the callback
that closes it is queued, or it is kept. -/
structure Delivering (wcap : Nat) (calls : List (Head × Bytes)) (alive : Bool) (out : Bytes) (x : Exchange) :
    Prop extends Replying wcap calls alive out x where
  queued : x.mTasks ≠ [] → x.conn.mSocket.wire = out
  closing : .handleClose ∈ x.mTasks → x.conn.mAlive = false
  closed : ¬ x.conn.isOpen → x.conn.mSocket.wire = out ∧ x.conn.mAlive = false
  kept : x.conn.isOpen → x.conn.mSocket.wire = out → x.mTasks = [] → x.conn.mAlive = true

/-- All of the request has come, and `resp` is being sent. -/
abbrev Answering (wcap : Nat) (q : ClientRequest) (resp : HttpResponse) (x : Exchange) : Prop :=
  Replying wcap [(q.head, q.body)] (resp.isAlive && q.head.isAlive) resp.answer.bytes x

abbrev AnsweringWell (wcap : Nat) (q : ClientRequest) (resp : HttpResponse) (x : Exchange) : Prop :=
  Delivering wcap [(q.head, q.body)] (resp.isAlive && q.head.isAlive) resp.answer.bytes x

theorem quiet_start {rbuf wbuf : Bytes} (hrbuf : rbuf.length < 2 ^ 31) (hwbuf : wbuf.length < 2 ^ 31)
    {socket : Socket} (hwire : socket.wire = []) (garbage : Channel) (alive : Bool) :
    Quiet wbuf.length (start rbuf wbuf socket garbage alive) := by
  constructor
  · exact FixedBuffer.fresh_ok hrbuf
  · rfl
  · rfl
  · rfl
  · exact Or.inr rfl
  · rfl
  · exact ⟨FixedBuffer.fresh_ok hwbuf, rfl⟩
  · have hempty : (FixedBuffer.fresh wbuf).unread = [] := FixedBuffer.unread_fresh hwbuf
    show socket.wire ++ ((FixedBuffer.fresh wbuf).unread ++ []) = []
    rw [hwire, hempty]
    rfl
  · rfl

theorem waiting_start (q : ClientRequest) {rbuf wbuf : Bytes} (hrbuf : rbuf.length < 2 ^ 31)
    (hwbuf : wbuf.length < 2 ^ 31) (hfit : q.bytes.length ≤ rbuf.length) {socket : Socket}
    (hwire : socket.wire = []) (garbage : Channel) (alive : Bool) :
    Waiting rbuf.length wbuf.length q [] (start rbuf wbuf socket garbage alive) :=
  ⟨quiet_start hrbuf hwbuf hwire garbage alive, Request.pending_start hrbuf q.wellFormed hfit⟩

theorem Quiet.given (h : Quiet wcap x) (recvs : List Recv) (writevs : List Writev) :
    Quiet wcap { x with conn := x.given recvs writevs } :=
  ⟨h.readOk, h.calls, h.response, h.mTasks, h.isOpen, h.registered, ⟨h.writeOk.ok, h.writeOk.cap_eq⟩, h.output,
    h.file⟩

theorem Quiet.reading (h : Quiet wcap x) (recvs : List Recv) (writevs : List Writev) {b₀ : FixedBuffer}
    (hok : b₀.Ok) : Quiet wcap (x.reading recvs writevs b₀) :=
  ⟨hok, h.calls, h.response, h.mTasks, h.isOpen, h.registered, ⟨h.writeOk.ok, h.writeOk.cap_eq⟩, h.output, h.file⟩

/-- A message that brings no request. -/
theorem Quiet.part (handler : HttpServeFunc) (h : Quiet wcap x) (hok : (x.session.called.receive chunk).buf.Ok)
    (hret : (x.session.called.receive chunk).ret = some .NO_REQUEST) :
    Quiet wcap (x.message handler chunk) ∧
      (x.session.called.receive chunk).Alike (x.message handler chunk).session.called := by
  have hreply := Session.reply_waiting (s := x.session) (m := ⟨chunk, handler⟩) hret
  rw [message, hreply]
  refine ⟨?_, rfl, hok, rfl, rfl⟩
  constructor
  · exact hok
  · exact (List.append_nil _).trans h.calls
  · exact h.response
  · show x.mTasks ++ List.replicate (x.conn.writeCompletes - x.conn.writeCompletes) _ = []
    rw [h.mTasks, Nat.sub_self]
    rfl
  · exact h.isOpen
  · exact h.registered
  · exact ⟨h.writeOk.ok, h.writeOk.cap_eq⟩
  · exact h.output
  · exact h.file

/-- A part of the request. -/
theorem Waiting.part (h : Waiting rcap wcap q seen x) (hfit : q.bytes.length ≤ rcap)
    (hpre : (seen ++ chunk) <+: q.bytes) (hlt : (seen ++ chunk).length < q.bytes.length) :
    Waiting rcap wcap q (seen ++ chunk) (x.message handler chunk) := by
  obtain ⟨hret, hnext⟩ := h.pending.waits hfit q.bodyClean hpre hlt
  obtain ⟨hquiet, halike⟩ := h.toQuiet.part handler hnext.scannable.ok hret
  exact ⟨hquiet, hnext.alike halike⟩

/-- The connection of `x` with a response on it, before it is sent. -/
structure Carries (x : Exchange) (resp : HttpResponse) (alive : Bool) (c : TcpConnection HttpContext) : Prop where
  buffer : c.mWriteBuffer = resp.appendToBuffer x.conn.mWriteBuffer
  socket : c.mSocket = x.conn.mSocket
  file : c.m_iv1 = if resp.hasFile then ⟨resp.mFile.getAddr, resp.mFile.getLength⟩ else x.conn.m_iv1
  state : c.mState = x.conn.mState
  completes : c.writeCompletes = x.conn.writeCompletes
  alive : c.mAlive = alive
  readOk : c.mReadBuffer.Ok

/-- It is the whole response. -/
theorem Quiet.sending (h : Quiet wcap x) (hfits : resp.Fits wcap) {c : TcpConnection HttpContext}
    (hc : Carries x resp alive c) : Sending wcap resp.answer.bytes c := by
  obtain ⟨hbuffer, hsocket, hiv, _⟩ := hc
  have hanswer := resp.answer_bytes
  have hshort := hfits.short
  rw [hanswer, List.length_append] at hshort
  obtain ⟨hok, hcap⟩ := HttpResponse.appendToBuffer_ok h.writeOk.ok resp
  obtain ⟨hwire, hwaiting⟩ := List.append_eq_nil_iff.mp h.output
  have hempty : x.conn.mWriteBuffer.unread = [] := (List.append_eq_nil_iff.mp hwaiting).1
  have hused : x.conn.mWriteBuffer.used = 0 := by rw [← h.writeOk.ok.unread_length, hempty, List.length_nil]
  have hunread : c.mWriteBuffer.unread = resp.meant.bytes := by
    rw [hbuffer]
    have hroom : resp.pieces.flatten.length ≤ x.conn.mWriteBuffer.cap - x.conn.mWriteBuffer.used := by
      rw [hfits.pieces, h.writeOk.cap_eq, hused]
      exact hfits.room
    exact (HttpResponse.appendToBuffer_room h.writeOk.ok hroom).trans (by rw [hempty, hfits.pieces]; rfl)
  have hrest : c.m_iv1.iov_len ≤ c.m_iv1.iov_base.bytes.length ∧ c.fileRest = resp.fileBytes := by
    cases hfile : resp.hasFile with
    | true =>
      rw [hfile, if_pos rfl] at hiv
      rw [TcpConnection.fileRest, hiv]
      exact ⟨hfits.mapped hfile, rfl⟩
    | false =>
      have hnull : c.m_iv1 = ⟨.null, 0⟩ := by
        rw [hfile, if_neg Bool.false_ne_true] at hiv
        exact hiv.trans h.file
      rw [TcpConnection.fileRest, hnull, HttpResponse.fileBytes_of_not_hasFile hfile]
      exact ⟨Nat.zero_le _, rfl⟩
  have hlen : c.fileRest.length = c.m_iv1.iov_len := by
    rw [TcpConnection.fileRest, List.length_take, min_eq_left hrest.1]
  rw [hrest.2] at hlen
  refine ⟨⟨⟨hbuffer ▸ hok, hbuffer ▸ hcap.trans h.writeOk.cap_eq⟩, by omega⟩, hrest.1, ?_, ?_⟩
  · rw [TcpConnection.output_eq, hunread, hrest.2, hanswer, hsocket, hwire, List.nil_append]
  · rw [hanswer, List.length_append]
    omega

/-- Where a message that has not failed takes the exchange. -/
theorem delivering_of_progress {c c' : TcpConnection HttpContext} {called : List (Head × Bytes)}
    (hreply : Replying wcap calls alive out (x.become c' called)) (hprogress : Progress out c c')
    (hopen : c.isOpen) (hqueued : c.writeCompletes = x.conn.writeCompletes)
    (htasks : x.mTasks ≠ [] → c.pending = 0) (hclosing : .handleClose ∈ x.mTasks → c'.mAlive = false) :
    Delivering wcap calls alive out (x.become c' called) := by
  cases hprogress with
  | whole wire state queued =>
    have hopen' : c'.isOpen := by rwa [TcpConnection.isOpen, state]
    have hone : (x.become c' called).mTasks = x.mTasks ++ [.WriteCompleteCallback] := by
      rw [become, queued, hqueued, Nat.add_sub_cancel_left]
      rfl
    refine ⟨hreply, fun _ => wire, fun hmem => ?_, fun hnot => absurd hopen' hnot, fun _ _ hnil => ?_⟩
    · rw [hone] at hmem
      exact hclosing (by simpa using hmem)
    · rw [hone] at hnil
      exact absurd hnil (List.append_ne_nil_of_right_ne_nil _ (by simp))
  | part wire state queued left =>
    have hopen' : c'.isOpen := by rwa [TcpConnection.isOpen, state]
    have hnone : x.mTasks = [] := by
      by_contra hne
      exact left (htasks hne)
    have hsame : (x.become c' called).mTasks = [] := by
      rw [become, queued, hqueued, Nat.sub_self, hnone]
      rfl
    refine ⟨hreply, fun hne => absurd hsame hne, fun hmem => ?_, fun hnot => absurd hopen' hnot,
      fun _ hwire => absurd hwire wire⟩
    rw [hsame] at hmem
    cases hmem

/-- The response goes on its way. -/
theorem Quiet.send (h : Quiet wcap x) (hfits : resp.Fits wcap) {c : TcpConnection HttpContext}
    (hc : Carries x resp alive c) (called : List (Head × Bytes)) :
    Replying wcap called alive resp.answer.bytes (x.become c.Send called) ∧
      (.error ∉ x.conn.mSocket.writevs →
        Delivering wcap called alive resp.answer.bytes (x.become c.Send called)) := by
  have hsending := h.sending hfits hc
  have hopen : c.isOpen := by
    rw [TcpConnection.isOpen, hc.state]
    exact h.isOpen
  have hsame := TcpConnection.Send_sameReader c
  obtain ⟨hwire, hopen', hidle⟩ := sending_sent hsending hopen (TcpConnection.Send_cases c)
    (TcpConnection.mSocket_Send c) TcpConnection.Send_error
  have hcalls : x.calls ++ called = called := by rw [h.calls, List.nil_append]
  have hreplying : Replying wcap called alive resp.answer.bytes (x.become c.Send called) :=
    ⟨hcalls, hsame.alive.trans hc.alive, hsame.readBuffer ▸ hc.readOk, hwire, hopen', hidle⟩
  refine ⟨hreplying, fun hclean => ?_⟩
  have hnone : ∀ task, task ∉ x.mTasks := by simp [h.mTasks]
  exact delivering_of_progress hreplying (progress_Send hsending (hc.socket ▸ hclean) hfits.short) hopen
    hc.completes (fun hne => absurd h.mTasks hne) fun hmem => absurd hmem (hnone _)

/-- The rest of the request: the callback is called, and its response is on its way. -/
theorem Waiting.rest (handler : HttpServeFunc) (h : Waiting rcap wcap q seen x) (hfit : q.bytes.length ≤ rcap)
    (hall : seen ++ chunk = q.bytes) :
    ∃ req, req.fields = (q.head, q.body) ∧ ((responseTo handler req).Fits wcap →
      Answering wcap q (responseTo handler req) (x.message handler chunk) ∧
        (.error ∉ x.conn.mSocket.writevs →
          AnsweringWell wcap q (responseTo handler req) (x.message handler chunk))) := by
  obtain ⟨hret, hstored⟩ := h.pending.last hfit hall (Or.inl q.bodyClean)
  have hfields : (x.session.called.receive chunk).req.fields = (q.head, q.body) :=
    hstored.trans (congrArg (Prod.mk q.head) (storedBody_clean q.bodyClean))
  refine ⟨_, hfields, fun hfits => ?_⟩
  generalize hreq : (x.session.called.receive chunk).req = req at hfields hfits
  have hresp : responseTo handler req = handler (x.session.called.receive chunk).req
      (x.session.response.setStatusCode .SUCCESS_OK) := by rw [h.response, hreq, responseTo]
  generalize responseTo handler req = resp at hresp hfits
  have hreply := Session.reply_get (s := x.session) (m := ⟨chunk, handler⟩) hret hresp
  have hcarries : Carries x resp (resp.isAlive && q.head.isAlive) (x.session.served ⟨chunk, handler⟩ resp) := by
    obtain ⟨hstate, hcount, halive, hiv⟩ := Session.served_frame x.session ⟨chunk, handler⟩ resp
    obtain ⟨hbuffer, _, hsocket, _⟩ := Session.written_served x.session ⟨chunk, handler⟩ resp
    have hhead : (x.session.called.receive chunk).req.toHead = q.head := hreq ▸ congrArg Prod.fst hfields
    refine ⟨hbuffer, hsocket, hiv, hstate, hcount, halive.trans ?_, ?_⟩
    · exact congrArg (fun head : Head => resp.isAlive && head.isAlive) hhead
    · unfold Session.served
      cases resp.hasFile <;> exact (scannable_receive h.pending.scannable chunk).ok
  have hcalled : (some req).toList.map HttpRequest.fields = [(q.head, q.body)] := congrArg (fun p => [p]) hfields
  rw [message, hreply]
  dsimp only
  rw [hreq, hcalled]
  exact h.toQuiet.send hfits hcarries _

/-- An event before anything has been sent. -/
inductive QuietStep (handler : HttpServeFunc) (wcap : Nat) (x : Exchange) (writevs : List Writev)
    (e : ExchangeEvent) : Prop where
  | message (y : Exchange) (quiet : Quiet wcap y) (alike : x.session.called.Alike y.session.called)
      (room : (x.brought e).length ≤ y.conn.mReadBuffer.cap - y.conn.mReadBuffer.used)
      (given : y.conn.mSocket.writevs = writevs) (step : x.step handler e = y.message handler (x.brought e))
  | same (quiet : Quiet wcap (x.step handler e))
      (alike : x.session.called.Alike (x.step handler e).session.called) (nothing : x.brought e = [])
  | gone (gone : Gone (x.step handler e)) (nothing : x.brought e = []) (disturbed : ¬ x.Undisturbed e)

theorem Quiet.gone (h : Quiet wcap x) {c : TcpConnection HttpContext} (hopen : c.isOpen)
    (hcount : c.writeCompletes = x.conn.writeCompletes) (hwrite : c.mWriteBuffer = x.conn.mWriteBuffer)
    (hwire : c.mSocket.wire = x.conn.mSocket.wire) (hfile : c.m_iv1 = x.conn.m_iv1) :
    Gone (x.become c.handleClose []) := by
  have hclose : c.handleClose =
      { c with mState := .CLOSING, mChannel := c.mChannel.DisableAll, closes := c.closes + 1 } := if_pos hopen
  constructor
  · exact (List.append_nil _).trans h.calls
  · rw [become, hclose]
    dsimp only
    rw [hcount, Nat.sub_self, h.mTasks]
    rfl
  · rw [become, hclose]
    show c.mSocket.wire ++ (c.mWriteBuffer.unread ++ c.m_iv1.iov_base.bytes.take c.m_iv1.iov_len) = []
    rw [hwire, hwrite, hfile]
    exact h.output
  · exact TcpConnection.not_isOpen_handleClose c
  · exact registered_handleClose hopen

theorem Quiet.event (handler : HttpServeFunc) (h : Quiet wcap x)
    (henabled : x.Enabled (.event rEvent recvs writevs)) :
    QuietStep handler wcap x writevs (.event rEvent recvs writevs) := by
  have hmask : rEvent &&& (Channel.kReadEvent ||| Channel.kEPollET ||| EPOLLERR ||| EPOLLHUP) = rEvent :=
    h.registered ▸ henabled
  by_cases hbrings : HttpServer.Brings rEvent (x.given recvs writevs)
  · obtain ⟨b₀, hok, hcap, hunread, hstep⟩ := step_brings handler h.readOk hbrings
    exact .message _ (h.reading recvs writevs hok) ⟨rfl, hok, hcap, hunread⟩
      (length_brought_le h.readOk hbrings hok hcap hunread) rfl hstep
  · obtain ⟨hstep, hbrought⟩ := step_not_brings handler hbrings
    have hwrite := HttpServer.picks_ne_write hmask (by decide)
    have hsame (hnone : HttpServer.HandleEvent handler rEvent (x.given recvs writevs) = x.given recvs writevs) :
        QuietStep handler wcap x writevs (.event rEvent recvs writevs) := by
      have hgiven := hstep.trans (by rw [hnone, become_given])
      exact .same (hgiven ▸ h.given recvs writevs) (hgiven ▸ ⟨rfl, h.readOk, rfl, rfl⟩) hbrought
    have hevent := HttpServer.HandleEvent_eq handler rEvent (x.given recvs writevs)
    cases hpicks : HttpServer.picks rEvent with
    | none => exact hsame (hevent.trans (by rw [hpicks]))
    | some name =>
      rw [hpicks] at hevent
      cases name with
      | error => exact hsame hevent
      | write => exact absurd hpicks hwrite
      | close =>
        refine .gone ?_ hbrought fun hund => hund.1 hpicks
        rw [hstep, hevent]
        exact h.gone h.isOpen rfl rfl rfl rfl
      | read =>
        have hends : (x.given recvs writevs).Ends := by
          by_contra hnot
          exact hbrings ⟨hpicks, hnot⟩
        refine .gone ?_ hbrought fun hund => hund.2.1 hpicks hends
        rw [hstep, hevent]
        dsimp only
        rw [TcpConnection.handleRead_of_ends hends]
        exact h.gone h.isOpen rfl rfl rfl rfl

theorem Gone.event (handler : HttpServeFunc) (h : Gone x) (henabled : x.Enabled (.event rEvent recvs writevs)) :
    Gone (x.step handler (.event rEvent recvs writevs)) ∧ x.brought (.event rEvent recvs writevs) = [] := by
  obtain ⟨hstep, hbrought⟩ := step_closed handler h.idle h.closed henabled
  rw [hstep]
  exact ⟨⟨h.calls, h.mTasks, h.output, h.closed, h.idle⟩, hbrought⟩

theorem sending_given {out : Bytes} (h : Sending wcap out x.conn) (recvs : List Recv) (writevs : List Writev) :
    Sending wcap out (x.given recvs writevs) :=
  ⟨⟨⟨h.ok, h.cap_eq⟩, h.file⟩, h.mapped, h.output, h.short⟩

theorem Replying.given (h : Replying wcap calls alive out x) (recvs : List Recv) (writevs : List Writev) :
    Replying wcap calls alive out { x with conn := x.given recvs writevs } :=
  ⟨h.calls, h.alive, h.readOk, h.wire, fun hopen => sending_given (h.sending hopen) recvs writevs, h.idle⟩

theorem Delivering.given (h : Delivering wcap calls alive out x) (recvs : List Recv) (writevs : List Writev) :
    Delivering wcap calls alive out { x with conn := x.given recvs writevs } :=
  ⟨h.toReplying.given recvs writevs, h.queued, h.closing, h.closed, h.kept⟩

/-- The connection is closed. -/
theorem Replying.close (h : Replying wcap calls alive out x) {c : TcpConnection HttpContext}
    (tasks : List LoopTask) (hopen : c.isOpen) (hok : c.mReadBuffer.Ok)
    (hwire : c.mSocket.wire = x.conn.mSocket.wire) (halive : c.mAlive = x.conn.mAlive) :
    Replying wcap calls alive out ⟨c.handleClose, x.calls, tasks⟩ := by
  have hsame := TcpConnection.handleClose_sameReader c
  refine ⟨h.calls, (hsame.alive.trans halive).trans h.alive, hsame.readBuffer ▸ hok, ?_, fun hopen' => ?_,
    fun _ => ?_⟩
  · exact (congrArg Socket.wire (TcpConnection.mSocket_handleClose c)).trans hwire ▸ h.wire
  · exact absurd hopen' (TcpConnection.not_isOpen_handleClose c)
  · exact registered_handleClose hopen

/-- Room for output. -/
theorem Replying.writable (h : Replying wcap calls alive out x) (hopen : x.conn.isOpen) (recvs : List Recv)
    (writevs : List Writev) :
    Replying wcap calls alive out (x.become (x.given recvs writevs).handleWrite []) := by
  have hsame := TcpConnection.handleWrite_sameReader (x.given recvs writevs)
  obtain ⟨hwire, hopen', hidle⟩ := sending_sent (sending_given (h.sending hopen) recvs writevs) hopen
    (TcpConnection.handleWrite_cases _) (TcpConnection.mSocket_handleWrite _) TcpConnection.handleWrite_error
  exact ⟨(List.append_nil _).trans h.calls, hsame.alive.trans h.alive, hsame.readBuffer ▸ h.readOk, hwire, hopen',
    hidle⟩

theorem Delivering.writable (h : Delivering wcap calls alive out x) (hopen : x.conn.isOpen) (recvs : List Recv)
    {writevs : List Writev} (hclean : .error ∉ writevs) :
    Delivering wcap calls alive out (x.become (x.given recvs writevs).handleWrite []) := by
  have hsending := h.sending hopen
  refine delivering_of_progress (h.toReplying.writable hopen recvs writevs)
    (progress_handleWrite (sending_given hsending recvs writevs) hclean) hopen rfl (fun hne => ?_) fun hmem => ?_
  · have hlength := hsending.wire_length
    rw [h.queued hne] at hlength
    exact (by omega : x.conn.pending = 0)
  · exact (TcpConnection.handleWrite_sameReader _).alive.trans (h.closing hmem)

/-- An event that brings no more bytes. -/
inductive ReplyingStep (handler : HttpServeFunc) (x : Exchange) (recvs : List Recv) (writevs : List Writev)
    (e : ExchangeEvent) : Prop where
  | same (step : x.step handler e = { x with conn := x.given recvs writevs })
  | write (isOpen : x.conn.isOpen) (step : x.step handler e = x.become (x.given recvs writevs).handleWrite [])
  | close (c : TcpConnection HttpContext) (tasks : List LoopTask) (isOpen : c.isOpen) (readOk : c.mReadBuffer.Ok)
      (wire : c.mSocket.wire = x.conn.mSocket.wire) (alive : c.mAlive = x.conn.mAlive)
      (step : x.step handler e = ⟨c.handleClose, x.calls, tasks⟩) (disturbed : ¬ x.Undisturbed e)

theorem become_nil (x : Exchange) (conn : TcpConnection HttpContext) :
    x.become conn [] = ⟨conn, x.calls, (x.become conn []).mTasks⟩ :=
  congrArg (fun calls => Exchange.mk conn calls _) (List.append_nil _)

theorem replyingStep (handler : HttpServeFunc) (hok : x.conn.mReadBuffer.Ok)
    (hidle : ¬ x.conn.isOpen → x.conn.mChannel.registered = Channel.kNoneEvent)
    (henabled : x.Enabled (.event rEvent recvs writevs))
    (hnothing : x.brought (.event rEvent recvs writevs) = []) :
    ReplyingStep handler x recvs writevs (.event rEvent recvs writevs) := by
  by_cases hopen : x.conn.isOpen
  · have hbrings : ¬ HttpServer.Brings rEvent (x.given recvs writevs) := fun hbrings =>
      (HttpServer.eventBytes_of_brings (c := x.given recvs writevs) hok hbrings).2 hnothing
    have hstep := (step_not_brings handler hbrings).1
    have hevent := HttpServer.HandleEvent_eq handler rEvent (x.given recvs writevs)
    cases hpicks : HttpServer.picks rEvent with
    | none =>
      rw [hpicks] at hevent
      exact .same (hstep.trans (by rw [hevent, become_given]))
    | some name =>
      rw [hpicks] at hevent
      cases name with
      | error => exact .same (hstep.trans (by rw [hevent, become_given]))
      | write => exact .write hopen (hstep.trans (by rw [hevent]))
      | close =>
        rw [hevent] at hstep
        exact .close (x.given recvs writevs) _ hopen hok rfl rfl (hstep.trans (become_nil x _)) fun hund =>
          hund.1 hpicks
      | read =>
        have hends : (x.given recvs writevs).Ends := by
          by_contra hnot
          exact hbrings ⟨hpicks, hnot⟩
        rw [hevent] at hstep
        dsimp only at hstep
        rw [TcpConnection.handleRead_of_ends hends] at hstep
        exact .close (x.given recvs writevs).recvMessage.2 _ hopen (hok.readFd recvs).took.ok rfl rfl
          (hstep.trans (become_nil x _)) fun hund => hund.2.1 hpicks hends
  · exact .same (step_closed handler (hidle hopen) hopen henabled).1

theorem Replying.event (handler : HttpServeFunc) (h : Replying wcap calls alive out x)
    (henabled : x.Enabled (.event rEvent recvs writevs))
    (hnothing : x.brought (.event rEvent recvs writevs) = []) :
    Replying wcap calls alive out (x.step handler (.event rEvent recvs writevs)) := by
  cases replyingStep handler h.readOk h.idle henabled hnothing with
  | same step => exact step ▸ h.given recvs writevs
  | write isOpen step => exact step ▸ h.writable isOpen recvs writevs
  | close c tasks isOpen readOk wire alive step disturbed => exact step ▸ h.close tasks isOpen readOk wire alive

theorem Delivering.event (handler : HttpServeFunc) (h : Delivering wcap calls alive out x)
    (henabled : x.Enabled (.event rEvent recvs writevs)) (hnothing : x.brought (.event rEvent recvs writevs) = [])
    (hund : x.Undisturbed (.event rEvent recvs writevs)) :
    Delivering wcap calls alive out (x.step handler (.event rEvent recvs writevs)) := by
  cases replyingStep handler h.readOk h.idle henabled hnothing with
  | same step => exact step ▸ h.given recvs writevs
  | write isOpen step => exact step ▸ h.writable isOpen recvs hund.2.2
  | close c tasks isOpen readOk wire alive step disturbed => exact absurd hund disturbed

theorem Replying.task (handler : HttpServeFunc) (h : Replying wcap calls alive out x) (found : Bool) :
    Replying wcap calls alive out (x.step handler (.task found)) := by
  unfold step
  cases x.mTasks with
  | nil => exact h
  | cons task rest =>
    cases task with
    | WriteCompleteCallback => exact ⟨h.calls, h.alive, h.readOk, h.wire, h.sending, h.idle⟩
    | handleClose =>
      by_cases hopen : x.conn.isOpen
      · exact h.close rest hopen h.readOk rfl rfl
      · have hsame : x.conn.handleClose = x.conn := if_neg hopen
        dsimp only
        rw [hsame]
        exact ⟨h.calls, h.alive, h.readOk, h.wire, h.sending, h.idle⟩

theorem Delivering.task (h : Delivering wcap calls alive out x) {found : Bool}
    (henabled : x.Enabled (.task found)) :
    Delivering wcap calls alive out (x.step handler (.task found)) := by
  have hreply := h.toReplying.task handler found
  obtain ⟨hne, hfound⟩ := henabled
  have hqueued := h.queued hne
  have hclosing := h.closing
  unfold step at hreply ⊢
  cases htasks : x.mTasks with
  | nil => exact absurd htasks hne
  | cons task rest =>
    rw [htasks] at hreply hclosing
    cases task with
    | WriteCompleteCallback =>
      refine ⟨hreply, fun _ => hqueued, fun hmem => ?_, h.closed, fun hopen _ hnil => ?_⟩
      · rcases List.mem_append.mp hmem with hrest | hnew
        · exact hclosing (List.mem_cons_of_mem _ hrest)
        · rw [WriteCompleteCallback] at hnew
          by_contra halive
          rw [if_pos (by simpa using halive)] at hnew
          cases hnew
      · -- with nothing queued after the callback the connection is to be kept
        have hnew := (List.append_eq_nil_iff.mp hnil).2
        rw [WriteCompleteCallback, hfound hopen] at hnew
        by_contra halive
        rw [if_neg halive] at hnew
        cases hnew
    | handleClose =>
      have hwire : x.conn.handleClose.mSocket.wire = out :=
        (TcpConnection.mSocket_handleClose x.conn).symm ▸ hqueued
      have halive : x.conn.handleClose.mAlive = false :=
        (TcpConnection.handleClose_sameReader _).alive.trans (hclosing List.mem_cons_self)
      refine ⟨hreply, fun _ => hwire, fun _ => halive, fun _ => ⟨hwire, halive⟩, fun hopen => ?_⟩
      exact absurd hopen (TcpConnection.not_isOpen_handleClose x.conn)

theorem Gone.Destroy (handler : HttpServeFunc) (h : Gone x) : Gone (x.step handler .Destroy) :=
  ⟨h.calls, h.mTasks, h.output, TcpConnection.not_isOpen_of_closed rfl, h.idle⟩

theorem Replying.Destroy (handler : HttpServeFunc) (h : Replying wcap calls alive out x)
    (henabled : x.Enabled .Destroy) : Replying wcap calls alive out (x.step handler .Destroy) :=
  ⟨h.calls, h.alive, h.readOk, h.wire, fun hopen => absurd hopen (TcpConnection.not_isOpen_of_closed rfl),
    fun _ => h.idle henabled⟩

theorem Delivering.Destroy (handler : HttpServeFunc) (h : Delivering wcap calls alive out x)
    (henabled : x.Enabled .Destroy) : Delivering wcap calls alive out (x.step handler .Destroy) :=
  ⟨h.toReplying.Destroy handler henabled, h.queued, h.closing, fun _ => h.closed henabled,
    fun hopen => absurd hopen (TcpConnection.not_isOpen_of_closed rfl)⟩

theorem Gone.step (h : Gone x) (henabled : x.Enabled e) : Gone (x.step handler e) ∧ x.brought e = [] := by
  cases e with
  | event rEvent recvs writevs => exact h.event handler henabled
  | task found => exact absurd h.mTasks henabled.1
  | Destroy => exact ⟨h.Destroy handler, rfl⟩

theorem Replying.step (h : Replying wcap calls alive out x) (henabled : x.Enabled e)
    (hnothing : x.brought e = []) : Replying wcap calls alive out (x.step handler e) := by
  cases e with
  | event rEvent recvs writevs => exact h.event handler henabled hnothing
  | task found => exact h.task handler found
  | Destroy => exact h.Destroy handler henabled

theorem Delivering.step (h : Delivering wcap calls alive out x) (henabled : x.Enabled e)
    (hnothing : x.brought e = []) (hund : x.Undisturbed e) :
    Delivering wcap calls alive out (x.step handler e) := by
  cases e with
  | event rEvent recvs writevs => exact h.event handler henabled hnothing hund
  | task found => exact h.task henabled
  | Destroy => exact h.Destroy handler henabled

section
variable (handler : HttpServeFunc) (x : Exchange) (events : List ExchangeEvent) (e : ExchangeEvent)

theorem run_concat : x.run handler (events ++ [e]) = (x.run handler events).step handler e := List.foldl_concat ..

theorem received_concat :
    x.received handler (events ++ [e]) = x.received handler events ++ (x.run handler events).brought e := by
  rw [received, outputs_append, outputs, outputs, List.append_nil]
  rfl

theorem undisturbed_concat : Along (Exchange.step handler) Undisturbed x (events ++ [e]) ↔
    Along (Exchange.step handler) Undisturbed x events ∧ (x.run handler events).Undisturbed e := by
  rw [along_append]
  exact and_congr_right fun _ => and_iff_left trivial

end

/-- `disturbed` says that the client has hung up, that a read has found nothing or that `writev` has
failed. -/
inductive Phase (handler : HttpServeFunc) (rcap wcap : Nat) (q : ClientRequest) (disturbed : Prop) (seen : Bytes)
    (x : Exchange) : Prop where
  | waiting (isPart : seen ≠ q.bytes) (waiting : Waiting rcap wcap q seen x)
  | gone (isPart : seen ≠ q.bytes) (gone : Gone x) (disturbed : disturbed)
  | replied (req : HttpRequest) (fields : req.fields = (q.head, q.body)) (isAll : seen = q.bytes)
      (replying : Answering wcap q (responseTo handler req) x)
      (delivering : ¬ disturbed → AnsweringWell wcap q (responseTo handler req) x)

theorem Phase.step {disturbed : Prop} (h : Phase handler rcap wcap q disturbed seen x)
    (hfit : q.bytes.length ≤ rcap)
    (hfits : ∀ req, req.fields = (q.head, q.body) → (responseTo handler req).Fits wcap)
    (henabled : x.Enabled e) (hpre : (seen ++ x.brought e) <+: q.bytes) :
    Phase handler rcap wcap q (disturbed ∨ ¬ x.Undisturbed e) (seen ++ x.brought e) (x.step handler e) := by
  cases h with
  | waiting isPart waiting =>
    cases e with
    | event rEvent recvs writevs =>
      cases waiting.toQuiet.event handler henabled with
      | message y quiet alike room given step =>
        have waiting : Waiting rcap wcap q seen y := ⟨quiet, waiting.pending.alike alike⟩
        rw [step]
        by_cases hall : seen ++ x.brought (.event rEvent recvs writevs) = q.bytes
        · obtain ⟨req, hfields, hreply⟩ := waiting.rest handler hfit hall
          obtain ⟨hreplying, hdelivering⟩ := hreply (hfits req hfields)
          refine .replied req hfields hall hreplying fun hnot => hdelivering fun hmem => ?_
          exact hnot (Or.inr fun hund => hund.2.2 (given ▸ hmem))
        · refine .waiting hall (waiting.part hfit hpre ?_)
          exact lt_of_le_of_ne hpre.length_le fun hlen => hall (hpre.eq_of_length hlen)
      | same quiet alike nothing =>
        rw [nothing, List.append_nil]
        exact .waiting isPart ⟨quiet, waiting.pending.alike alike⟩
      | gone gone nothing disturbed =>
        rw [nothing, List.append_nil]
        exact .gone isPart gone (Or.inr disturbed)
    | task found => exact absurd waiting.mTasks henabled.1
    | Destroy => exact absurd waiting.isOpen henabled
  | gone isPart gone disturbed =>
    obtain ⟨hgone, hnothing⟩ := gone.step henabled
    rw [hnothing, List.append_nil]
    exact .gone isPart hgone (Or.inl disturbed)
  | replied req fields isAll replying delivering =>
    have hnothing : x.brought e = [] := by
      have hlen := hpre.length_le
      rw [isAll, List.length_append] at hlen
      exact List.eq_nil_of_length_eq_zero (by omega)
    rw [hnothing, List.append_nil]
    refine .replied req fields isAll (replying.step henabled hnothing) fun hnot => ?_
    rw [not_or, not_not] at hnot
    exact (delivering hnot.1).step henabled hnothing hnot.2

theorem phase_run (hx : Waiting rcap wcap q [] x) (hne : q.bytes ≠ []) (hfit : q.bytes.length ≤ rcap)
    (hfits : ∀ req, req.fields = (q.head, q.body) → (responseTo handler req).Fits wcap)
    {events : List ExchangeEvent} (henabled : Along (Exchange.step handler) Enabled x events)
    (hpre : received handler x events <+: q.bytes) :
    Phase handler rcap wcap q (¬ Along (Exchange.step handler) Undisturbed x events) (received handler x events)
      (x.run handler events) := by
  induction events using List.reverseRecOn with
  | nil => exact .waiting hne.symm hx
  | append_singleton events e ih =>
    obtain ⟨hbefore, hlast, _⟩ := along_append.mp henabled
    rw [received_concat] at hpre ⊢
    have hphase := (ih hbefore ((List.prefix_append _ _).trans hpre)).step hfit hfits hlast hpre
    rw [run_concat, undisturbed_concat, not_and_or]
    exact hphase

end

/-- The callback has been called for the request, once, and its response is what has been sent and, on
an open connection, what is waiting. -/
def Answers (handler : HttpServeFunc) (q : ClientRequest) (x : Exchange) : Prop :=
  ∃ req, req.fields = (q.head, q.body) ∧ x.calls = [(q.head, q.body)] ∧
    x.conn.mSocket.wire <+: (responseTo handler req).answer.bytes ∧
    (x.conn.isOpen → x.conn.output = (responseTo handler req).answer.bytes)

/-- The client reads the response with its file before the connection is closed, and it is closed when
all is out and nothing is queued unless both sides keep it. -/
def Settles (handler : HttpServeFunc) (q : ClientRequest) (x : Exchange) : Prop :=
  ∃ req, req.fields = (q.head, q.body) ∧
    (¬ x.conn.isOpen →
      parseResponse x.conn.mSocket.wire = some (responseTo handler req).answer ∧
        ¬ ((responseTo handler req).isAlive ∧ q.head.isAlive)) ∧
    (x.mTasks = [] → x.conn.pending = 0 →
      parseResponse x.conn.mSocket.wire = some (responseTo handler req).answer ∧
        (x.conn.isOpen ↔ (responseTo handler req).isAlive ∧ q.head.isAlive))

section
variable {wcap : Nat} {calls : List (Head × Bytes)} {alive : Bool} {out : Bytes} {x : Exchange}

/-- A connection is closed after the last byte. -/
theorem Delivering.whole_of_closed (h : Delivering wcap calls alive out x) (hclosed : ¬ x.conn.isOpen) :
    x.conn.mSocket.wire = out ∧ alive = false := by
  obtain ⟨hwhole, halive⟩ := h.closed hclosed
  exact ⟨hwhole, h.alive.symm.trans halive⟩

/-- When all is out and nothing is queued. -/
theorem Delivering.whole_of_rest (h : Delivering wcap calls alive out x) (htasks : x.mTasks = [])
    (hpending : x.conn.pending = 0) : x.conn.mSocket.wire = out ∧ (x.conn.isOpen ↔ alive = true) := by
  by_cases hopen : x.conn.isOpen
  · have hlength := (h.sending hopen).wire_length
    have hwhole := h.wire.eq_of_length (by omega)
    exact ⟨hwhole, iff_of_true hopen (h.alive.symm.trans (h.kept hopen hwhole htasks))⟩
  · obtain ⟨hwhole, halive⟩ := h.whole_of_closed hopen
    exact ⟨hwhole, iff_of_false hopen (by simp [halive])⟩

end

theorem Delivering.settles {handler : HttpServeFunc} {wcap : Nat} {q : ClientRequest} {req : HttpRequest}
    {x : Exchange} (h : AnsweringWell wcap q (responseTo handler req) x) (fields : req.fields = (q.head, q.body))
    (hparse : parseResponse (responseTo handler req).answer.bytes = some (responseTo handler req).answer) :
    Settles handler q x := by
  refine ⟨req, fields, fun hclosed => ?_, fun htasks hpending => ?_⟩
  · obtain ⟨hwhole, halive⟩ := h.whole_of_closed hclosed
    rw [hwhole, ← Bool.and_eq_true, halive]
    exact ⟨hparse, Bool.false_ne_true⟩
  · obtain ⟨hwhole, hkept⟩ := h.whole_of_rest htasks hpending
    rw [hwhole, ← Bool.and_eq_true]
    exact ⟨hparse, hkept⟩

namespace Phase

variable {handler : HttpServeFunc} {rcap wcap : Nat} {q : ClientRequest} {disturbed : Prop} {seen : Bytes}
  {x : Exchange}

theorem answers (h : Phase handler rcap wcap q disturbed seen x) (hall : seen = q.bytes) :
    Answers handler q x := by
  cases h with
  | waiting isPart waiting => exact absurd hall isPart
  | gone isPart gone disturbed => exact absurd hall isPart
  | replied req fields isAll replying delivering =>
    exact ⟨req, fields, replying.calls, replying.wire, fun hopen => (replying.sending hopen).output⟩

theorem settles (h : Phase handler rcap wcap q disturbed seen x) (hall : seen = q.bytes) (hnot : ¬ disturbed)
    (hfits : ∀ req, req.fields = (q.head, q.body) → (responseTo handler req).Fits wcap) :
    Settles handler q x := by
  cases h with
  | waiting isPart waiting => exact absurd hall isPart
  | gone isPart gone disturbed => exact absurd hall isPart
  | replied req fields isAll replying delivering =>
    exact (delivering hnot).settles fields (hfits req fields).parse

end Phase

section
variable (q : ClientRequest) (handler : HttpServeFunc) (rbuf wbuf : Bytes) (hrbuf : rbuf.length < 2 ^ 31)
  (hwbuf : wbuf.length < 2 ^ 31) (hfit : q.bytes.length ≤ rbuf.length)
  (hfits : ∀ req, req.fields = (q.head, q.body) → (responseTo handler req).Fits wbuf.length) (socket : Socket)
  (hwire : socket.wire = []) (garbage : Channel) (alive : Bool) (events : List ExchangeEvent)
  (henabled : Along (step handler) Enabled (start rbuf wbuf socket garbage alive) events)

include hrbuf hwbuf hfit hfits hwire henabled

/-- Unless the client hangs up, a read finds nothing or `writev` fails, the connection is closed or kept
as both sides ask for, and not before the client has the whole response. -/
theorem settles_run (hall : received handler (start rbuf wbuf socket garbage alive) events = q.bytes)
    (hund : Along (step handler) Undisturbed (start rbuf wbuf socket garbage alive) events) :
    Settles handler q ((start rbuf wbuf socket garbage alive).run handler events) := by
  have hpre : received handler (start rbuf wbuf socket garbage alive) events <+: q.bytes :=
    hall ▸ List.prefix_refl _
  have hphase := phase_run (waiting_start q hrbuf hwbuf hfit hwire garbage alive) q.bytes_ne_nil hfit hfits
    henabled hpre
  exact hphase.settles hall (not_not.mpr hund) hfits

end

/-- A page with three bytes of a file. -/
def report : HttpResponse := { HttpResponse.page with mFile := Net.Output.abc, ContentLength := 3 }

theorem report_fits : report.Fits (List.replicate 256 (0 : UInt8)).length := by
  have hlines : ∀ header ∈ report.Headers.entries,
      HttpResponse.LineWhole header ∧ HttpResponse.Readable header := by
    unfold HttpResponse.Readable
    decide
  exact ⟨by decide, by decide, hlines, by decide +kernel, by decide, by decide +kernel⟩

def sendReport : HttpServeFunc := fun _ _ => report

/-- A new connection with small buffers. -/
def visited : Exchange := start (List.replicate 128 0) (List.replicate 256 0) ⟨[], [], []⟩ ⟨0, 0⟩ true

/-- The request comes in two parts and its response goes out in two, and then the connection is closed. -/
def visit : List ExchangeEvent :=
  [.event EPOLLIN [.data (form.bytes.take 20)] [],
    .event EPOLLIN [.data ((form.bytes.drop 20).take 5), .data (form.bytes.drop 25), .eagain]
      [.wrote 20, .eagain],
    .event EPOLLOUT [] [.wrote 300], .task true, .task true, .Destroy]

theorem settles_run_form : Settles sendReport form (visited.run sendReport visit) :=
  settles_run form sendReport (List.replicate 128 0) (List.replicate 256 0) (by decide +kernel)
    (by decide +kernel) (by decide +kernel) (fun _ _ => report_fits) ⟨[], [], []⟩ rfl ⟨0, 0⟩ true visit
    (by decide +kernel) (by decide +kernel) (by decide +kernel)

end Exchange

end Knpnl.Http
