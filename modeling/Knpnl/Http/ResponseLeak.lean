import Knpnl.Http.KeepAlive
import Knpnl.Net.Sending

/-!
# What one response of a connection tells of earlier ones

The response object lives as long as the connection and only its status is set before
each answer. Two sessions with the same last request are compared. As long as the
parser has not returned a request the response is as constructed; once it has, a
rejected message is answered with whatever the handler had left.
-/
namespace Knpnl.Http

open Lib.CString
open Base (FixedBuffer)
open Net (TcpConnection)
open HttpRequest (Called processRead)

/-- A chunk is read, and the parser is rewound after a request. -/
def HttpRequest.Called.next (s : Called) (chunk : Bytes) : Called :=
  let out := s.receive chunk
  if out.ret = some .GET_REQUEST then { out with req := out.req.Init } else out

/-- The parser of a connection after some chunks. -/
def parsed (rbuf : Bytes) (chunks : List Bytes) : Called := chunks.foldl Called.next (.start rbuf)

namespace Session

variable {s : Session} {m : Message}

theorem called_step (s : Session) (m : Message) : (s.step m).called = s.called.next m.chunk := by
  unfold Called.next
  by_cases hget : (s.called.receive m.chunk).ret = some .GET_REQUEST
  · rw [(step_of_get hget).1]
    dsimp only
    rw [if_pos hget]
  · rw [(step_of_not_get hget).1]
    dsimp only
    rw [if_neg hget]

theorem called_run (s : Session) (ms : List Message) :
    (s.run ms).called = (ms.map Message.chunk).foldl Called.next s.called := by
  induction ms generalizing s with
  | nil => rfl
  | cons m ms ih =>
    rw [List.map_cons, List.foldl_cons, ← called_step]
    exact ih (s.step m)

/-- The response a session would give before the status of an answer is set. -/
abbrev response (s : Session) : HttpResponse := s.conn.mContext.Response

/-- The connection when `processRead` has returned. -/
def afterRead (s : Session) (m : Message) : TcpConnection HttpContext :=
  { s.read m.chunk with
    mReadBuffer := (s.called.receive m.chunk).buf
    mContext := { s.conn.mContext with Request := (s.called.receive m.chunk).req } }

/-- The connection `c` has `resp` in its write buffer and as its response, and is as `c₀`
was before in what it sends else. -/
structure Written (c₀ : TcpConnection HttpContext) (resp : HttpResponse)
    (c : TcpConnection HttpContext) : Prop where
  buffer : c.mWriteBuffer = resp.appendToBuffer c₀.mWriteBuffer
  response : c.mContext.Response = resp
  socket : c.mSocket = c₀.mSocket
  file : resp.hasFile = false → c.m_iv1 = c₀.m_iv1

theorem written_respond {c₀ c : TcpConnection HttpContext} (resp : HttpResponse)
    (hbuffer : c.mWriteBuffer = c₀.mWriteBuffer) (hsocket : c.mSocket = c₀.mSocket)
    (hfile : c.m_iv1 = c₀.m_iv1) : Written c₀ resp (HttpServer.respond c resp) := by
  constructor
  · unfold HttpServer.respond
    dsimp only
    rw [hbuffer]
  · rfl
  · exact hsocket
  · exact fun _ => hfile

/-- A rejected message is answered at once. -/
theorem reply_bad (h : (s.called.receive m.chunk).ret = some .BAD_REQUEST) :
    ∃ c, Written s.conn (s.response.setStatusCode .CLIENT_ERROR_BAD_REQUEST) c ∧
      s.reply m = ⟨some .BAD_REQUEST, none,
        HttpServer.addedBytes s.conn.mWriteBuffer c.mWriteBuffer, none, c.Send⟩ := by
  refine ⟨HttpServer.respond ((s.afterRead m).SetAlive false)
    (s.response.setStatusCode .CLIENT_ERROR_BAD_REQUEST), written_respond _ rfl rfl rfl, ?_⟩
  unfold reply HttpServer.onMessageCallback
  have hret : (processRead (s.read m.chunk).mContext.Request (s.read m.chunk).mReadBuffer).ret =
    some .BAD_REQUEST := h
  simp only [hret]
  rfl

/-- The connection when a request has been answered with `resp`. -/
def served (s : Session) (m : Message) (resp : HttpResponse) : TcpConnection HttpContext :=
  let req := (s.called.receive m.chunk).req
  let c := HttpServer.respond (s.afterRead m) resp
  let c := if resp.hasFile then c.setFile resp.mFile else c
  let c := c.SetAlive (resp.isAlive && req.isAlive)
  { c with mContext := { c.mContext with Request := req.Init } }

theorem written_served (s : Session) (m : Message) (resp : HttpResponse) :
    Written s.conn resp (s.served m resp) := by
  have hwritten : Written s.conn resp (HttpServer.respond (s.afterRead m) resp) :=
    written_respond resp rfl rfl rfl
  obtain ⟨hbuffer, hresponse, hsocket, hfile⟩ := hwritten
  unfold served
  cases hno : resp.hasFile with
  | true => exact ⟨hbuffer, hresponse, hsocket, fun hf => by rw [hno] at hf; cases hf⟩
  | false => exact ⟨hbuffer, hresponse, hsocket, fun _ => hfile hno⟩

/-- A request is answered with what the handler makes of the response. -/
theorem reply_get (h : (s.called.receive m.chunk).ret = some .GET_REQUEST) {resp : HttpResponse}
    (hresp : resp = m.handler (s.called.receive m.chunk).req (s.response.setStatusCode .SUCCESS_OK)) :
    s.reply m = ⟨some .GET_REQUEST, some (s.called.receive m.chunk).req,
      HttpServer.addedBytes s.conn.mWriteBuffer (s.served m resp).mWriteBuffer,
      if resp.hasFile then some resp.mFile else none, (s.served m resp).Send⟩ := by
  have hret : (processRead (s.read m.chunk).mContext.Request (s.read m.chunk).mReadBuffer).ret =
    some .GET_REQUEST := h
  have hresp' : m.handler (processRead (s.read m.chunk).mContext.Request
    (s.read m.chunk).mReadBuffer).req ((s.read m.chunk).mContext.Response.setStatusCode .SUCCESS_OK) =
      resp := hresp.symm
  rw [(s.written_served m resp).buffer]
  unfold reply HttpServer.onMessageCallback served
  simp only [hret, hresp']
  cases resp.hasFile <;> rfl

/-- Any other message writes nothing. -/
theorem reply_silent (hbad : (s.called.receive m.chunk).ret ≠ some .BAD_REQUEST)
    (hget : (s.called.receive m.chunk).ret ≠ some .GET_REQUEST) :
    (s.reply m).ret = (s.called.receive m.chunk).ret ∧ (s.reply m).added = [] ∧
      (s.reply m).file = none ∧
      ((s.reply m).conn = s.afterRead m ∨ (s.reply m).conn = (s.afterRead m).Send) := by
  unfold reply HttpServer.onMessageCallback
  cases hcode : (s.called.receive m.chunk).ret with
  | none =>
    have hret : (processRead (s.read m.chunk).mContext.Request (s.read m.chunk).mReadBuffer).ret =
      none := hcode
    simp only [hret]
    exact ⟨trivial, trivial, trivial, Or.inl rfl⟩
  | some code =>
    have hret : (processRead (s.read m.chunk).mContext.Request (s.read m.chunk).mReadBuffer).ret =
      some code := hcode
    rw [hcode] at hbad hget
    cases code with
    | BAD_REQUEST => exact absurd rfl hbad
    | GET_REQUEST => exact absurd rfl hget
    | NO_REQUEST =>
      simp only [hret]
      exact ⟨trivial, trivial, trivial, Or.inl rfl⟩
    | _ =>
      simp only [hret]
      exact ⟨trivial, trivial, trivial, Or.inr rfl⟩

theorem response_bad (h : (s.called.receive m.chunk).ret = some .BAD_REQUEST) :
    (s.step m).response = s.response.setStatusCode .CLIENT_ERROR_BAD_REQUEST := by
  obtain ⟨c, hwritten, hreply⟩ := reply_bad h
  simp only [response, step, hreply, TcpConnection.mContext_Send]
  exact hwritten.response

theorem response_get (h : (s.called.receive m.chunk).ret = some .GET_REQUEST) :
    (s.step m).response =
      m.handler (s.called.receive m.chunk).req (s.response.setStatusCode .SUCCESS_OK) := by
  simp only [response, step, reply_get h rfl, TcpConnection.mContext_Send]
  exact (written_served _ _ _).response

theorem response_silent (hbad : (s.called.receive m.chunk).ret ≠ some .BAD_REQUEST)
    (hget : (s.called.receive m.chunk).ret ≠ some .GET_REQUEST) :
    (s.step m).response = s.response := by
  obtain ⟨_, _, _, hconn⟩ := reply_silent hbad hget
  simp only [response, step]
  rcases hconn with hconn | hconn
  · rw [hconn]
    rfl
  · rw [hconn, TcpConnection.mContext_Send]
    rfl

/-- Up to its status, the response is `resp`. -/
def Responds (s : Session) (resp : HttpResponse) : Prop :=
  ∃ st, s.response = resp.setStatusCode st

theorem Responds.step {resp : HttpResponse} (h : s.Responds resp)
    (hget : (s.called.receive m.chunk).ret ≠ some .GET_REQUEST) : (s.step m).Responds resp := by
  obtain ⟨st, hst⟩ := h
  by_cases hbad : (s.called.receive m.chunk).ret = some .BAD_REQUEST
  · refine ⟨.CLIENT_ERROR_BAD_REQUEST, ?_⟩
    rw [response_bad hbad, hst]
    rfl
  · exact ⟨st, (response_silent hbad hget).trans hst⟩

/-- A request is completed only if none was before. -/
theorem OnceOnly.first (h : s.OnceOnly) (hget : (s.called.receive m.chunk).ret = some .GET_REQUEST) :
    s.calls = [] := by
  rcases h with hnone | ⟨_, hst⟩
  · exact hnone
  · exact absurd hget
      (HttpRequest.processRead_success s.called.req (s.called.buf.append m.chunk).buf hst).1

/-- Until the user has been called the response is as constructed. -/
theorem responds_run (h : s.calls = [] → s.Responds {}) (ms : List Message)
    (hnone : (s.run ms).calls = []) : (s.run ms).Responds {} := by
  induction ms using List.reverseRecOn with
  | nil => exact h hnone
  | append_singleton ms m ih =>
    rw [run_concat] at hnone ⊢
    by_cases hget : ((s.run ms).called.receive m.chunk).ret = some .GET_REQUEST
    · rw [(step_of_get hget).2] at hnone
      simp at hnone
    · rw [(step_of_not_get hget).2] at hnone
      exact (ih hnone).step hget

/-- Once the user has been called the response is as the handler left it. -/
theorem OnceOnly.responds_run (honce : s.OnceOnly) (h : s.Responds {}) (hnew : s.calls = [])
    {g : HttpResponse → HttpResponse}
    (hg : ∀ resp st, g (resp.setStatusCode st) = (g resp).setStatusCode st) (ms : List Message)
    (hms : ∀ m ∈ ms, m.handler = fun _ => g) (hcalled : (s.run ms).calls ≠ []) :
    (s.run ms).Responds (g {}) := by
  induction ms using List.reverseRecOn with
  | nil => exact absurd hnew hcalled
  | append_singleton ms m ih =>
    rw [run_concat] at hcalled ⊢
    by_cases hget : ((s.run ms).called.receive m.chunk).ret = some .GET_REQUEST
    · obtain ⟨st, hst⟩ := Session.responds_run (fun _ => h) ms ((honce.run ms).first hget)
      refine ⟨.SUCCESS_OK, ?_⟩
      rw [response_get hget, hms m (by simp), hst]
      exact hg {} .SUCCESS_OK
    · rw [(step_of_not_get hget).2] at hcalled
      exact (ih (fun m hm => hms m (by simp [hm])) hcalled).step hget

/-- `c` is `c₀` with `resp` written to it, or with nothing written. -/
structure Sends (c₀ : TcpConnection HttpContext) (resp : HttpResponse)
    (c : TcpConnection HttpContext) : Prop where
  buffer : c.mWriteBuffer = c₀.mWriteBuffer ∨ c.mWriteBuffer = resp.appendToBuffer c₀.mWriteBuffer
  socket : c.mSocket = c₀.mSocket
  file : resp.hasFile = false → c.m_iv1 = c₀.m_iv1

theorem Written.sends {c₀ c : TcpConnection HttpContext} {resp : HttpResponse}
    (h : Written c₀ resp c) : Sends c₀ resp c := ⟨Or.inr h.buffer, h.socket, h.file⟩

theorem sends_step (s : Session) (m : Message) :
    ∃ c, Sends s.conn (s.step m).response c ∧
      ((s.step m).conn = c ∧ c.mWriteBuffer = s.conn.mWriteBuffer ∨ (s.step m).conn = c.Send) := by
  by_cases hbad : (s.called.receive m.chunk).ret = some .BAD_REQUEST
  · obtain ⟨c, hwritten, hreply⟩ := reply_bad hbad
    rw [response_bad hbad]
    exact ⟨c, hwritten.sends, Or.inr (by simp only [step, hreply])⟩
  · by_cases hget : (s.called.receive m.chunk).ret = some .GET_REQUEST
    · rw [response_get hget]
      exact ⟨_, (written_served s m _).sends, Or.inr (by simp only [step, reply_get hget rfl])⟩
    · obtain ⟨_, _, _, hconn⟩ := reply_silent hbad hget
      exact ⟨s.afterRead m, ⟨Or.inl rfl, rfl, fun _ => rfl⟩, hconn.imp (⟨·, rfl⟩) id⟩

namespace Sends

variable {cap k : Nat} {c₀ c : TcpConnection HttpContext} {resp : HttpResponse}

theorem writeOk (h : Sends c₀ resp c) (hok : c₀.WriteOk cap) : c.WriteOk cap := by
  rcases h.buffer with hbuffer | hbuffer
  · exact ⟨hbuffer ▸ hok.ok, hbuffer ▸ hok.cap_eq⟩
  · obtain ⟨happ, hcap⟩ := HttpResponse.appendToBuffer_ok hok.ok resp
    exact ⟨hbuffer ▸ happ, hbuffer ▸ hcap.trans hok.cap_eq⟩

theorem eager (h : Sends c₀ resp c) (hno : resp.hasFile = false) (heager : c₀.Eager cap k) :
    c.Eager cap k := by
  obtain ⟨hok, hcap⟩ := h.writeOk heager.toWriteOk
  exact ⟨⟨hok, hcap⟩, (h.file hno).trans heager.noFile, h.socket ▸ heager.writevs⟩

end Sends

theorem writeOk_run {cap : Nat} (h : s.conn.WriteOk cap) (ms : List Message) :
    (s.run ms).conn.WriteOk cap := by
  induction ms generalizing s with
  | nil => exact h
  | cons m ms ih =>
    obtain ⟨c, hsends, ⟨hconn, _⟩ | hconn⟩ := sends_step s m
    · exact ih (hconn ▸ hsends.writeOk h)
    · exact ih (hconn ▸ (hsends.writeOk h).Send)

/-- A response that fits is added whole. -/
theorem Written.added {cap : Nat} {c₀ c : TcpConnection HttpContext} {resp : HttpResponse}
    (h : Written c₀ resp c) (hok : c₀.WriteOk cap)
    (hroom : resp.pieces.flatten.length ≤ cap - c₀.mWriteBuffer.used) :
    HttpServer.addedBytes c₀.mWriteBuffer c.mWriteBuffer = resp.pieces.flatten := by
  rw [← hok.cap_eq] at hroom
  rw [HttpServer.addedBytes, h.buffer, HttpResponse.appendToBuffer_room hok.ok hroom, List.drop_left]

end Session

/-- A new connection has a write buffer of the size that the code gives it. -/
def Session.New (rbuf : Bytes) (s : Session) : Prop :=
  ∃ wbuf socket garbage alive, wbuf.length = FixedBuffer.kBufferSize ∧
    s = .start rbuf wbuf socket garbage alive

/-- If a message is answered, the write buffer has room for the response. -/
def Session.HasRoom (s : Session) (m : Message) : Prop :=
  (s.reply m).ret = some .BAD_REQUEST ∨ (s.reply m).ret = some .GET_REQUEST →
    (s.step m).response.pieces.flatten.length ≤ FixedBuffer.kBufferSize - s.conn.mWriteBuffer.used

/-- Two sessions agree on their next message: the parser's outcome, the request, and what
the handler does for it. Both have room for the response. -/
structure SameMessage (s₁ s₂ : Session) (m₁ m₂ : Message) : Prop where
  ret : (s₁.reply m₁).ret = (s₂.reply m₂).ret
  request : (s₁.reply m₁).called.map HttpRequest.fields = (s₂.reply m₂).called.map HttpRequest.fields
  handler : (s₁.reply m₁).called.map m₁.handler = (s₂.reply m₂).called.map m₂.handler
  room₁ : s₁.HasRoom m₁
  room₂ : s₂.HasRoom m₂

/-- Whatever the handlers, the kernel and the user do in two sessions that bring these
chunks, the responses to messages they agree on are the same. -/
def NoLeak (rbuf₁ rbuf₂ : Bytes) (chunks₁ chunks₂ : List Bytes) (last₁ last₂ : Bytes) : Prop :=
  ∀ s₁ s₂, Session.New rbuf₁ s₁ → Session.New rbuf₂ s₂ → ∀ ms₁ ms₂ m₁ m₂,
    ms₁.map Message.chunk = chunks₁ → ms₂.map Message.chunk = chunks₂ →
    m₁.chunk = last₁ → m₂.chunk = last₂ → SameMessage (s₁.run ms₁) (s₂.run ms₂) m₁ m₂ →
    ((s₁.run ms₁).reply m₁).added = ((s₂.run ms₂).reply m₂).added ∧
      ((s₁.run ms₁).reply m₁).file = ((s₂.run ms₂).reply m₂).file

/-- One of the chunks completes a request. -/
def HttpRequest.Called.Completes (s : Called) : List Bytes → Prop
  | [] => False
  | chunk :: chunks => (s.receive chunk).ret = some .GET_REQUEST ∨ (s.next chunk).Completes chunks

namespace Session

variable {rbuf : Bytes} {s : Session} {m : Message}

theorem New.fresh (h : s.New rbuf) : Fresh rbuf s := by
  obtain ⟨wbuf, socket, garbage, alive, _, rfl⟩ := h
  exact fresh_start rbuf wbuf socket garbage alive

theorem New.responds (h : s.New rbuf) : s.Responds {} := by
  obtain ⟨wbuf, socket, garbage, alive, _, rfl⟩ := h
  exact ⟨.CLIENT_ERROR_NOT_FOUND, rfl⟩

theorem New.writeOk (h : s.New rbuf) (ms : List Message) :
    (s.run ms).conn.WriteOk FixedBuffer.kBufferSize := by
  obtain ⟨wbuf, socket, garbage, alive, hlen, rfl⟩ := h
  exact writeOk_run ⟨Base.FixedBuffer.fresh_ok (by rw [hlen]; decide), hlen⟩ ms

theorem New.called_run (h : s.New rbuf) (ms : List Message) :
    (s.run ms).called = parsed rbuf (ms.map Message.chunk) := by
  rw [Session.called_run, h.fresh.called]
  rfl

/-- The user has been called when a chunk has completed a request. -/
theorem calls_run (s : Session) (ms : List Message) :
    (s.run ms).calls ≠ [] ↔ s.calls ≠ [] ∨ s.called.Completes (ms.map Message.chunk) := by
  induction ms generalizing s with
  | nil => simp [run, Called.Completes]
  | cons m ms ih =>
    rw [show s.run (m :: ms) = (s.step m).run ms from rfl, ih, called_step, List.map_cons,
      Called.Completes]
    by_cases hget : (s.called.receive m.chunk).ret = some .GET_REQUEST
    · simp [(step_of_get hget).2, hget]
    · simp [(step_of_not_get hget).2, hget]

theorem New.calls_run (h : s.New rbuf) (ms : List Message) :
    (s.run ms).calls ≠ [] ↔ (Called.start rbuf).Completes (ms.map Message.chunk) := by
  rw [Session.calls_run, h.fresh.calls, h.fresh.called]
  simp

theorem reply_ret (s : Session) (m : Message) :
    (s.reply m).ret = (s.called.receive m.chunk).ret := by
  by_cases hbad : (s.called.receive m.chunk).ret = some .BAD_REQUEST
  · obtain ⟨c, _, hreply⟩ := reply_bad hbad
    rw [hreply, hbad]
  · by_cases hget : (s.called.receive m.chunk).ret = some .GET_REQUEST
    · rw [reply_get hget rfl, hget]
    · exact (reply_silent hbad hget).1

theorem added_bad (hok : s.conn.WriteOk FixedBuffer.kBufferSize) (hroom : s.HasRoom m)
    (hbad : (s.called.receive m.chunk).ret = some .BAD_REQUEST) :
    (s.reply m).added = (s.response.setStatusCode .CLIENT_ERROR_BAD_REQUEST).pieces.flatten ∧
      (s.reply m).file = none := by
  have hfits := hroom (Or.inl ((reply_ret s m).trans hbad))
  rw [response_bad hbad] at hfits
  obtain ⟨c, hwritten, hreply⟩ := reply_bad hbad
  rw [hreply]
  exact ⟨hwritten.added hok hfits, rfl⟩

theorem added_get (hok : s.conn.WriteOk FixedBuffer.kBufferSize) (hroom : s.HasRoom m)
    (hget : (s.called.receive m.chunk).ret = some .GET_REQUEST) {resp : HttpResponse}
    (hresp : resp = m.handler (s.called.receive m.chunk).req (s.response.setStatusCode .SUCCESS_OK)) :
    (s.reply m).added = resp.pieces.flatten ∧
      (s.reply m).file = if resp.hasFile then some resp.mFile else none := by
  have hfits := hroom (Or.inr ((reply_ret s m).trans hget))
  rw [response_get hget, ← hresp] at hfits
  rw [reply_get hget hresp]
  exact ⟨(written_served s m resp).added hok hfits, rfl⟩

end Session

/-- Both last chunks are rejected, and in one of the sessions a request was completed before. -/
structure RejectedLate (rbuf₁ rbuf₂ : Bytes) (chunks₁ chunks₂ : List Bytes) (last₁ last₂ : Bytes) :
    Prop where
  rejected₁ : ((parsed rbuf₁ chunks₁).receive last₁).ret = some .BAD_REQUEST
  rejected₂ : ((parsed rbuf₂ chunks₂).receive last₂).ret = some .BAD_REQUEST
  completed : (Called.start rbuf₁).Completes chunks₁ ∨ (Called.start rbuf₂).Completes chunks₂

/-- The response of a session in which no request has been completed. -/
theorem Session.New.response_first {rbuf : Bytes} {s : Session} (h : s.New rbuf) {ms : List Message}
    (hnone : (s.run ms).calls = []) (st : STATUS_CODE) :
    (s.run ms).response.setStatusCode st = ({} : HttpResponse).setStatusCode st := by
  obtain ⟨st', hst⟩ := Session.responds_run (fun _ => h.responds) ms hnone
  rw [hst]
  rfl

section
variable {rbuf₁ rbuf₂ : Bytes} {chunks₁ chunks₂ : List Bytes} {last₁ last₂ : Bytes}

theorem noLeak_of_not_late (h : ¬ RejectedLate rbuf₁ rbuf₂ chunks₁ chunks₂ last₁ last₂) :
    NoLeak rbuf₁ rbuf₂ chunks₁ chunks₂ last₁ last₂ := by
  rintro s₁ s₂ hnew₁ hnew₂ ms₁ ms₂ m₁ m₂ rfl rfl rfl rfl hsame
  have hret := hsame.ret
  rw [Session.reply_ret, Session.reply_ret] at hret
  by_cases hbad : ((s₁.run ms₁).called.receive m₁.chunk).ret = some .BAD_REQUEST
  · have hbad₂ := hret.symm.trans hbad
    have hnone : (s₁.run ms₁).calls = [] ∧ (s₂.run ms₂).calls = [] := by
      by_contra hcalled
      refine h ⟨by rw [← hnew₁.called_run, hbad], by rw [← hnew₂.called_run, hbad₂], ?_⟩
      rw [← hnew₁.calls_run, ← hnew₂.calls_run]
      exact not_and_or.mp hcalled
    obtain ⟨hadded₁, hfile₁⟩ := Session.added_bad (hnew₁.writeOk ms₁) hsame.room₁ hbad
    obtain ⟨hadded₂, hfile₂⟩ := Session.added_bad (hnew₂.writeOk ms₂) hsame.room₂ hbad₂
    rw [hadded₁, hadded₂, hfile₁, hfile₂, hnew₁.response_first hnone.1, hnew₂.response_first hnone.2]
    exact ⟨rfl, rfl⟩
  · by_cases hget : ((s₁.run ms₁).called.receive m₁.chunk).ret = some .GET_REQUEST
    · have hget₂ := hret.symm.trans hget
      have hfirst₁ := (hnew₁.fresh.onceOnly.run ms₁).first hget
      have hfirst₂ := (hnew₂.fresh.onceOnly.run ms₂).first hget₂
      have hhandler := hsame.handler
      rw [Session.reply_get hget rfl, Session.reply_get hget₂ rfl] at hhandler
      obtain ⟨hadded₁, hfile₁⟩ := Session.added_get (hnew₁.writeOk ms₁) hsame.room₁ hget rfl
      obtain ⟨hadded₂, hfile₂⟩ := Session.added_get (hnew₂.writeOk ms₂) hsame.room₂ hget₂ rfl
      rw [hadded₁, hadded₂, hfile₁, hfile₂, hnew₁.response_first hfirst₁, hnew₂.response_first hfirst₂,
        Option.some.inj hhandler]
      exact ⟨rfl, rfl⟩
    · obtain ⟨_, hadded₁, hfile₁, _⟩ := Session.reply_silent hbad hget
      obtain ⟨_, hadded₂, hfile₂, _⟩ :=
        Session.reply_silent (s := s₂.run ms₂) (m := m₂) (hret ▸ hbad) (hret ▸ hget)
      exact ⟨hadded₁.trans hadded₂.symm, hfile₁.trans hfile₂.symm⟩

theorem NoLeak.symm (h : NoLeak rbuf₁ rbuf₂ chunks₁ chunks₂ last₁ last₂) :
    NoLeak rbuf₂ rbuf₁ chunks₂ chunks₁ last₂ last₁ := by
  intro s₂ s₁ hnew₂ hnew₁ ms₂ ms₁ m₂ m₁ hms₂ hms₁ hm₂ hm₁ ⟨hret, hrequest, hhandler, hroom₂, hroom₁⟩
  obtain ⟨hadded, hfile⟩ := h s₁ s₂ hnew₁ hnew₂ ms₁ ms₂ m₁ m₂ hms₁ hms₂ hm₁ hm₂
    ⟨hret.symm, hrequest.symm, hhandler.symm, hroom₁, hroom₂⟩
  exact ⟨hadded.symm, hfile.symm⟩

/-- Messages whose handler does `g` to the response, whatever the request. -/
def messages (g : HttpResponse → HttpResponse) (chunks : List Bytes) : List Message :=
  chunks.map (⟨·, fun _ => g⟩)

theorem messages_chunk (g : HttpResponse → HttpResponse) (chunks : List Bytes) :
    (messages g chunks).map Message.chunk = chunks := by simp [messages, Function.comp_def]

/-- All responses have been sent, the kernel takes `k` more, and no file is to be sent. -/
structure Session.AllSent (k : Nat) (s : Session) : Prop where
  eager : s.conn.Eager FixedBuffer.kBufferSize k
  sent : s.conn.mWriteBuffer.unread = []
  noFile : s.response.hasFile = false

namespace Session

variable {k : Nat} {s : Session} {g : HttpResponse → HttpResponse}

theorem AllSent.step (h : s.AllSent (k + 1)) (hg : ∀ resp, (g resp).hasFile = resp.hasFile)
    (chunk : Bytes) : (s.step ⟨chunk, fun _ => g⟩).AllSent k := by
  have hfile : (s.step ⟨chunk, fun _ => g⟩).response.hasFile = false := by
    by_cases hbad : (s.called.receive chunk).ret = some .BAD_REQUEST
    · rw [response_bad hbad]
      exact h.noFile
    · by_cases hget : (s.called.receive chunk).ret = some .GET_REQUEST
      · rw [response_get hget, hg]
        exact h.noFile
      · rw [response_silent hbad hget]
        exact h.noFile
  obtain ⟨c, hsends, ⟨hconn, hbuffer⟩ | hconn⟩ := sends_step s ⟨chunk, fun _ => g⟩
  · obtain ⟨hok, hno, j, hj, hscript⟩ := hsends.eager hfile h.eager
    refine ⟨hconn ▸ ⟨hok, hno, j, by omega, hscript⟩, ?_, hfile⟩
    rw [hconn, hbuffer, h.sent]
  · obtain ⟨heager, hsent⟩ := (hsends.eager hfile h.eager).Send
    exact ⟨hconn ▸ heager, hconn ▸ hsent, hfile⟩

theorem AllSent.run (hg : ∀ resp, (g resp).hasFile = resp.hasFile) (chunks : List Bytes)
    (h : s.AllSent (k + chunks.length)) : (s.run (messages g chunks)).AllSent k := by
  induction chunks generalizing s with
  | nil => exact h
  | cons chunk chunks ih => exact ih (h.step hg chunk)

/-- A new session whose kernel takes all of `n` responses. -/
def eager (rbuf : Bytes) (n : Nat) : Session :=
  .start rbuf (List.replicate FixedBuffer.kBufferSize 0)
    ⟨[], List.replicate n (.wrote FixedBuffer.kBufferSize), []⟩ ⟨0, 0⟩ true

theorem new_eager (rbuf : Bytes) (n : Nat) : (eager rbuf n).New rbuf :=
  ⟨_, _, _, _, List.length_replicate, rfl⟩

theorem allSent_eager (rbuf : Bytes) (n : Nat) : (eager rbuf n).AllSent n := by
  have hlen : (List.replicate FixedBuffer.kBufferSize (0 : UInt8)).length < 2 ^ 31 := by
    rw [List.length_replicate]
    decide
  exact ⟨⟨⟨Base.FixedBuffer.fresh_ok hlen, List.length_replicate⟩, rfl, n, le_refl n, rfl⟩,
    Base.FixedBuffer.unread_fresh hlen, rfl⟩

/-- A rejected message of such a session is answered with the response it had. -/
theorem AllSent.rejected {m : Message} {resp : HttpResponse} (h : s.AllSent 0)
    (hresp : s.Responds resp)
    (hfits : (resp.setStatusCode .CLIENT_ERROR_BAD_REQUEST).pieces.flatten.length ≤
      FixedBuffer.kBufferSize)
    (hbad : (s.called.receive m.chunk).ret = some .BAD_REQUEST) :
    s.HasRoom m ∧ (s.reply m).called = none ∧
      (s.reply m).added = (resp.setStatusCode .CLIENT_ERROR_BAD_REQUEST).pieces.flatten := by
  obtain ⟨st, hst⟩ := hresp
  have hsame : s.response.setStatusCode .CLIENT_ERROR_BAD_REQUEST =
      resp.setStatusCode .CLIENT_ERROR_BAD_REQUEST := by
    rw [hst]
    rfl
  have hused : s.conn.mWriteBuffer.used = 0 := by
    rw [← h.eager.ok.unread_length, h.sent]
    rfl
  have hroom : s.HasRoom m := by
    intro _
    rw [response_bad hbad, hsame, hused]
    exact hfits
  obtain ⟨hadded, _⟩ := added_bad h.eager.toWriteOk hroom hbad
  obtain ⟨c, _, hreply⟩ := reply_bad hbad
  exact ⟨hroom, by rw [hreply], hadded.trans (by rw [hsame])⟩

/-- The session with these messages, before one that is rejected. -/
theorem rejected_messages {rbuf : Bytes} {chunks : List Bytes} {m : Message} {resp : HttpResponse}
    (hg : ∀ resp, (g resp).hasFile = resp.hasFile)
    (hbad : ((parsed rbuf chunks).receive m.chunk).ret = some .BAD_REQUEST)
    (hresp : ((eager rbuf chunks.length).run (messages g chunks)).Responds resp)
    (hfits : (resp.setStatusCode .CLIENT_ERROR_BAD_REQUEST).pieces.flatten.length ≤
      FixedBuffer.kBufferSize) :
    (((eager rbuf chunks.length).run (messages g chunks)).reply m).ret = some .BAD_REQUEST ∧
      ((eager rbuf chunks.length).run (messages g chunks)).HasRoom m ∧
      (((eager rbuf chunks.length).run (messages g chunks)).reply m).called = none ∧
      (((eager rbuf chunks.length).run (messages g chunks)).reply m).added =
        (resp.setStatusCode .CLIENT_ERROR_BAD_REQUEST).pieces.flatten := by
  have hnew := new_eager rbuf chunks.length
  have hsent := allSent_eager rbuf chunks.length
  generalize eager rbuf chunks.length = s at *
  have hret : ((s.run (messages g chunks)).called.receive m.chunk).ret = some .BAD_REQUEST := by
    rw [hnew.called_run, messages_chunk, hbad]
  have hend : (s.run (messages g chunks)).AllSent 0 := AllSent.run hg chunks (by rwa [Nat.zero_add])
  exact ⟨(reply_ret _ m).trans hret, hend.rejected hresp hfits hret⟩

end Session

/-- A header that a handler sets. -/
def html (resp : HttpResponse) : HttpResponse := resp.setContentType (ascii "text/html")

/-- The first session's handler sets a header, the second's does nothing. -/
theorem leak (hcompleted : (Called.start rbuf₁).Completes chunks₁)
    (hbad₁ : ((parsed rbuf₁ chunks₁).receive last₁).ret = some .BAD_REQUEST)
    (hbad₂ : ((parsed rbuf₂ chunks₂).receive last₂).ret = some .BAD_REQUEST) :
    ¬ NoLeak rbuf₁ rbuf₂ chunks₁ chunks₂ last₁ last₂ := by
  intro hall
  have hnew₁ := Session.new_eager rbuf₁ chunks₁.length
  have hnew₂ := Session.new_eager rbuf₂ chunks₂.length
  have hresp₁ : ((Session.eager rbuf₁ chunks₁.length).run (messages html chunks₁)).Responds (html {}) := by
    refine hnew₁.fresh.onceOnly.responds_run hnew₁.responds hnew₁.fresh.calls (fun _ _ => rfl) _ ?_ ?_
    · simp [messages]
    · rw [hnew₁.calls_run, messages_chunk]
      exact hcompleted
  have hresp₂ : ((Session.eager rbuf₂ chunks₂.length).run (messages id chunks₂)).Responds {} := by
    by_cases hnone : ((Session.eager rbuf₂ chunks₂.length).run (messages id chunks₂)).calls = []
    · exact Session.responds_run (fun _ => hnew₂.responds) _ hnone
    · exact hnew₂.fresh.onceOnly.responds_run hnew₂.responds hnew₂.fresh.calls (g := id)
        (fun _ _ => rfl) _ (by simp [messages]) hnone
  obtain ⟨hret₁, hroom₁, hcall₁, hadded₁⟩ := Session.rejected_messages (g := html) (m := ⟨last₁, idle⟩)
    (fun _ => rfl) hbad₁ hresp₁ (by decide +kernel)
  obtain ⟨hret₂, hroom₂, hcall₂, hadded₂⟩ := Session.rejected_messages (g := id) (m := ⟨last₂, idle⟩)
    (fun _ => rfl) hbad₂ hresp₂ (by decide +kernel)
  obtain ⟨hsame, _⟩ := hall _ _ hnew₁ hnew₂ _ _ _ _ (messages_chunk html chunks₁)
    (messages_chunk id chunks₂) rfl rfl
    ⟨hret₁.trans hret₂.symm, by rw [hcall₁, hcall₂], by rw [hcall₁, hcall₂], hroom₁, hroom₂⟩
  rw [hadded₁, hadded₂] at hsame
  revert hsame
  decide +kernel

/-- The last responses of two sessions tell nothing of earlier messages, whatever is done
with them, unless both last messages are rejected and in one of the sessions a request
was completed before. -/
theorem noLeak_iff :
    NoLeak rbuf₁ rbuf₂ chunks₁ chunks₂ last₁ last₂ ↔
      ¬ RejectedLate rbuf₁ rbuf₂ chunks₁ chunks₂ last₁ last₂ := by
  refine ⟨fun hall ⟨hbad₁, hbad₂, hcompleted⟩ => ?_, noLeak_of_not_late⟩
  rcases hcompleted with hcompleted | hcompleted
  · exact leak hcompleted hbad₁ hbad₂ hall
  · exact leak hcompleted hbad₂ hbad₁ hall.symm

end

/-- A line feed is rejected on a new connection, and after a request whose handler set a
header, which is then sent again. -/
theorem noLeak_header :
    ¬ NoLeak (List.replicate 64 0) (List.replicate 64 0) [getRequest.bytes] [] (ascii "\n")
      (ascii "\n") := by
  intro hall
  have hnone₁ : (((Session.eager (List.replicate 64 0) 1).run [⟨getRequest.bytes, fun _ => html⟩]).reply
      ⟨ascii "\n", idle⟩).called = none := by decide +kernel
  have hnone₂ : (((Session.eager (List.replicate 64 0) 0).run []).reply ⟨ascii "\n", idle⟩).called =
      none := by decide +kernel
  have hsame : SameMessage
      ((Session.eager (List.replicate 64 0) 1).run [⟨getRequest.bytes, fun _ => html⟩])
      ((Session.eager (List.replicate 64 0) 0).run []) ⟨ascii "\n", idle⟩ ⟨ascii "\n", idle⟩ := by
    constructor
    · decide +kernel
    · rw [hnone₁, hnone₂]
    · rw [hnone₁, hnone₂]
    · exact fun _ => by decide +kernel
    · exact fun _ => by decide +kernel
  have hadded := (hall _ _ (Session.new_eager _ 1) (Session.new_eager _ 0) _ _ _ _ rfl rfl rfl rfl hsame).1
  revert hadded
  decide +kernel

end Knpnl.Http
