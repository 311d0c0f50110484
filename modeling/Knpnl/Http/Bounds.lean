import Knpnl.Base.BufferBounds
import Knpnl.Http.Serving

/-!
# The memory that a connection touches

Whatever a client sends, an event that is handled for its connection touches nothing outside the two
buffers and the file that is being sent. Only the message that traces what was received goes on to the
next NUL, wherever that is.
-/
namespace Knpnl.Net

open Base (FixedBuffer)

/-- What a call of `writev` is given: `m_iv[0]` in the write buffer, and `m_iv[1]`. -/
structure Gather where
  start : Int
  len : Nat
  m_iv1 : Iovec

/-- All of it lies in a buffer of `cap` bytes and in the mapping. -/
def Gather.Inside (cap : Nat) (g : Gather) : Prop :=
  (0 ≤ g.start ∧ g.start + g.len ≤ cap) ∧ g.m_iv1.Mapped

namespace TcpConnection

variable {κ : Type*} {cap : Nat} {c : TcpConnection κ}

def gather (c : TcpConnection κ) : Gather := ⟨c.mWriteBuffer.mReadPtr, c.mWriteBuffer.used, c.m_iv1⟩

/-- The calls of `writev` in the loop of `sendMessage`. -/
def gathers : List Writev → TcpConnection κ → List Gather
  | [], c | .error :: _, c | .eagain :: _, c => [c.gather]
  | .wrote n :: rest, c =>
      c.gather ::
        if c.pending = 0 then [] else gathers rest ((c.wrote (max 1 (min n c.pending))).answered rest)

/-- What is to be sent lies where it should. -/
structure WriteInside (cap : Nat) (c : TcpConnection κ) : Prop extends WriteOk cap c where
  file : c.m_iv1.Mapped

namespace WriteInside

theorem gather (h : WriteInside cap c) : c.gather.Inside cap := by
  have hused := h.ok.used_eq
  have hcap := h.cap_eq
  obtain ⟨_, _, hstart, hordered, hend⟩ := h.ok
  refine ⟨?_, h.file⟩
  unfold TcpConnection.gather
  dsimp only
  omega

theorem wrote (h : WriteInside cap c) {n : Nat} (hn : n ≤ c.pending) : WriteInside cap (c.wrote n) :=
  ⟨h.toWriteOk.wrote n, mapped_wrote h.file hn⟩

theorem gathers (h : WriteInside cap c) (script : List Writev) : ∀ g ∈ c.gathers script, g.Inside cap := by
  induction script generalizing c with
  | nil => exact List.forall_mem_singleton.mpr h.gather
  | cons a rest ih =>
    cases a with
    | error | eagain => exact List.forall_mem_singleton.mpr h.gather
    | wrote n =>
      rw [TcpConnection.gathers]
      split
      · exact List.forall_mem_singleton.mpr h.gather
      · obtain ⟨hok, hfile⟩ := h.wrote (n := max 1 (min n c.pending)) (by omega)
        exact List.forall_mem_cons.mpr ⟨h.gather, ih ⟨⟨hok.ok, hok.cap_eq⟩, hfile⟩⟩

theorem handleClose (h : WriteInside cap c) : WriteInside cap c.handleClose :=
  ⟨h.toWriteOk.handleClose, mapped_handleClose h.file⟩

theorem sent {c' : TcpConnection κ} (h : WriteInside cap c)
    (hcases : c' = c.sendMessage.2.handleClose ∨ Sent c.sendMessage.2 c') : WriteInside cap c' := by
  have hsent := h.toWriteOk.sendMessage
  refine ⟨?_, mapped_sent h.file hcases⟩
  rcases hcases with rfl | hcases
  · exact hsent.handleClose
  · exact ⟨hcases.writeBuffer ▸ hsent.ok, hcases.writeBuffer ▸ hsent.cap_eq⟩

end WriteInside
end TcpConnection
end Knpnl.Net

namespace Knpnl.Http

open Lib Lib.CString
open Base (FixedBuffer Write Recv)
open Event
open Net (TcpConnection Iovec Gather Writev Socket)

namespace HttpResponse

/-- The file that is attached lies in its mapping. -/
def Mapped (r : HttpResponse) : Prop :=
  r.hasFile = true → (⟨r.mFile.getAddr, r.mFile.getLength⟩ : Iovec).Mapped

/-- The writes of `appendToBuffer`. -/
def appendWrites (r : HttpResponse) (Buffer : FixedBuffer) : List Write :=
  outputs FixedBuffer.appendPiece FixedBuffer.pieceWrites Buffer r.pieces

theorem inside_append (r : HttpResponse) {b : FixedBuffer} (h : b.Ok) :
    ∀ w ∈ r.appendWrites b, w.Inside b.cap := by
  refine forall_mem_outputs (I := fun b' => b'.Ok ∧ b'.cap = b.cap) (fun b' str hb' => ?_)
    (fun b' str hb' => ?_) ⟨h, rfl⟩ r.pieces
  · obtain ⟨hok, hcap⟩ := appendPiece_ok hb'.1 str
    exact ⟨hok, hcap.trans hb'.2⟩
  · rw [← hb'.2]
    exact hb'.1.inside_piece str

end HttpResponse

namespace HttpServer

variable (HttpCallback : HttpServeFunc) (rEvent : UInt32) (c : TcpConnection HttpContext)

/-- What `onMessageCallback` writes to the write buffer. -/
def messageWrites : List Write :=
  let out := c.mContext.Request.processRead c.mReadBuffer
  let resp := c.mContext.Response
  match out.ret with
  | some .BAD_REQUEST => (resp.setStatusCode .CLIENT_ERROR_BAD_REQUEST).appendWrites c.mWriteBuffer
  | some .GET_REQUEST => (HttpCallback out.req (resp.setStatusCode .SUCCESS_OK)).appendWrites c.mWriteBuffer
  | _ => []

/-- The calls of `writev`. -/
def eventGathers : List Gather :=
  match picks rEvent with
  | some .read =>
      if c.Ends then []
      else (answered HttpCallback c.recvMessage.2).elim [] fun c => c.gathers c.mSocket.writevs
  | some .write => c.gathers c.mSocket.writevs
  | _ => []

/-- `LOG_TRACE<<"recvMessage:"<<mReadBuffer.readPtr()`, where traces are on. -/
def traceMessage : Traced Int Bytes :=
  (stringAt c.mReadBuffer.text 0).relocate fun off : Nat => c.mReadBuffer.mReadPtr + off

/-- Handling the event touches nothing outside a read buffer of `rcap` bytes, a write buffer of `wcap`
bytes and the mapping of the file. The trace does if there is no NUL in the read buffer. -/
structure Confined (rcap wcap : Nat) : Prop where
  received : picks rEvent = some .read →
    ∀ w ∈ (c.mReadBuffer.readFd c.mSocket.recvs).last.writes, w.Inside rcap
  parsed : Brings rEvent c →
    ∃ t, Access.processRead (c.recvMessage.2.mReadBuffer.used + 1) c.mContext.Request
        c.recvMessage.2.mReadBuffer = some t ∧
      t.val = c.mContext.Request.processRead c.recvMessage.2.mReadBuffer ∧ t.Within fun p => 0 ≤ p ∧ p < rcap
  written : Brings rEvent c → ∀ w ∈ messageWrites HttpCallback c.recvMessage.2, w.Inside wcap
  sent : ∀ g ∈ eventGathers HttpCallback rEvent c, g.Inside wcap
  traced : (traceMessage c.recvMessage.2).Within (fun p => 0 ≤ p ∧ p < rcap) ↔
    0 ∈ c.recvMessage.2.mReadBuffer.text

end HttpServer

namespace HttpRequest

/-- The size of the buffer that a round leaves. -/
def Round.cap : Round → Nat
  | .done out => out.buf.cap
  | .again _ buf => buf.cap

theorem cap_round (req : HttpRequest) (buf : FixedBuffer) : (round req buf).cap = buf.cap := by
  have hmove : ∀ (b : FixedBuffer) (n : Int), (b.readPtrMove n).2.cap = b.cap :=
    FixedBuffer.Ok.cap_readPtrMove
  unfold round dispatch
  dsimp only
  repeat' split
  all_goals first | rfl | exact hmove _ _

theorem cap_processRead (req : HttpRequest) (buf : FixedBuffer) : (processRead req buf).buf.cap = buf.cap := by
  induction req, buf using processRead.induct with
  | case1 req buf hpos out hround =>
    rw [processRead_done hpos hround, ← cap_round req buf, hround]
    rfl
  | case2 req buf hpos req' buf' hround ih =>
    rw [processRead_again hpos hround, ih, ← cap_round req buf, hround]
    rfl
  | case3 req buf hempty => rw [processRead_empty (by omega)]

end HttpRequest

/-- A connection between two events. -/
structure Safe (rcap wcap : Nat) (c : TcpConnection HttpContext) : Prop where
  readOk : c.mReadBuffer.Ok
  readCap : c.mReadBuffer.cap = rcap
  index_le : c.mContext.Request.mCheckIndex ≤ c.mReadBuffer.used
  write : c.WriteInside wcap
  attached : c.mContext.Response.Mapped

/-- The callback attaches no file but one that lies in its mapping. -/
def Attaches (HttpCallback : HttpServeFunc) : Prop := ∀ req resp, resp.Mapped → (HttpCallback req resp).Mapped

namespace Safe

variable {rcap wcap : Nat} {c c' : TcpConnection HttpContext} {HttpCallback : HttpServeFunc} {rEvent : UInt32}

theorem sameReader (h : Safe rcap wcap c) (hsame : TcpConnection.SameReader c c') (hwrite : c'.WriteInside wcap) :
    Safe rcap wcap c' where
  readOk := hsame.readBuffer ▸ h.readOk
  readCap := hsame.readBuffer ▸ h.readCap
  index_le := by
    rw [hsame.readBuffer, hsame.context]
    exact h.index_le
  write := hwrite
  attached := hsame.context ▸ h.attached

theorem Send (h : Safe rcap wcap c) : Safe rcap wcap c.Send :=
  h.sameReader (TcpConnection.Send_sameReader c) (h.write.sent (TcpConnection.Send_cases c))

theorem handleWrite (h : Safe rcap wcap c) : Safe rcap wcap c.handleWrite :=
  h.sameReader (TcpConnection.handleWrite_sameReader c) (h.write.sent (TcpConnection.handleWrite_cases c))

theorem handleClose (h : Safe rcap wcap c) : Safe rcap wcap c.handleClose :=
  h.sameReader (TcpConnection.handleClose_sameReader c) h.write.handleClose

theorem recvMessage (h : Safe rcap wcap c) : Safe rcap wcap c.recvMessage.2 := by
  have took := (h.readOk.readFd c.mSocket.recvs).took
  refine ⟨took.ok, took.cap.trans h.readCap, h.index_le.trans ?_, ⟨⟨h.write.ok, h.write.cap_eq⟩, h.write.file⟩,
    h.attached⟩
  have hbefore := h.readOk.unread_length
  have hafter := took.ok.unread_length
  rw [took.unread, List.length_append] at hafter
  show c.mReadBuffer.used ≤ (c.mReadBuffer.readFd c.mSocket.recvs).last.buf.used
  rw [← hbefore, ← hafter]
  exact Nat.le_add_right _ _

/-- The parser ends, and keeps to the unread bytes. -/
theorem processRead (h : Safe rcap wcap c) :
    ∃ t, Access.processRead (c.mReadBuffer.used + 1) c.mContext.Request c.mReadBuffer = some t ∧
      Access.Inside c.mContext.Request c.mReadBuffer t :=
  Access.processRead_inside_of_fuel _ _ _ h.readOk h.index_le (by omega)

/-- The connection on which `Send` is called. -/
theorem answered (h : Safe rcap wcap c) (hfiles : Attaches HttpCallback)
    (hc' : HttpServer.answered HttpCallback c = some c') : Safe rcap wcap c' := by
  obtain ⟨t, _, inside⟩ := h.processRead
  have hok := inside.ok
  have hindex := inside.index_le
  rw [inside.result] at hok hindex
  have hcap := (HttpRequest.cap_processRead c.mContext.Request c.mReadBuffer).trans h.readCap
  have happend : ∀ resp : HttpResponse, (resp.appendToBuffer c.mWriteBuffer).Ok ∧
      (resp.appendToBuffer c.mWriteBuffer).cap = wcap := fun resp =>
    have hbuf := HttpResponse.appendToBuffer_ok h.write.ok resp
    ⟨hbuf.1, hbuf.2.trans h.write.cap_eq⟩
  unfold HttpServer.answered at hc'
  dsimp only at hc'
  generalize c.mContext.Request.processRead c.mReadBuffer = out at hok hindex hcap hc'
  split at hc'
  · cases hc'
  · cases hc'
  · obtain rfl := Option.some.inj hc'
    obtain ⟨hwrite, hwcap⟩ := happend (c.mContext.Response.setStatusCode .CLIENT_ERROR_BAD_REQUEST)
    exact ⟨hok, hcap, hindex, ⟨⟨hwrite, hwcap⟩, h.write.file⟩, h.attached⟩
  · obtain rfl := Option.some.inj hc'
    obtain ⟨hwrite, hwcap⟩ := happend (HttpCallback out.req (c.mContext.Response.setStatusCode .SUCCESS_OK))
    have hattached : (HttpCallback out.req (c.mContext.Response.setStatusCode .SUCCESS_OK)).Mapped :=
      hfiles _ _ h.attached
    split
    · exact ⟨hok, hcap, Nat.zero_le _, ⟨⟨hwrite, hwcap⟩, hattached ‹_›⟩, hattached⟩
    · exact ⟨hok, hcap, Nat.zero_le _, ⟨⟨hwrite, hwcap⟩, h.write.file⟩, hattached⟩
  · obtain rfl := Option.some.inj hc'
    exact ⟨hok, hcap, hindex, ⟨⟨h.write.ok, h.write.cap_eq⟩, h.write.file⟩, h.attached⟩

theorem onMessageCallback (h : Safe rcap wcap c) (hfiles : Attaches HttpCallback) :
    Safe rcap wcap (HttpServer.onMessageCallback HttpCallback c).conn := by
  obtain ⟨t, _, inside⟩ := h.processRead
  have hok := inside.ok
  have hindex := inside.index_le
  rw [inside.result] at hok hindex
  have hcap := (HttpRequest.cap_processRead c.mContext.Request c.mReadBuffer).trans h.readCap
  cases hanswered : HttpServer.answered HttpCallback c with
  | some c' =>
    have hsend : (HttpServer.onMessageCallback HttpCallback c).conn = c'.Send := by
      rcases HttpServer.onMessageCallback_cases HttpCallback c with ⟨hnone, _⟩ | ⟨c₁, hsome, hconn, _⟩
      · cases hnone.symm.trans hanswered
      · obtain rfl := Option.some.inj (hsome.symm.trans hanswered)
        exact hconn
    rw [hsend]
    exact (h.answered hfiles hanswered).Send
  | none =>
    unfold HttpServer.answered at hanswered
    unfold HttpServer.onMessageCallback
    dsimp only at hanswered ⊢
    generalize c.mContext.Request.processRead c.mReadBuffer = out at hok hindex hcap hanswered
    split at hanswered
    · rename_i hret
      rw [hret]
      exact ⟨hok, hcap, hindex, ⟨⟨h.write.ok, h.write.cap_eq⟩, h.write.file⟩, h.attached⟩
    · rename_i hret
      rw [hret]
      exact ⟨hok, hcap, hindex, ⟨⟨h.write.ok, h.write.cap_eq⟩, h.write.file⟩, h.attached⟩
    all_goals cases hanswered

theorem HandleEvent (h : Safe rcap wcap c) (hfiles : Attaches HttpCallback) :
    Safe rcap wcap (HttpServer.HandleEvent HttpCallback rEvent c) := by
  rw [HttpServer.HandleEvent_eq]
  split
  · exact h.handleClose
  · unfold TcpConnection.handleRead
    dsimp only
    split
    · exact h.recvMessage.handleClose
    · exact h.recvMessage.onMessageCallback hfiles
  · exact h.handleWrite
  · exact h

/-- What an event touches. -/
theorem confined (h : Safe rcap wcap c) (hfiles : Attaches HttpCallback) :
    HttpServer.Confined HttpCallback rEvent c rcap wcap where
  received _ := by
    rw [← h.readCap]
    exact h.readOk.inside_readFd c.mSocket.recvs
  parsed _ := by
    obtain ⟨t, ht, inside⟩ := h.recvMessage.processRead
    refine ⟨t, ht, inside.result, inside.touched.mono fun p hp => ?_⟩
    have hstart := h.recvMessage.readOk.start_le
    have hend := h.recvMessage.readOk.le_end
    rw [h.recvMessage.readCap] at hend
    omega
  written _ := by
    have hok := h.recvMessage.write.ok
    rw [← h.recvMessage.write.cap_eq]
    unfold HttpServer.messageWrites
    dsimp only
    split
    · exact HttpResponse.inside_append _ hok
    · exact HttpResponse.inside_append _ hok
    · exact fun w hw => absurd hw List.not_mem_nil
  sent := by
    have hnone : ∀ g ∈ ([] : List Gather), g.Inside wcap := fun g hg => absurd hg List.not_mem_nil
    unfold HttpServer.eventGathers
    split
    · split
      · exact hnone
      · cases hanswered : HttpServer.answered HttpCallback c.recvMessage.2 with
        | none => exact hnone
        | some c' => exact (h.recvMessage.answered hfiles hanswered).write.gathers _
    · exact h.write.gathers _
    · exact hnone
  traced := by
    have htext := h.recvMessage.readOk.text_length
    have hstart := h.recvMessage.readOk.start_le
    have hcap := h.recvMessage.readCap
    have hinside : ∀ off : Nat, (0 ≤ c.recvMessage.2.mReadBuffer.mReadPtr + off ∧
        c.recvMessage.2.mReadBuffer.mReadPtr + off < rcap) ↔ off < c.recvMessage.2.mReadBuffer.text.length := by
      intro off
      omega
    rw [HttpServer.traceMessage, Traced.within_relocate]
    simp only [hinside]
    exact within_stringAt_iff _ 0

/-- The kernel's answers are up to the kernel. -/
theorem given (h : Safe rcap wcap c) (recvs : List Recv) (writevs : List Writev) :
    Safe rcap wcap ((c.withRecvs recvs).withWritevs writevs) :=
  ⟨h.readOk, h.readCap, h.index_le, ⟨⟨h.write.ok, h.write.cap_eq⟩, h.write.file⟩, h.attached⟩

end Safe

namespace Exchange

variable {handler : HttpServeFunc} {rcap wcap : Nat} {x : Exchange}

theorem safe_start {rbuf wbuf : Bytes} (hrbuf : rbuf.length < 2 ^ 31) (hwbuf : wbuf.length < 2 ^ 31)
    (socket : Socket) (garbage : Channel) (alive : Bool) :
    Safe rbuf.length wbuf.length (start rbuf wbuf socket garbage alive).conn where
  readOk := FixedBuffer.fresh_ok hrbuf
  readCap := rfl
  index_le := Nat.zero_le _
  write := ⟨⟨FixedBuffer.fresh_ok hwbuf, rfl⟩, Nat.zero_le _⟩
  attached hfile := by cases hfile

/-- Whatever happens, whether the poller may report it or not. -/
theorem safe_step (hfiles : Attaches handler) (h : Safe rcap wcap x.conn) (e : ExchangeEvent) :
    Safe rcap wcap (x.step handler e).conn := by
  cases e with
  | event rEvent recvs writevs => exact (h.given recvs writevs).HandleEvent hfiles
  | task found =>
    unfold step
    dsimp only
    split
    · exact h
    · exact h
    · exact h.handleClose
  | Destroy => exact ⟨h.readOk, h.readCap, h.index_le, ⟨⟨h.write.ok, h.write.cap_eq⟩, h.write.file⟩, h.attached⟩

theorem safe_run (hfiles : Attaches handler) (h : Safe rcap wcap x.conn) (events : List ExchangeEvent) :
    Safe rcap wcap (x.run handler events).conn :=
  List.foldlRecOn (motive := fun x : Exchange => Safe rcap wcap x.conn) events (step handler) h fun _ hx e _ =>
    safe_step hfiles hx e

end Exchange

namespace Watched

variable {ι : Type*} [DecidableEq ι] {own : ι → List Nat} {handler : HttpServeFunc} {w : Watched ι}

/-- Whatever the clients of a server send, no event that one of its threads handles touches anything outside
the buffers and the file of its connection, traces apart. -/
theorem confined_run (hfiles : Attaches handler) {rbuf wbuf : Bytes} (hrbuf : rbuf.length < 2 ^ 31)
    (hwbuf : wbuf.length < 2 ^ 31) {socket : Socket} {garbage : Channel} {alive : Bool} {c : Nat}
    {events : List ExchangeEvent} (h : Lib.Reachable (· = start own) (Step own handler) w)
    (hlife : w.lives c = some ⟨.start rbuf wbuf socket garbage alive, events⟩) {i : ι} {rEvent : UInt32}
    {rest : List (Nat × UInt32)} (hat : w.server.At (some i) (.events ((c, rEvent) :: rest))) {x : Conn ι}
    (hx : w.server.conns c = some x) (recvs : List Recv) (writevs : List Writev) :
    HttpServer.Confined handler rEvent ((x.tcp.withRecvs recvs).withWritevs writevs) rbuf.length wbuf.length := by
  have hinv := Reachable.inv h
  obtain ⟨L, hL, hfollows⟩ := hinv.follows hx
  obtain rfl := Option.some.inj (hlife.symm.trans hL)
  have hmem : (c, rEvent) ∈ (w.server.loops (some i)).activeChannel := by
    rw [hat.loops]
    exact List.mem_cons_self
  obtain ⟨rfl, hchannel, _⟩ := hinv.server.active_loop hmem hx
  have hsafe := Exchange.safe_run hfiles (Exchange.safe_start hrbuf hwbuf socket garbage alive) events
  rw [hfollows.late (TcpServer.not_early_of_channel hchannel)]
  exact (hsafe.given recvs writevs).confined hfiles

/-- Before the form is read. -/
theorem confined_run_form :
    HttpServer.Confined Exchange.sendReport EPOLLIN
      (((visitor.tcp.Established HttpServer.connectedCb).withRecvs [.data form.bytes]).withWritevs [])
      (List.replicate 128 (0 : UInt8)).length (List.replicate 256 (0 : UInt8)).length :=
  have hrbuf : (List.replicate 128 (0 : UInt8)).length < 2 ^ 31 := by decide +kernel
  have hwbuf : (List.replicate 256 (0 : UInt8)).length < 2 ^ 31 := by decide +kernel
  have hfiles : Attaches Exchange.sendReport := fun _ _ _ => Exchange.report_fits.mapped
  confined_run (i := ()) (x := { visitor with tcp := visitor.tcp.Established HttpServer.connectedCb }) hfiles
    hrbuf hwbuf reachable_reported rfl ⟨rfl, rfl⟩ rfl [.data form.bytes] []

end Watched
end Knpnl.Http
