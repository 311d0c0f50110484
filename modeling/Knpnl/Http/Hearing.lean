import Knpnl.Http.Handing
import Knpnl.Http.Serving

/-!
# What the user of a server is called for

Clients send what they like, in any pieces, and hang up when they like. For each of its connections the
user of a server is called at most once, and for what has come on this connection.
-/
namespace Knpnl.Http

open Lib Lib.CString
open Base (FixedBuffer Recv)
open Event
open Net (TcpConnection Writev Socket)
open Net.TcpConnection (Moves)

section
variable {κ : Type*} {c c' : TcpConnection κ} {mods : List UInt32}

structure Silenced (c : TcpConnection κ) : Prop where
  synced : Synced c.mChannel
  idle : ¬ c.isOpen → c.mChannel.isIdle = true

theorem Silenced.registered (h : Silenced c) (hclosed : ¬ c.isOpen) :
    c.mChannel.registered = Channel.kNoneEvent := h.synced.trans (of_decide_eq_true (h.idle hclosed))

theorem Silenced.moves (h : Silenced c) (hmoves : Moves c mods c')
    (hchannel : c'.mChannel = mods.foldl Channel.ModChannel c.mChannel) : Silenced c' where
  synced := hchannel ▸ h.synced.foldl mods
  idle hclosed := by
    by_cases hopen : c.isOpen
    · rcases hmoves.opened hopen with ⟨hopen', _⟩ | ⟨_, hidle, _⟩
      · exact absurd hopen' hclosed
      · exact hidle
    · exact (hmoves.closed hopen).2.2 (h.idle hopen)

theorem Silenced.handleClose (h : Silenced c) : Silenced c.handleClose :=
  h.moves (.handleClose c) (TcpConnection.mChannel_handleClose c)

end

theorem Access.Scannable.alike {s s' : HttpRequest.Called} (h : Scannable s) (hs : s.Alike s') :
    Scannable s' := by
  have hused : s'.buf.used = s.buf.used := by rw [← hs.ok.unread_length, hs.unread, h.ok.unread_length]
  refine ⟨hs.ok, ?_⟩
  rw [hs.req, hused]
  exact h.index_le

namespace Exchange

variable {handler : HttpServeFunc} {cap : Nat} {seen chunk : Bytes} {x y : Exchange} {e : ExchangeEvent}

/-- What the user has been called for. -/
inductive Heard (cap : Nat) (seen : Bytes) (x : Exchange) : Prop where
  | waiting (calls : x.calls = [])
      (unserved : x.conn.isOpen → Unserved cap seen x.conn.mContext.Request x.conn.mReadBuffer)
      (open_ : ∀ f n, referenceHead cstr seen ≠ .complete f n)
  | served (request : Head × Bytes) (calls : x.calls = [request]) (sent : Sent seen request)
      (state : x.conn.mContext.Request.mCheckState = .CHECK_STATE_SUCCESS)

structure Hears (cap : Nat) (seen : Bytes) (x : Exchange) : Prop where
  scannable : x.conn.isOpen → Access.Scannable x.session.called
  silenced : Silenced x.conn
  heard : Heard cap seen x

/-- Nothing has been parsed. -/
theorem Heard.same (h : Heard cap seen x) (hcalls : y.calls = x.calls)
    (hcontext : y.conn.mContext = x.conn.mContext)
    (hbuffer : y.conn.isOpen → x.conn.isOpen ∧ y.conn.mReadBuffer = x.conn.mReadBuffer) : Heard cap seen y := by
  cases h with
  | waiting calls unserved open_ =>
    refine .waiting (hcalls.trans calls) (fun hopen => ?_) open_
    obtain ⟨hopen', hsame⟩ := hbuffer hopen
    rw [hcontext, hsame]
    exact unserved hopen'
  | served request calls sent state => exact .served request (hcalls.trans calls) sent (hcontext ▸ state)

/-- A message is read by the parser, and the user is called for what that returns. -/
theorem Heard.message (handler : HttpServeFunc) (h : Heard cap seen x) (hopen : x.conn.isOpen)
    (hcalls : y.calls = x.calls) (halike : x.session.called.Alike y.session.called)
    (hc : y.session.called.Accepts chunk) : Heard cap (seen ++ chunk) (y.message handler chunk) := by
  have hreq : (y.message handler chunk).conn.mContext.Request =
      (y.session.step ⟨chunk, handler⟩).called.req := rfl
  have hbuf : (y.message handler chunk).conn.mReadBuffer = (y.session.step ⟨chunk, handler⟩).called.buf := rfl
  have hnew : (y.message handler chunk).calls = (y.session.step ⟨chunk, handler⟩).calls := rfl
  cases h with
  | waiting calls unserved open_ =>
    have happ := halike.ok.append chunk
    have hcall : CallEnd cap (seen ++ chunk) (y.session.called.receive chunk) := by
      refine Unserved.call ?_
      rw [halike.req]
      refine (unserved hopen).append happ.ok (happ.cap.trans halike.cap) ?_
      exact (happ.unread_of_ret hc).trans (congrArg (· ++ chunk) halike.unread)
    cases hcall with
    | waiting ret unserved open_ =>
      obtain ⟨hcalled, hsame⟩ := Session.step_of_not_get (s := y.session) (m := ⟨chunk, handler⟩) ret
      refine .waiting (hnew.trans (hsame.trans (hcalls.trans calls))) (fun _ => ?_) open_
      rw [hreq, hbuf, hcalled]
      exact unserved
    | served ret state sent =>
      obtain ⟨hcalled, hcalls'⟩ := Session.step_of_get (s := y.session) (m := ⟨chunk, handler⟩) ret
      refine .served _ ?_ sent ?_
      · rw [hnew, hcalls']
        exact congrArg (· ++ [_]) (hcalls.trans calls)
      · rw [hreq, hcalled]
        exact state
  | served request calls sent state =>
    obtain ⟨hret, hsuccess⟩ := HttpRequest.processRead_success y.session.called.req
      (y.session.called.buf.append chunk).buf (halike.req ▸ state)
    obtain ⟨hcalled, hsame⟩ := Session.step_of_not_get (s := y.session) (m := ⟨chunk, handler⟩) hret
    refine .served request (hnew.trans (hsame.trans (hcalls.trans calls))) (sent.append chunk) ?_
    rw [hreq, hcalled]
    exact hsuccess

theorem scannable_message (handler : HttpServeFunc) (h : Access.Scannable y.session.called) (chunk : Bytes) :
    Access.Scannable (y.message handler chunk).session.called := by
  have hnext := scannable_receive h chunk
  have hstep : Access.Scannable (y.session.step ⟨chunk, handler⟩).called := by
    by_cases hget : (y.session.called.receive chunk).ret = some .GET_REQUEST
    · rw [(Session.step_of_get (s := y.session) (m := ⟨chunk, handler⟩) hget).1]
      exact hnext.step (.init _ hget)
    · rw [(Session.step_of_not_get (s := y.session) (m := ⟨chunk, handler⟩) hget).1]
      exact hnext
  exact ⟨hstep.ok, hstep.index_le⟩

/-- An event that brings no bytes. -/
theorem HandleEvent_not_brings (handler : HttpServeFunc) {rEvent : UInt32} {c : TcpConnection HttpContext}
    (h : ¬ HttpServer.Brings rEvent c) :
    (HttpServer.HandleEvent handler rEvent c).mContext = c.mContext ∧
      ((HttpServer.HandleEvent handler rEvent c).isOpen →
        (HttpServer.HandleEvent handler rEvent c).mReadBuffer = c.mReadBuffer) := by
  have hsame : ∀ {c' : TcpConnection HttpContext}, TcpConnection.SameReader c c' →
      c'.mContext = c.mContext ∧ (c'.isOpen → c'.mReadBuffer = c.mReadBuffer) :=
    fun hreader => ⟨hreader.context, fun _ => hreader.readBuffer⟩
  rw [HttpServer.HandleEvent_eq]
  cases hpicks : HttpServer.picks rEvent with
  | none => exact ⟨rfl, fun _ => rfl⟩
  | some name =>
    cases name with
    | error => exact ⟨rfl, fun _ => rfl⟩
    | write => exact hsame (TcpConnection.handleWrite_sameReader c)
    | close => exact hsame (TcpConnection.handleClose_sameReader c)
    | read =>
      have hends : c.Ends := by
        by_contra hnot
        exact h ⟨hpicks, hnot⟩
      have hreader := TcpConnection.handleClose_sameReader c.recvMessage.2
      dsimp only
      rw [TcpConnection.handleRead_of_ends hends]
      exact ⟨hreader.context, fun hopen => absurd hopen (TcpConnection.not_isOpen_handleClose _)⟩

theorem Hears.event (handler : HttpServeFunc) (h : Hears cap seen x) {rEvent : UInt32} {recvs : List Recv}
    {writevs : List Writev} (henabled : x.Enabled (.event rEvent recvs writevs)) :
    Hears cap (seen ++ x.brought (.event rEvent recvs writevs))
      (x.step handler (.event rEvent recvs writevs)) := by
  by_cases hopen : x.conn.isOpen
  · have hopen' : (x.given recvs writevs).isOpen := hopen
    have hsilenced : Silenced (x.step handler (.event rEvent recvs writevs)).conn :=
      Silenced.moves (c := x.given recvs writevs) ⟨h.silenced.synced, h.silenced.idle⟩
        (HttpServer.moves_HandleEvent hopen') (HttpServer.mChannel_HandleEvent ..)
    have hscannable := h.scannable hopen
    by_cases hbrings : HttpServer.Brings rEvent (x.given recvs writevs)
    · obtain ⟨b₀, hok, hcap, hunread, hstep⟩ := step_brings handler hscannable.ok hbrings
      have hroom := length_brought_le hscannable.ok hbrings hok hcap hunread
      have halike : x.session.called.Alike (x.reading recvs writevs b₀).session.called :=
        ⟨rfl, hok, hcap, hunread⟩
      rw [hstep] at hsilenced ⊢
      exact ⟨fun _ => scannable_message handler (hscannable.alike halike) _, hsilenced,
        h.heard.message handler hopen rfl halike ((hok.append _).accepts hroom).1⟩
    · obtain ⟨hstep, hbrought⟩ := step_not_brings handler hbrings
      obtain ⟨hcontext, hbuffer⟩ := HandleEvent_not_brings handler hbrings
      rw [hbrought, List.append_nil]
      rw [hstep] at hsilenced ⊢
      refine ⟨fun ho => ?_, hsilenced, h.heard.same (List.append_nil _) hcontext fun ho => ⟨hopen, hbuffer ho⟩⟩
      exact hscannable.alike ⟨congrArg HttpContext.Request hcontext,
        (congrArg FixedBuffer.Ok (hbuffer ho)).mpr hscannable.ok, congrArg FixedBuffer.cap (hbuffer ho),
        congrArg FixedBuffer.unread (hbuffer ho)⟩
  · obtain ⟨hstep, hbrought⟩ := step_closed handler (h.silenced.registered hopen) hopen henabled
    rw [hstep, hbrought, List.append_nil]
    exact ⟨fun ho => absurd ho hopen, ⟨h.silenced.synced, h.silenced.idle⟩,
      h.heard.same rfl rfl fun ho => absurd ho hopen⟩

theorem Hears.handleClose (h : Hears cap seen x) (tasks : List LoopTask) :
    Hears cap seen ⟨x.conn.handleClose, x.calls, tasks⟩ where
  scannable ho := absurd ho (TcpConnection.not_isOpen_handleClose _)
  silenced := h.silenced.handleClose
  heard := h.heard.same rfl (TcpConnection.handleClose_sameReader _).context fun ho =>
    absurd ho (TcpConnection.not_isOpen_handleClose _)

theorem Hears.step (handler : HttpServeFunc) (h : Hears cap seen x) (henabled : x.Enabled e) :
    Hears cap (seen ++ x.brought e) (x.step handler e) := by
  cases e with
  | event rEvent recvs writevs => exact h.event handler henabled
  | task found =>
    have hnothing : seen ++ x.brought (.task found) = seen := List.append_nil seen
    rw [hnothing]
    unfold Exchange.step
    cases x.mTasks with
    | nil => exact h
    | cons task rest =>
      cases task with
      | WriteCompleteCallback => exact ⟨h.scannable, h.silenced, h.heard.same rfl rfl fun ho => ⟨ho, rfl⟩⟩
      | handleClose => exact h.handleClose rest
  | Destroy =>
    have hnothing : seen ++ x.brought .Destroy = seen := List.append_nil seen
    have hclosed : ¬ (x.step handler .Destroy).conn.isOpen := TcpConnection.not_isOpen_of_closed rfl
    rw [hnothing]
    exact ⟨fun ho => absurd ho hclosed, ⟨h.silenced.synced, fun _ => h.silenced.idle henabled⟩,
      h.heard.same rfl rfl fun ho => absurd ho hclosed⟩

end Exchange

namespace Watched

variable {ι : Type*} [DecidableEq ι] {own : ι → List Nat} {handler : HttpServeFunc} {w : Watched ι}

end Watched
end Knpnl.Http
