import Knpnl.Http.Serving

/-!
# A client that breaks the rules

A client sends what is no request, in any pieces. When its bytes show it the server sends one refusal,
calls nobody, and closes the connection after the last byte of it, whatever the other connections do.
-/
namespace Knpnl.Http

open Lib Lib.CString
open Base (FixedBuffer Recv)
open Event
open Net (TcpConnection Writev Socket)
open HttpRequest (Called)

/-- What `onMessageCallback` makes of the response of a connection that has sent none. -/
def HttpResponse.refusal : HttpResponse := ({} : HttpResponse).setStatusCode .CLIENT_ERROR_BAD_REQUEST

namespace HttpResponse

end HttpResponse

namespace Exchange

variable {handler : HttpServeFunc} {rcap wcap n : Nat} {seen chunk : Bytes} {x : Exchange} {e : ExchangeEvent}

/-- The answer to a message that is rejected. -/
theorem Quiet.reject (handler : HttpServeFunc) (h : Quiet wcap x) (hok : (x.session.called.receive chunk).buf.Ok)
    (hret : (x.session.called.receive chunk).ret = some .BAD_REQUEST) :
    ∃ c, Carries x .refusal false c ∧ x.message handler chunk = x.become c.Send [] := by
  refine ⟨HttpServer.respond ((x.session.afterRead ⟨chunk, handler⟩).SetAlive false)
    (x.session.response.setStatusCode .CLIENT_ERROR_BAD_REQUEST), ⟨?_, rfl, rfl, rfl, rfl, rfl, hok⟩, ?_⟩
  · rw [h.response]
    rfl
  · have hread : (HttpRequest.processRead (x.session.read chunk).mContext.Request
        (x.session.read chunk).mReadBuffer).ret = some .BAD_REQUEST := hret
    unfold message Session.reply HttpServer.onMessageCallback
    simp only [hread]
    rfl

/-- Where a run can be while the client's bytes are no request. -/
inductive Refusing (rcap wcap : Nat) (disturbed : Prop) (seen : Bytes) (x : Exchange) : Prop where
  | reading (n : Nat) (quiet : Quiet wcap x) (openHead : OpenHead rcap x.session.called n seen)
  | gone (incomplete : referenceHead cstr seen = .incomplete) (gone : Gone x) (disturbed : disturbed)
  | refused (rejected : referenceHead cstr seen = .rejected)
      (replying : Replying wcap [] false HttpResponse.refusal.answer.bytes x)
      (delivering : ¬ disturbed → Delivering wcap [] false HttpResponse.refusal.answer.bytes x)

/-- What no request begins with, or no more than a part of a head. -/
def NoRequest (stream : Bytes) : Prop :=
  referenceHead cstr stream = .incomplete ∨ referenceHead cstr stream = .rejected

instance (stream : Bytes) : Decidable (NoRequest stream) := inferInstanceAs (Decidable (_ ∨ _))

theorem NoRequest.of_append {stream more : Bytes} (h : NoRequest (stream ++ more)) : NoRequest stream := by
  by_cases hdecided : referenceHead cstr stream = .incomplete
  · exact Or.inl hdecided
  · rwa [NoRequest, referenceHead_append hdecided] at h

/-- One more message. -/
theorem refusing_message (handler : HttpServeFunc) (hfits : HttpResponse.refusal.Fits wcap)
    (hquiet : Quiet wcap x) (hopen : OpenHead rcap x.session.called n seen)
    (hroom : chunk.length ≤ x.conn.mReadBuffer.cap - x.conn.mReadBuffer.used) (hhead : NoRequest (seen ++ chunk))
    {disturbed : Prop} (hdisturbed : .error ∈ x.conn.mSocket.writevs → disturbed) :
    Refusing rcap wcap disturbed (seen ++ chunk) (x.message handler chunk) := by
  cases hopen.receive ((hopen.ok.append chunk).accepts hroom).1 with
  | waiting m ret next =>
    obtain ⟨hnext, halike⟩ := hquiet.part handler next.ok ret
    exact .reading m hnext (next.alike halike)
  | rejected ret phase reference =>
    have hok := (scannable_receive ⟨hopen.ok, hopen.ok.unread_length ▸ hopen.inHead.index_le⟩ chunk).ok
    obtain ⟨c, hcarries, hmessage⟩ := hquiet.reject handler hok ret
    obtain ⟨hreplying, hdelivering⟩ := hquiet.send hfits hcarries []
    rw [hmessage]
    exact .refused (referenceHead_now reference) hreplying fun hnot => hdelivering fun hmem =>
      hnot (hdisturbed hmem)
  | complete m hm ret state noBody ok cap_eq unread body reference =>
    rw [NoRequest, referenceHead_now reference] at hhead
    rcases hhead with hhead | hhead <;> cases hhead
  | body req₁ buf₁ m hm again state index hasBody ok cap_eq unread body reference =>
    rw [NoRequest, referenceHead_now reference] at hhead
    rcases hhead with hhead | hhead <;> cases hhead

theorem Refusing.step (handler : HttpServeFunc) {disturbed : Prop} (h : Refusing rcap wcap disturbed seen x)
    (hfits : HttpResponse.refusal.Fits wcap) (henabled : x.Enabled e) (hhead : NoRequest (seen ++ x.brought e))
    (hsilent : referenceHead cstr seen = .rejected → x.brought e = []) :
    Refusing rcap wcap (disturbed ∨ ¬ x.Undisturbed e) (seen ++ x.brought e) (x.step handler e) := by
  cases h with
  | reading n quiet openHead =>
    cases e with
    | event rEvent recvs writevs =>
      cases quiet.event handler henabled with
      | message y quiet alike room given step =>
        rw [step]
        refine refusing_message handler hfits quiet (openHead.alike alike) room hhead fun hmem => ?_
        exact Or.inr fun hund => hund.2.2 (given ▸ hmem)
      | same quiet alike nothing =>
        rw [nothing, List.append_nil]
        exact .reading n quiet (openHead.alike alike)
      | gone gone nothing disturbed =>
        rw [nothing, List.append_nil]
        exact .gone openHead.incomplete gone (Or.inr disturbed)
    | task found => exact absurd quiet.mTasks henabled.1
    | Destroy => exact absurd quiet.isOpen henabled
  | gone incomplete gone disturbed =>
    obtain ⟨hgone, hnothing⟩ := gone.step henabled
    rw [hnothing, List.append_nil]
    exact .gone incomplete hgone (Or.inl disturbed)
  | refused rejected replying delivering =>
    have hnothing := hsilent rejected
    rw [hnothing, List.append_nil]
    refine .refused rejected (replying.step henabled hnothing) fun hnot => ?_
    rw [not_or, not_not] at hnot
    exact (delivering hnot.1).step henabled hnothing hnot.2

/-- The refusal is what has been sent and, on an open connection, what is waiting. -/
def Refuses (x : Exchange) : Prop :=
  x.conn.mSocket.wire <+: HttpResponse.refusal.answer.bytes ∧
    (x.conn.isOpen → x.conn.output = HttpResponse.refusal.answer.bytes)

/-- The client reads the refusal before the connection is closed, and it is closed when all is out and
nothing is queued. -/
def TurnsAway (x : Exchange) : Prop :=
  (¬ x.conn.isOpen → parseResponse x.conn.mSocket.wire = some HttpResponse.refusal.answer) ∧
    (x.mTasks = [] → x.conn.pending = 0 →
      parseResponse x.conn.mSocket.wire = some HttpResponse.refusal.answer ∧ ¬ x.conn.isOpen)

theorem Delivering.turnsAway (h : Delivering wcap [] false HttpResponse.refusal.answer.bytes x)
    (hfits : HttpResponse.refusal.Fits wcap) : TurnsAway x := by
  refine ⟨fun hclosed => ?_, fun htasks hpending => ?_⟩
  · rw [(h.whole_of_closed hclosed).1]
    exact hfits.parse
  · obtain ⟨hwhole, hkept⟩ := h.whole_of_rest htasks hpending
    rw [hwhole]
    exact ⟨hfits.parse, fun hopen => Bool.false_ne_true (hkept.mp hopen)⟩

namespace Refusing

variable {disturbed : Prop}

theorem calls (h : Refusing rcap wcap disturbed seen x) : x.calls = [] := by
  cases h with
  | reading n quiet openHead => exact quiet.calls
  | gone incomplete gone disturbed => exact gone.calls
  | refused rejected replying delivering => exact replying.calls

theorem output (h : Refusing rcap wcap disturbed seen x) (hhead : referenceHead cstr seen = .incomplete) :
    x.conn.output = [] := by
  cases h with
  | reading n quiet openHead => exact quiet.output
  | gone incomplete gone disturbed => exact gone.output
  | refused rejected replying delivering => cases hhead.symm.trans rejected

theorem refuses (h : Refusing rcap wcap disturbed seen x) (hhead : referenceHead cstr seen = .rejected) :
    Refuses x := by
  cases h with
  | reading n quiet openHead => cases hhead.symm.trans openHead.incomplete
  | gone incomplete gone disturbed => cases hhead.symm.trans incomplete
  | refused rejected replying delivering =>
    exact ⟨replying.wire, fun hopen => (replying.sending hopen).output⟩

theorem turnsAway (h : Refusing rcap wcap disturbed seen x) (hhead : referenceHead cstr seen = .rejected)
    (hnot : ¬ disturbed) (hfits : HttpResponse.refusal.Fits wcap) : TurnsAway x := by
  cases h with
  | reading n quiet openHead => cases hhead.symm.trans openHead.incomplete
  | gone incomplete gone disturbed => cases hhead.symm.trans incomplete
  | refused rejected replying delivering => exact (delivering hnot).turnsAway hfits

end Refusing
end Exchange

namespace Watched

variable {ι : Type*} [DecidableEq ι] {own : ι → List Nat} {handler : HttpServeFunc} {w : Watched ι}

/-- Nobody is called. Until the bytes are rejected nothing is sent, and then the refusal is, and unless it is
disturbed the connection is closed after the last byte of it. -/
structure TurnsAway (handler : HttpServeFunc) (s : TcpServer ι) (c : Nat) (L : Life) : Prop where
  calls : (L.now handler).calls = []
  before : referenceHead cstr (L.first.received handler L.events) = .incomplete →
    ∀ x, s.conns c = some x → x.tcp.output = []
  refuses : referenceHead cstr (L.first.received handler L.events) = .rejected →
    Exchange.Refuses (L.now handler) ∧ ∀ x, s.conns c = some x → x.tcp = (L.now handler).conn
  turnsAway : referenceHead cstr (L.first.received handler L.events) = .rejected →
    Along (Exchange.step handler) Exchange.Undisturbed L.first L.events → Exchange.TurnsAway (L.now handler)

/-- A client that greets the server. -/
def greeting : Bytes := ascii "HELO server\x0d\n"

end Watched
end Knpnl.Http
