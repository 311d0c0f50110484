import Knpnl.Base.ReadAppend
import Knpnl.Http.Accesses
import Knpnl.Http.Connections
import Knpnl.Http.ResponseLeak

/-!
# Read events as messages

An event reaches at most one callback of a connection. A read event that brings bytes does to the
connection what a message with these bytes does to a session, whatever the socket made of them.
-/
namespace Knpnl.Http

open Lib.CString
open Base (FixedBuffer Recv offer)
open Event
open Net (TcpConnection)
open HttpRequest (Called)

namespace HttpServer

/-- The callback that `HandleEventWithGuard` picks. -/
def picks (rEvent : UInt32) : Option Callback :=
  if has rEvent EPOLLHUP ∧ ¬ has rEvent EPOLLIN then some .close
  else if has rEvent EPOLLERR then some .error
  else if has rEvent (EPOLLRDHUP ||| EPOLLPRI ||| EPOLLIN) then some .read
  else if has rEvent EPOLLOUT then some .write
  else none

variable (HttpCallback : HttpServeFunc) (rEvent : UInt32) (c : TcpConnection HttpContext)

/-- The event brings bytes that are passed to `onMessageCallback`. -/
def Brings : Prop := picks rEvent = some .read ∧ ¬ c.Ends

instance : Decidable (Brings rEvent c) := inferInstanceAs (Decidable (_ ∧ _))

/-- The bytes that an event brings. -/
def eventBytes : Bytes :=
  if Brings rEvent c then (c.mReadBuffer.readFd c.mSocket.recvs).last.received else []

/-- The requests that an event hands to the user. -/
def eventCalls : List (Head × Bytes) :=
  if Brings rEvent c then
    (onMessageCallback HttpCallback c.recvMessage.2).called.toList.map HttpRequest.fields
  else []

theorem HandleEvent_eq : HandleEvent HttpCallback rEvent c =
    match picks rEvent with
    | some .close => c.handleClose
    | some .read => c.handleRead fun c => (onMessageCallback HttpCallback c).conn
    | some .write => c.handleWrite
    | _ => c := by
  unfold HandleEvent Callbacks.HandleEventWithGuard picks
  split
  · rfl
  · split
    · rfl
    · split
      · rfl
      · split <;> rfl

variable {HttpCallback rEvent c}

theorem eventBytes_of_brings (hok : c.mReadBuffer.Ok) (h : Brings rEvent c) :
    eventBytes rEvent c = (offer c.mSocket.recvs c.mReadBuffer.avail).bytes ∧ eventBytes rEvent c ≠ [] := by
  obtain ⟨took, hret⟩ := hok.readFd c.mSocket.recvs
  have hbytes : eventBytes rEvent c = (offer c.mSocket.recvs c.mReadBuffer.avail).bytes := by
    rw [eventBytes, if_pos h, took.received]
    exact List.nil_append _
  refine ⟨hbytes, fun hnil => h.2 ?_⟩
  rw [hbytes] at hnil
  rw [TcpConnection.Ends, TcpConnection.recvMessage]
  dsimp only
  rw [hret, hnil]
  split <;> simp

theorem HandleEvent_brings (h : Brings rEvent c) :
    HandleEvent HttpCallback rEvent c = (onMessageCallback HttpCallback c.recvMessage.2).conn := by
  rw [HandleEvent_eq, h.1]
  exact TcpConnection.handleRead_of_not_ends h.2

/-- No callback is picked for what is not reported. -/
theorem has_eq_false {mask flags : UInt32} (h : rEvent &&& mask = rEvent) (hflags : mask &&& flags = 0) :
    has rEvent flags = false := by
  simp only [has, decide_eq_false_iff_not, not_not]
  calc rEvent &&& flags
      = rEvent &&& mask &&& flags := by rw [h]
    _ = rEvent &&& (mask &&& flags) := UInt32.and_assoc ..
    _ = rEvent &&& 0 := by rw [hflags]
    _ = 0 := UInt32.and_zero

theorem picks_ne_write {mask : UInt32} (h : rEvent &&& mask = rEvent) (hmask : mask &&& EPOLLOUT = 0) :
    picks rEvent ≠ some .write := by
  unfold picks
  rw [has_eq_false h hmask]
  repeat' split
  all_goals simp_all

theorem picks_ne_read {mask : UInt32} (h : rEvent &&& mask = rEvent)
    (hmask : mask &&& (EPOLLRDHUP ||| EPOLLPRI ||| EPOLLIN) = 0) : picks rEvent ≠ some .read := by
  unfold picks
  rw [has_eq_false h hmask]
  repeat' split
  all_goals simp_all

end HttpServer

section
variable {cap n : Nat} {s s' : Called} {seen : Bytes} {q : Request} {f : Head}

/-- The same parser before a buffer with the same unread bytes. -/
structure HttpRequest.Called.Alike (s s' : Called) : Prop where
  req : s'.req = s.req
  ok : s'.buf.Ok
  cap : s'.buf.cap = s.buf.cap
  unread : s'.buf.unread = s.buf.unread

theorem OpenHead.alike (h : OpenHead cap s n seen) (hs : s.Alike s') : OpenHead cap s' n seen where
  ok := hs.ok
  cap_eq := hs.cap.trans h.cap_eq
  consumed_le := h.consumed_le
  unread := hs.unread.trans h.unread
  inHead := by
    rw [hs.req, hs.unread]
    exact h.inHead
  body := hs.req ▸ h.body
  reference v := by
    rw [hs.req, hs.unread]
    exact h.reference v
  incomplete := h.incomplete

theorem Request.Pending.alike (h : q.Pending cap f s seen) (hs : s.Alike s') : q.Pending cap f s' seen := by
  cases h with
  | plain reference noBody n openHead => exact .plain reference noBody n (openHead.alike hs)
  | withBody announced awaiting =>
    refine .withBody announced ?_
    cases awaiting with
    | head n openHead hlt => exact .head n (openHead.alike hs) hlt
    | body b hseen hlt phase =>
      refine .body b hseen hlt ⟨hs.ok, hs.cap.trans phase.cap_eq, ?_, ?_, ?_, ?_, fun hw => ?_⟩
      · rw [hs.req]
        exact phase.fields
      · rw [hs.req]
        exact phase.noBody
      · rw [hs.req, hs.unread]
        exact phase.inBody
      · rw [hs.unread]
        exact phase.size
      · rw [hs.unread]
        exact phase.exact hw

theorem Request.Pending.scannable (h : q.Pending cap f s seen) : Access.Scannable s := by
  cases h with
  | plain reference noBody n openHead =>
    exact ⟨openHead.ok, openHead.ok.unread_length ▸ openHead.inHead.index_le⟩
  | withBody announced awaiting =>
    cases awaiting with
    | head n openHead hlt => exact ⟨openHead.ok, openHead.ok.unread_length ▸ openHead.inHead.index_le⟩
    | body b hseen hlt phase => exact ⟨phase.ok, phase.ok.unread_length ▸ phase.inBody.index_le⟩

theorem scannable_receive (h : Access.Scannable s) (chunk : Bytes) : Access.Scannable (s.receive chunk) :=
  (h.step (.append s chunk)).step (.call _)

end

/-- The connection before a read that is one append, and the same one in all else. -/
def readingFrom (c : TcpConnection HttpContext) (b₀ : FixedBuffer) : TcpConnection HttpContext :=
  { c.recvMessage.2 with mReadBuffer := b₀ }

/-- What a read event passes to `onMessageCallback` is what a session reads. -/
theorem exists_readingFrom {rEvent : UInt32} {c : TcpConnection HttpContext} (hok : c.mReadBuffer.Ok)
    (h : HttpServer.Brings rEvent c) :
    ∃ b₀ : FixedBuffer, b₀.Ok ∧ b₀.cap = c.mReadBuffer.cap ∧ b₀.unread = c.mReadBuffer.unread ∧
      ∀ ret calls, Session.read ⟨readingFrom c b₀, ret, calls⟩ (HttpServer.eventBytes rEvent c) =
        c.recvMessage.2 := by
  obtain ⟨b₀, hok₀, hcap, hunread, happend⟩ := hok.readFd_append c.mSocket.recvs
  refine ⟨b₀, hok₀, hcap, hunread, fun ret calls => ?_⟩
  unfold Session.read readingFrom
  dsimp only
  rw [(HttpServer.eventBytes_of_brings hok h).1, happend]
  rfl

end Knpnl.Http
