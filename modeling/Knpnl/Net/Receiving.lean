import Knpnl.Base.BufferRead
import Knpnl.Net.TcpConnection

/-!
# What one read event does

With an empty read buffer, `handleRead` either calls `handleClose`, because `recv` brought
an end, an error or nothing at all, or passes to the callback the bytes that the socket
offered. A callback that consumes the read buffer leaves it empty for the next event.
-/
namespace Knpnl.Net.TcpConnection

open Lib.CString (Bytes)
open Base (FixedBuffer Recv ReadEnd offer)

variable {κ : Type*} {cap : Nat} {c : TcpConnection κ}
  {onMessageCallback : TcpConnection κ → TcpConnection κ}

/-- The read buffer, of size `cap`, is empty. -/
structure Idle (cap : Nat) (c : TcpConnection κ) : Prop where
  ok : c.mReadBuffer.Ok
  cap_eq : c.mReadBuffer.cap = cap
  empty : c.mReadBuffer.unread = []

/-- A callback that consumes the whole read buffer, and does not read from the socket. -/
structure Consumes (onMessageCallback : TcpConnection κ → TcpConnection κ) : Prop where
  idle : ∀ c : TcpConnection κ, c.mReadBuffer.Ok →
    (onMessageCallback c).Idle c.mReadBuffer.cap
  recvs : ∀ c : TcpConnection κ, (onMessageCallback c).mSocket.recvs = c.mSocket.recvs

theorem consumes_default : Consumes (@DefaultOnMessageCallback κ) where
  idle c h := by
    obtain ⟨_, hok, hunread⟩ := h.readPtrMove (le_refl c.mReadBuffer.used)
    refine ⟨hok, FixedBuffer.Ok.cap_readPtrMove _ _, ?_⟩
    rw [DefaultOnMessageCallback, hunread, ← h.unread_length, List.drop_length]
  recvs _ := rfl

/-- `recvMessage` reports an end, an error or nothing. -/
def Ends (c : TcpConnection κ) : Prop := c.recvMessage.1 ≤ 0

instance (c : TcpConnection κ) : Decidable c.Ends := inferInstanceAs (Decidable (_ ≤ _))

/-- The bytes in the read buffer when `handleRead` calls the callback. -/
def passed (c : TcpConnection κ) : Bytes := if c.Ends then [] else c.recvMessage.2.mReadBuffer.unread

theorem handleRead_of_ends (h : c.Ends) :
    handleRead onMessageCallback c = c.recvMessage.2.handleClose := if_pos h

theorem handleRead_of_not_ends (h : ¬ c.Ends) :
    handleRead onMessageCallback c = onMessageCallback c.recvMessage.2 := if_neg h

namespace Idle

theorem of_fresh {rbuf : Bytes} (hlen : rbuf.length < 2 ^ 31) (h : c.mReadBuffer = .fresh rbuf) :
    c.Idle rbuf.length :=
  ⟨h ▸ FixedBuffer.fresh_ok hlen, by rw [h]; rfl, h ▸ FixedBuffer.unread_fresh hlen⟩

theorem avail_eq (h : c.Idle cap) : c.mReadBuffer.avail = cap := by
  have hlen := h.ok.unread_length
  rw [h.empty, List.length_nil] at hlen
  rw [h.ok.avail_eq, h.cap_eq, ← hlen, Nat.sub_zero]

/-- `recvMessage` takes what the socket offers a reader with `cap` bytes of room. -/
theorem recvMessage (h : c.Idle cap) :
    c.recvMessage.2.mReadBuffer.Ok ∧ c.recvMessage.2.mReadBuffer.cap = cap ∧
      c.recvMessage.2.mReadBuffer.unread = (offer c.mSocket.recvs cap).bytes ∧
      c.recvMessage.2.mSocket.recvs = (offer c.mSocket.recvs cap).left := by
  obtain ⟨htook, _⟩ := h.ok.readFd c.mSocket.recvs
  have hunread := htook.unread
  have hleft := htook.left
  simp only [FixedBuffer.startRead, h.avail_eq, h.empty, List.nil_append] at hunread hleft
  exact ⟨htook.ok, htook.cap.trans h.cap_eq, hunread, hleft⟩

theorem ends_iff (h : c.Idle cap) :
    c.Ends ↔ (offer c.mSocket.recvs cap).ended = .failed ∨
      (offer c.mSocket.recvs cap).ended = .closed ∨ (offer c.mSocket.recvs cap).bytes = [] := by
  have hret := (h.ok.readFd c.mSocket.recvs).ret
  rw [h.avail_eq] at hret
  rw [Ends, TcpConnection.recvMessage, hret]
  split
  · rename_i hend
    exact ⟨fun _ => by rcases hend with hend | hend <;> simp [hend], fun _ => by simp⟩
  · rename_i hend
    rw [not_or] at hend
    simp [hend.1, hend.2, ← List.length_eq_zero_iff]

theorem ended_eq (h : c.Idle cap) :
    (c.mReadBuffer.readFd c.mSocket.recvs).ended = (offer c.mSocket.recvs cap).ended := by
  have hended := (h.ok.readFd c.mSocket.recvs).took.ended
  rwa [FixedBuffer.startRead, h.avail_eq] at hended

theorem passed_eq (h : c.Idle cap) (hends : ¬ c.Ends) :
    c.passed = (offer c.mSocket.recvs cap).bytes := by
  rw [passed, if_neg hends, h.recvMessage.2.2.1]

/-- After a consuming callback the read buffer is empty again. -/
theorem handleRead (h : c.Idle cap) (hcb : Consumes onMessageCallback) (hends : ¬ c.Ends) :
    (handleRead onMessageCallback c).Idle cap ∧
      (TcpConnection.handleRead onMessageCallback c).mSocket.recvs =
        (offer c.mSocket.recvs cap).left := by
  obtain ⟨hok, hcap, _, hleft⟩ := h.recvMessage
  rw [handleRead_of_not_ends hends]
  exact ⟨hcap ▸ hcb.idle _ hok, (hcb.recvs _).trans hleft⟩

end Idle
end Knpnl.Net.TcpConnection
