import Knpnl.Net.TcpConnection
import Knpnl.Base.BufferFifo

/-!
# What sending leaves in the write buffer

`sendMessage` keeps the pointers of the write buffer in order, whatever the kernel
takes, and leaves nothing in it when the kernel takes everything.
-/
namespace Knpnl.Net.TcpConnection

open Lib.CString (Bytes)
open Base (FixedBuffer Addr)

variable {κ : Type*} {c : TcpConnection κ}

/-- The write buffer's pointers are in order, and its size is `cap`. -/
structure WriteOk (cap : Nat) (c : TcpConnection κ) : Prop where
  ok : c.mWriteBuffer.Ok
  cap_eq : c.mWriteBuffer.cap = cap

namespace WriteOk

variable {cap : Nat}

theorem wrote (h : WriteOk cap c) (n : Nat) : WriteOk cap (c.wrote n) := by
  obtain ⟨hok, hcap⟩ := h
  unfold TcpConnection.wrote
  dsimp only
  split
  · exact ⟨hok.reset, hcap⟩
  · rename_i hle
    refine ⟨(hok.readPtrMove (Nat.le_of_not_lt hle)).2.1, ?_⟩
    rw [← hcap]
    exact FixedBuffer.Ok.cap_readPtrMove _ _

theorem writeLoop (h : WriteOk cap c) (script : List Writev) : WriteOk cap (writeLoop script c).2 := by
  induction script generalizing c with
  | nil => exact h
  | cons a rest ih =>
    cases a with
    | error => exact ⟨h.ok, h.cap_eq⟩
    | eagain =>
      rw [TcpConnection.writeLoop]
      split
      · exact h
      · exact ⟨h.ok, h.cap_eq⟩
    | wrote n =>
      rw [TcpConnection.writeLoop]
      split
      · exact h
      · obtain ⟨hok, hcap⟩ := h.wrote (max 1 (min n c.pending))
        exact ih ⟨hok, hcap⟩

theorem sendMessage (h : WriteOk cap c) : WriteOk cap c.sendMessage.2 := by
  obtain ⟨hok, hcap⟩ := h.writeLoop c.mSocket.writevs
  unfold TcpConnection.sendMessage
  generalize TcpConnection.writeLoop c.mSocket.writevs c = r at hok hcap
  obtain ⟨e, c'⟩ := r
  cases e <;> exact ⟨hok, hcap⟩

theorem handleClose (h : WriteOk cap c) : WriteOk cap c.handleClose := by
  unfold TcpConnection.handleClose
  split <;> exact ⟨h.ok, h.cap_eq⟩

theorem Send (h : WriteOk cap c) : WriteOk cap c.Send := by
  have hsent := h.sendMessage
  unfold TcpConnection.Send sendInLoop
  dsimp only
  split
  · exact hsent.handleClose
  · split
    · exact ⟨hsent.ok, hsent.cap_eq⟩
    · split
      · exact ⟨hsent.ok, hsent.cap_eq⟩
      · exact hsent

end WriteOk

/-- How the loop ends when `n` bytes are pending. -/
def writeOutcome : List Writev → Nat → WriteEnd
  | [], n => if n = 0 then .zero else .again
  | .error :: _, _ => .error
  | .eagain :: _, n => if n = 0 then .zero else .again
  | .wrote k :: rest, n => if n = 0 then .zero else writeOutcome rest (n - max 1 (min k n))

/-- The write buffer is in order, and the file is not longer than a `size_t` can say. -/
structure WriteSound (cap : Nat) (c : TcpConnection κ) : Prop extends WriteOk cap c where
  file : c.m_iv1.iov_len < 2 ^ 64

namespace WriteSound

variable {cap : Nat}

/-- What is taken is no longer pending. -/
theorem wrote (h : WriteSound cap c) {n : Nat} (hn : n ≤ c.pending) :
    WriteSound cap (c.wrote n) ∧ (c.wrote n).pending = c.pending - n := by
  have hok := h.toWriteOk.wrote n
  have hfile := h.file
  rw [pending] at hn
  by_cases hgt : n > c.mWriteBuffer.used
  · have hwrote : (c.wrote n).m_iv1.iov_len =
        Base.sizeT ((c.m_iv1.iov_len : Int) - (n - c.mWriteBuffer.used : Nat)) := by
      simp [TcpConnection.wrote, hgt]
    have hlen : (c.wrote n).m_iv1.iov_len = c.m_iv1.iov_len - (n - c.mWriteBuffer.used) := by
      rw [hwrote, Base.sizeT, Int.emod_eq_of_lt (by omega) (by omega)]
      omega
    have hempty : (c.wrote n).mWriteBuffer.used = 0 := by
      have hreset : (c.wrote n).mWriteBuffer = c.mWriteBuffer.reset := by
        simp [TcpConnection.wrote, hgt]
      rw [hreset, ← h.ok.reset.unread_length, h.ok.unread_reset, List.length_nil]
    refine ⟨⟨hok, by omega⟩, ?_⟩
    rw [pending, pending, hlen, hempty]
    omega
  · have hfile' : (c.wrote n).m_iv1 = c.m_iv1 := by simp [TcpConnection.wrote, hgt]
    have hused : (c.wrote n).mWriteBuffer.used = c.mWriteBuffer.used - n := by
      have hmove : (c.wrote n).mWriteBuffer = (c.mWriteBuffer.readPtrMove n).2 := by
        simp [TcpConnection.wrote, hgt]
      obtain ⟨_, hok', hunread⟩ := h.ok.readPtrMove (Nat.le_of_not_lt hgt)
      rw [hmove, ← hok'.unread_length, hunread, List.length_drop, h.ok.unread_length]
    refine ⟨⟨hok, hfile' ▸ hfile⟩, ?_⟩
    rw [pending, pending, hfile', hused]
    omega

/-- The loop ends as the pending bytes and the kernel's answers say; after a zero nothing
is pending. -/
theorem writeLoop (h : WriteSound cap c) (script : List Writev) :
    WriteSound cap (writeLoop script c).2 ∧
      (TcpConnection.writeLoop script c).1 = writeOutcome script c.pending ∧
      ((TcpConnection.writeLoop script c).1 = .zero →
        (TcpConnection.writeLoop script c).2.pending = 0) := by
  induction script generalizing c with
  | nil =>
    simp only [TcpConnection.writeLoop, writeOutcome]
    refine ⟨h, trivial, fun hzero => ?_⟩
    split at hzero
    · assumption
    · cases hzero
  | cons a rest ih =>
    cases a with
    | error => exact ⟨⟨⟨h.ok, h.cap_eq⟩, h.file⟩, rfl, fun hzero => by cases hzero⟩
    | eagain =>
      by_cases h0 : c.pending = 0
      · simp only [TcpConnection.writeLoop, writeOutcome, if_pos h0]
        exact ⟨h, trivial, fun _ => h0⟩
      · simp only [TcpConnection.writeLoop, writeOutcome, if_neg h0]
        exact ⟨⟨⟨h.ok, h.cap_eq⟩, h.file⟩, trivial, fun hzero => by cases hzero⟩
    | wrote n =>
      by_cases h0 : c.pending = 0
      · simp only [TcpConnection.writeLoop, writeOutcome, if_pos h0]
        exact ⟨h, trivial, fun _ => h0⟩
      · obtain ⟨⟨⟨hok, hcap⟩, hfile⟩, hpending⟩ :=
          h.wrote (n := max 1 (min n c.pending)) (by omega)
        have hnext : WriteSound cap ((c.wrote (max 1 (min n c.pending))).answered rest) :=
          ⟨⟨hok, hcap⟩, hfile⟩
        simp only [TcpConnection.writeLoop, writeOutcome, if_neg h0]
        rw [← hpending]
        exact ih hnext

/-- A message that ends with a zero leaves nothing pending. -/
theorem sendMessage (h : WriteSound cap c) :
    WriteSound cap c.sendMessage.2 ∧
      match writeOutcome c.mSocket.writevs c.pending with
      | .zero => c.sendMessage.1 = 0 ∧ c.sendMessage.2.pending = 0
      | .error => c.sendMessage.1 = -1
      | .again => c.sendMessage.1 = Base.signed 64 c.sendMessage.2.pending := by
  obtain ⟨hsound, hend, hzero⟩ := h.writeLoop c.mSocket.writevs
  rw [← hend]
  unfold TcpConnection.sendMessage
  generalize TcpConnection.writeLoop c.mSocket.writevs c = r at hsound hzero
  obtain ⟨e, c'⟩ := r
  obtain ⟨⟨hok, hcap⟩, hfile⟩ := hsound
  cases e with
  | again =>
    refine ⟨⟨⟨hok, hcap⟩, hfile⟩, ?_⟩
    dsimp only
  | error => exact ⟨⟨⟨hok, hcap⟩, by dsimp only; decide⟩, rfl⟩
  | zero =>
    refine ⟨⟨⟨hok, hcap⟩, by dsimp only; decide⟩, rfl, ?_⟩
    have hpending := hzero rfl
    simp only [pending] at hpending ⊢
    omega

end WriteSound

section
variable {cap : Nat}

/-- `c'` is `c` with its channel or its count of completions changed. -/
structure Sent (c c' : TcpConnection κ) : Prop where
  state : c'.mState = c.mState
  writeBuffer : c'.mWriteBuffer = c.mWriteBuffer
  file : c'.m_iv1 = c.m_iv1

theorem Send_cases (c : TcpConnection κ) :
    c.Send = c.sendMessage.2.handleClose ∨ Sent c.sendMessage.2 c.Send := by
  unfold Send sendInLoop
  dsimp only
  split
  · exact Or.inl rfl
  · right
    split
    · exact ⟨rfl, rfl, rfl⟩
    · split <;> exact ⟨rfl, rfl, rfl⟩

theorem handleWrite_cases (c : TcpConnection κ) :
    c.handleWrite = c.sendMessage.2.handleClose ∨ Sent c.sendMessage.2 c.handleWrite := by
  unfold handleWrite
  dsimp only
  split
  · exact Or.inl rfl
  · right
    split
    · exact ⟨rfl, rfl, rfl⟩
    · split <;> exact ⟨rfl, rfl, rfl⟩

theorem handleClose_sent (c : TcpConnection κ) :
    c.handleClose.mWriteBuffer = c.mWriteBuffer ∧ c.handleClose.m_iv1 = c.m_iv1 := by
  unfold handleClose
  split <;> exact ⟨rfl, rfl⟩

theorem WriteSound.of_eq {c' : TcpConnection κ} (h : WriteSound cap c)
    (hbuffer : c'.mWriteBuffer = c.mWriteBuffer) (hfile : c'.m_iv1 = c.m_iv1) : WriteSound cap c' :=
  ⟨⟨hbuffer ▸ h.ok, hbuffer ▸ h.cap_eq⟩, hfile ▸ h.file⟩

theorem WriteSound.handleClose (h : WriteSound cap c) : WriteSound cap c.handleClose :=
  h.of_eq (handleClose_sent c).1 (handleClose_sent c).2

/-- After a message, however it is dealt with. -/
theorem WriteSound.sent {c' : TcpConnection κ} (h : WriteSound cap c)
    (hc' : c' = c.sendMessage.2.handleClose ∨ Sent c.sendMessage.2 c') : WriteSound cap c' := by
  obtain ⟨hsound, _⟩ := h.sendMessage
  rcases hc' with rfl | hsent
  · exact hsound.handleClose
  · exact hsound.of_eq hsent.writeBuffer hsent.file

/-- A message does not open a connection. -/
theorem isOpen_of_sent {c' : TcpConnection κ}
    (hc' : c' = c.sendMessage.2.handleClose ∨ Sent c.sendMessage.2 c') (hopen : c'.isOpen) : c.isOpen := by
  rcases hc' with rfl | hsent
  · exact absurd hopen (not_isOpen_handleClose _)
  · rwa [isOpen, hsent.state, (sendMessage_onlySent c).state] at hopen

/-- A message that has been sent leaves the state alone in `Send`, and the channel. -/
theorem Send_zero (h : c.sendMessage.1 = 0) :
    c.Send.mState = c.mState ∧ c.Send.mChannel = c.mChannel := by
  unfold Send sendInLoop
  dsimp only
  rw [h]
  exact ⟨(sendMessage_onlySent c).state, (sendMessage_onlySent c).channel⟩

theorem handleWrite_zero (h : c.sendMessage.1 = 0) :
    c.handleWrite.mChannel = c.mChannel.DisableWrite := by
  unfold handleWrite
  dsimp only
  rw [h]
  exact congrArg Event.Channel.DisableWrite (sendMessage_onlySent c).channel

theorem Send_error (h : c.sendMessage.1 = -1) : c.Send = c.sendMessage.2.handleClose := by
  unfold Send sendInLoop
  dsimp only
  rw [h]
  rfl

theorem handleWrite_error (h : c.sendMessage.1 = -1) : c.handleWrite = c.sendMessage.2.handleClose := by
  unfold handleWrite
  dsimp only
  rw [h]
  rfl

end

/-- The next `k` answers of `writev` at least take all that the write buffer can hold. -/
structure Eager (cap k : Nat) (c : TcpConnection κ) : Prop extends WriteOk cap c where
  noFile : c.m_iv1 = ⟨.null, 0⟩
  writevs : ∃ j, k ≤ j ∧ c.mSocket.writevs = List.replicate j (.wrote cap)

namespace Eager

variable {cap k : Nat}

theorem pending_eq (h : Eager cap k c) : c.pending = c.mWriteBuffer.used := by
  rw [pending, h.noFile, Nat.add_zero]

/-- With nothing to send the loop ends at once. -/
theorem writeLoop_zero (h0 : c.pending = 0) (j : Nat) :
    writeLoop (List.replicate j (.wrote cap)) c = (.zero, c) := by
  cases j with
  | zero => simp [writeLoop, h0]
  | succ j => rw [List.replicate_succ, writeLoop, if_pos h0]

theorem sendMessage (h : Eager cap (k + 1) c) :
    c.sendMessage.1 = 0 ∧ Eager cap k c.sendMessage.2 ∧ c.sendMessage.2.mWriteBuffer.unread = [] := by
  obtain ⟨j, hj, hscript⟩ := h.writevs
  obtain ⟨j, rfl⟩ : ∃ i, j = i + 1 := ⟨j - 1, by omega⟩
  have hlen := h.ok.unread_length
  by_cases h0 : c.pending = 0
  · have hcall : c.sendMessage = (0, { c with m_iv1 := ⟨.null, 0⟩ }) := by
      simp only [TcpConnection.sendMessage, hscript, writeLoop_zero h0]
    rw [hcall]
    refine ⟨rfl, ⟨⟨h.ok, h.cap_eq⟩, rfl, j + 1, by omega, hscript⟩, ?_⟩
    exact List.eq_nil_of_length_eq_zero (by rw [hlen, ← h.pending_eq, h0])
  · have hused := h.pending_eq
    have hcap := h.ok.used_le
    rw [h.cap_eq] at hcap
    have hn : max 1 (min cap c.pending) = c.mWriteBuffer.used := by omega
    obtain ⟨_, hok, hunread⟩ := h.ok.readPtrMove (le_refl c.mWriteBuffer.used)
    have hbuf : (c.wrote c.mWriteBuffer.used).mWriteBuffer =
        (c.mWriteBuffer.readPtrMove c.mWriteBuffer.used).2 := by
      simp [TcpConnection.wrote]
    have hempty : (c.wrote c.mWriteBuffer.used).mWriteBuffer.unread = [] := by
      rw [hbuf, hunread, ← hlen, List.drop_length]
    have hfile : (c.wrote c.mWriteBuffer.used).m_iv1 = ⟨.null, 0⟩ := by
      simp [TcpConnection.wrote, h.noFile]
    have hzero : ((c.wrote c.mWriteBuffer.used).answered (List.replicate j (.wrote cap))).pending = 0 := by
      have hu := hok.unread_length
      rw [← hbuf, hempty] at hu
      simp only [pending, answered, hfile, Nat.add_zero]
      exact hu.symm
    have hcall : c.sendMessage = (0, { (c.wrote c.mWriteBuffer.used).answered
        (List.replicate j (.wrote cap)) with m_iv1 := ⟨.null, 0⟩ }) := by
      simp only [TcpConnection.sendMessage, hscript, List.replicate_succ, TcpConnection.writeLoop,
        if_neg h0, hn, writeLoop_zero hzero]
    rw [hcall]
    refine ⟨rfl, ⟨⟨hbuf ▸ hok, ?_⟩, rfl, j, by omega, rfl⟩, hempty⟩
    exact (h.wrote c.mWriteBuffer.used).cap_eq

theorem Send (h : Eager cap (k + 1) c) : Eager cap k c.Send ∧ c.Send.mWriteBuffer.unread = [] := by
  obtain ⟨hret, ⟨⟨hok, hcap⟩, hfile, hscript⟩, hempty⟩ := h.sendMessage
  have hcall : c.Send =
      { c.sendMessage.2 with writeCompletes := c.sendMessage.2.writeCompletes + 1 } := by
    simp [TcpConnection.Send, sendInLoop, hret, Base.signed]
  rw [hcall]
  exact ⟨⟨⟨hok, hcap⟩, hfile, hscript⟩, hempty⟩

end Eager
end Knpnl.Net.TcpConnection
