import Knpnl.Net.Lifecycle

/-!
# Closing from the read side

`readFd` returns the number of bytes it has received, so a call that finds the read buffer full, or
nothing to receive, returns 0 like one that meets the end of the stream, and `handleRead` closes
the connection whenever the result is not positive.
-/
namespace Knpnl.Base

namespace ReadLoop

/-- The answers of the calls of `recv` in `run`. -/
def answers : Nat → ReadLoop → List Recv
  | 0, _ => []
  | fuel + 1, s =>
      if s.buf.avail > 0 then
        if s.buf.tail = 0 then answers fuel s.compact
        else match recv s.buf.tail s.script with
          | (.data (c :: bs), rest) => .data (c :: bs) :: answers fuel (s.took (c :: bs) rest)
          | (a, _) => [a]
      else []

end ReadLoop

/-- `recv` returned 0, or failed with an error other than `EAGAIN` and `EWOULDBLOCK`. -/
def EndOrError (a : Recv) : Prop := a = .data [] ∨ a = .error

instance (a : Recv) : Decidable (EndOrError a) := inferInstanceAs (Decidable (_ ∨ _))

/-- The loop ends in one of the two returns of -1 exactly if `recv` gave it a reason. -/
theorem ReadLoop.ended_iff (fuel : Nat) (s : ReadLoop) :
    (run fuel s).1 = .failed ∨ (run fuel s).1 = .closed ↔ ∃ a ∈ answers fuel s, EndOrError a := by
  induction fuel generalizing s with
  | zero => simp [run, answers]
  | succ fuel ih =>
    rw [run, answers]
    by_cases hav : s.buf.avail > 0
    · rw [if_pos hav, if_pos hav]
      by_cases ht : s.buf.tail = 0
      · rw [if_pos ht, if_pos ht]
        exact ih s.compact
      · rw [if_neg ht, if_neg ht]
        rcases recv s.buf.tail s.script with ⟨(_ | ⟨c, bs⟩) | _ | _, rest⟩
        · simp [EndOrError]
        · have hdata : ¬ EndOrError (.data (c :: bs)) := by simp [EndOrError]
          simpa [hdata] using ih (s.took (c :: bs) rest)
        · simp [EndOrError]
        · simp [EndOrError]
    · rw [if_neg hav, if_neg hav]
      simp

namespace FixedBuffer

/-- The answers of the calls of `recv` in `readFd`. -/
def readAnswers (b : FixedBuffer) (script : List Recv) : List Recv :=
  if b.avail = 0 then [] else (b.startRead script).answers (b.avail + 2)

theorem ended_readFd_iff (b : FixedBuffer) (script : List Recv) :
    (b.readFd script).ended = .failed ∨ (b.readFd script).ended = .closed ↔
      ∃ a ∈ b.readAnswers script, EndOrError a := by
  unfold readFd readAnswers
  by_cases hav : b.avail = 0
  · simp [hav]
  · rw [if_neg hav, if_neg hav, ← ReadLoop.ended_iff]
    dsimp only
    cases ((b.startRead script).run (b.avail + 2)).1 <;> simp

end FixedBuffer

/-- The first call of `recv` has an answer other than `EAGAIN` and `EWOULDBLOCK`. -/
def Answered : List Recv → Prop
  | [] | .eagain :: _ => False
  | .data _ :: _ | .error :: _ => True

instance : (script : List Recv) → Decidable (Answered script)
  | [] | .eagain :: _ => isFalse id
  | .data _ :: _ | .error :: _ => isTrue trivial

/-- A reader that stops without an end or an error has been offered something exactly if it has
room and the first call of `recv` an answer. -/
theorem offer_bytes_eq_nil_iff (script : List Recv) (free : Nat)
    (hend : ¬ ((offer script free).ended = .failed ∨ (offer script free).ended = .closed)) :
    (offer script free).bytes = [] ↔ ¬ (0 < free ∧ Answered script) := by
  cases free with
  | zero => simp
  | succ free =>
    rcases script with _ | ⟨(_ | ⟨c, bs⟩) | _ | _, rest⟩
    · simp [offer, Answered]
    · simp [offer] at hend
    · simp only [offer, Answered]
      split <;> simp
    · simp [offer, Answered]
    · simp [offer] at hend

/-- An end or an error is offered only to a reader with room whose first call has an answer. -/
theorem answered_of_end {script : List Recv} {free : Nat}
    (hend : (offer script free).ended = .failed ∨ (offer script free).ended = .closed) :
    0 < free ∧ Answered script := by
  cases free with
  | zero => simp at hend
  | succ free =>
    refine ⟨Nat.succ_pos free, ?_⟩
    rcases script with _ | ⟨_ | _ | _, rest⟩
    · simp [offer] at hend
    · trivial
    · simp [offer] at hend
    · trivial

end Knpnl.Base

namespace Knpnl.Net

open Lib
open Lib.CString (Bytes)
open Base (FixedBuffer Recv EndOrError Answered offer)
open Event

namespace TcpConnection

variable {κ : Type*} {c : TcpConnection κ}

/-- If `handleRead` calls `handleClose` itself, some `recv` of the call gave a reason. -/
def ClosesForReason (c : TcpConnection κ) : Prop :=
  c.Ends → ∃ a ∈ c.mReadBuffer.readAnswers c.mSocket.recvs, EndOrError a

/-- There is room in the read buffer, and the first `recv` of the call has an answer. -/
def Finds (c : TcpConnection κ) : Prop := 0 < c.mReadBuffer.avail ∧ Answered c.mSocket.recvs

instance (c : TcpConnection κ) : Decidable c.ClosesForReason := inferInstanceAs (Decidable (_ → _))

instance (c : TcpConnection κ) : Decidable c.Finds := inferInstanceAs (Decidable (_ ∧ _))

theorem closesForReason_iff (hok : c.mReadBuffer.Ok) : c.ClosesForReason ↔ c.Finds := by
  obtain ⟨took, ret⟩ := hok.readFd c.mSocket.recvs
  have hended : (c.mReadBuffer.readFd c.mSocket.recvs).ended =
      (offer c.mSocket.recvs c.mReadBuffer.avail).ended := took.ended
  unfold ClosesForReason Finds Ends
  rw [← FixedBuffer.ended_readFd_iff, hended, recvMessage]
  dsimp only
  rw [ret]
  by_cases hend : (offer c.mSocket.recvs c.mReadBuffer.avail).ended = .failed ∨
      (offer c.mSocket.recvs c.mReadBuffer.avail).ended = .closed
  · exact iff_of_true (fun _ => hend) (Base.answered_of_end hend)
  · have hbytes := Base.offer_bytes_eq_nil_iff _ _ hend
    rw [if_neg hend]
    generalize (offer c.mSocket.recvs c.mReadBuffer.avail).bytes = bytes at hbytes
    rw [← not_iff_not, ← hbytes]
    simp [hend]

end TcpConnection

namespace Lived

variable {κ : Type*} {x : Lived κ}

/-- What a user leaves in the read buffer has its pointers in order. -/
def OpOrdered : CallbackOp κ → Prop
  | .user (.readBuffer b) => b.Ok
  | _ => True

def StepOrdered : LifeStep κ → Prop
  | .task ops _ | .read _ ops | .user ops => ∀ op ∈ ops, OpOrdered op
  | _ => True

/-- A read event closes the connection, other than through the callback, for a reason only. -/
def StepForReason (x : Lived κ) : LifeStep κ → Prop
  | .read recvs _ => (x.conn.withRecvs recvs).ClosesForReason
  | _ => True

/-- A read event finds room in the read buffer, and its first `recv` has an answer. -/
def StepFinds (x : Lived κ) : LifeStep κ → Prop
  | .read recvs _ => (x.conn.withRecvs recvs).Finds
  | _ => True

instance (x : Lived κ) : (s : LifeStep κ) → Decidable (x.StepForReason s)
  | .read recvs _ => inferInstanceAs (Decidable (x.conn.withRecvs recvs).ClosesForReason)
  | .task _ _ | .write _ | .hangup | .user _ | .Send | .Close | .ServerClose | .removeInLoop => isTrue trivial

instance (x : Lived κ) : (s : LifeStep κ) → Decidable (x.StepFinds s)
  | .read recvs _ => inferInstanceAs (Decidable (x.conn.withRecvs recvs).Finds)
  | .task _ _ | .write _ | .hangup | .user _ | .Send | .Close | .ServerClose | .removeInLoop => isTrue trivial

theorem readOk_act (h : x.conn.mReadBuffer.Ok) {op : CallbackOp κ} (hop : OpOrdered op) :
    (x.act op).conn.mReadBuffer.Ok := by
  cases op with
  | user op =>
    cases op with
    | readBuffer b => exact hop
    | Send writevs =>
      show (x.conn.withWritevs writevs).Send.mReadBuffer.Ok
      rw [(TcpConnection.Send_sameReader _).readBuffer]
      exact h
    | _ => exact h
  | Close => exact h
  | ServerClose =>
    rw [act, ServerClose]
    split <;> exact h

theorem readOk_acts (h : x.conn.mReadBuffer.Ok) {ops : List (CallbackOp κ)} (hops : ∀ op ∈ ops, OpOrdered op) :
    (x.acts ops).conn.mReadBuffer.Ok := by
  induction ops generalizing x with
  | nil => exact h
  | cons op ops ih =>
    exact ih (readOk_act h (hops op List.mem_cons_self)) fun op' hop' => hops op' (List.mem_cons_of_mem op hop')

theorem readOk_task (h : x.conn.mReadBuffer.Ok) {ops : List (CallbackOp κ)} (hops : ∀ op ∈ ops, OpOrdered op)
    (writevs : List Writev) (t : LifeTask) : (x.runTask ops writevs t).conn.mReadBuffer.Ok := by
  cases t with
  | Established => exact readOk_acts (x := x.connecting) h hops
  | sendInLoop =>
    show (x.conn.withWritevs writevs).Send.mReadBuffer.Ok
    rw [(TcpConnection.Send_sameReader _).readBuffer]
    exact h
  | closeInLoop => exact h
  | handleClose =>
    show x.conn.handleClose.mReadBuffer.Ok
    rwa [(TcpConnection.handleClose_sameReader _).readBuffer]
  | WriteCompleteCallback => exact readOk_acts h hops
  | Destroy => exact h

theorem readOk_read (h : x.conn.mReadBuffer.Ok) (recvs : List Recv) {ops : List (CallbackOp κ)}
    (hops : ∀ op ∈ ops, OpOrdered op) : (x.handleRead recvs ops).conn.mReadBuffer.Ok := by
  have hread : (x.conn.withRecvs recvs).recvMessage.2.mReadBuffer.Ok :=
    (FixedBuffer.Ok.readFd (b := x.conn.mReadBuffer) h recvs).took.ok
  unfold handleRead
  dsimp only
  split
  · show ((x.conn.withRecvs recvs).recvMessage.2.handleClose).mReadBuffer.Ok
    rwa [(TcpConnection.handleClose_sameReader _).readBuffer]
  · exact readOk_acts (x := x.note (x.conn.withRecvs recvs).recvMessage.2) hread hops

/-- The pointers of the read buffer stay in order. -/
theorem readOk_step (h : x.conn.mReadBuffer.Ok) {s : LifeStep κ} (hs : StepOrdered s) :
    (x.step s).conn.mReadBuffer.Ok := by
  cases s with
  | task ops writevs =>
    rw [step]
    split
    · exact h
    · rename_i t rest _
      exact readOk_task (x := { x with mTasks := rest }) h hs writevs t
  | read recvs ops => exact readOk_read h recvs hs
  | write writevs =>
    show (x.conn.withWritevs writevs).handleWrite.mReadBuffer.Ok
    rw [(TcpConnection.handleWrite_sameReader _).readBuffer]
    exact h
  | hangup =>
    show x.conn.handleClose.mReadBuffer.Ok
    rwa [(TcpConnection.handleClose_sameReader _).readBuffer]
  | user ops => exact readOk_acts h hs
  | ServerClose =>
    rw [step, ServerClose]
    split <;> exact h
  | Send | Close | removeInLoop => exact h

theorem stepForReason_iff (h : x.conn.mReadBuffer.Ok) (s : LifeStep κ) : x.StepForReason s ↔ x.StepFinds s := by
  cases s with
  | read recvs ops => exact TcpConnection.closesForReason_iff h
  | _ => exact Iff.rfl

/-- In every run in which the users leave the read buffer in order, read events close the
connection for a reason only, if and only if each of them finds room in the read buffer and an
answer to its first `recv`. -/
theorem closesForReason_run (rbuf wbuf : Bytes) (hrbuf : rbuf.length < 2 ^ 31) (context : κ) (socket : Socket)
    (garbage : Channel) (alive : Bool) (steps : List (LifeStep κ)) (hordered : ∀ s ∈ steps, StepOrdered s) :
    Along step StepForReason (new rbuf wbuf context socket garbage alive) steps ↔
      Along step StepFinds (new rbuf wbuf context socket garbage alive) steps := by
  have hok : (new rbuf wbuf context socket garbage alive).conn.mReadBuffer.Ok := FixedBuffer.fresh_ok hrbuf
  exact along_iff_along (I := fun x : Lived κ => x.conn.mReadBuffer.Ok)
    (fun _ s h (_ : StepOrdered s) => stepForReason_iff h s) (fun _ _ h hs _ => readOk_step h hs) hok
    (along_of_forall (fun s hs _ => hordered s hs) _)

/-- Established, and two read events with callbacks that leave the connection alone. -/
def twoReads (first second : List Recv) : List (LifeStep Unit) := [.task [] [], .read first [], .read second []]

theorem twoReads_ordered (first second : List Recv) : ∀ s ∈ twoReads first second, StepOrdered s := by
  intro s hs
  simp only [twoReads, List.mem_cons, List.not_mem_nil, or_false] at hs
  rcases hs with rfl | rfl | rfl
  all_goals exact fun op hop => absurd hop List.not_mem_nil

/-- The peer sends a byte and closes. -/
theorem closesForReason_run_peer :
    Along step StepForReason
        (new (List.replicate 1024 0) (List.replicate 1024 0) () ⟨[], [], []⟩ ⟨0, 0⟩ true)
        (twoReads [.data [71], .eagain] [.data []]) :=
  (closesForReason_run (List.replicate 1024 0) (List.replicate 1024 0) (by decide +kernel) () ⟨[], [], []⟩
    ⟨0, 0⟩ true _ (twoReads_ordered _ _)).mpr (by decide +kernel)

/-- Connections are closed from the read side for a reason only. -/
def AlwaysForReason : Prop :=
  ∀ (rbuf wbuf : Bytes) (socket : Socket) (garbage : Channel) (alive : Bool) (steps : List (LifeStep Unit)),
    rbuf.length = FixedBuffer.kBufferSize → wbuf.length = FixedBuffer.kBufferSize →
    (∀ s ∈ steps, StepOrdered s) → Along step Possible (new rbuf wbuf () socket garbage alive) steps →
      Along step StepForReason (new rbuf wbuf () socket garbage alive) steps

/-- The read buffer is full of a request that is not complete, and more of it arrives. -/
theorem alwaysForReason_full : ¬ AlwaysForReason := by
  intro hclaim
  have hreason := hclaim (List.replicate 1024 0) (List.replicate 1024 0) ⟨[], [], []⟩ ⟨0, 0⟩ true
    (twoReads [.data (List.replicate 1024 97)] [.data [97], .eagain]) List.length_replicate
    List.length_replicate (twoReads_ordered _ _) (by decide +kernel)
  revert hreason
  decide +kernel

end Lived
end Knpnl.Net
