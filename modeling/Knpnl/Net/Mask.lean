import Knpnl.Lib.Reach
import Knpnl.Net.Receiving
import Knpnl.Net.Sending

/-!
# The mask of an open connection

Event-loop steps of a connection after `Established`, with any answers of the kernel and
any user of its callbacks. `EnableWrite` assigns the whole mask, so a message that leaves
bytes unsent ends the listening for input. As long as no message does, the mask is the one
`Established` registered.
-/
namespace Knpnl.Net

open Lib
open Lib.CString (Bytes)
open Base (FixedBuffer FileSystem Recv)
open Event

/-- What a user does with a connection in a callback or a task. The length of a file is a
`size_t`. `Send` comes with the kernel's answers. -/
inductive UserOp (κ : Type*) where
  | append (str : Bytes)
  | readBuffer (b : FixedBuffer)
  | setFile (F : FileSystem) (size : F.getLength < 2 ^ 64)
  | SetAlive (on : Bool)
  | setContext (context : κ)
  | Send (writevs : List Writev)

/-- A connection, and whether its last `sendMessage` left bytes unsent. -/
structure Watched (κ : Type*) where
  conn : TcpConnection κ
  unsent : Bool

/-- One step of the event loop: a read event whose callback does `ops`, a write event, a
task, or a close. -/
inductive LoopStep (κ : Type*) where
  | read (recvs : List Recv) (ops : List (UserOp κ))
  | write (writevs : List Writev)
  | task (ops : List (UserOp κ))
  | close

namespace TcpConnection

variable {κ : Type*}

/-- The kernel's next answers. -/
def withWritevs (c : TcpConnection κ) (writevs : List Writev) : TcpConnection κ :=
  { c with mSocket := { c.mSocket with writevs := writevs } }

def withRecvs (c : TcpConnection κ) (recvs : List Recv) : TcpConnection κ :=
  { c with mSocket := { c.mSocket with recvs := recvs } }

/-- How a message ends with these answers. -/
theorem WriteSound.answer {cap : Nat} {c : TcpConnection κ} (h : c.WriteSound cap) (writevs : List Writev) :
    (c.withWritevs writevs).WriteSound cap ∧
      match writeOutcome writevs c.pending with
      | .zero => (c.withWritevs writevs).sendMessage.1 = 0 ∧
          (c.withWritevs writevs).sendMessage.2.pending = 0
      | .error => (c.withWritevs writevs).sendMessage.1 = -1
      | .again => (c.withWritevs writevs).sendMessage.1 =
          Base.signed 64 (c.withWritevs writevs).sendMessage.2.pending := by
  have hsound : (c.withWritevs writevs).WriteSound cap := h.of_eq rfl rfl
  exact ⟨hsound, hsound.sendMessage.2⟩

end TcpConnection

namespace Watched

variable {κ : Type*}

def act (w : Watched κ) : UserOp κ → Watched κ
  | .append str => { w with conn := { w.conn with mWriteBuffer := (w.conn.mWriteBuffer.append str).buf } }
  | .readBuffer b => { w with conn := { w.conn with mReadBuffer := b } }
  | .setFile F _ => { w with conn := w.conn.setFile F }
  | .SetAlive on => { w with conn := w.conn.SetAlive on }
  | .setContext context => { w with conn := { w.conn with mContext := context } }
  | .Send writevs =>
      let c := w.conn.withWritevs writevs
      ⟨c.Send, 0 < c.sendMessage.2.pending⟩

def acts (w : Watched κ) (ops : List (UserOp κ)) : Watched κ := ops.foldl act w

/-- A connection when its connect callback is called. -/
def connecting (c : TcpConnection κ) : Watched κ :=
  ⟨{ c with mChannel := c.mChannel.add.EnableRead }, false⟩

/-- `Established`, with a connect callback that does `ops`. -/
def established (c : TcpConnection κ) (ops : List (UserOp κ)) : Watched κ where
  conn := c.Established fun c => (acts ⟨c, false⟩ ops).conn
  unsent := ((connecting c).acts ops).unsent

/-- The connection when a message callback is called. -/
def received (w : Watched κ) (recvs : List Recv) : Watched κ :=
  { w with conn := (w.conn.withRecvs recvs).recvMessage.2 }

def step (w : Watched κ) : LoopStep κ → Watched κ
  | .read recvs ops =>
      let c := w.conn.withRecvs recvs
      { conn := c.handleRead fun c => (acts ⟨c, w.unsent⟩ ops).conn
        unsent := if c.Ends then w.unsent else ((w.received recvs).acts ops).unsent }
  | .write writevs =>
      let c := w.conn.withWritevs writevs
      ⟨c.handleWrite, 0 < c.sendMessage.2.pending⟩
  | .task ops => w.acts ops
  | .close => { w with conn := w.conn.handleClose }

def run (w : Watched κ) (steps : List (LoopStep κ)) : Watched κ := steps.foldl step w

/-- A connected connection is registered for input, and for output exactly when the last
message left bytes unsent. -/
def MaskLaw (w : Watched κ) : Prop :=
  w.conn.mState = .CONNECTED →
    w.conn.mChannel.registered &&& Channel.kReadEvent = Channel.kReadEvent ∧
      (has w.conn.mChannel.registered EPOLLOUT = true ↔ w.unsent = true)

instance (w : Watched κ) : Decidable w.MaskLaw := inferInstanceAs (Decidable (_ → _))

/-- On an open connection a message is not left unsent: the kernel takes all of it, or
reports an error other than `EAGAIN`. -/
def Sends (w : Watched κ) (writevs : List Writev) : Prop :=
  w.conn.isOpen → TcpConnection.writeOutcome writevs w.conn.pending ≠ .again

instance (w : Watched κ) (writevs : List Writev) : Decidable (w.Sends writevs) :=
  inferInstanceAs (Decidable (_ → _))

def ActSends (w : Watched κ) : UserOp κ → Prop
  | .Send writevs => w.Sends writevs
  | _ => True

instance (w : Watched κ) : (op : UserOp κ) → Decidable (w.ActSends op)
  | .append _ | .readBuffer _ | .setFile _ _ | .SetAlive _ | .setContext _ => isTrue trivial
  | .Send _ => inferInstanceAs (Decidable (Sends _ _))

/-- Every message of a step is sent. -/
def StepSends (w : Watched κ) : LoopStep κ → Prop
  | .read recvs ops => ¬ (w.conn.withRecvs recvs).Ends → Along act ActSends (w.received recvs) ops
  | .write writevs => w.Sends writevs
  | .task ops => Along act ActSends w ops
  | .close => True

instance (w : Watched κ) : (s : LoopStep κ) → Decidable (w.StepSends s)
  | .read _ _ => inferInstanceAs (Decidable (_ → _))
  | .write _ => inferInstanceAs (Decidable (Sends _ _))
  | .task _ => inferInstanceAs (Decidable (Along _ _ _ _))
  | .close => isTrue trivial

/-- In the connect callback a message must not fail either: `Established` would set
`CONNECTED` on a connection that has been closed. -/
def ConnectSends (w : Watched κ) : UserOp κ → Prop
  | .Send writevs => TcpConnection.writeOutcome writevs w.conn.pending = .zero
  | _ => True

instance (w : Watched κ) : (op : UserOp κ) → Decidable (w.ConnectSends op)
  | .append _ | .readBuffer _ | .setFile _ _ | .SetAlive _ | .setContext _ => isTrue trivial
  | .Send _ => inferInstanceAs (Decidable (_ = _))

variable {cap : Nat} {w : Watched κ}

/-- The mask that `Established` registers. -/
def inputMask : UInt32 := Channel.kReadEvent ||| Channel.kEPollET

/-- As long as the connection is open it listens for input only, and nothing is unsent. -/
structure Listens (cap : Nat) (w : Watched κ) : Prop where
  sound : w.conn.WriteSound cap
  mask : w.conn.isOpen → w.conn.mChannel.mEvent = inputMask ∧ w.conn.mChannel.registered = inputMask
  unsent : w.conn.isOpen → w.unsent = false

/-- A message that is sent, dealt with by `Send` or `handleWrite`. -/
theorem Listens.sent (h : w.Listens cap) {writevs : List Writev} (hsends : w.Sends writevs)
    {c' : TcpConnection κ}
    (hcases : c' = (w.conn.withWritevs writevs).sendMessage.2.handleClose ∨
      TcpConnection.Sent (w.conn.withWritevs writevs).sendMessage.2 c')
    (hzero : (w.conn.withWritevs writevs).sendMessage.1 = 0 →
      c'.mChannel = w.conn.mChannel ∨ c'.mChannel = w.conn.mChannel.DisableWrite)
    (herror : (w.conn.withWritevs writevs).sendMessage.1 = -1 →
      c' = (w.conn.withWritevs writevs).sendMessage.2.handleClose) :
    Listens cap ⟨c', 0 < (w.conn.withWritevs writevs).sendMessage.2.pending⟩ := by
  obtain ⟨hsound, hend⟩ := h.sound.answer writevs
  have hopen : c'.isOpen → w.conn.isOpen :=
    @TcpConnection.isOpen_of_sent κ (w.conn.withWritevs writevs) c' hcases
  -- on a connection that stays open the message has ended with a zero
  have hdone : c'.isOpen → (w.conn.withWritevs writevs).sendMessage.1 = 0 ∧
      (w.conn.withWritevs writevs).sendMessage.2.pending = 0 := by
    intro hc'
    have hnot := hsends (hopen hc')
    cases houtcome : TcpConnection.writeOutcome writevs w.conn.pending with
    | zero => rwa [houtcome] at hend
    | again => exact absurd houtcome hnot
    | error =>
      rw [houtcome] at hend
      rw [herror hend] at hc'
      exact absurd hc' (TcpConnection.not_isOpen_handleClose _)
  refine ⟨hsound.sent hcases, fun hc' => ?_, fun hc' => ?_⟩
  · obtain ⟨hevent, hregistered⟩ := h.mask (hopen hc')
    rcases hzero (hdone hc').1 with hchannel | hchannel
    · dsimp only
      rw [hchannel]
      exact ⟨hevent, hregistered⟩
    · dsimp only
      rw [hchannel, Channel.DisableWrite, hevent]
      show inputMask &&& ~~~Channel.kWriteEvent = inputMask ∧
        inputMask &&& ~~~Channel.kWriteEvent = inputMask
      decide
  · simp [(hdone hc').2]

theorem Listens.act (h : w.Listens cap) (op : UserOp κ) (hsends : w.ActSends op) :
    (w.act op).Listens cap := by
  cases op with
  | append str =>
    have happ := h.sound.ok.append str
    exact ⟨⟨⟨happ.ok, happ.cap.trans h.sound.cap_eq⟩, h.sound.file⟩, h.mask, h.unsent⟩
  | readBuffer b => exact ⟨h.sound.of_eq rfl rfl, h.mask, h.unsent⟩
  | setFile F size => exact ⟨⟨⟨h.sound.ok, h.sound.cap_eq⟩, size⟩, h.mask, h.unsent⟩
  | SetAlive on => exact ⟨h.sound.of_eq rfl rfl, h.mask, h.unsent⟩
  | setContext context => exact ⟨h.sound.of_eq rfl rfl, h.mask, h.unsent⟩
  | Send writevs =>
    exact h.sent hsends (TcpConnection.Send_cases _) (fun hzero => Or.inl (TcpConnection.Send_zero hzero).2)
      TcpConnection.Send_error

theorem Listens.acts (h : w.Listens cap) {ops : List (UserOp κ)}
    (hsends : Along Watched.act ActSends w ops) : (w.acts ops).Listens cap :=
  hsends.invariant (P := Listens cap) (fun _ op hw hop => hw.act op hop) h

theorem Listens.handleClose (h : w.Listens cap) (unsent : Bool) :
    Listens cap ⟨w.conn.handleClose, unsent⟩ :=
  ⟨h.sound.handleClose, fun hopen => absurd hopen (TcpConnection.not_isOpen_handleClose _),
    fun hopen => absurd hopen (TcpConnection.not_isOpen_handleClose _)⟩

/-- `recvMessage` changes the reader's side only. -/
theorem Listens.received (h : w.Listens cap) (recvs : List Recv) : (w.received recvs).Listens cap :=
  ⟨h.sound.of_eq rfl rfl, h.mask, h.unsent⟩

theorem Listens.step (h : w.Listens cap) (s : LoopStep κ) (hsends : w.StepSends s) :
    (w.step s).Listens cap := by
  cases s with
  | read recvs ops =>
    rw [Watched.step]
    by_cases hends : (w.conn.withRecvs recvs).Ends
    · rw [TcpConnection.handleRead_of_ends hends, if_pos hends]
      exact (h.received recvs).handleClose w.unsent
    · rw [TcpConnection.handleRead_of_not_ends hends, if_neg hends]
      exact (h.received recvs).acts (hsends hends)
  | write writevs =>
    exact h.sent hsends (TcpConnection.handleWrite_cases _)
      (fun hzero => Or.inr (TcpConnection.handleWrite_zero hzero)) TcpConnection.handleWrite_error
  | task ops => exact h.acts hsends
  | close => exact h.handleClose w.unsent

theorem Listens.maskLaw (h : w.Listens cap) : w.MaskLaw := by
  intro hstate
  obtain ⟨_, hregistered⟩ := h.mask (Or.inr hstate)
  rw [hregistered, h.unsent (Or.inr hstate)]
  decide

/-- In the connect callback the connection stays open. -/
theorem Listens.connect (h : w.Listens cap) (hopen : w.conn.isOpen) (op : UserOp κ)
    (hsends : w.ConnectSends op) : (w.act op).Listens cap ∧ (w.act op).conn.isOpen := by
  cases op with
  | Send writevs =>
    have houtcome : TcpConnection.writeOutcome writevs w.conn.pending = .zero := hsends
    obtain ⟨_, hend⟩ := h.sound.answer writevs
    rw [houtcome] at hend
    refine ⟨h.act (.Send writevs) fun _ => by rw [houtcome]; decide, ?_⟩
    show (w.conn.withWritevs writevs).Send.isOpen
    rwa [TcpConnection.isOpen, (TcpConnection.Send_zero hend.1).1]
  | _ => exact ⟨h.act _ trivial, hopen⟩

/-- After `Established` no message has been left. -/
theorem listens_established {c : TcpConnection κ} (hsound : c.WriteSound cap) (hopen : c.isOpen)
    {ops : List (UserOp κ)} (hsends : Along act ConnectSends (connecting c) ops) :
    (established c ops).Listens cap := by
  have hconnecting : (connecting c).Listens cap :=
    ⟨hsound.of_eq rfl rfl, fun _ => ⟨rfl, rfl⟩, fun _ => rfl⟩
  obtain ⟨hlistens, hstill⟩ := hsends.invariant (P := fun w => w.Listens cap ∧ w.conn.isOpen)
    (fun _ op hw hop => hw.1.connect hw.2 op hop) ⟨hconnecting, hopen⟩
  exact ⟨hlistens.sound.of_eq rfl rfl, fun _ => hlistens.mask hstill, fun _ => hlistens.unsent hstill⟩

/-- In every run after `Established` in which no message on an open connection is left
unsent, a connected connection listens for input, and for output exactly when the last
message left bytes unsent. -/
theorem maskLaw_run (rbuf wbuf : Bytes) (hwbuf : wbuf.length < 2 ^ 31) (context : κ) (socket : Socket)
    (garbage : Channel) (alive : Bool) (ops : List (UserOp κ)) (steps : List (LoopStep κ))
    (hconnect : Along act ConnectSends (connecting (.new rbuf wbuf context socket garbage alive)) ops)
    (hsends : Along step StepSends
      (established (.new rbuf wbuf context socket garbage alive) ops) steps) :
    ((established (.new rbuf wbuf context socket garbage alive) ops).run steps).MaskLaw := by
  have hsound : (TcpConnection.new rbuf wbuf context socket garbage alive).WriteSound wbuf.length :=
    ⟨⟨FixedBuffer.fresh_ok hwbuf, rfl⟩, Nat.two_pow_pos 64⟩
  have hstart := listens_established hsound (Or.inl rfl) hconnect
  exact (hsends.invariant (P := Listens wbuf.length) (fun _ s hw hs => hw.step s hs) hstart).maskLaw

/-- A connection with a write buffer of 16 bytes. -/
def sixteen : TcpConnection Unit :=
  .new (List.replicate 16 0) (List.replicate 16 0) () ⟨[], [], []⟩ ⟨0, 0⟩ true

/-- A message that is sent in two parts, and one in answer to a read. -/
theorem maskLaw_run_answer :
    ((established sixteen []).run [.task [.append [1, 2, 3], .Send [.wrote 2, .wrote 1]],
      .read [.data [4], .eagain] [.append [5], .Send [.wrote 1]], .write []]).MaskLaw :=
  maskLaw_run (List.replicate 16 0) (List.replicate 16 0) (by decide) () ⟨[], [], []⟩ ⟨0, 0⟩ true []
    [.task [.append [1, 2, 3], .Send [.wrote 2, .wrote 1]],
      .read [.data [4], .eagain] [.append [5], .Send [.wrote 1]], .write []]
    (by decide) (by decide +kernel)

/-- Three bytes, of which the kernel takes two: the connection no longer listens for input. -/
theorem maskLaw_run_partial :
    ¬ ((established sixteen []).run [.task [.append [1, 2, 3], .Send [.wrote 2, .eagain]]]).MaskLaw := by
  decide +kernel

end Watched
end Knpnl.Net
