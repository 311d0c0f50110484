import Knpnl.Base.FileSystem
import Knpnl.Event.Channel

/-!
# `net/TcpConnection`: reading, writing and closing

The kernel is the list of answers that `recv` and `writev` will give. User callbacks
are functions on the connection. `κ` is the type of the context a user stores in it.
-/
namespace Knpnl.Net

open Lib.CString (Bytes)
open Base (FixedBuffer FileSystem Addr Recv sizeT signed)
open Event (Channel Callbacks)

inductive CONNECTION_STATE where
  | CONNECTING | CONNECTED | CLOSING | CLOSED
  deriving DecidableEq

structure Iovec where
  iov_base : Addr
  iov_len : Nat
  deriving DecidableEq

/-- One answer of `writev`, which takes at least one of the bytes it is offered and
at most all of them. -/
inductive Writev where
  | wrote (n : Nat)
  | eagain
  | error
  deriving DecidableEq

/-- The answers the kernel will give, and the bytes it has taken. -/
structure Socket where
  recvs : List Recv
  writevs : List Writev
  wire : Bytes
  deriving DecidableEq

/-- `m_iv[0]` is set from the write buffer before each use, so only `m_iv[1]` is kept.
`writeCompletes` and `closes` count the calls queued to the write-complete callback and
the calls of the close callback. -/
structure TcpConnection (κ : Type*) where
  mSocket : Socket
  mChannel : Channel
  mAlive : Bool
  mState : CONNECTION_STATE
  mReadBuffer : FixedBuffer
  mWriteBuffer : FixedBuffer
  mContext : κ
  m_iv1 : Iovec
  writeCompletes : Nat
  closes : Nat

namespace TcpConnection

variable {κ : Type*}

def setFile (c : TcpConnection κ) (F : FileSystem) : TcpConnection κ :=
  { c with m_iv1 := ⟨F.getAddr, F.getLength⟩ }

def SetAlive (c : TcpConnection κ) (on : Bool) : TcpConnection κ := { c with mAlive := on }

def handleClose (c : TcpConnection κ) : TcpConnection κ :=
  if c.mState = .CONNECTING ∨ c.mState = .CONNECTED then
    { c with mState := .CLOSING, mChannel := c.mChannel.DisableAll, closes := c.closes + 1 }
  else c

/-- `handleClose` has not been called. -/
abbrev isOpen (c : TcpConnection κ) : Prop := c.mState = .CONNECTING ∨ c.mState = .CONNECTED

/-- The bytes that one `writev` offers. -/
def offered (c : TcpConnection κ) : Bytes :=
  c.mWriteBuffer.unread ++ c.m_iv1.iov_base.bytes.take c.m_iv1.iov_len

/-- Their number. -/
def pending (c : TcpConnection κ) : Nat := c.mWriteBuffer.used + c.m_iv1.iov_len

/-- An answer of `writev` is used up, and `rest` are to come. -/
def answered (c : TcpConnection κ) (rest : List Writev) : TcpConnection κ :=
  { c with mSocket := { c.mSocket with writevs := rest } }

/-- What the loop in `sendMessage` does when `writev` has taken `n` bytes. -/
def wrote (c : TcpConnection κ) (n : Nat) : TcpConnection κ :=
  let c := { c with mSocket := { c.mSocket with wire := c.mSocket.wire ++ c.offered.take n } }
  if n > c.mWriteBuffer.used then
    let temp := n - c.mWriteBuffer.used
    { c with
      m_iv1 := ⟨c.m_iv1.iov_base.add temp, sizeT ((c.m_iv1.iov_len : Int) - temp)⟩
      mWriteBuffer := c.mWriteBuffer.reset }
  else { c with mWriteBuffer := (c.mWriteBuffer.readPtrMove n).2 }

/-- The last answer of `writev`: 0, or -1 with or without `EAGAIN`. -/
inductive WriteEnd where
  | zero
  | again
  | error
  deriving DecidableEq

/-- `while(1)` over the answers of `writev`. With nothing to write it returns 0 unless
the socket has an error. -/
def writeLoop : List Writev → TcpConnection κ → WriteEnd × TcpConnection κ
  | [], c => (if c.pending = 0 then .zero else .again, c)
  | .error :: rest, c => (.error, c.answered rest)
  | .eagain :: rest, c => if c.pending = 0 then (.zero, c) else (.again, c.answered rest)
  | .wrote n :: rest, c =>
      if c.pending = 0 then (.zero, c)
      else writeLoop rest ((c.wrote (max 1 (min n c.pending))).answered rest)

/-- -1 on an error, 0 when all is sent, else the number of bytes left. -/
def sendMessage (c : TcpConnection κ) : Int × TcpConnection κ :=
  match writeLoop c.mSocket.writevs c with
  | (.again, c) => (signed 64 c.pending, c)
  | (.zero, c) => (0, { c with m_iv1 := ⟨.null, 0⟩ })
  | (.error, c) => (-1, { c with m_iv1 := ⟨.null, 0⟩ })

/-- `int ret` cuts off the upper half of the result. -/
def sendInLoop (c : TcpConnection κ) : TcpConnection κ :=
  let r := c.sendMessage
  let ret := signed 32 r.1
  if ret = -1 then r.2.handleClose
  else if ret > 0 then { r.2 with mChannel := r.2.mChannel.EnableWrite }
  else if ret = 0 then { r.2 with writeCompletes := r.2.writeCompletes + 1 }
  else r.2

/-- Called in the loop's own thread. -/
def Send (c : TcpConnection κ) : TcpConnection κ := c.sendInLoop

def handleWrite (c : TcpConnection κ) : TcpConnection κ :=
  let r := c.sendMessage
  if r.1 = -1 then r.2.handleClose
  else if r.1 > 0 then r.2
  else if r.1 = 0 then
    { r.2 with writeCompletes := r.2.writeCompletes + 1, mChannel := r.2.mChannel.DisableWrite }
  else r.2

/-- The read buffer after `recvMessage`, with what was received in it. -/
def recvMessage (c : TcpConnection κ) : Int × TcpConnection κ :=
  let r := c.mReadBuffer.readFd c.mSocket.recvs
  (r.ret, { c with mReadBuffer := r.last.buf, mSocket := { c.mSocket with recvs := r.last.script } })

def DefaultOnMessageCallback (c : TcpConnection κ) : TcpConnection κ :=
  { c with mReadBuffer := (c.mReadBuffer.readPtrMove c.mReadBuffer.used).2 }

def handleRead (onMessageCallback : TcpConnection κ → TcpConnection κ) (c : TcpConnection κ) :
    TcpConnection κ :=
  let r := c.recvMessage
  if r.1 ≤ 0 then r.2.handleClose else onMessageCallback r.2

/-- The constructor installs three of the four callbacks of the channel. -/
def callbacks (onMessageCallback : TcpConnection κ → TcpConnection κ) : Callbacks (TcpConnection κ) where
  readCallback := some (handleRead onMessageCallback)
  writeCallback := some handleWrite
  closeCallback := some handleClose

/-- A connection as `newConnection` leaves it. `garbage` is what the fields without an
initial value hold. -/
def new (rbuf wbuf : Bytes) (context : κ) (socket : Socket) (garbage : Channel) (alive : Bool) :
    TcpConnection κ where
  mSocket := socket
  mChannel := garbage
  mAlive := alive
  mState := .CONNECTING
  mReadBuffer := .fresh rbuf
  mWriteBuffer := .fresh wbuf
  mContext := context
  m_iv1 := ⟨.null, 0⟩
  writeCompletes := 0
  closes := 0

def Established (onConnectCallback : TcpConnection κ → TcpConnection κ) (c : TcpConnection κ) :
    TcpConnection κ :=
  let c := { c with mChannel := c.mChannel.add.EnableRead }
  { onConnectCallback c with mState := .CONNECTED }

/-- The reader's side of a connection, and what a user keeps in it. -/
structure SameReader (c c' : TcpConnection κ) : Prop where
  readBuffer : c'.mReadBuffer = c.mReadBuffer
  context : c'.mContext = c.mContext
  alive : c'.mAlive = c.mAlive
  recvs : c'.mSocket.recvs = c.mSocket.recvs

/-- Only the bytes to send, and the kernel's answers for them, have changed. -/
structure OnlySent (c c' : TcpConnection κ) : Prop extends SameReader c c' where
  state : c'.mState = c.mState
  channel : c'.mChannel = c.mChannel
  closes : c'.closes = c.closes
  writeCompletes : c'.writeCompletes = c.writeCompletes

namespace OnlySent

variable {c c' c'' : TcpConnection κ}

theorem refl (c : TcpConnection κ) : OnlySent c c := ⟨⟨rfl, rfl, rfl, rfl⟩, rfl, rfl, rfl, rfl⟩

theorem trans (h : OnlySent c c') (h' : OnlySent c' c'') : OnlySent c c'' :=
  ⟨⟨h'.readBuffer.trans h.readBuffer, h'.context.trans h.context, h'.alive.trans h.alive,
    h'.recvs.trans h.recvs⟩, h'.state.trans h.state, h'.channel.trans h.channel,
    h'.closes.trans h.closes, h'.writeCompletes.trans h.writeCompletes⟩

end OnlySent

theorem wrote_onlySent (c : TcpConnection κ) (n : Nat) : OnlySent c (c.wrote n) := by
  unfold wrote
  dsimp only
  split <;> exact ⟨⟨rfl, rfl, rfl, rfl⟩, rfl, rfl, rfl, rfl⟩

theorem answered_onlySent (c : TcpConnection κ) (rest : List Writev) : OnlySent c (c.answered rest) :=
  ⟨⟨rfl, rfl, rfl, rfl⟩, rfl, rfl, rfl, rfl⟩

theorem writeLoop_onlySent (script : List Writev) (c : TcpConnection κ) :
    OnlySent c (writeLoop script c).2 := by
  induction script generalizing c with
  | nil => exact .refl c
  | cons a rest ih =>
    cases a with
    | error => exact answered_onlySent c rest
    | eagain =>
      rw [writeLoop]
      split
      · exact .refl c
      · exact answered_onlySent c rest
    | wrote n =>
      rw [writeLoop]
      split
      · exact .refl c
      · exact ((wrote_onlySent c _).trans (answered_onlySent _ rest)).trans (ih _)

theorem sendMessage_onlySent (c : TcpConnection κ) : OnlySent c c.sendMessage.2 := by
  have h := writeLoop_onlySent c.mSocket.writevs c
  unfold sendMessage
  generalize writeLoop c.mSocket.writevs c = r at h
  obtain ⟨e, c'⟩ := r
  obtain ⟨⟨h1, h2, h3, h4⟩, h5, h6, h7, h8⟩ := h
  cases e <;> exact ⟨⟨h1, h2, h3, h4⟩, h5, h6, h7, h8⟩

theorem handleClose_sameReader (c : TcpConnection κ) : SameReader c c.handleClose := by
  unfold handleClose
  split <;> exact ⟨rfl, rfl, rfl, rfl⟩

theorem not_isOpen_handleClose (c : TcpConnection κ) : ¬ c.handleClose.isOpen := by
  unfold handleClose isOpen
  split
  · simp
  · rename_i h
    exact h

theorem Send_sameReader (c : TcpConnection κ) : SameReader c c.Send := by
  obtain ⟨⟨h1, h2, h3, h4⟩, _⟩ := sendMessage_onlySent c
  obtain ⟨k1, k2, k3, k4⟩ := handleClose_sameReader c.sendMessage.2
  unfold Send sendInLoop
  dsimp only
  split
  · exact ⟨k1.trans h1, k2.trans h2, k3.trans h3, k4.trans h4⟩
  · split
    · exact ⟨h1, h2, h3, h4⟩
    · split <;> exact ⟨h1, h2, h3, h4⟩

theorem handleWrite_sameReader (c : TcpConnection κ) : SameReader c c.handleWrite := by
  obtain ⟨⟨h1, h2, h3, h4⟩, _⟩ := sendMessage_onlySent c
  obtain ⟨k1, k2, k3, k4⟩ := handleClose_sameReader c.sendMessage.2
  unfold handleWrite
  dsimp only
  split
  · exact ⟨k1.trans h1, k2.trans h2, k3.trans h3, k4.trans h4⟩
  · split
    · exact ⟨h1, h2, h3, h4⟩
    · split <;> exact ⟨h1, h2, h3, h4⟩

@[simp] theorem mContext_Send (c : TcpConnection κ) : c.Send.mContext = c.mContext :=
  (Send_sameReader c).context

@[simp] theorem mReadBuffer_Send (c : TcpConnection κ) : c.Send.mReadBuffer = c.mReadBuffer :=
  (Send_sameReader c).readBuffer

end TcpConnection
end Knpnl.Net
