import Knpnl.Net.Mask

/-!
# The order of the output

Output waits in two places: the write buffer, which is always sent first, and one file. What
has been sent and what is waiting make up what was queued, in its order, as long as the file
that was attached last is sent when more output is queued.
-/
namespace Knpnl.Net

open Lib
open Lib.CString (Bytes)
open Base (FixedBuffer FileSystem Addr)

/-- What is left of the file lies in its mapping. -/
def Iovec.Mapped (iv : Iovec) : Prop := iv.iov_len ≤ iv.iov_base.bytes.length

namespace TcpConnection

variable {κ : Type*} {c : TcpConnection κ} {cap : Nat}

/-- What is left to send of the attached file. -/
def fileRest (c : TcpConnection κ) : Bytes := c.m_iv1.iov_base.bytes.take c.m_iv1.iov_len

/-- What has been sent, and then what is waiting. -/
def output (c : TcpConnection κ) : Bytes := c.mSocket.wire ++ c.offered

theorem offered_eq (c : TcpConnection κ) : c.offered = c.mWriteBuffer.unread ++ c.fileRest := rfl

theorem output_eq (c : TcpConnection κ) :
    c.output = c.mSocket.wire ++ (c.mWriteBuffer.unread ++ c.fileRest) := rfl

theorem wire_wrote (c : TcpConnection κ) (n : Nat) :
    (c.wrote n).mSocket.wire = c.mSocket.wire ++ c.offered.take n := by
  unfold wrote
  dsimp only
  split <;> rfl

/-- With nothing pending there is nothing to offer. -/
theorem WriteSound.offered_of_pending (h : WriteSound cap c) (h0 : c.pending = 0) : c.offered = [] := by
  have hlen := h.ok.unread_length
  rw [pending] at h0
  rw [offered_eq, List.append_eq_nil_iff]
  constructor
  · exact List.eq_nil_of_length_eq_zero (by omega)
  · rw [fileRest, show c.m_iv1.iov_len = 0 by omega, List.take_zero]

/-- `addr + n` is where the bytes from the `n`-th on are. -/
theorem bytes_add (a : Addr) (n : Nat) : (a.add n).bytes = a.bytes.drop n := by
  cases a with
  | mapped bs => rfl
  | null => exact List.drop_nil.symm
  | failed => exact List.drop_nil.symm

/-- What is taken is what was offered first. -/
theorem WriteSound.offered_wrote (h : WriteSound cap c) {n : Nat} (hn : n ≤ c.pending) :
    (c.wrote n).offered = c.offered.drop n := by
  have hlen := h.ok.unread_length
  have hfile := h.file
  rw [pending] at hn
  rw [offered_eq, offered_eq]
  by_cases hgt : n > c.mWriteBuffer.used
  · have hbuffer : (c.wrote n).mWriteBuffer = c.mWriteBuffer.reset := by
      simp [TcpConnection.wrote, hgt]
    have hiv : (c.wrote n).m_iv1 = ⟨c.m_iv1.iov_base.add (n - c.mWriteBuffer.used),
        Base.sizeT ((c.m_iv1.iov_len : Int) - (n - c.mWriteBuffer.used : Nat))⟩ := by
      simp [TcpConnection.wrote, hgt]
    have hsize : Base.sizeT ((c.m_iv1.iov_len : Int) - (n - c.mWriteBuffer.used : Nat)) =
        c.m_iv1.iov_len - (n - c.mWriteBuffer.used) := by
      rw [Base.sizeT, Int.emod_eq_of_lt (by omega) (by omega)]
      omega
    have hsent : c.mWriteBuffer.unread.drop n = [] := List.drop_eq_nil_of_le (by omega)
    have hrest : (c.wrote n).fileRest = c.fileRest.drop (n - c.mWriteBuffer.used) := by
      rw [fileRest, hiv]
      dsimp only
      rw [hsize, bytes_add, fileRest, List.drop_take]
    rw [hbuffer, h.ok.unread_reset, hrest, List.drop_append, hsent, hlen]
  · have hbuffer : (c.wrote n).mWriteBuffer = (c.mWriteBuffer.readPtrMove n).2 := by
      simp [TcpConnection.wrote, hgt]
    have hiv : (c.wrote n).m_iv1 = c.m_iv1 := by simp [TcpConnection.wrote, hgt]
    obtain ⟨_, _, hunread⟩ := h.ok.readPtrMove (Nat.le_of_not_lt hgt)
    rw [hbuffer, hunread, fileRest, hiv, ← fileRest, List.drop_append_of_le_length (by omega)]

/-- Nothing is left of a mapped file when its length is used up. -/
theorem fileRest_eq_nil (h : c.m_iv1.Mapped) : c.fileRest = [] ↔ c.m_iv1.iov_len = 0 := by
  unfold Iovec.Mapped at h
  rw [fileRest, List.take_eq_nil_iff]
  refine ⟨fun hnone => hnone.elim id fun hbytes => ?_, Or.inl⟩
  rw [hbytes] at h
  exact Nat.le_zero.mp h

theorem mapped_wrote (h : c.m_iv1.Mapped) {n : Nat} (hn : n ≤ c.pending) : (c.wrote n).m_iv1.Mapped := by
  unfold Iovec.Mapped at h
  rw [pending] at hn
  unfold wrote
  dsimp only
  split
  · unfold Iovec.Mapped
    dsimp only
    rw [bytes_add, List.length_drop, Base.sizeT]
    omega
  · exact h

theorem mapped_writeLoop (h : c.m_iv1.Mapped) (script : List Writev) : (writeLoop script c).2.m_iv1.Mapped := by
  induction script generalizing c with
  | nil => exact h
  | cons a rest ih =>
    cases a with
    | error => exact h
    | eagain =>
      rw [writeLoop]
      split <;> exact h
    | wrote n =>
      rw [writeLoop]
      split
      · exact h
      · exact ih (mapped_wrote h (by omega))

theorem mapped_sendMessage (h : c.m_iv1.Mapped) : c.sendMessage.2.m_iv1.Mapped := by
  have hloop := mapped_writeLoop h c.mSocket.writevs
  unfold sendMessage
  generalize writeLoop c.mSocket.writevs c = r at hloop
  obtain ⟨e, c'⟩ := r
  cases e with
  | again => exact hloop
  | zero | error => exact Nat.zero_le _

theorem mapped_handleClose (h : c.m_iv1.Mapped) : c.handleClose.m_iv1.Mapped := by
  unfold handleClose
  split <;> exact h

theorem mapped_sent {c' : TcpConnection κ} (h : c.m_iv1.Mapped)
    (hcases : c' = c.sendMessage.2.handleClose ∨ Sent c.sendMessage.2 c') : c'.m_iv1.Mapped := by
  have hsent := mapped_sendMessage h
  rcases hcases with rfl | hcases
  · exact mapped_handleClose hsent
  · rwa [hcases.file]

theorem WriteSound.output_wrote (h : WriteSound cap c) {n : Nat} (hn : n ≤ c.pending) :
    (c.wrote n).output = c.output := by
  rw [output, wire_wrote, h.offered_wrote hn, List.append_assoc, List.take_append_drop, output]

/-- However the loop ends, the output is the same. -/
theorem WriteSound.output_writeLoop (h : WriteSound cap c) (script : List Writev) :
    (TcpConnection.writeLoop script c).2.output = c.output := by
  induction script generalizing c with
  | nil => rfl
  | cons a rest ih =>
    cases a with
    | error => rfl
    | eagain =>
      rw [TcpConnection.writeLoop]
      split <;> rfl
    | wrote n =>
      rw [TcpConnection.writeLoop]
      split
      · rfl
      · have hn : max 1 (min n c.pending) ≤ c.pending := by omega
        obtain ⟨⟨⟨hok, hcap⟩, hfile⟩, _⟩ := h.wrote hn
        have hnext := ih (c := (c.wrote (max 1 (min n c.pending))).answered rest) ⟨⟨hok, hcap⟩, hfile⟩
        exact hnext.trans (h.output_wrote hn)

/-- What a message sends is the next part of the output, and unless `writev` fails the rest
stays waiting. -/
theorem WriteSound.output_sendMessage (h : WriteSound cap c) :
    c.sendMessage.2.mSocket.wire <+: c.output ∧
      (c.sendMessage.1 ≠ -1 → c.sendMessage.2.output = c.output) := by
  obtain ⟨hsound, _, hzero⟩ := h.writeLoop c.mSocket.writevs
  have hout := h.output_writeLoop c.mSocket.writevs
  unfold TcpConnection.sendMessage
  generalize TcpConnection.writeLoop c.mSocket.writevs c = r at hsound hzero hout
  obtain ⟨e, c'⟩ := r
  dsimp only at hsound hzero hout
  have hwire : c'.mSocket.wire <+: c.output := by
    rw [← hout]
    exact List.prefix_append _ _
  cases e with
  | again => exact ⟨hwire, fun _ => hout⟩
  | error => exact ⟨hwire, fun hne => absurd rfl hne⟩
  | zero =>
    -- nothing is pending, so clearing the file loses nothing
    have hpending := hzero rfl
    obtain ⟨hunread, hrest⟩ := List.append_eq_nil_iff.mp (hsound.offered_of_pending hpending)
    refine ⟨hwire, fun _ => ?_⟩
    rw [← hout]
    show c'.mSocket.wire ++ (c'.mWriteBuffer.unread ++ []) =
      c'.mSocket.wire ++ (c'.mWriteBuffer.unread ++ c'.fileRest)
    rw [show c'.fileRest = [] from hrest]

theorem mSocket_handleClose (c : TcpConnection κ) : c.handleClose.mSocket = c.mSocket := by
  unfold handleClose
  split <;> rfl

theorem mSocket_Send (c : TcpConnection κ) : c.Send.mSocket = c.sendMessage.2.mSocket := by
  unfold Send sendInLoop
  dsimp only
  split
  · exact mSocket_handleClose _
  · split
    · rfl
    · split <;> rfl

theorem mSocket_handleWrite (c : TcpConnection κ) : c.handleWrite.mSocket = c.sendMessage.2.mSocket := by
  unfold handleWrite
  dsimp only
  split
  · exact mSocket_handleClose _
  · split
    · rfl
    · split <;> rfl

/-- A message, however it is dealt with. -/
theorem WriteSound.output_sent {c' : TcpConnection κ} (h : WriteSound cap c)
    (hcases : c' = c.sendMessage.2.handleClose ∨ Sent c.sendMessage.2 c')
    (hsocket : c'.mSocket = c.sendMessage.2.mSocket)
    (herror : c.sendMessage.1 = -1 → c' = c.sendMessage.2.handleClose) :
    c'.mSocket.wire <+: c.output ∧ (c'.isOpen → c'.output = c.output) := by
  obtain ⟨hwire, hrest⟩ := h.output_sendMessage
  refine ⟨hsocket ▸ hwire, fun hopen => ?_⟩
  rcases hcases with rfl | hsent
  · exact absurd hopen (not_isOpen_handleClose _)
  · have hne : c.sendMessage.1 ≠ -1 := fun hret => by
      rw [herror hret] at hopen
      exact not_isOpen_handleClose _ hopen
    rw [← hrest hne, output_eq, output_eq, hsocket, hsent.writeBuffer, fileRest, hsent.file, ← fileRest]

end TcpConnection

/-- What is done to the output of a connection. A message comes with the kernel's answers. The length
of a file is a `size_t`, and it is mapped as far as that. -/
inductive OutputOp where
  | append (str : Bytes)
  | setFile (F : FileSystem) (size : F.getLength < 2 ^ 64) (mapped : F.getLength ≤ F.getAddr.bytes.length)
  | Send (writevs : List Writev)
  | handleWrite (writevs : List Writev)

/-- A connection, and all that was queued on it. -/
structure Output (κ : Type*) where
  conn : TcpConnection κ
  queued : Bytes

namespace Output

variable {κ : Type*} {cap : Nat} {o : Output κ}

/-- Nothing is queued by an `append` that the write buffer refuses. -/
def act (o : Output κ) : OutputOp → Output κ
  | .append str =>
      let out := o.conn.mWriteBuffer.append str
      { conn := { o.conn with mWriteBuffer := out.buf }
        queued := if out.ret = str.length then o.queued ++ str else o.queued }
  | .setFile F _ _ => ⟨o.conn.setFile F, o.queued ++ F.getAddr.bytes.take F.getLength⟩
  | .Send writevs => { o with conn := (o.conn.withWritevs writevs).Send }
  | .handleWrite writevs => { o with conn := (o.conn.withWritevs writevs).handleWrite }

/-- A connection is used until it is closed. -/
def step (o : Output κ) (op : OutputOp) : Output κ := if o.conn.isOpen then o.act op else o

def run (o : Output κ) (ops : List OutputOp) : Output κ := ops.foldl step o

/-- A connection on which nothing has been queued. -/
def new (rbuf wbuf : Bytes) (context : κ) (recvs : List Base.Recv) (garbage : Event.Channel) (alive : Bool) :
    Output κ :=
  ⟨(TcpConnection.new rbuf wbuf context ⟨recvs, [], []⟩ garbage alive).Established id, []⟩

/-- What has been sent is the first part of what was queued, and as long as the connection is
open the rest is waiting, in the same order. -/
def InOrder (o : Output κ) : Prop :=
  o.conn.mSocket.wire <+: o.queued ∧ (o.conn.isOpen → o.conn.output = o.queued)

instance (o : Output κ) : Decidable o.InOrder := inferInstanceAs (Decidable (_ ∧ (_ → _)))

/-- The order is kept at every moment of a run. -/
def KeepsOrder (o : Output κ) (ops : List OutputOp) : Prop := ∀ pre, pre <+: ops → (o.run pre).InOrder

/-- Output is queued behind the rest of a file only where it cannot be told from the rest of
the file being queued behind it; a file takes the place of a file that has been sent. -/
def QueuesBehind (o : Output κ) : OutputOp → Prop
  | .append str => o.conn.isOpen → (o.conn.mWriteBuffer.append str).ret = str.length →
      str ++ o.conn.fileRest = o.conn.fileRest ++ str
  | .setFile _ _ _ => o.conn.isOpen → o.conn.m_iv1.iov_len = 0
  | .Send _ | .handleWrite _ => True

instance (o : Output κ) : (op : OutputOp) → Decidable (o.QueuesBehind op)
  | .append _ => inferInstanceAs (Decidable (_ → _ → _))
  | .setFile _ _ _ => inferInstanceAs (Decidable (_ → _))
  | .Send _ | .handleWrite _ => isTrue trivial

/-- What is to be sent is in order, and the attached file is mapped. -/
structure Sound (cap : Nat) (o : Output κ) : Prop extends o.conn.WriteSound cap where
  mapped : o.conn.m_iv1.Mapped

theorem inOrder_append (hsound : o.conn.WriteSound cap) (horder : o.InOrder) (hopen : o.conn.isOpen)
    (str : Bytes) : (o.act (.append str)).InOrder ↔ o.QueuesBehind (.append str) := by
  obtain ⟨hwire, hall⟩ := horder
  have happ := hsound.ok.append str
  rw [InOrder, QueuesBehind]
  by_cases hret : (o.conn.mWriteBuffer.append str).ret = str.length
  · have hunread := happ.unread_of_ret hret
    have houtput : (o.act (.append str)).conn.output =
        o.conn.mSocket.wire ++ (o.conn.mWriteBuffer.unread ++ (str ++ o.conn.fileRest)) := by
      show o.conn.mSocket.wire ++ ((o.conn.mWriteBuffer.append str).buf.unread ++ o.conn.fileRest) = _
      rw [hunread, List.append_assoc]
    have hqueued : (o.act (.append str)).queued =
        o.conn.mSocket.wire ++ (o.conn.mWriteBuffer.unread ++ (o.conn.fileRest ++ str)) := by
      show (if _ then o.queued ++ str else o.queued) = _
      rw [if_pos hret, ← hall hopen, TcpConnection.output_eq, List.append_assoc, List.append_assoc]
    rw [houtput, hqueued, List.append_cancel_left_eq, List.append_cancel_left_eq]
    constructor
    · intro h _ _
      exact h.2 hopen
    · intro h
      exact ⟨List.prefix_append _ _, fun _ => h hopen hret⟩
  · have hrefused : ¬ str.length ≤ o.conn.mWriteBuffer.cap - o.conn.mWriteBuffer.used :=
      fun hfit => hret (happ.accepts hfit).1
    have hact : o.act (.append str) = o := by
      rw [act, (happ.refuses hrefused).2]
      dsimp only
      rw [if_neg hret]
    rw [hact]
    exact ⟨fun _ _ h => absurd h hret, fun _ => ⟨hwire, hall⟩⟩

theorem inOrder_setFile (hfile : o.conn.m_iv1.Mapped) (horder : o.InOrder) (hopen : o.conn.isOpen)
    (F : FileSystem) (size : F.getLength < 2 ^ 64) (mapped : F.getLength ≤ F.getAddr.bytes.length) :
    (o.act (.setFile F size mapped)).InOrder ↔ o.QueuesBehind (.setFile F size mapped) := by
  obtain ⟨hwire, hall⟩ := horder
  have hqueued : (o.act (.setFile F size mapped)).queued = o.conn.mSocket.wire ++
      (o.conn.mWriteBuffer.unread ++ (o.conn.fileRest ++ F.getAddr.bytes.take F.getLength)) := by
    show o.queued ++ _ = _
    rw [← hall hopen, TcpConnection.output_eq, List.append_assoc, List.append_assoc]
  have houtput : (o.act (.setFile F size mapped)).conn.output = o.conn.mSocket.wire ++
      (o.conn.mWriteBuffer.unread ++ F.getAddr.bytes.take F.getLength) := rfl
  rw [InOrder, QueuesBehind, houtput, hqueued, List.append_cancel_left_eq, List.append_cancel_left_eq,
    List.self_eq_append_left, TcpConnection.fileRest_eq_nil hfile]
  constructor
  · intro h _
    exact h.2 hopen
  · intro h
    exact ⟨List.prefix_append _ _, fun _ => h hopen⟩

/-- A message, dealt with by `Send` or `handleWrite`. -/
theorem inOrder_sent (hsound : o.conn.WriteSound cap) (horder : o.InOrder) (hopen : o.conn.isOpen)
    {writevs : List Writev} {c' : TcpConnection κ}
    (hcases : c' = (o.conn.withWritevs writevs).sendMessage.2.handleClose ∨
      TcpConnection.Sent (o.conn.withWritevs writevs).sendMessage.2 c')
    (hsocket : c'.mSocket = (o.conn.withWritevs writevs).sendMessage.2.mSocket)
    (herror : (o.conn.withWritevs writevs).sendMessage.1 = -1 →
      c' = (o.conn.withWritevs writevs).sendMessage.2.handleClose) :
    InOrder { o with conn := c' } := by
  obtain ⟨hwire, hrest⟩ := (hsound.answer writevs).1.output_sent hcases hsocket herror
  have hqueued : (o.conn.withWritevs writevs).output = o.queued := horder.2 hopen
  rw [hqueued] at hwire hrest
  exact ⟨hwire, hrest⟩

/-- A step keeps the order exactly when it queues behind what is waiting. -/
theorem inOrder_step (h : o.Sound cap) (horder : o.InOrder) (op : OutputOp) :
    o.QueuesBehind op ↔ (o.step op).InOrder := by
  obtain ⟨hsound, hfile⟩ := h
  by_cases hopen : o.conn.isOpen
  · rw [step, if_pos hopen]
    cases op with
    | append str => exact (inOrder_append hsound horder hopen str).symm
    | setFile F size mapped => exact (inOrder_setFile hfile horder hopen F size mapped).symm
    | Send writevs =>
      refine ⟨fun _ => ?_, fun _ => trivial⟩
      exact inOrder_sent hsound horder hopen (TcpConnection.Send_cases _) (TcpConnection.mSocket_Send _)
        TcpConnection.Send_error
    | handleWrite writevs =>
      refine ⟨fun _ => ?_, fun _ => trivial⟩
      exact inOrder_sent hsound horder hopen (TcpConnection.handleWrite_cases _)
        (TcpConnection.mSocket_handleWrite _) TcpConnection.handleWrite_error
  · rw [step, if_neg hopen]
    refine ⟨fun _ => horder, fun _ => ?_⟩
    cases op with
    | append str => exact fun h => absurd h hopen
    | setFile F size mapped => exact fun h => absurd h hopen
    | _ => trivial

theorem sound_step (h : o.Sound cap) (op : OutputOp) : (o.step op).Sound cap := by
  have hmapped : ∀ writevs, (o.conn.withWritevs writevs).m_iv1.Mapped := fun _ => h.mapped
  rw [step]
  split
  · cases op with
    | append str =>
      have happ := h.ok.append str
      exact ⟨⟨⟨happ.ok, happ.cap.trans h.cap_eq⟩, h.file⟩, h.mapped⟩
    | setFile F size mapped => exact ⟨⟨⟨h.ok, h.cap_eq⟩, size⟩, mapped⟩
    | Send writevs =>
      exact ⟨(h.answer writevs).1.sent (TcpConnection.Send_cases _),
        TcpConnection.mapped_sent (hmapped writevs) (TcpConnection.Send_cases _)⟩
    | handleWrite writevs =>
      exact ⟨(h.answer writevs).1.sent (TcpConnection.handleWrite_cases _),
        TcpConnection.mapped_sent (hmapped writevs) (TcpConnection.handleWrite_cases _)⟩
  · exact h

/-- From `Established` on, what is sent is at every moment what was queued, in its order and
with nothing lost, if and only if every `append` and `setFile` finds the attached file sent. -/
theorem inOrder_iff (rbuf wbuf : Bytes) (hwbuf : wbuf.length < 2 ^ 31) (context : κ) (recvs : List Base.Recv)
    (garbage : Event.Channel) (alive : Bool) (ops : List OutputOp) :
    (new rbuf wbuf context recvs garbage alive).KeepsOrder ops ↔
      Along step QueuesBehind (new rbuf wbuf context recvs garbage alive) ops := by
  have hsound : (new rbuf wbuf context recvs garbage alive).Sound wbuf.length :=
    ⟨⟨⟨FixedBuffer.fresh_ok hwbuf, rfl⟩, Nat.two_pow_pos 64⟩, Nat.zero_le _⟩
  have hempty : (FixedBuffer.fresh wbuf).unread = [] := FixedBuffer.unread_fresh hwbuf
  have hstart : (new rbuf wbuf context recvs garbage alive).InOrder := by
    refine ⟨List.nil_prefix, fun _ => ?_⟩
    show [] ++ ((FixedBuffer.fresh wbuf).unread ++ []) = []
    rw [hempty]
    rfl
  exact (along_iff_always (I := Sound wbuf.length) (fun _ op h => sound_step h op)
    (fun _ op h horder => inOrder_step h horder op) hsound hstart ops).symm

/-- A file of three bytes. -/
def abc : FileSystem := ⟨3, some ⟨.mapped [97, 98, 99], 3⟩⟩

/-- A write buffer of 16 bytes. -/
def sixteen : Output Unit := new (List.replicate 16 0) (List.replicate 16 0) () [] ⟨0, 0⟩ true

/-- A head and a file, sent in three parts before the next head is queued. -/
theorem inOrder_iff_parts : sixteen.KeepsOrder [.append [1, 2], .setFile abc (by decide) (by decide),
    .Send [.wrote 3, .eagain], .handleWrite [.wrote 2], .append [3], .Send [.wrote 1]] :=
  (inOrder_iff (List.replicate 16 0) (List.replicate 16 0) (by decide) () [] ⟨0, 0⟩ true _).mpr
    (by decide +kernel)

/-- On every connection whose write buffer has the size of the source's. -/
def OutputInOrder : Prop :=
  ∀ (rbuf wbuf : Bytes) (recvs : List Base.Recv) (garbage : Event.Channel) (alive : Bool)
    (ops : List OutputOp),
    wbuf.length = FixedBuffer.kBufferSize → (new rbuf wbuf () recvs garbage alive).KeepsOrder ops

/-- The kernel takes a byte of the file, and the next head goes out before the rest of it. -/
theorem outputInOrder_overtakes : ¬ OutputInOrder := by
  intro hclaim
  have horder := hclaim [] (List.replicate 1024 0) [] ⟨0, 0⟩ true
    [.setFile abc (by decide) (by decide), .Send [.wrote 1, .eagain], .append [1], .handleWrite [.wrote 3]]
    List.length_replicate _ (List.prefix_refl _)
  revert horder
  decide +kernel

end Output
end Knpnl.Net
