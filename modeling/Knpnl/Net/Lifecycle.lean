import Knpnl.Net.Closing

/-!
# The life of a connection

A connection from `newConnection` to `Destroy`, with the tasks that are queued for it in its
own loop and in the accepting one. `mState` is written in `handleClose`, `Established` and
`Destroy`; `Established` writes it after the connect callback has run, whatever happened there.
-/
namespace Knpnl.Net

open Lib
open Lib.CString (Bytes)
open Base (FixedBuffer Recv signed)
open Event

/-- The order in which the header declares the states. -/
def CONNECTION_STATE.toNat : CONNECTION_STATE → Nat
  | .CONNECTING => 0
  | .CONNECTED => 1
  | .CLOSING => 2
  | .CLOSED => 3

/-- What a user does with a connection in its loop's thread, where `TcpConnection::Close` shuts
down the writing side at once and `TcpServer::Close` queues `handleClose`. -/
inductive CallbackOp (κ : Type*) where
  | user (op : UserOp κ)
  | Close
  | ServerClose

/-- A task in the queue of the connection's loop. -/
inductive LifeTask where
  | Established
  | sendInLoop
  | closeInLoop
  | handleClose
  | WriteCompleteCallback
  | Destroy
  deriving DecidableEq

/-- The connection, every value that `mState` was seen to have, the tasks of its loop, the
number of its `removeInLoop` tasks, whether the server's map and the poller have it. -/
structure Lived (κ : Type*) where
  conn : TcpConnection κ
  states : List CONNECTION_STATE
  mTasks : List LifeTask
  removing : Nat
  inMap : Bool
  registered : Bool

/-- What happens next: the loop runs the first task, with what a user's callback does in it and
what `writev` answers; the poller reports an event; a user's own code runs in the loop; another
thread queues a task; the accepting loop runs `removeInLoop`. -/
inductive LifeStep (κ : Type*) where
  | task (ops : List (CallbackOp κ)) (writevs : List Writev)
  | read (recvs : List Recv) (ops : List (CallbackOp κ))
  | write (writevs : List Writev)
  | hangup
  | user (ops : List (CallbackOp κ))
  | Send
  | Close
  | ServerClose
  | removeInLoop

namespace Lived

variable {κ : Type*}

/-- The connection has become `c`. What it queued on the way is queued, and its state is seen. -/
def note (x : Lived κ) (c : TcpConnection κ) : Lived κ :=
  { x with
    conn := c
    states := x.states ++ [c.mState]
    mTasks := x.mTasks ++ List.replicate (c.writeCompletes - x.conn.writeCompletes) .WriteCompleteCallback
    removing := x.removing + (c.closes - x.conn.closes) }

def queue (x : Lived κ) (t : LifeTask) : Lived κ := { x with mTasks := x.mTasks ++ [t] }

/-- `TcpServer::Close` looks the connection up first. -/
def ServerClose (x : Lived κ) : Lived κ := if x.inMap then x.queue .handleClose else x

def act (x : Lived κ) : CallbackOp κ → Lived κ
  | .user op => x.note (Watched.act ⟨x.conn, false⟩ op).conn
  | .Close => x
  | .ServerClose => x.ServerClose

def acts (x : Lived κ) (ops : List (CallbackOp κ)) : Lived κ := ops.foldl act x

/-- `Established` when its connect callback is called. -/
def connecting (x : Lived κ) : Lived κ :=
  { x.note { x.conn with mChannel := x.conn.mChannel.add.EnableRead } with registered := true }

/-- `Established`, with a connect callback that does `ops`. -/
def Established (x : Lived κ) (ops : List (CallbackOp κ)) : Lived κ :=
  let y := x.connecting.acts ops
  y.note { y.conn with mState := .CONNECTED }

def Destroy (x : Lived κ) : Lived κ := { x.note { x.conn with mState := .CLOSED } with registered := false }

def runTask (x : Lived κ) (ops : List (CallbackOp κ)) (writevs : List Writev) : LifeTask → Lived κ
  | .Established => x.Established ops
  | .sendInLoop => x.note (x.conn.withWritevs writevs).sendInLoop
  | .closeInLoop => x
  | .handleClose => x.note x.conn.handleClose
  | .WriteCompleteCallback => x.acts ops
  | .Destroy => x.Destroy

/-- `handleRead`, with a message callback that does `ops`. -/
def handleRead (x : Lived κ) (recvs : List Recv) (ops : List (CallbackOp κ)) : Lived κ :=
  let r := (x.conn.withRecvs recvs).recvMessage
  if r.1 ≤ 0 then x.note r.2.handleClose else (x.note r.2).acts ops

def removeInLoop (x : Lived κ) : Lived κ :=
  { x.queue .Destroy with removing := x.removing - 1, inMap := false }

def step (x : Lived κ) : LifeStep κ → Lived κ
  | .task ops writevs =>
      match x.mTasks with
      | [] => x
      | t :: rest => runTask { x with mTasks := rest } ops writevs t
  | .read recvs ops => x.handleRead recvs ops
  | .write writevs => x.note (x.conn.withWritevs writevs).handleWrite
  | .hangup => x.note x.conn.handleClose
  | .user ops => x.acts ops
  | .Send => x.queue .sendInLoop
  | .Close => x.queue .closeInLoop
  | .ServerClose => x.ServerClose
  | .removeInLoop => x.removeInLoop

def run (x : Lived κ) (steps : List (LifeStep κ)) : Lived κ := steps.foldl step x

/-- A connection as `newConnection` leaves it. -/
def new (rbuf wbuf : Bytes) (context : κ) (socket : Socket) (garbage : Channel) (alive : Bool) : Lived κ where
  conn := .new rbuf wbuf context socket garbage alive
  states := [.CONNECTING]
  mTasks := [.Established]
  removing := 0
  inMap := true
  registered := false

/-- The poller reports a channel that it has, a user has the connection from its connect
callback on, and `removeInLoop` is queued by the close callback. -/
def Possible (x : Lived κ) : LifeStep κ → Prop
  | .task _ _ => x.mTasks ≠ []
  | .read _ _ | .write _ | .hangup => x.registered = true
  | .user _ => .Established ∉ x.mTasks
  | .Send | .Close | .ServerClose => True
  | .removeInLoop => 0 < x.removing

instance (x : Lived κ) : (s : LifeStep κ) → Decidable (x.Possible s)
  | .task _ _ => inferInstanceAs (Decidable (_ ≠ _))
  | .read _ _ | .write _ | .hangup => inferInstanceAs (Decidable (_ = _))
  | .user _ => inferInstanceAs (Decidable (_ ∉ _))
  | .Send | .Close | .ServerClose => isTrue trivial
  | .removeInLoop => inferInstanceAs (Decidable (_ < _))

/-- The state has only moved forward, and the close callback was called at most once. -/
def Forward (x : Lived κ) : Prop :=
  x.states.Pairwise (fun a b => a.toNat ≤ b.toNat) ∧ x.conn.closes ≤ 1

instance (x : Lived κ) : Decidable x.Forward := inferInstanceAs (Decidable (_ ∧ _))

/-- With these answers of `writev` a `Send` of `n` bytes closes the connection: an error other
than `EAGAIN`, or a number of bytes left over that is -1 as an `int`. -/
def SendCloses (writevs : List Writev) (n : Nat) : Prop :=
  TcpConnection.writeOutcome writevs n = .error ∨ signed 32 (writeLeft writevs n) = -1

instance (writevs : List Writev) (n : Nat) : Decidable (SendCloses writevs n) :=
  inferInstanceAs (Decidable (_ ∨ _))

def ActLeavesOpen (x : Lived κ) : CallbackOp κ → Prop
  | .user (.Send writevs) => ¬ SendCloses writevs x.conn.pending
  | _ => True

instance (x : Lived κ) : (op : CallbackOp κ) → Decidable (x.ActLeavesOpen op)
  | .user (.Send _) => inferInstanceAs (Decidable (¬ _))
  | .user (.append _) | .user (.readBuffer _) | .user (.setFile _ _) | .user (.SetAlive _)
  | .user (.setContext _) | .Close | .ServerClose => isTrue trivial

/-- No `Send` in the connect callback closes the connection, if `Established` is the first task. -/
def TaskLeavesOpen (x : Lived κ) (ops : List (CallbackOp κ)) : List LifeTask → Prop
  | .Established :: rest => Along act ActLeavesOpen (connecting { x with mTasks := rest }) ops
  | _ => True

instance (x : Lived κ) (ops : List (CallbackOp κ)) :
    (tasks : List LifeTask) → Decidable (x.TaskLeavesOpen ops tasks)
  | .Established :: _ => inferInstanceAs (Decidable (Along _ _ _ _))
  | [] | .sendInLoop :: _ | .closeInLoop :: _ | .handleClose :: _ | .WriteCompleteCallback :: _
  | .Destroy :: _ => isTrue trivial

def StepLeavesOpen (x : Lived κ) : LifeStep κ → Prop
  | .task ops _ => x.TaskLeavesOpen ops x.mTasks
  | _ => True

instance (x : Lived κ) : (s : LifeStep κ) → Decidable (x.StepLeavesOpen s)
  | .task ops _ => inferInstanceAs (Decidable (x.TaskLeavesOpen ops x.mTasks))
  | .read _ _ | .write _ | .hangup | .user _ | .Send | .Close | .ServerClose | .removeInLoop => isTrue trivial

end Lived

namespace TcpConnection

variable {κ : Type*} {c c' : TcpConnection κ} {cap : Nat}

/-- The state is as before, or the open connection has been closed. -/
def Moved (c c' : TcpConnection κ) : Prop :=
  c'.mState = c.mState ∧ c'.closes = c.closes ∨
    c.isOpen ∧ c'.mState = .CLOSING ∧ c'.closes = c.closes + 1

theorem moved_handleClose (c : TcpConnection κ) : Moved c c.handleClose := by
  unfold handleClose
  split
  · rename_i hopen
    exact Or.inr ⟨hopen, rfl, rfl⟩
  · exact Or.inl ⟨rfl, rfl⟩

theorem Moved.of_same {d : TcpConnection κ} (h : Moved d c') (hstate : d.mState = c.mState)
    (hcloses : d.closes = c.closes) : Moved c c' := by
  unfold Moved isOpen at h ⊢
  rwa [hstate, hcloses] at h

theorem moved_sendInLoop (c : TcpConnection κ) : Moved c c.sendInLoop := by
  have hstate := (sendMessage_onlySent c).state
  have hcloses := (sendMessage_onlySent c).closes
  unfold sendInLoop
  dsimp only
  split
  · exact (moved_handleClose _).of_same hstate hcloses
  · split
    · exact Or.inl ⟨hstate, hcloses⟩
    · split <;> exact Or.inl ⟨hstate, hcloses⟩

theorem moved_handleWrite (c : TcpConnection κ) : Moved c c.handleWrite := by
  have hstate := (sendMessage_onlySent c).state
  have hcloses := (sendMessage_onlySent c).closes
  unfold handleWrite
  dsimp only
  split
  · exact (moved_handleClose _).of_same hstate hcloses
  · split
    · exact Or.inl ⟨hstate, hcloses⟩
    · split <;> exact Or.inl ⟨hstate, hcloses⟩

theorem moved_act (w : Watched κ) (op : UserOp κ) : Moved w.conn (w.act op).conn := by
  cases op with
  | Send writevs => exact moved_sendInLoop (w.conn.withWritevs writevs)
  | _ => exact Or.inl ⟨rfl, rfl⟩

/-- What a message returns, as the `int` that `sendInLoop` looks at. -/
theorem WriteSound.closes_iff (h : WriteSound cap c) :
    signed 32 c.sendMessage.1 = -1 ↔ Lived.SendCloses c.mSocket.writevs c.pending := by
  obtain ⟨_, hend⟩ := h.sendMessage
  unfold Lived.SendCloses
  cases houtcome : writeOutcome c.mSocket.writevs c.pending with
  | error =>
    rw [houtcome] at hend
    rw [hend]
    exact ⟨fun _ => Or.inl rfl, fun _ => by decide⟩
  | zero =>
    rw [houtcome] at hend
    rw [hend.1, writeLeft_of_zero _ _ houtcome]
    decide
  | again =>
    have hmod : signed 32 (signed 64 (writeLeft c.mSocket.writevs c.pending)) =
        signed 32 (writeLeft c.mSocket.writevs c.pending) := Int.bmod_bmod_of_dvd (by decide)
    rw [h.sendMessage_again houtcome, hmod]
    simp

theorem isOpen_of_same (h : c'.mState = c.mState) : c'.isOpen ↔ c.isOpen := by rw [isOpen, isOpen, h]

/-- On an open connection such a `Send` closes, and any other leaves the state alone. -/
theorem WriteSound.sendInLoop_open (h : WriteSound cap c) (hopen : c.isOpen) :
    (Lived.SendCloses c.mSocket.writevs c.pending → c.sendInLoop.mState = .CLOSING) ∧
      (¬ Lived.SendCloses c.mSocket.writevs c.pending →
        c.sendInLoop.mState = c.mState ∧ c.sendInLoop.closes = c.closes) := by
  have hstate := (sendMessage_onlySent c).state
  have hcloses := (sendMessage_onlySent c).closes
  rw [← h.closes_iff]
  unfold sendInLoop
  dsimp only
  constructor
  · intro hret
    rw [if_pos hret, TcpConnection.handleClose, if_pos ((isOpen_of_same hstate).mpr hopen)]
  · intro hret
    rw [if_neg hret]
    split
    · exact ⟨hstate, hcloses⟩
    · split <;> exact ⟨hstate, hcloses⟩

end TcpConnection

namespace Lived

variable {κ : Type*} {cap : Nat} {x : Lived κ}

/-- The state so far, and the close callback with the tasks that come of it. -/
structure Core (cap : Nat) (x : Lived κ) : Prop where
  sound : x.conn.WriteSound cap
  forward : x.states.Pairwise fun a b => a.toNat ≤ b.toNat
  upto : ∀ a ∈ x.states, a.toNat ≤ x.conn.mState.toNat
  opened : x.conn.isOpen → x.conn.closes = 0 ∧ x.removing = 0 ∧ .Destroy ∉ x.mTasks
  closed : ¬ x.conn.isOpen → x.conn.closes = 1

/-- `Established` has been run, or is running. -/
def Begun (x : Lived κ) : Prop := .Established ∉ x.mTasks

theorem forward_append {l : List CONNECTION_STATE} {a : CONNECTION_STATE}
    (h : l.Pairwise fun a b => a.toNat ≤ b.toNat) (ha : ∀ b ∈ l, b.toNat ≤ a.toNat) :
    (l ++ [a]).Pairwise fun a b => a.toNat ≤ b.toNat :=
  List.pairwise_append.mpr ⟨h, List.pairwise_singleton _ _, fun b hb _ hc => by
    rw [List.mem_singleton.mp hc]
    exact ha b hb⟩

theorem Core.note (h : x.Core cap) {c : TcpConnection κ} (hmoved : x.conn.Moved c)
    (hsound : c.WriteSound cap) : (x.note c).Core cap := by
  have hle : x.conn.mState.toNat ≤ c.mState.toNat := by
    rcases hmoved with ⟨hstate, _⟩ | ⟨hopen, hstate, _⟩
    · rw [hstate]
    · rw [hstate]
      rcases hopen with hopen | hopen <;> rw [hopen] <;> decide
  have hupto : ∀ a ∈ x.states, a.toNat ≤ c.mState.toNat := fun a ha => (h.upto a ha).trans hle
  refine ⟨hsound, forward_append h.forward hupto, fun a ha => ?_, fun hopen => ?_, fun hclosed => ?_⟩
  · rcases List.mem_append.mp ha with ha | ha
    · exact hupto a ha
    · rw [List.mem_singleton.mp ha]
      exact le_rfl
  · rcases hmoved with ⟨hstate, hcloses⟩ | ⟨_, hstate, _⟩
    · obtain ⟨hzero, hremoving, htasks⟩ := h.opened ((TcpConnection.isOpen_of_same hstate).mp hopen)
      refine ⟨hcloses.trans hzero, ?_, ?_⟩
      · show x.removing + (c.closes - x.conn.closes) = 0
        omega
      · simp [Lived.note, htasks, List.mem_replicate]
    · exact absurd hopen (TcpConnection.not_isOpen_of_closing hstate)
  · rcases hmoved with ⟨hstate, hcloses⟩ | ⟨hopen, _, hcloses⟩
    · exact hcloses.trans (h.closed fun hopen => hclosed ((TcpConnection.isOpen_of_same hstate).mpr hopen))
    · rw [Lived.note, hcloses, (h.opened hopen).1]

theorem Begun.note (h : x.Begun) (c : TcpConnection κ) : (x.note c).Begun := by
  unfold Begun at h ⊢
  simp [Lived.note, h, List.mem_replicate]

/-- A task that is neither `Established` nor `Destroy` is queued. -/
theorem Core.queue (h : x.Core cap) {t : LifeTask} (ht : t ≠ .Destroy) : (x.queue t).Core cap :=
  ⟨h.sound, h.forward, h.upto, fun hopen => by
    obtain ⟨hzero, hremoving, htasks⟩ := h.opened hopen
    exact ⟨hzero, hremoving, by simp [Lived.queue, htasks, Ne.symm ht]⟩, h.closed⟩

theorem Begun.queue (h : x.Begun) {t : LifeTask} (ht : t ≠ .Established) : (x.queue t).Begun := by
  unfold Begun at h ⊢
  simp [Lived.queue, h, Ne.symm ht]

/-- What a callback or a task of a user does. -/
theorem Core.act (h : x.Core cap) (op : CallbackOp κ) : (x.act op).Core cap := by
  cases op with
  | user op =>
    exact h.note (TcpConnection.moved_act ⟨x.conn, false⟩ op)
      (Watched.writeSound_act (w := ⟨x.conn, false⟩) h.sound op)
  | Close => exact h
  | ServerClose =>
    rw [Lived.act, Lived.ServerClose]
    split
    · exact h.queue (by decide)
    · exact h

theorem Begun.act (h : x.Begun) (op : CallbackOp κ) : (x.act op).Begun := by
  cases op with
  | user op => exact h.note _
  | Close => exact h
  | ServerClose =>
    rw [Lived.act, Lived.ServerClose]
    split
    · exact h.queue (by decide)
    · exact h

theorem Core.acts (h : x.Core cap) (ops : List (CallbackOp κ)) : (x.acts ops).Core cap := by
  induction ops generalizing x with
  | nil => exact h
  | cons op ops ih => exact ih (h.act op)

theorem Begun.acts (h : x.Begun) (ops : List (CallbackOp κ)) : (x.acts ops).Begun := by
  induction ops generalizing x with
  | nil => exact h
  | cons op ops ih => exact ih (h.act op)

/-- A connection that has been established does not become one that is connecting. -/
theorem established_note {c : TcpConnection κ} (h : x.conn.mState ≠ .CONNECTING) (hmoved : x.conn.Moved c) :
    (x.note c).conn.mState ≠ .CONNECTING := by
  show c.mState ≠ .CONNECTING
  rcases hmoved with ⟨hstate, _⟩ | ⟨_, hstate, _⟩
  · rwa [hstate]
  · rw [hstate]
    decide

theorem established_acts (h : x.conn.mState ≠ .CONNECTING) (ops : List (CallbackOp κ)) :
    (x.acts ops).conn.mState ≠ .CONNECTING := by
  induction ops generalizing x with
  | nil => exact h
  | cons op ops ih =>
    refine ih ?_
    cases op with
    | user op => exact established_note h (TcpConnection.moved_act ⟨x.conn, false⟩ op)
    | Close => exact h
    | ServerClose =>
      rw [Lived.act, Lived.ServerClose]
      split <;> exact h

/-- What has been seen is not forgotten. -/
theorem states_act (x : Lived κ) (op : CallbackOp κ) : x.states <+: (x.act op).states := by
  cases op with
  | user op => exact List.prefix_append _ _
  | Close => exact List.prefix_refl _
  | ServerClose =>
    rw [Lived.act, Lived.ServerClose]
    split <;> exact List.prefix_refl _

theorem states_acts (ops : List (CallbackOp κ)) (x : Lived κ) : x.states <+: (x.acts ops).states := by
  induction ops generalizing x with
  | nil => exact List.prefix_refl _
  | cons op ops ih => exact (states_act x op).trans (ih (x.act op))

/-- While the connect callback runs, the connection is still connecting exactly if no `Send`
has closed it; else its state has been `CLOSING`. -/
theorem connecting_act (h : x.Core cap) (hstate : x.conn.mState = .CONNECTING) (op : CallbackOp κ) :
    (x.ActLeavesOpen op → (x.act op).conn.mState = .CONNECTING) ∧
      (¬ x.ActLeavesOpen op → .CLOSING ∈ (x.act op).states) := by
  cases op with
  | user op =>
    cases op with
    | Send writevs =>
      obtain ⟨hcloses, hstays⟩ := (h.sound.answer writevs).1.sendInLoop_open (Or.inl hstate)
      constructor
      · intro hopen
        exact ((hstays hopen).1).trans hstate
      · intro hclosed
        have hclosing := hcloses (not_not.mp hclosed)
        exact List.mem_append_right _ (List.mem_singleton.mpr hclosing.symm)
    | _ => exact ⟨fun _ => hstate, fun hclosed => absurd trivial hclosed⟩
  | Close => exact ⟨fun _ => hstate, fun hclosed => absurd trivial hclosed⟩
  | ServerClose =>
    refine ⟨fun _ => ?_, fun hclosed => absurd trivial hclosed⟩
    rw [Lived.act, Lived.ServerClose]
    split <;> exact hstate

theorem connecting_acts (ops : List (CallbackOp κ)) (h : x.Core cap) (hstate : x.conn.mState = .CONNECTING) :
    (Along act ActLeavesOpen x ops → (x.acts ops).conn.mState = .CONNECTING) ∧
      (¬ Along act ActLeavesOpen x ops → .CLOSING ∈ (x.acts ops).states) := by
  induction ops generalizing x with
  | nil => exact ⟨fun _ => hstate, fun hclosed => absurd trivial hclosed⟩
  | cons op ops ih =>
    obtain ⟨hopen, hclosing⟩ := connecting_act h hstate op
    by_cases hop : x.ActLeavesOpen op
    · obtain ⟨hopens, hcloses⟩ := ih (h.act op) (hopen hop)
      exact ⟨fun hall => hopens hall.2, fun hnot => hcloses fun hall => hnot ⟨hop, hall⟩⟩
    · exact ⟨fun hall => absurd hall.1 hop, fun _ => (states_acts ops (x.act op)).subset (hclosing hop)⟩

/-- `Established` is the first task and no event comes before it; after it the connection is
never connecting again. -/
structure Inv (cap : Nat) (x : Lived κ) : Prop extends Core cap x where
  phase : x.conn.mState = .CONNECTING ∧ x.registered = false ∧
      (∃ rest, x.mTasks = .Established :: rest ∧ .Established ∉ rest) ∨
    x.conn.mState ≠ .CONNECTING ∧ x.Begun

theorem Inv.begun (h : x.Inv cap) (hnot : x.registered = true ∨ x.Begun ∨ 0 < x.removing) :
    x.conn.mState ≠ .CONNECTING ∧ x.Begun := by
  rcases h.phase with ⟨hstate, hregistered, rest, htasks, _⟩ | hbegun
  · rcases hnot with hnot | hnot | hnot
    · rw [hregistered] at hnot
      cases hnot
    · exact absurd (htasks ▸ List.mem_cons_self) hnot
    · rw [(h.opened (Or.inl hstate)).2.1] at hnot
      cases hnot
  · exact hbegun

theorem Inv.note (h : x.Core cap) (hbegun : x.conn.mState ≠ .CONNECTING ∧ x.Begun) {c : TcpConnection κ}
    (hmoved : x.conn.Moved c) (hsound : c.WriteSound cap) : (x.note c).Inv cap :=
  ⟨h.note hmoved hsound, Or.inr ⟨established_note hbegun.1 hmoved, hbegun.2.note c⟩⟩

theorem Inv.acts (h : x.Core cap) (hbegun : x.conn.mState ≠ .CONNECTING ∧ x.Begun)
    (ops : List (CallbackOp κ)) : (x.acts ops).Inv cap :=
  ⟨h.acts ops, Or.inr ⟨established_acts hbegun.1 ops, hbegun.2.acts ops⟩⟩

theorem Inv.queue (h : x.Inv cap) {t : LifeTask} (hfirst : t ≠ .Established) (hlast : t ≠ .Destroy) :
    (x.queue t).Inv cap := by
  refine ⟨h.toCore.queue hlast, ?_⟩
  rcases h.phase with ⟨hstate, hregistered, rest, htasks, hrest⟩ | ⟨hstate, hbegun⟩
  · refine Or.inl ⟨hstate, hregistered, rest ++ [t], ?_, by simp [hrest, Ne.symm hfirst]⟩
    simp [Lived.queue, htasks]
  · exact Or.inr ⟨hstate, hbegun.queue hfirst⟩

theorem Inv.ServerClose (h : x.Inv cap) : x.ServerClose.Inv cap := by
  rw [Lived.ServerClose]
  split
  · exact h.queue (by decide) (by decide)
  · exact h

/-- The first task has been taken. -/
theorem Core.taken (h : x.Core cap) {t : LifeTask} {rest : List LifeTask} (htasks : x.mTasks = t :: rest) :
    Core cap { x with mTasks := rest } :=
  ⟨h.sound, h.forward, h.upto, fun hopen => by
    obtain ⟨hzero, hremoving, hdestroy⟩ := h.opened hopen
    exact ⟨hzero, hremoving, fun hmem => hdestroy (htasks ▸ List.mem_cons_of_mem _ hmem)⟩, h.closed⟩

/-- `Destroy` is only queued for a connection that has been closed. -/
theorem Core.Destroy (h : x.Core cap) (hclosed : ¬ x.conn.isOpen) : x.Destroy.Core cap := by
  have hupto : ∀ a ∈ x.states, a.toNat ≤ CONNECTION_STATE.CLOSED.toNat := fun a _ => by
    cases a <;> decide
  refine ⟨h.sound.of_eq rfl rfl, forward_append h.forward hupto, fun a _ => ?_, fun hopen => ?_, fun _ => ?_⟩
  · show a.toNat ≤ CONNECTION_STATE.CLOSED.toNat
    cases a <;> decide
  · exact absurd hopen (TcpConnection.not_isOpen_of_closed rfl)
  · exact h.closed hclosed

/-- The connect callback runs on a connection that is connecting. -/
theorem Core.connecting (h : x.Core cap) (hstate : x.conn.mState = .CONNECTING) :
    x.connecting.Core cap ∧ x.connecting.conn.mState = .CONNECTING := by
  have hnote := h.note (c := { x.conn with mChannel := x.conn.mChannel.add.EnableRead })
    (Or.inl ⟨rfl, rfl⟩) (h.sound.of_eq rfl rfl)
  exact ⟨⟨hnote.sound, hnote.forward, hnote.upto, hnote.opened, hnote.closed⟩, hstate⟩

/-- What the connect callback leaves open is connected. -/
theorem Core.Established (h : x.Core cap) (hstate : x.conn.mState = .CONNECTING) (hbegun : x.Begun)
    {ops : List (CallbackOp κ)} (hops : Along Lived.act ActLeavesOpen x.connecting ops) :
    (x.Established ops).Inv cap := by
  obtain ⟨hcore, hconnecting⟩ := h.connecting hstate
  have hacts := hcore.acts ops
  have hstill := (connecting_acts ops hcore hconnecting).1 hops
  have hopen : (x.connecting.acts ops).conn.isOpen := Or.inl hstill
  obtain ⟨hzero, hremoving, hdestroy⟩ := hacts.opened hopen
  have hupto : ∀ a ∈ (x.connecting.acts ops).states, a.toNat ≤ CONNECTION_STATE.CONNECTED.toNat := by
    intro a ha
    have := hacts.upto a ha
    rw [hstill] at this
    exact this.trans (by decide)
  have htasks : (x.Established ops).mTasks = (x.connecting.acts ops).mTasks := by
    show _ ++ List.replicate (_ - _) _ = _
    rw [Nat.sub_self, List.replicate_zero, List.append_nil]
  refine ⟨⟨hacts.sound.of_eq rfl rfl, forward_append hacts.forward hupto, fun a ha => ?_, fun _ => ?_,
    fun hclosed => absurd (Or.inr rfl) hclosed⟩, Or.inr ⟨by show CONNECTION_STATE.CONNECTED ≠ _; decide, ?_⟩⟩
  · rcases List.mem_append.mp ha with ha | ha
    · exact hupto a ha
    · rw [List.mem_singleton.mp ha]
      exact le_rfl
  · refine ⟨hzero, ?_, by rwa [htasks]⟩
    show (x.connecting.acts ops).removing + (_ - _) = 0
    rw [hremoving, Nat.sub_self]
  · show .Established ∉ (x.Established ops).mTasks
    rw [htasks]
    have hfirst : x.connecting.Begun := hbegun.note _
    exact hfirst.acts ops

/-- A step that a run can take and that leaves the connection open where it is connecting. -/
theorem Inv.step (h : x.Inv cap) (s : LifeStep κ) (hpossible : x.Possible s) (hopen : x.StepLeavesOpen s) :
    (x.step s).Inv cap := by
  cases s with
  | task ops writevs =>
    rw [Lived.step]
    cases htasks : x.mTasks with
    | nil => exact absurd htasks hpossible
    | cons t rest =>
      have hcore := h.toCore.taken htasks
      rcases h.phase with ⟨hstate, _, rest', htasks', hrest⟩ | ⟨hstate, hbegun⟩
      · obtain ⟨rfl, rfl⟩ := List.cons.inj (htasks.symm.trans htasks')
        rw [StepLeavesOpen, htasks] at hopen
        exact hcore.Established hstate hrest hopen
      · have hnext : (x.conn.mState ≠ .CONNECTING) ∧ Begun { x with mTasks := rest } :=
          ⟨hstate, fun hmem => hbegun (htasks ▸ List.mem_cons_of_mem _ hmem)⟩
        cases t with
        | Established => exact absurd (htasks ▸ List.mem_cons_self) hbegun
        | sendInLoop =>
          exact .note hcore hnext (TcpConnection.moved_sendInLoop (x.conn.withWritevs writevs))
            ((h.sound.answer writevs).1.sent (TcpConnection.Send_cases _))
        | closeInLoop => exact ⟨hcore, Or.inr hnext⟩
        | handleClose => exact .note hcore hnext (TcpConnection.moved_handleClose _) h.sound.handleClose
        | WriteCompleteCallback => exact .acts hcore hnext ops
        | Destroy =>
          have hclosed : ¬ x.conn.isOpen := fun hopen =>
            (h.opened hopen).2.2 (htasks ▸ List.mem_cons_self)
          refine ⟨hcore.Destroy hclosed, Or.inr ⟨?_, hnext.2.note _⟩⟩
          show CONNECTION_STATE.CLOSED ≠ _
          decide
  | read recvs ops =>
    have hbegun := h.begun (Or.inl hpossible)
    have hsound : (x.conn.withRecvs recvs).recvMessage.2.WriteSound cap := h.sound.of_eq rfl rfl
    have hsame : x.conn.Moved (x.conn.withRecvs recvs).recvMessage.2 := Or.inl ⟨rfl, rfl⟩
    rw [Lived.step, Lived.handleRead]
    split
    · exact .note h.toCore hbegun ((TcpConnection.moved_handleClose _).of_same rfl rfl) hsound.handleClose
    · have hnote := Inv.note h.toCore hbegun hsame hsound
      exact .acts hnote.toCore (hnote.begun (Or.inr (Or.inl (hbegun.2.note _)))) ops
  | write writevs =>
    exact .note h.toCore (h.begun (Or.inl hpossible))
      (TcpConnection.moved_handleWrite (x.conn.withWritevs writevs))
      ((h.sound.answer writevs).1.sent (TcpConnection.handleWrite_cases _))
  | hangup =>
    exact .note h.toCore (h.begun (Or.inl hpossible)) (TcpConnection.moved_handleClose _) h.sound.handleClose
  | user ops => exact .acts h.toCore (h.begun (Or.inr (Or.inl hpossible))) ops
  | Send => exact h.queue (by decide) (by decide)
  | Close => exact h.queue (by decide) (by decide)
  | ServerClose => exact h.ServerClose
  | removeInLoop =>
    obtain ⟨hstate, hbegun⟩ := h.begun (Or.inr (Or.inr hpossible))
    refine ⟨⟨h.sound, h.forward, h.upto, fun hopen => ?_, h.closed⟩, Or.inr ⟨hstate, ?_⟩⟩
    · have hzero := (h.opened hopen).2.1
      have hsome : 0 < x.removing := hpossible
      omega
    · exact hbegun.queue (by decide)

theorem states_step (x : Lived κ) (s : LifeStep κ) : x.states <+: (x.step s).states := by
  have hnote : ∀ (y : Lived κ) (c : TcpConnection κ), y.states <+: (y.note c).states :=
    fun y c => List.prefix_append _ _
  have hserver : x.states <+: x.ServerClose.states := states_act x .ServerClose
  cases s with
  | task ops writevs =>
    rw [step]
    cases x.mTasks with
    | nil => exact List.prefix_refl _
    | cons t rest =>
      cases t with
      | Established =>
        exact ((hnote _ _).trans (states_acts ops (connecting { x with mTasks := rest }))).trans (hnote _ _)
      | WriteCompleteCallback => exact states_acts ops { x with mTasks := rest }
      | closeInLoop => exact List.prefix_refl _
      | _ => exact List.prefix_append _ _
  | read recvs ops =>
    rw [step, handleRead]
    split
    · exact hnote x _
    · exact (hnote x _).trans (states_acts ops _)
  | user ops => exact states_acts ops x
  | ServerClose => exact hserver
  | write writevs => exact hnote x _
  | hangup => exact hnote x _
  | _ => exact List.prefix_refl _

/-- `Established` on a connection that its connect callback has closed takes the state back. -/
theorem Inv.backwards (h : x.Inv cap) {s : LifeStep κ} (hclosed : ¬ x.StepLeavesOpen s) :
    ¬ (x.step s).states.Pairwise fun a b => a.toNat ≤ b.toNat := by
  cases s with
  | task ops writevs =>
    cases htasks : x.mTasks with
    | nil =>
      rw [StepLeavesOpen, htasks] at hclosed
      exact absurd trivial hclosed
    | cons t rest =>
      rw [StepLeavesOpen, htasks] at hclosed
      cases t with
      | Established =>
        have hstate : x.conn.mState = .CONNECTING := by
          rcases h.phase with ⟨hstate, _⟩ | ⟨_, hbegun⟩
          · exact hstate
          · exact absurd (htasks ▸ List.mem_cons_self) hbegun
        obtain ⟨hcore, hconnecting⟩ := (h.toCore.taken htasks).connecting hstate
        have hclosing := (connecting_acts ops hcore hconnecting).2 hclosed
        rw [Lived.step, htasks]
        intro hforward
        have hle := (List.pairwise_append.mp hforward).2.2 .CLOSING hclosing .CONNECTED
          (List.mem_singleton.mpr rfl)
        exact absurd hle (by decide)
      | _ => exact absurd trivial hclosed
  | _ => exact absurd trivial hclosed

theorem Inv.only_forward (h : x.Inv cap) : x.Forward := by
  refine ⟨h.forward, ?_⟩
  by_cases hopen : x.conn.isOpen
  · rw [(h.opened hopen).1]
    exact Nat.zero_le 1
  · exact le_of_eq (h.closed hopen)

theorem Inv.forward_run_iff (steps : List (LifeStep κ)) (h : x.Inv cap)
    (hpossible : Along Lived.step Possible x steps) :
    (x.run steps).Forward ↔ Along Lived.step StepLeavesOpen x steps :=
  along_iff_final (I := Inv cap) (P := Forward)
    (B := fun y => ¬ y.states.Pairwise fun a b => a.toNat ≤ b.toNat)
    (fun _ hy => Inv.only_forward hy) (fun _ hback hforward => hback hforward.1)
    (fun _ s hy => hy.step s) (fun _ _ hy _ => hy.backwards)
    (fun y s hback hforward => hback (hforward.sublist (states_step y s).sublist)) h hpossible

theorem inv_new (rbuf wbuf : Bytes) (hwbuf : wbuf.length < 2 ^ 31) (context : κ) (socket : Socket)
    (garbage : Channel) (alive : Bool) :
    (new rbuf wbuf context socket garbage alive).Inv wbuf.length where
  sound := ⟨⟨FixedBuffer.fresh_ok hwbuf, rfl⟩, Nat.two_pow_pos 64⟩
  forward := List.pairwise_singleton _ _
  upto a ha := by
    rw [List.mem_singleton.mp ha]
    exact le_rfl
  opened _ := ⟨rfl, rfl, by simp [new]⟩
  closed hclosed := absurd (Or.inl rfl) hclosed
  phase := Or.inl ⟨rfl, rfl, [], rfl, List.not_mem_nil⟩

/-- In every run from `newConnection` on, the state only moves forward and the close callback is
called at most once, if and only if no `Send` in the connect callback closes the connection. -/
theorem forward_iff (rbuf wbuf : Bytes) (hwbuf : wbuf.length < 2 ^ 31) (context : κ) (socket : Socket)
    (garbage : Channel) (alive : Bool) (steps : List (LifeStep κ))
    (hpossible : Along step Possible (new rbuf wbuf context socket garbage alive) steps) :
    ((new rbuf wbuf context socket garbage alive).run steps).Forward ↔
      Along step StepLeavesOpen (new rbuf wbuf context socket garbage alive) steps :=
  (inv_new rbuf wbuf hwbuf context socket garbage alive).forward_run_iff steps hpossible

/-- A connection that greets its peer when it is connected. The peer hangs up while a close by
the user is queued, and the connection is taken out of the poller. -/
theorem forward_iff_greeting :
    ((new [] (List.replicate 16 0) () ⟨[], [], []⟩ ⟨0, 0⟩ true).run
      [.task [.user (.append [1, 2]), .user (.Send [.wrote 2])] [], .ServerClose,
        .hangup, .removeInLoop, .task [.ServerClose] [], .task [] [], .task [] []]).Forward :=
  (forward_iff [] (List.replicate 16 0) (by decide) () ⟨[], [], []⟩ ⟨0, 0⟩ true
    [.task [.user (.append [1, 2]), .user (.Send [.wrote 2])] [], .ServerClose,
      .hangup, .removeInLoop, .task [.ServerClose] [], .task [] [], .task [] []]
    (by decide +kernel)).mpr (by decide +kernel)

/-- In every run of a connection with the source's buffers. -/
def AlwaysForward : Prop :=
  ∀ (rbuf wbuf : Bytes) (socket : Socket) (garbage : Channel) (alive : Bool) (steps : List (LifeStep Unit)),
    rbuf.length = FixedBuffer.kBufferSize → wbuf.length = FixedBuffer.kBufferSize →
    Along step Possible (new rbuf wbuf () socket garbage alive) steps →
      ((new rbuf wbuf () socket garbage alive).run steps).Forward

/-- The peer is gone when the connect callback greets it. -/
theorem alwaysForward_reset : ¬ AlwaysForward := by
  intro hclaim
  have hforward := hclaim (List.replicate 1024 0) (List.replicate 1024 0) ⟨[], [], []⟩ ⟨0, 0⟩ true
    [.task [.user (.append [1]), .user (.Send [.error])] []] List.length_replicate List.length_replicate
    (by decide +kernel)
  revert hforward
  decide +kernel

end Lived
end Knpnl.Net
