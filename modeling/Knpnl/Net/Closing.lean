import Knpnl.Net.Mask

/-!
# Sending on a closing connection

`handleClose` switches the channel off and leaves it registered. A `Destroy` that comes
through another thread takes it out of the poller, and finds it switched off only if no
`Send` has switched it on again in between.
-/
namespace Knpnl.Net

open Lib
open Lib.CString (Bytes)
open Base (FixedBuffer Recv signed)
open Event

/-- The bytes that are left when `writev` answers `EAGAIN`. -/
def writeLeft : List Writev → Nat → Nat
  | [], n => n
  | .error :: _, _ => 0
  | .eagain :: _, n => n
  | .wrote k :: rest, n => if n = 0 then 0 else writeLeft rest (n - max 1 (min k n))

namespace TcpConnection

variable {κ : Type*} {c c' : TcpConnection κ} {cap : Nat}

theorem not_isOpen_of_closing (h : c.mState = .CLOSING) : ¬ c.isOpen := by simp [isOpen, h]

theorem not_isOpen_of_closed (h : c.mState = .CLOSED) : ¬ c.isOpen := by simp [isOpen, h]

/-- The masks that `handleClose` asks the poller for. -/
def closeMods (c : TcpConnection κ) : List UInt32 := if c.isOpen then [Channel.kNoneEvent] else []

/-- The masks that `Send` asks for. -/
def sendMods (c : TcpConnection κ) : List UInt32 :=
  let r := c.sendMessage
  let ret := signed 32 r.1
  if ret = -1 then r.2.closeMods
  else if ret > 0 then [Channel.kWriteEvent ||| Channel.kEPollET]
  else []

/-- The masks that `handleWrite` asks for. -/
def writeMods (c : TcpConnection κ) : List UInt32 :=
  let r := c.sendMessage
  if r.1 = -1 then r.2.closeMods
  else if r.1 > 0 then []
  else if r.1 = 0 then [r.2.mChannel.mEvent &&& ~~~Channel.kWriteEvent]
  else []

theorem mChannel_handleClose (c : TcpConnection κ) :
    c.handleClose.mChannel = c.closeMods.foldl Channel.ModChannel c.mChannel := by
  unfold handleClose closeMods
  by_cases hopen : c.isOpen
  · rw [if_pos hopen, if_pos hopen]
    rfl
  · rw [if_neg hopen, if_neg hopen]
    rfl

theorem mChannel_Send (c : TcpConnection κ) :
    c.Send.mChannel = c.sendMods.foldl Channel.ModChannel c.mChannel := by
  have hsame := (sendMessage_onlySent c).channel
  unfold Send sendInLoop sendMods
  dsimp only
  split
  · rw [mChannel_handleClose, hsame]
  · split
    · rw [hsame]
      rfl
    · split <;> exact hsame

theorem mChannel_handleWrite (c : TcpConnection κ) :
    c.handleWrite.mChannel = c.writeMods.foldl Channel.ModChannel c.mChannel := by
  have hsame := (sendMessage_onlySent c).channel
  unfold handleWrite writeMods
  dsimp only
  split
  · rw [mChannel_handleClose, hsame]
  · split
    · exact hsame
    · split
      · rw [hsame]
        rfl
      · exact hsame

theorem WriteSound.pending_writeLoop (h : WriteSound cap c) (script : List Writev)
    (hagain : (TcpConnection.writeLoop script c).1 = .again) :
    (TcpConnection.writeLoop script c).2.pending = writeLeft script c.pending := by
  induction script generalizing c with
  | nil => rfl
  | cons a rest ih =>
    cases a with
    | error => cases hagain
    | eagain =>
      rw [TcpConnection.writeLoop]
      split <;> rfl
    | wrote n =>
      by_cases h0 : c.pending = 0
      · rw [TcpConnection.writeLoop, if_pos h0] at hagain
        cases hagain
      · have hn : max 1 (min n c.pending) ≤ c.pending := by omega
        obtain ⟨⟨⟨hok, hcap⟩, hfile⟩, hpending⟩ := h.wrote hn
        rw [TcpConnection.writeLoop, if_neg h0] at hagain ⊢
        rw [writeLeft, if_neg h0, ← hpending]
        exact ih (c := (c.wrote (max 1 (min n c.pending))).answered rest) ⟨⟨hok, hcap⟩, hfile⟩ hagain

theorem writeLeft_of_zero (script : List Writev) (n : Nat) (h : writeOutcome script n = .zero) :
    writeLeft script n = 0 := by
  induction script generalizing n with
  | nil =>
    rw [writeOutcome] at h
    split at h
    · assumption
    · cases h
  | cons a rest ih =>
    cases a with
    | error => cases h
    | eagain =>
      rw [writeOutcome] at h
      split at h
      · assumption
      · cases h
    | wrote k =>
      rw [writeOutcome] at h
      rw [writeLeft]
      split at h
      · rename_i h0
        rw [if_pos h0]
      · rename_i h0
        rw [if_neg h0]
        exact ih _ h

/-- A message that ends with `EAGAIN` returns the bytes that are left. -/
theorem WriteSound.sendMessage_again (h : WriteSound cap c)
    (houtcome : writeOutcome c.mSocket.writevs c.pending = .again) :
    c.sendMessage.1 = signed 64 (writeLeft c.mSocket.writevs c.pending) := by
  obtain ⟨_, hend⟩ := h.sendMessage
  rw [houtcome] at hend
  obtain ⟨_, hloop, _⟩ := h.writeLoop c.mSocket.writevs
  have hleft := h.pending_writeLoop c.mSocket.writevs (hloop.trans houtcome)
  rw [houtcome] at hloop
  rw [hend, ← hleft]
  unfold TcpConnection.sendMessage
  generalize TcpConnection.writeLoop c.mSocket.writevs c = r at hloop
  obtain ⟨e, c'⟩ := r
  obtain rfl : e = .again := hloop
  rfl

/-- A message fails, or returns the bytes that are left. -/
theorem WriteSound.sendMessage_left (h : WriteSound cap c) :
    c.sendMessage.1 = -1 ∨ c.sendMessage.1 = signed 64 (writeLeft c.mSocket.writevs c.pending) := by
  obtain ⟨_, hend⟩ := h.sendMessage
  cases houtcome : writeOutcome c.mSocket.writevs c.pending with
  | error =>
    rw [houtcome] at hend
    exact Or.inl hend
  | zero =>
    rw [houtcome] at hend
    right
    rw [hend.1, writeLeft_of_zero _ _ houtcome]
    rfl
  | again => exact Or.inr (h.sendMessage_again houtcome)

/-- `c'` is `c` after steps that ask the poller for `mods`. An open connection may be closed,
once, and is then switched off. A connection that has been closed stays switched off. -/
structure Moves (c : TcpConnection κ) (mods : List UInt32) (c' : TcpConnection κ) : Prop where
  opened : c.isOpen → c'.isOpen ∧ c'.closes = c.closes ∨
    c'.mState = .CLOSING ∧ c'.mChannel.isIdle = true ∧ c'.closes = c.closes + 1
  closed : ¬ c.isOpen → c'.mState = c.mState ∧ c'.closes = c.closes ∧
    (c.mChannel.isIdle = true → c'.mChannel.isIdle = true)
  mods : c.mState = .CLOSED → mods = []

namespace Moves

/-- Nothing is changed that the poller or the life cycle knows of. -/
theorem of_same (hstate : c'.mState = c.mState) (hchannel : c'.mChannel = c.mChannel)
    (hcloses : c'.closes = c.closes) : Moves c [] c' where
  opened hopen := Or.inl ⟨by rwa [isOpen, hstate], hcloses⟩
  closed _ := ⟨hstate, hcloses, fun hidle => hchannel ▸ hidle⟩
  mods _ := rfl

theorem trans {c'' : TcpConnection κ} {mods mods' : List UInt32} (h : Moves c mods c')
    (h' : Moves c' mods' c'') : Moves c (mods ++ mods') c'' where
  opened hopen := by
    rcases h.opened hopen with ⟨hopen', hcloses⟩ | ⟨hstate, hidle, hcloses⟩
    · rcases h'.opened hopen' with ⟨hopen'', hcloses'⟩ | ⟨hstate, hidle, hcloses'⟩
      · exact Or.inl ⟨hopen'', hcloses'.trans hcloses⟩
      · exact Or.inr ⟨hstate, hidle, by rw [hcloses', hcloses]⟩
    · have hnot := not_isOpen_of_closing hstate
      obtain ⟨hstate', hcloses', hidle'⟩ := h'.closed hnot
      exact Or.inr ⟨hstate'.trans hstate, hidle' hidle, by rw [hcloses', hcloses]⟩
  closed hclosed := by
    obtain ⟨hstate, hcloses, hidle⟩ := h.closed hclosed
    have hnot : ¬ c'.isOpen := by rwa [isOpen, hstate]
    obtain ⟨hstate', hcloses', hidle'⟩ := h'.closed hnot
    exact ⟨hstate'.trans hstate, hcloses'.trans hcloses, fun h0 => hidle' (hidle h0)⟩
  mods hstate := by
    have hnot := not_isOpen_of_closed hstate
    rw [h.mods hstate, h'.mods ((h.closed hnot).1.trans hstate)]
    rfl

theorem handleClose (c : TcpConnection κ) : Moves c c.closeMods c.handleClose := by
  unfold TcpConnection.handleClose closeMods
  by_cases hopen : c.isOpen
  · rw [if_pos hopen, if_pos hopen]
    refine ⟨fun _ => Or.inr ⟨rfl, rfl, rfl⟩, fun hclosed => absurd hopen hclosed, fun hstate => ?_⟩
    exact absurd hopen (not_isOpen_of_closed hstate)
  · rw [if_neg hopen, if_neg hopen]
    exact of_same rfl rfl rfl

/-- The connection that a message leaves, before its result is looked at. -/
theorem sendMessage (c : TcpConnection κ) : Moves c [] c.sendMessage.2 :=
  have h := sendMessage_onlySent c
  of_same h.state h.channel h.closes

/-- A `Send` whose message leaves no bytes to a connection that has been closed. -/
theorem Send_of_ret (hret : ¬ c.isOpen → signed 32 c.sendMessage.1 = -1 ∨ signed 32 c.sendMessage.1 ≤ 0) :
    Moves c c.sendMods c.Send := by
  have hmessage := sendMessage c
  have hstate := (sendMessage_onlySent c).state
  have hcloses := (sendMessage_onlySent c).closes
  unfold TcpConnection.Send sendInLoop sendMods
  dsimp only
  split
  · exact hmessage.trans (handleClose _)
  · rename_i hne
    split
    · rename_i hpos
      refine ⟨fun hopen => Or.inl ⟨?_, hcloses⟩, fun hclosed => ?_, fun hclosed => ?_⟩
      · rwa [isOpen, hstate]
      · have := hret hclosed
        omega
      · have := hret (not_isOpen_of_closed hclosed)
        omega
    · split
      · exact of_same hstate (sendMessage_onlySent c).channel hcloses
      · exact hmessage

theorem Send_of_open (hopen : c.isOpen) : Moves c c.sendMods c.Send :=
  Send_of_ret fun hclosed => absurd hopen hclosed

/-- A `Send` that does not switch a closed connection on. -/
theorem Send (hsound : WriteSound cap c)
    (hquiet : ¬ c.isOpen → signed 32 (writeLeft c.mSocket.writevs c.pending) ≤ 0) :
    Moves c c.sendMods c.Send := by
  apply Send_of_ret
  intro hclosed
  rcases hsound.sendMessage_left with herror | hleft
  · exact Or.inl (by rw [herror]; rfl)
  · right
    rw [hleft, signed, signed, Int.bmod_bmod_of_dvd (by decide)]
    exact hquiet hclosed

/-- `DisableWrite` leaves a channel that is switched off as it is. -/
theorem DisableWrite (hstate : c.mState ≠ .CLOSED) (n : Nat) :
    Moves c [c.mChannel.mEvent &&& ~~~Channel.kWriteEvent]
      { c with writeCompletes := n, mChannel := c.mChannel.DisableWrite } where
  opened hopen := Or.inl ⟨hopen, rfl⟩
  closed _ := by
    refine ⟨rfl, rfl, fun hidle => ?_⟩
    have hevent : c.mChannel.mEvent = Channel.kNoneEvent := of_decide_eq_true hidle
    show decide (c.mChannel.mEvent &&& ~~~Channel.kWriteEvent = Channel.kNoneEvent) = true
    rw [hevent]
    decide
  mods h := absurd h hstate

theorem handleWrite (hstate : c.mState ≠ .CLOSED) : Moves c c.writeMods c.handleWrite := by
  have hmessage := sendMessage c
  have hstate' : c.sendMessage.2.mState ≠ .CLOSED := by rwa [(sendMessage_onlySent c).state]
  unfold TcpConnection.handleWrite writeMods
  dsimp only
  split
  · exact hmessage.trans (handleClose _)
  · split
    · exact hmessage
    · split
      · exact hmessage.trans (DisableWrite hstate' _)
      · exact hmessage

end Moves
end TcpConnection

namespace Watched

variable {κ : Type*} {cap : Nat} {w : Watched κ}

/-- The masks that an operation of a user asks the poller for. -/
def actMods (w : Watched κ) : UserOp κ → List UInt32
  | .Send writevs => (w.conn.withWritevs writevs).sendMods
  | _ => []

def actsMods : Watched κ → List (UserOp κ) → List UInt32
  | _, [] => []
  | w, op :: ops => w.actMods op ++ actsMods (w.act op) ops

/-- The masks that a step of the loop asks for. -/
def stepMods (w : Watched κ) : LoopStep κ → List UInt32
  | .read recvs ops =>
      if (w.conn.withRecvs recvs).Ends then (w.received recvs).conn.closeMods
      else (w.received recvs).actsMods ops
  | .write writevs => (w.conn.withWritevs writevs).writeMods
  | .task ops => w.actsMods ops
  | .close => w.conn.closeMods

theorem conn_read (w : Watched κ) (recvs : List Recv) (ops : List (UserOp κ)) :
    (w.step (.read recvs ops)).conn =
      if (w.conn.withRecvs recvs).Ends then (w.received recvs).conn.handleClose
      else ((w.received recvs).acts ops).conn :=
  rfl

/-- If the connection has been closed, `EAGAIN` leaves no number of bytes that is positive as
an `int`. -/
def Quiet (w : Watched κ) (writevs : List Writev) : Prop :=
  ¬ w.conn.isOpen → signed 32 (writeLeft writevs w.conn.pending) ≤ 0

instance (w : Watched κ) (writevs : List Writev) : Decidable (w.Quiet writevs) :=
  inferInstanceAs (Decidable (_ → _))

def ActQuiet (w : Watched κ) : UserOp κ → Prop
  | .Send writevs => w.Quiet writevs
  | _ => True

instance (w : Watched κ) : (op : UserOp κ) → Decidable (w.ActQuiet op)
  | .append _ | .readBuffer _ | .setFile _ _ | .SetAlive _ | .setContext _ => isTrue trivial
  | .Send _ => inferInstanceAs (Decidable (Quiet _ _))

def StepQuiet (w : Watched κ) : LoopStep κ → Prop
  | .read recvs ops => ¬ (w.conn.withRecvs recvs).Ends → Along act ActQuiet (w.received recvs) ops
  | .task ops => Along act ActQuiet w ops
  | .write _ | .close => True

instance (w : Watched κ) : (s : LoopStep κ) → Decidable (w.StepQuiet s)
  | .read _ _ => inferInstanceAs (Decidable (_ → _))
  | .task _ => inferInstanceAs (Decidable (Along _ _ _ _))
  | .write _ | .close => isTrue trivial

theorem writeSound_act (h : w.conn.WriteSound cap) (op : UserOp κ) : (w.act op).conn.WriteSound cap := by
  cases op with
  | append str =>
    have happ := h.ok.append str
    exact ⟨⟨happ.ok, happ.cap.trans h.cap_eq⟩, h.file⟩
  | setFile F size => exact ⟨⟨h.ok, h.cap_eq⟩, size⟩
  | Send writevs => exact (h.answer writevs).1.sent (TcpConnection.Send_cases _)
  | _ => exact h.of_eq rfl rfl

theorem moves_act (h : w.conn.WriteSound cap) (op : UserOp κ) (hquiet : w.ActQuiet op) :
    w.conn.Moves (w.actMods op) (w.act op).conn := by
  cases op with
  | Send writevs =>
    have hsame : w.conn.Moves [] (w.conn.withWritevs writevs) := .of_same rfl rfl rfl
    exact hsame.trans (.Send (h.answer writevs).1 hquiet)
  | _ => exact .of_same rfl rfl rfl

theorem moves_acts (ops : List (UserOp κ)) (h : w.conn.WriteSound cap) (hquiet : Along act ActQuiet w ops) :
    w.conn.Moves (w.actsMods ops) (w.acts ops).conn ∧ (w.acts ops).conn.WriteSound cap := by
  induction ops generalizing w with
  | nil => exact ⟨.of_same rfl rfl rfl, h⟩
  | cons op ops ih =>
    obtain ⟨hmoves, hsound⟩ := ih (writeSound_act h op) hquiet.2
    exact ⟨(moves_act h op hquiet.1).trans hmoves, hsound⟩

theorem isOpen_of_acts (ops : List (UserOp κ)) (w : Watched κ) (hopen : (w.acts ops).conn.isOpen) :
    w.conn.isOpen := by
  induction ops generalizing w with
  | nil => exact hopen
  | cons op ops ih =>
    have hnext := ih (w.act op) hopen
    cases op with
    | Send writevs =>
      exact @TcpConnection.isOpen_of_sent κ (w.conn.withWritevs writevs) _ (TcpConnection.Send_cases _) hnext
    | _ => exact hnext

/-- On a connection that is open in the end, all messages were sent while it was open. -/
theorem actQuiet_of_open (ops : List (UserOp κ)) (w : Watched κ) (hopen : (w.acts ops).conn.isOpen) :
    Along act ActQuiet w ops := by
  induction ops generalizing w with
  | nil => trivial
  | cons op ops ih =>
    refine ⟨?_, ih (w.act op) hopen⟩
    cases op with
    | Send writevs => exact fun hnot => absurd (isOpen_of_acts (.Send writevs :: ops) w hopen) hnot
    | _ => trivial

theorem moves_step (h : w.conn.WriteSound cap) (s : LoopStep κ) (hquiet : w.StepQuiet s)
    (hwrite : ∀ writevs, s = .write writevs → w.conn.mState ≠ .CLOSED) :
    w.conn.Moves (w.stepMods s) (w.step s).conn ∧ (w.step s).conn.WriteSound cap := by
  cases s with
  | read recvs ops =>
    have hreceived : w.conn.Moves [] (w.received recvs).conn := .of_same rfl rfl rfl
    have hsound : (w.received recvs).conn.WriteSound cap := h.of_eq rfl rfl
    rw [conn_read, stepMods]
    by_cases hends : (w.conn.withRecvs recvs).Ends
    · rw [if_pos hends, if_pos hends]
      exact ⟨hreceived.trans (.handleClose _), hsound.handleClose⟩
    · rw [if_neg hends, if_neg hends]
      obtain ⟨hmoves, hsound'⟩ := moves_acts ops hsound (hquiet hends)
      exact ⟨hreceived.trans hmoves, hsound'⟩
  | write writevs =>
    have hsame : w.conn.Moves [] (w.conn.withWritevs writevs) := .of_same rfl rfl rfl
    exact ⟨hsame.trans (.handleWrite (hwrite writevs rfl)),
      (h.answer writevs).1.sent (TcpConnection.handleWrite_cases _)⟩
  | task ops => exact moves_acts ops h hquiet
  | close => exact ⟨.handleClose _, h.handleClose⟩

end Watched

/-- A step of the loop, or the task that `removeInLoop` queues for a call of the close
callback. -/
inductive ClosingStep (κ : Type*) where
  | loop (s : LoopStep κ)
  | Destroy

/-- A connection and its loop's poller: is the channel in `channelMap`, how many of the
`Destroy` tasks have been run, and has an assertion failed? -/
structure Registered (κ : Type*) where
  watched : Watched κ
  present : Bool
  destroyed : Nat
  failed : Bool

namespace Registered

variable {κ : Type*} {cap : Nat} {x : Registered κ}

/-- `Destroy` and `Poller::Delete` assert that the channel is idle, and `Delete` and `Mod` that
it is in the map. -/
def step (x : Registered κ) : ClosingStep κ → Registered κ
  | .loop s =>
      { x with
        watched := x.watched.step s
        failed := x.failed || (x.watched.stepMods s ≠ [] && !x.present) }
  | .Destroy =>
      { watched := { x.watched with conn := { x.watched.conn with mState := .CLOSED } }
        present := false
        destroyed := x.destroyed + 1
        failed := x.failed || !x.watched.conn.mChannel.isIdle || !x.present }

def run (x : Registered κ) (steps : List (ClosingStep κ)) : Registered κ := steps.foldl step x

/-- After `Established`, with a connect callback that does `ops`. -/
def established (c : TcpConnection κ) (ops : List (UserOp κ)) : Registered κ :=
  ⟨Watched.established c ops, true, 0, false⟩

/-- The poller reports a channel that is in its map, and there is one `Destroy` for each call
of the close callback. -/
def Possible (x : Registered κ) : ClosingStep κ → Prop
  | .loop (.read _ _) | .loop (.write _) => x.present = true
  | .loop _ => True
  | .Destroy => x.destroyed < x.watched.conn.closes

instance (x : Registered κ) : (s : ClosingStep κ) → Decidable (x.Possible s)
  | .loop (.read _ _) | .loop (.write _) => inferInstanceAs (Decidable (_ = _))
  | .loop (.task _) | .loop .close => isTrue trivial
  | .Destroy => inferInstanceAs (Decidable (_ < _))

def StepQuiet (x : Registered κ) : ClosingStep κ → Prop
  | .loop s => x.watched.StepQuiet s
  | .Destroy => True

instance (x : Registered κ) : (s : ClosingStep κ) → Decidable (x.StepQuiet s)
  | .loop s => inferInstanceAs (Decidable (x.watched.StepQuiet s))
  | .Destroy => isTrue trivial

/-- The channel is in the poller until `Destroy`, of which there is one, and between the close
and `Destroy` it is switched off. -/
structure Safe (cap : Nat) (x : Registered κ) : Prop where
  sound : x.watched.conn.WriteSound cap
  opened : x.watched.conn.isOpen → x.present = true ∧ x.watched.conn.closes = x.destroyed
  closing : x.watched.conn.mState = .CLOSING →
    x.present = true ∧ x.watched.conn.mChannel.isIdle = true ∧ x.watched.conn.closes = x.destroyed + 1
  closed : x.watched.conn.mState = .CLOSED → x.present = false ∧ x.watched.conn.closes = x.destroyed
  unfailed : x.failed = false

theorem Safe.present_iff (h : x.Safe cap) : x.present = true ↔ x.watched.conn.mState ≠ .CLOSED := by
  cases hstate : x.watched.conn.mState with
  | CONNECTING => simp [(h.opened (Or.inl hstate)).1]
  | CONNECTED => simp [(h.opened (Or.inr hstate)).1]
  | CLOSING => simp [(h.closing hstate).1]
  | CLOSED => simp [(h.closed hstate).1]

theorem Safe.loop (h : x.Safe cap) (s : LoopStep κ) (hpossible : x.Possible (.loop s))
    (hquiet : x.watched.StepQuiet s) : (x.step (.loop s)).Safe cap := by
  have hwrite : ∀ writevs, s = .write writevs → x.watched.conn.mState ≠ .CLOSED := by
    intro writevs hs
    subst hs
    exact h.present_iff.mp hpossible
  obtain ⟨hmoves, hsound⟩ := Watched.moves_step h.sound s hquiet hwrite
  have hunfailed : (x.failed || (x.watched.stepMods s ≠ [] && !x.present)) = false := by
    by_cases hpresent : x.present = true
    · simp [h.unfailed, hpresent]
    · have hstate : x.watched.conn.mState = .CLOSED := by
        by_contra hne
        exact hpresent (h.present_iff.mpr hne)
      simp [h.unfailed, hmoves.mods hstate]
  by_cases hopen : x.watched.conn.isOpen
  · obtain ⟨hpresent, hcloses⟩ := h.opened hopen
    rcases hmoves.opened hopen with ⟨hopen', hcloses'⟩ | ⟨hstate', hidle', hcloses'⟩
    · refine ⟨hsound, fun _ => ⟨hpresent, hcloses'.trans hcloses⟩, fun hstate => ?_, fun hstate => ?_,
        hunfailed⟩
      · exact absurd hopen' (TcpConnection.not_isOpen_of_closing hstate)
      · exact absurd hopen' (TcpConnection.not_isOpen_of_closed hstate)
    · refine ⟨hsound, fun hopen' => ?_, fun _ => ⟨hpresent, hidle', ?_⟩, fun hstate => ?_, hunfailed⟩
      · exact absurd hopen' (TcpConnection.not_isOpen_of_closing hstate')
      · show (x.watched.step s).conn.closes = x.destroyed + 1
        rw [hcloses', hcloses]
      · exact absurd (hstate'.symm.trans hstate) (by simp)
  · obtain ⟨hstate', hcloses', hidle'⟩ := hmoves.closed hopen
    refine ⟨hsound, fun hopen' => ?_, fun hstate => ?_, fun hstate => ?_, hunfailed⟩
    · rw [TcpConnection.isOpen, show (x.step (.loop s)).watched.conn.mState = _ from hstate'] at hopen'
      exact absurd hopen' hopen
    · obtain ⟨hpresent, hidle, hcloses⟩ := h.closing (hstate'.symm.trans hstate)
      exact ⟨hpresent, hidle' hidle, hcloses'.trans hcloses⟩
    · obtain ⟨hpresent, hcloses⟩ := h.closed (hstate'.symm.trans hstate)
      exact ⟨hpresent, hcloses'.trans hcloses⟩

/-- The one `Destroy` finds the channel switched off, and in the poller. -/
theorem Safe.Destroy (h : x.Safe cap) (hpossible : x.Possible .Destroy) : (x.step .Destroy).Safe cap := by
  have hqueued : x.destroyed < x.watched.conn.closes := hpossible
  have hstate : x.watched.conn.mState = .CLOSING := by
    cases hstate : x.watched.conn.mState with
    | CLOSING => rfl
    | CONNECTING => exact absurd (h.opened (Or.inl hstate)).2 (by omega)
    | CONNECTED => exact absurd (h.opened (Or.inr hstate)).2 (by omega)
    | CLOSED => exact absurd (h.closed hstate).2 (by omega)
  obtain ⟨hpresent, hidle, hcloses⟩ := h.closing hstate
  refine ⟨h.sound.of_eq rfl rfl, fun hopen => ?_, fun hclosing => ?_, fun _ => ⟨rfl, hcloses⟩, ?_⟩
  · exact absurd hopen (TcpConnection.not_isOpen_of_closed rfl)
  · cases hclosing
  · simp [step, h.unfailed, hidle, hpresent]

theorem Safe.step (h : x.Safe cap) (s : ClosingStep κ) (hpossible : x.Possible s) (hquiet : x.StepQuiet s) :
    (x.step s).Safe cap := by
  cases s with
  | loop s => exact h.loop s hpossible hquiet
  | Destroy => exact h.Destroy hpossible

/-- What the connect callback leaves open, `Established` leaves connected. -/
theorem safe_established {c : TcpConnection κ} (hsound : c.WriteSound cap) (hstate : c.mState = .CONNECTING)
    (hcloses : c.closes = 0) {ops : List (UserOp κ)}
    (hopen : ((Watched.connecting c).acts ops).conn.isOpen) : (established c ops).Safe cap := by
  have hconnecting : (Watched.connecting c).conn.WriteSound cap := hsound.of_eq rfl rfl
  obtain ⟨hmoves, hsound'⟩ :=
    Watched.moves_acts ops hconnecting (Watched.actQuiet_of_open ops _ hopen)
  have hzero : ((Watched.connecting c).acts ops).conn.closes = 0 := by
    rcases hmoves.opened (Or.inl hstate) with ⟨_, hsame⟩ | ⟨hclosing, _⟩
    · exact hsame.trans hcloses
    · exact absurd hopen (TcpConnection.not_isOpen_of_closing hclosing)
  refine ⟨hsound'.of_eq rfl rfl, fun _ => ⟨rfl, hzero⟩, fun hclosing => ?_, fun hclosed => ?_, rfl⟩
  · cases hclosing
  · cases hclosed

/-- In every run after `Established` in which no `Send` on a closed connection leaves bytes
unsent, no assertion fails. -/
theorem unfailed_run (rbuf wbuf : Bytes) (hwbuf : wbuf.length < 2 ^ 31) (context : κ) (socket : Socket)
    (garbage : Channel) (alive : Bool) (ops : List (UserOp κ)) (steps : List (ClosingStep κ))
    (hconnect : ((Watched.connecting (.new rbuf wbuf context socket garbage alive)).acts ops).conn.isOpen)
    (hsteps : Along step (fun x s => x.Possible s ∧ x.StepQuiet s)
      (established (.new rbuf wbuf context socket garbage alive) ops) steps) :
    ((established (.new rbuf wbuf context socket garbage alive) ops).run steps).failed = false := by
  have hsound : (TcpConnection.new rbuf wbuf context socket garbage alive).WriteSound wbuf.length :=
    ⟨⟨FixedBuffer.fresh_ok hwbuf, rfl⟩, Nat.two_pow_pos 64⟩
  have hstart := safe_established hsound rfl rfl hconnect
  exact (hsteps.invariant (P := Safe wbuf.length) (fun _ s hx hs => hx.step s hs.1 hs.2) hstart).unfailed

/-- A message of which the kernel takes two bytes before the peer hangs up, and one that a
task sends after the close. -/
theorem unfailed_run_hangup :
    ((established Watched.sixteen []).run [.loop (.task [.append [1, 2, 3], .Send [.wrote 2, .eagain]]),
      .loop .close, .loop (.task [.Send [.wrote 1]]), .loop (.write []), .Destroy]).failed = false :=
  unfailed_run (List.replicate 16 0) (List.replicate 16 0) (by decide) () ⟨[], [], []⟩ ⟨0, 0⟩ true []
    [.loop (.task [.append [1, 2, 3], .Send [.wrote 2, .eagain]]), .loop .close,
      .loop (.task [.Send [.wrote 1]]), .loop (.write []), .Destroy]
    (by decide) (by decide +kernel)

/-- No assertion fails, in any run of a connection with the source's buffers. -/
def ClosingUnfailed : Prop :=
  ∀ (rbuf wbuf : Bytes) (socket : Socket) (garbage : Channel) (alive : Bool)
    (steps : List (ClosingStep Unit)),
    wbuf.length = FixedBuffer.kBufferSize →
    Along step Possible (established (.new rbuf wbuf () socket garbage alive) []) steps →
      ((established (.new rbuf wbuf () socket garbage alive) []).run steps).failed = false

/-- A task sends two bytes between the close and `Destroy`, and the kernel takes one. -/
theorem closingUnfailed_task : ¬ ClosingUnfailed := by
  intro hclaim
  have hunfailed := hclaim [] (List.replicate 1024 0) ⟨[], [], []⟩ ⟨0, 0⟩ true
    [.loop .close, .loop (.task [.append [1, 2], .Send [.wrote 1, .eagain]]), .Destroy]
    List.length_replicate (by decide +kernel)
  revert hunfailed
  decide +kernel

end Registered
end Knpnl.Net
