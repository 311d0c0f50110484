import Knpnl.Http.Connections
import Knpnl.Net.Dispatch

/-!
# The stages of a connection

A close goes from the I/O loop to the accepting loop and back. A connection is in one of five
stages, and each says which maps have its entry and which of its tasks are in flight. Events
and tasks take it from one stage to the next.
-/
namespace Knpnl.Http

open Event
open Net (TcpConnection)
open Net.TcpConnection (Moves)

namespace HttpServer

variable {f : HttpServeFunc} {rEvent : UInt32} {c : TcpConnection HttpContext}

/-- `onMessageCallback` does nothing to the life cycle of a connection itself: it may `Send`. -/
theorem onMessageCallback_cases (f : HttpServeFunc) (c : TcpConnection HttpContext) :
    answered f c = none ∧ (onMessageCallback f c).conn.mState = c.mState ∧
        (onMessageCallback f c).conn.mChannel = c.mChannel ∧
        (onMessageCallback f c).conn.closes = c.closes ∨
      ∃ c', answered f c = some c' ∧ (onMessageCallback f c).conn = c'.Send ∧ c'.mState = c.mState ∧
        c'.mChannel = c.mChannel ∧ c'.closes = c.closes := by
  unfold onMessageCallback answered
  dsimp only
  cases hret : (c.mContext.Request.processRead c.mReadBuffer).ret with
  | none => exact Or.inl ⟨rfl, rfl, rfl, rfl⟩
  | some code =>
    cases code with
    | NO_REQUEST => exact Or.inl ⟨rfl, rfl, rfl, rfl⟩
    | BAD_REQUEST => exact Or.inr ⟨_, rfl, rfl, rfl, rfl, rfl⟩
    | GET_REQUEST =>
      refine Or.inr ⟨_, rfl, rfl, ?_⟩
      dsimp only
      split <;> exact ⟨rfl, rfl, rfl⟩
    | _ => exact Or.inr ⟨_, rfl, rfl, rfl, rfl, rfl⟩

theorem moves_onMessageCallback (hopen : c.isOpen) :
    Moves c (messageMods f c) (onMessageCallback f c).conn := by
  unfold messageMods
  rcases onMessageCallback_cases f c with ⟨hnone, hstate, hchannel, hcloses⟩ |
    ⟨c', hsome, hconn, hstate, hchannel, hcloses⟩
  · rw [hnone]
    exact .of_same hstate hchannel hcloses
  · rw [hsome, hconn]
    have hopen' : c'.isOpen := by rwa [TcpConnection.isOpen, hstate]
    exact (Moves.of_same hstate hchannel hcloses).trans (.Send_of_open hopen')

theorem mChannel_onMessageCallback (f : HttpServeFunc) (c : TcpConnection HttpContext) :
    (onMessageCallback f c).conn.mChannel = (messageMods f c).foldl Channel.ModChannel c.mChannel := by
  unfold messageMods
  rcases onMessageCallback_cases f c with ⟨hnone, _, hchannel, _⟩ | ⟨c', hsome, hconn, _, hchannel, _⟩
  · rw [hnone]
    exact hchannel
  · rw [hsome, hconn, TcpConnection.mChannel_Send, hchannel]

theorem moves_handleRead (hopen : c.isOpen) :
    Moves c (readMods f c) (c.handleRead fun c => (onMessageCallback f c).conn) := by
  have hreceived : Moves c [] c.recvMessage.2 := .of_same rfl rfl rfl
  unfold TcpConnection.handleRead readMods
  dsimp only
  split
  · exact hreceived.trans (.handleClose _)
  · have hopen' : c.recvMessage.2.isOpen := hopen
    exact hreceived.trans (moves_onMessageCallback hopen')

theorem mChannel_handleRead (f : HttpServeFunc) (c : TcpConnection HttpContext) :
    (c.handleRead fun c => (onMessageCallback f c).conn).mChannel =
      (readMods f c).foldl Channel.ModChannel c.mChannel := by
  unfold TcpConnection.handleRead readMods
  dsimp only
  split
  · exact TcpConnection.mChannel_handleClose _
  · exact mChannel_onMessageCallback f _

theorem moves_HandleEvent (hopen : c.isOpen) : Moves c (eventMods f rEvent c) (HandleEvent f rEvent c) := by
  have hstate : c.mState ≠ .CLOSED := fun hclosed => TcpConnection.not_isOpen_of_closed hclosed hopen
  unfold HandleEvent Callbacks.HandleEventWithGuard eventMods
  split
  · exact .handleClose c
  · split
    · exact .of_same rfl rfl rfl
    · split
      · exact moves_handleRead hopen
      · split
        · exact .handleWrite hstate
        · exact .of_same rfl rfl rfl

theorem mChannel_HandleEvent (f : HttpServeFunc) (rEvent : UInt32) (c : TcpConnection HttpContext) :
    (HandleEvent f rEvent c).mChannel = (eventMods f rEvent c).foldl Channel.ModChannel c.mChannel := by
  unfold HandleEvent Callbacks.HandleEventWithGuard eventMods
  split
  · exact TcpConnection.mChannel_handleClose c
  · split
    · rfl
    · split
      · exact mChannel_handleRead f c
      · split
        · exact TcpConnection.mChannel_handleWrite c
        · rfl

/-- Errors and hangups. -/
def Failure (rEvent : UInt32) : Prop := rEvent &&& (EPOLLERR ||| EPOLLHUP) = rEvent

theorem not_has_of_failure (h : Failure rEvent) (flags : UInt32)
    (hflags : (EPOLLERR ||| EPOLLHUP) &&& flags = 0) : has rEvent flags = false := by
  simp only [has, decide_eq_false_iff_not, not_not]
  calc rEvent &&& flags
      = rEvent &&& (EPOLLERR ||| EPOLLHUP) &&& flags := by rw [h]
    _ = rEvent &&& ((EPOLLERR ||| EPOLLHUP) &&& flags) := UInt32.and_assoc ..
    _ = rEvent &&& 0 := by rw [hflags]
    _ = 0 := UInt32.and_zero

/-- An error or a hangup leaves a closed connection as it is. -/
theorem HandleEvent_closed (hfailure : Failure rEvent) (hclosed : ¬ c.isOpen) :
    HandleEvent f rEvent c = c := by
  have hread := not_has_of_failure hfailure (EPOLLRDHUP ||| EPOLLPRI ||| EPOLLIN) (by decide)
  have hwrite := not_has_of_failure hfailure EPOLLOUT (by decide)
  unfold HandleEvent Callbacks.HandleEventWithGuard
  split
  · exact if_neg hclosed
  · split
    · rfl
    · rw [hread, hwrite]
      rfl

end HttpServer

/-- The poller was last asked for the channel's mask. -/
def Synced (ch : Channel) : Prop := ch.registered = ch.mEvent

theorem Synced.foldl {ch : Channel} (h : Synced ch) (mods : List UInt32) :
    Synced (mods.foldl Channel.ModChannel ch) := by
  induction mods generalizing ch with
  | nil => exact h
  | cons op mods ih =>
    have hmod : Synced (ch.ModChannel op) := rfl
    exact ih hmod

/-- What the server knows of a connection: its entry in `connMap`, its channel in the poller
of its loop, and how many of its tasks are queued or about to be. -/
structure View where
  tcp : TcpConnection HttpContext
  entry : Option Nat
  channel : Option Entry
  tasks : TaskFunc → Nat

namespace View

/-- The tasks of the life cycle that are in flight. -/
structure InFlight (v : View) (established removeInLoop destroy : Nat) : Prop where
  established : v.tasks .Established = established
  removeInLoop : v.tasks .removeInLoop = removeInLoop
  destroy : v.tasks .Destroy = destroy

/-- Some tasks have been run, and others have been queued. -/
theorem InFlight.change {v v' : View} {e r d : Nat} {ran queued : TaskFunc → Nat} (h : v.InFlight e r d)
    (e' r' d' : Nat) (htasks : ∀ func, v'.tasks func + ran func = v.tasks func + queued func)
    (he : e' + ran .Established = e + queued .Established)
    (hr : r' + ran .removeInLoop = r + queued .removeInLoop)
    (hd : d' + ran .Destroy = d + queued .Destroy) : v'.InFlight e' r' d' := by
  have hestablished := htasks .Established
  have hremove := htasks .removeInLoop
  have hdestroy := htasks .Destroy
  rw [h.established] at hestablished
  rw [h.removeInLoop] at hremove
  rw [h.destroy] at hdestroy
  exact ⟨by omega, by omega, by omega⟩

/-- The connection has been closed: its channel is switched off, and its close callback has
been called once. -/
structure Closing (tcp : TcpConnection HttpContext) : Prop where
  state : tcp.mState = .CLOSING
  idle : tcp.mChannel.isIdle = true
  synced : Synced tcp.mChannel
  closes : tcp.closes = 1

/-- From `newConnection` to `Established`, to `handleClose`, to `removeInLoop` and to
`Destroy`. -/
inductive Stage (c : Nat) (v : View) : Prop where
  | connecting (isOpen : v.tcp.isOpen) (closes : v.tcp.closes = 0) (entry : v.entry = some c)
      (channel : v.channel = none) (tasks : v.InFlight 1 0 0)
      (early : v.tasks .WriteCompleteCallback = 0 ∧ v.tasks .handleClose = 0)
  | connected (isOpen : v.tcp.isOpen) (synced : Synced v.tcp.mChannel) (closes : v.tcp.closes = 0)
      (entry : v.entry = some c) (channel : v.channel = some (.conn c)) (tasks : v.InFlight 0 0 0)
  | closing (closing : Closing v.tcp) (entry : v.entry = some c) (channel : v.channel = some (.conn c))
      (tasks : v.InFlight 0 1 0)
  | removing (closing : Closing v.tcp) (entry : v.entry = none) (channel : v.channel = some (.conn c))
      (tasks : v.InFlight 0 0 1)
  | closed (state : v.tcp.mState = .CLOSED) (closes : v.tcp.closes = 1) (entry : v.entry = none)
      (channel : v.channel = none) (tasks : v.InFlight 0 0 0)

variable {c : Nat} {v : View}

theorem Stage.entry_cases (h : v.Stage c) : v.entry = some c ∨ v.entry = none := by
  cases h with
  | connecting _ _ entry | connected _ _ _ entry | closing _ entry => exact Or.inl entry
  | removing _ entry | closed _ _ entry => exact Or.inr entry

theorem Stage.channel_cases (h : v.Stage c) : v.channel = some (.conn c) ∨ v.channel = none := by
  cases h with
  | connected _ _ _ _ channel | closing _ _ channel | removing _ _ channel => exact Or.inl channel
  | connecting _ _ _ channel | closed _ _ _ channel => exact Or.inr channel

theorem Stage.closes_le (h : v.Stage c) : v.tcp.closes ≤ 1 := by
  cases h with
  | connecting _ closes | connected _ _ closes => exact closes ▸ Nat.zero_le 1
  | closing closing | removing closing => exact closing.closes.le
  | closed _ closes => exact closes.le

theorem Stage.entry_of_open (h : v.Stage c) (hopen : v.tcp.isOpen) : v.entry = some c := by
  cases h with
  | connecting _ _ entry | connected _ _ _ entry | closing _ entry => exact entry
  | removing closing => exact absurd hopen (TcpConnection.not_isOpen_of_closing closing.state)
  | closed state => exact absurd hopen (TcpConnection.not_isOpen_of_closed state)

theorem Stage.of_established (h : v.Stage c) (hpos : 0 < v.tasks .Established) :
    v.tcp.isOpen ∧ v.tcp.closes = 0 ∧ v.entry = some c ∧ v.channel = none ∧ v.InFlight 1 0 0 ∧
      v.tasks .WriteCompleteCallback = 0 ∧ v.tasks .handleClose = 0 := by
  cases h with
  | connecting isOpen closes entry channel tasks early =>
    exact ⟨isOpen, closes, entry, channel, tasks, early⟩
  | connected _ _ _ _ _ tasks | closing _ _ _ tasks | removing _ _ _ tasks | closed _ _ _ _ tasks =>
    exact absurd tasks.established hpos.ne'

theorem Stage.of_removeInLoop (h : v.Stage c) (hpos : 0 < v.tasks .removeInLoop) :
    Closing v.tcp ∧ v.entry = some c ∧ v.channel = some (.conn c) ∧ v.InFlight 0 1 0 := by
  cases h with
  | closing closing entry channel tasks => exact ⟨closing, entry, channel, tasks⟩
  | connecting _ _ _ _ tasks | connected _ _ _ _ _ tasks | removing _ _ _ tasks | closed _ _ _ _ tasks =>
    exact absurd tasks.removeInLoop hpos.ne'

theorem Stage.of_destroy (h : v.Stage c) (hpos : 0 < v.tasks .Destroy) :
    Closing v.tcp ∧ v.entry = none ∧ v.channel = some (.conn c) ∧ v.InFlight 0 0 1 := by
  cases h with
  | removing closing entry channel tasks => exact ⟨closing, entry, channel, tasks⟩
  | connecting _ _ _ _ tasks | connected _ _ _ _ _ tasks | closing _ _ _ tasks | closed _ _ _ _ tasks =>
    exact absurd tasks.destroy hpos.ne'

/-- Tasks that a connection queues itself are in flight only after `Established`. -/
theorem Stage.established_of_late (h : v.Stage c)
    (hpos : 0 < v.tasks .WriteCompleteCallback ∨ 0 < v.tasks .handleClose) : v.tasks .Established = 0 := by
  cases h with
  | connecting _ _ _ _ _ early => omega
  | connected _ _ _ _ _ tasks | closing _ _ _ tasks | removing _ _ _ tasks | closed _ _ _ _ tasks =>
    exact tasks.established

theorem Stage.established_of_channel (h : v.Stage c) (hchannel : v.channel = some (.conn c)) :
    v.tasks .Established = 0 := by
  cases h with
  | connecting _ _ _ channel => cases hchannel.symm.trans channel
  | connected _ _ _ _ _ tasks | closing _ _ _ tasks | removing _ _ _ tasks | closed _ _ _ _ tasks =>
    exact tasks.established

theorem Stage.of_open (h : v.Stage c) (hnone : v.tasks .Established = 0) (hopen : v.tcp.isOpen) :
    Synced v.tcp.mChannel ∧ v.tcp.closes = 0 ∧ v.entry = some c ∧ v.channel = some (.conn c) ∧
      v.InFlight 0 0 0 := by
  cases h with
  | connecting _ _ _ _ tasks => exact absurd (tasks.established.symm.trans hnone) (by decide)
  | connected _ synced closes entry channel tasks => exact ⟨synced, closes, entry, channel, tasks⟩
  | closing closing | removing closing =>
    exact absurd hopen (TcpConnection.not_isOpen_of_closing closing.state)
  | closed state => exact absurd hopen (TcpConnection.not_isOpen_of_closed state)

/-- Once established, a connection stays in its stage if nothing changes that the stage speaks
of. -/
theorem Stage.same (h : v.Stage c) (hnone : v.tasks .Established = 0) {v' : View}
    (hstate : v'.tcp.mState = v.tcp.mState) (hmask : v'.tcp.mChannel = v.tcp.mChannel)
    (hcloses : v'.tcp.closes = v.tcp.closes) (hentry : v'.entry = v.entry) (hchannel : v'.channel = v.channel)
    (htasks : ∀ e r d, v.InFlight e r d → v'.InFlight e r d) : v'.Stage c := by
  have hclosing : Closing v.tcp → Closing v'.tcp := fun closing =>
    ⟨hstate.trans closing.state, hmask ▸ closing.idle, hmask ▸ closing.synced, hcloses.trans closing.closes⟩
  cases h with
  | connecting _ _ _ _ tasks => exact absurd (tasks.established.symm.trans hnone) (by decide)
  | connected isOpen synced closes entry channel tasks =>
    have hopen : v'.tcp.isOpen := by rwa [TcpConnection.isOpen, hstate]
    exact .connected hopen (hmask ▸ synced) (hcloses.trans closes) (hentry.trans entry)
      (hchannel.trans channel) (htasks _ _ _ tasks)
  | closing closing entry channel tasks =>
    exact .closing (hclosing closing) (hentry.trans entry) (hchannel.trans channel) (htasks _ _ _ tasks)
  | removing closing entry channel tasks =>
    exact .removing (hclosing closing) (hentry.trans entry) (hchannel.trans channel) (htasks _ _ _ tasks)
  | closed state closes entry channel tasks =>
    exact .closed (hstate.trans state) (hcloses.trans closes) (hentry.trans entry) (hchannel.trans channel)
      (htasks _ _ _ tasks)

/-- The stage of an open connection after a handler that moved it. -/
theorem Stage.moved (h : v.Stage c) (hnone : v.tasks .Established = 0) (hopen : v.tcp.isOpen) {v' : View}
    {mods : List UInt32} (hmoves : Moves v.tcp mods v'.tcp)
    (hmods : v'.tcp.mChannel = mods.foldl Channel.ModChannel v.tcp.mChannel) (hentry : v'.entry = v.entry)
    (hchannel : v'.channel = v.channel)
    (htasks : v.InFlight 0 0 0 → v'.InFlight 0 (v'.tcp.closes - v.tcp.closes) 0) : v'.Stage c := by
  obtain ⟨synced, closes, entry, channel, tasks⟩ := h.of_open hnone hopen
  have hflight := htasks tasks
  have hsynced : Synced v'.tcp.mChannel := by
    rw [hmods]
    exact synced.foldl mods
  rw [closes, Nat.sub_zero] at hflight
  rcases hmoves.opened hopen with ⟨hopen', hsame⟩ | ⟨hstate, hidle, hclosed⟩
  · rw [closes] at hsame
    rw [hsame] at hflight
    exact .connected hopen' hsynced hsame (hentry.trans entry) (hchannel.trans channel) hflight
  · rw [closes] at hclosed
    rw [hclosed] at hflight
    exact .closing ⟨hstate, hidle, hsynced, hclosed⟩ (hentry.trans entry) (hchannel.trans channel) hflight

end View

end Knpnl.Http
