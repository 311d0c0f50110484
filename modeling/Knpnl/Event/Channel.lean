import Mathlib.Data.List.Basic

/-!
# `event/Channel`: event masks and dispatch

Masks are the `uint32_t` bit sets of `sys/epoll.h`. A channel keeps the mask it asks
for and the mask that `epoll_ctl` was last given. Dispatch is one if/else-if chain:
it reports which of the installed callbacks it called.
-/
namespace Knpnl.Event

def EPOLLIN : UInt32 := 0x001
def EPOLLPRI : UInt32 := 0x002
def EPOLLOUT : UInt32 := 0x004
def EPOLLERR : UInt32 := 0x008
def EPOLLHUP : UInt32 := 0x010
def EPOLLRDHUP : UInt32 := 0x2000
def EPOLLET : UInt32 := 0x80000000

namespace Channel

def kNoneEvent : UInt32 := 0
def kReadEvent : UInt32 := EPOLLIN ||| EPOLLPRI
def kWriteEvent : UInt32 := EPOLLOUT
def kEPollET : UInt32 := EPOLLET

end Channel

/-- `mEvent` has no initial value. The reported events, which `poll` stores in the channel, are passed
to `HandleEventWithGuard`. -/
structure Channel where
  mEvent : UInt32
  registered : UInt32
  deriving DecidableEq

namespace Channel

/-- `Poller::Add` registers no events. -/
def add (ch : Channel) : Channel := { ch with registered := kNoneEvent }

/-- `EventLoop::ModChannel` and `Poller::Mod`. -/
def ModChannel (ch : Channel) (op : UInt32) : Channel := { ch with mEvent := op, registered := op }

def EnableRead (ch : Channel) : Channel := ch.ModChannel (kReadEvent ||| kEPollET)

def EnableWrite (ch : Channel) : Channel := ch.ModChannel (kWriteEvent ||| kEPollET)

def DisableWrite (ch : Channel) : Channel := ch.ModChannel (ch.mEvent &&& ~~~kWriteEvent)

def DisableAll (ch : Channel) : Channel := ch.ModChannel kNoneEvent

def isIdle (ch : Channel) : Bool := ch.mEvent = kNoneEvent

end Channel

/-- `events & flags` as a condition. -/
def has (events flags : UInt32) : Bool := events &&& flags ≠ 0

/-- The four callbacks that a channel can have. -/
inductive Callback where
  | read | write | error | close
  deriving DecidableEq

/-- The callbacks installed on a channel, as functions on the state they act on. -/
structure Callbacks (σ : Type*) where
  readCallback : Option (σ → σ) := none
  writeCallback : Option (σ → σ) := none
  errorCallback : Option (σ → σ) := none
  closeCallback : Option (σ → σ) := none

namespace Callbacks

variable {σ : Type*}

/-- A callback is called if it is installed. -/
def call (name : Callback) (cb : Option (σ → σ)) (s : σ) : σ × List Callback :=
  match cb with
  | some f => (f s, [name])
  | none => (s, [])

def HandleEventWithGuard (cbs : Callbacks σ) (rEvent : UInt32) (s : σ) : σ × List Callback :=
  if has rEvent EPOLLHUP ∧ ¬ has rEvent EPOLLIN then call .close cbs.closeCallback s
  else if has rEvent EPOLLERR then call .error cbs.errorCallback s
  else if has rEvent (EPOLLRDHUP ||| EPOLLPRI ||| EPOLLIN) then call .read cbs.readCallback s
  else if has rEvent EPOLLOUT then call .write cbs.writeCallback s
  else (s, [])

end Callbacks
end Knpnl.Event
