import Mathlib.Logic.Function.Basic
import Knpnl.Lib.Reach

/-!
# `event/EventLoop`: the loop, its producers and its wakeups

The threads that call `QueueInLoop` or `Quit` and the thread in `Loop` take atomic steps
in any order: a mutex section, a read or write of a flag, a read or write of the eventfd,
the return of `epoll_wait`. `mWakeupFd` is edge-triggered: a write puts it on the ready
list, and `epoll_wait` takes it off when it reports it.
-/
namespace Knpnl.Event

/-- A thread that calls into the loop; callbacks and tasks call from the loop's own. -/
inductive Thread (ι : Type*) where
  | loop
  | producer (i : ι)
  deriving DecidableEq

/-- How far a call of `QueueInLoop` or `Quit` is: after the push, or the write of `mQuit`,
both read `isWakeup`, and call `wakeup` if it is false. -/
inductive Call where
  | none
  | notify
  | wakeup
  deriving DecidableEq

/-- A channel that `poll` reports: that of `mWakeupFd`, or one with a callback of a user. -/
inductive Active where
  | wakeup
  | user
  deriving DecidableEq

/-- Where the loop's thread is. -/
inductive LoopAt (τ : Type*) where
  | start
  | check
  | poll
  | polled (activeChannel : List Active)
  | events (activeChannel : List Active)
  | callback (activeChannel : List Active)
  | doTask
  | tasks (tasks : List τ)
  | task (tasks : List τ)
  | stopped

/-- `ready` tells whether `mWakeupFd` is on the ready list. `pushed` and `ran` are the
tasks that were pushed and begun so far. -/
structure EventLoop (ι τ : Type*) where
  mTasks : List τ
  isWakeup : Bool
  mQuit : Bool
  mWakeupFd : Nat
  ready : Bool
  loop : LoopAt τ
  calls : Thread ι → Call
  pushed : List τ
  ran : List τ

/-- The counter of an eventfd stays below `2 ^ 64 - 1`. -/
def eventfdMax : Nat := 0xfffffffffffffffe

namespace LoopAt

variable {τ : Type*}

/-- A callback or a task is running, or `Loop` has not been called. -/
@[simp] def InCallback : LoopAt τ → Prop
  | start | callback _ | task _ => True
  | _ => False

end LoopAt

namespace EventLoop

variable {ι τ : Type*}

def new : EventLoop ι τ where
  mTasks := []
  isWakeup := false
  mQuit := false
  mWakeupFd := 0
  ready := false
  loop := .start
  calls _ := .none
  pushed := []
  ran := []

def setCall [DecidableEq ι] (s : EventLoop ι τ) (t : Thread ι) (c : Call) : EventLoop ι τ :=
  { s with calls := Function.update s.calls t c }

def push_back (s : EventLoop ι τ) (task : τ) : EventLoop ι τ :=
  { s with mTasks := s.mTasks ++ [task], pushed := s.pushed ++ [task] }

/-- A write that would exceed the maximum fails. -/
def wakeup (s : EventLoop ι τ) : EventLoop ι τ :=
  if s.mWakeupFd < eventfdMax then { s with mWakeupFd := s.mWakeupFd + 1, ready := true } else s

/-- A read takes the whole counter. -/
def wakeupRead (s : EventLoop ι τ) : EventLoop ι τ := { s with mWakeupFd := 0 }

/-- What `epoll_wait` can report: `mWakeupFd` only if it is ready and not read. -/
def CanReport (s : EventLoop ι τ) (activeChannel : List Active) : Prop :=
  .wakeup ∈ activeChannel → s.ready = true ∧ 0 < s.mWakeupFd

def report (s : EventLoop ι τ) (activeChannel : List Active) : EventLoop ι τ :=
  { s with
    ready := s.ready && !activeChannel.contains .wakeup
    loop := .polled activeChannel }

/-- `tasks.swap(mTasks)` and the flag, in one mutex section. -/
def swap (s : EventLoop ι τ) : EventLoop ι τ :=
  { s with loop := .tasks s.mTasks, mTasks := [], isWakeup := false }

/-- A thread is free to call `QueueInLoop` or `Quit`. -/
def MayCall (s : EventLoop ι τ) (t : Thread ι) : Prop :=
  s.calls t = .none ∧ (t = .loop → s.loop.InCallback)

/-- One atomic step. -/
inductive Step [DecidableEq ι] (s : EventLoop ι τ) : EventLoop ι τ → Prop where
  /-- `QueueInLoop` pushes its task. -/
  | push (t : Thread ι) (task : τ) (may : s.MayCall t) : Step s ((s.push_back task).setCall t .notify)
  /-- `Quit` sets its flag. -/
  | quit (t : Thread ι) (may : s.MayCall t) : Step s (({ s with mQuit := true }).setCall t .notify)
  | skip (t : Thread ι) (at_ : s.calls t = .notify) (flag : s.isWakeup = true) : Step s (s.setCall t .none)
  | notify (t : Thread ι) (at_ : s.calls t = .notify) (flag : s.isWakeup = false) :
      Step s (s.setCall t .wakeup)
  | wakeup (t : Thread ι) (at_ : s.calls t = .wakeup) : Step s (s.wakeup.setCall t .none)
  /-- `Loop` is called. -/
  | begin (at_ : s.loop = .start) (idle : s.calls .loop = .none) : Step s { s with loop := .check }
  | again (at_ : s.loop = .check) (flag : s.mQuit = false) : Step s { s with loop := .poll }
  | stop (at_ : s.loop = .check) (flag : s.mQuit = true) : Step s { s with loop := .stopped }
  | poll (activeChannel : List Active) (at_ : s.loop = .poll) (can : s.CanReport activeChannel) :
      Step s (s.report activeChannel)
  | awake (activeChannel : List Active) (at_ : s.loop = .polled activeChannel) :
      Step s { s with loop := .events activeChannel, isWakeup := true }
  | wakeupRead (rest : List Active) (at_ : s.loop = .events (.wakeup :: rest)) :
      Step s { s.wakeupRead with loop := .events rest }
  | callback (rest : List Active) (at_ : s.loop = .events (.user :: rest)) :
      Step s { s with loop := .callback rest }
  | callbackReturn (rest : List Active) (at_ : s.loop = .callback rest) (idle : s.calls .loop = .none) :
      Step s { s with loop := .events rest }
  | handled (at_ : s.loop = .events []) : Step s { s with loop := .doTask }
  | swap (at_ : s.loop = .doTask) : Step s s.swap
  | task (task : τ) (rest : List τ) (at_ : s.loop = .tasks (task :: rest)) :
      Step s { s with loop := .task rest, ran := s.ran ++ [task] }
  | taskReturn (rest : List τ) (at_ : s.loop = .task rest) (idle : s.calls .loop = .none) :
      Step s { s with loop := .tasks rest }
  | ranAll (at_ : s.loop = .tasks []) : Step s { s with loop := .check }

/-- The states that an event loop gets into. -/
def Reachable [DecidableEq ι] (s : EventLoop ι τ) : Prop := Lib.Reachable (· = new) Step s

end EventLoop
end Knpnl.Event
