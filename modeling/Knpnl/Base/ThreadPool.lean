import Knpnl.Lib.Condition
import Knpnl.Lib.Reach

/-!
# `base/ThreadPool`: a bounded queue of tasks between producers and workers

`ι` indexes the threads that call `AddTask`. What a thread does between acquiring `mMutex`
and releasing it, or waiting, is one step: only `Stop` keeps the mutex across steps.
`accepted` and `dequeued` record the tasks pushed and the tasks popped, `held` and `ran` those
that each worker has popped, and has run to the end, with their places in `dequeued`.
-/
namespace Knpnl.Base

open Function (update)
open Lib

/-- A thread in `AddTask`: about to acquire the mutex, waiting on `isFull`, or woken and
about to acquire it again. -/
inductive Adding (τ : Type*) where
  | idle
  | lock (t : τ)
  | waiting (t : τ)
  | signalled (t : τ)

/-- A worker in `runInThread`: about to test `isRunning`, in `take`, in its task, or at its end. -/
inductive Working (τ : Type*) where
  | unborn
  | check
  | lock
  | waiting
  | signalled
  | running (t : τ)
  | exited

/-- What has been done with the pool. `Stop` joins the threads in turn. -/
inductive PoolLife where
  | created
  | started
  | joining (joined : Nat)
  | stopped
  deriving DecidableEq

structure ThreadPool (ι τ : Type*) (workers : Nat) where
  mTasks : List τ
  isRunning : Bool
  life : PoolLife
  adding : ι → Adding τ
  mThreads : Fin workers → Working τ
  accepted : List τ
  dequeued : List τ
  held : Fin workers → List (Nat × τ)
  ran : Fin workers → List (Nat × τ)

namespace Adding

variable {τ : Type*}

/-- `isFull` wakes a producer that waits. -/
@[simp] def wake : Adding τ → Option (Adding τ)
  | waiting t => some (signalled t)
  | _ => none

/-- The thread acquires the mutex as soon as it is free, with `t` to push. -/
@[simp] def Entering (t : τ) : Adding τ → Prop
  | lock t' | signalled t' => t' = t
  | _ => False

end Adding

namespace Working

variable {τ : Type*}

/-- `isEmpty` wakes a worker that waits. -/
@[simp] def wake : Working τ → Option (Working τ)
  | waiting => some signalled
  | _ => none

@[simp] def Entering : Working τ → Prop
  | lock | signalled => True
  | _ => False

end Working

namespace ThreadPool

variable {ι τ : Type*} {workers : Nat}

def new : ThreadPool ι τ workers where
  mTasks := []
  isRunning := false
  life := .created
  adding _ := .idle
  mThreads _ := .unborn
  accepted := []
  dequeued := []
  held _ := []
  ran _ := []

/-- No thread holds the mutex. -/
def Free (s : ThreadPool ι τ workers) : Prop := ∀ joined, s.life ≠ .joining joined

def push (s : ThreadPool ι τ workers) (t : τ) : ThreadPool ι τ workers :=
  { s with mTasks := s.mTasks ++ [t], accepted := s.accepted ++ [t] }

/-- Worker `w` pops the front `t` of the queue and leaves `rest`. -/
def pop (s : ThreadPool ι τ workers) (w : Fin workers) (t : τ) (rest : List τ) : ThreadPool ι τ workers :=
  { s with
    mTasks := rest
    dequeued := s.dequeued ++ [t]
    held := update s.held w (s.held w ++ [(s.dequeued.length, t)]) }

/-- The place in `dequeued` of what worker `w` popped last. -/
def lastPlace (s : ThreadPool ι τ workers) (w : Fin workers) : Nat := ((s.held w).getLast?.map Prod.fst).getD 0

/-- The call of the task `t` returns in worker `w`. -/
def taskReturns (s : ThreadPool ι τ workers) (w : Fin workers) (t : τ) : ThreadPool ι τ workers :=
  { s with
    mThreads := update s.mThreads w .check
    ran := update s.ran w (s.ran w ++ [(s.lastPlace w, t)]) }

/-- `isRunning` is cleared, and all that wait are woken. -/
def shutdown (s : ThreadPool ι τ workers) : ThreadPool ι τ workers :=
  { s with
    isRunning := false
    life := .joining 0
    adding := broadcast Adding.wake s.adding
    mThreads := broadcast Working.wake s.mThreads }

/-- The steps, by the thread that takes them and the function it is in. -/
inductive Act (ι τ : Type*) (workers : Nat) where
  | Start
  | call (i : ι) (t : τ)
  | AddTask (i : ι)
  | wakeProducer (i : ι)
  | runInThread (w : Fin workers)
  | take (w : Fin workers)
  | taskEnds (w : Fin workers)
  | wakeWorker (w : Fin workers)
  | Stop
  | join
  | stopReturns

/-- One step of a pool whose queue is to hold `qSize` tasks. A wait may end without a signal. -/
inductive Step [DecidableEq ι] (qSize : Nat) (s : ThreadPool ι τ workers) :
    Act ι τ workers → ThreadPool ι τ workers → Prop where
  | Start (created : s.life = .created) :
      Step qSize s .Start { s with isRunning := true, life := .started, mThreads := fun _ => .check }
  | call (i : ι) (t : τ) (at_ : s.adding i = .idle) :
      Step qSize s (.call i t) { s with adding := update s.adding i (.lock t) }
  /-- `while(mTasks.size()>=qSize) isFull.wait();` -/
  | full (i : ι) (t : τ) (at_ : (s.adding i).Entering t) (free : s.Free)
      (size : qSize ≤ s.mTasks.length) :
      Step qSize s (.AddTask i) { s with adding := update s.adding i (.waiting t) }
  | push (i : ι) (t : τ) (at_ : (s.adding i).Entering t) (free : s.Free)
      (size : s.mTasks.length < qSize) (mThreads : Fin workers → Working τ)
      (post : SignalIf (s.mTasks.length + 1 = 1) Working.wake s.mThreads mThreads) :
      Step qSize s (.AddTask i) { s.push t with adding := update s.adding i .idle, mThreads }
  | wakeProducer (i : ι) (t : τ) (at_ : s.adding i = .waiting t) :
      Step qSize s (.wakeProducer i) { s with adding := update s.adding i (.signalled t) }
  /-- `while(isRunning)` -/
  | loop (w : Fin workers) (at_ : s.mThreads w = .check) (flag : s.isRunning = true) :
      Step qSize s (.runInThread w) { s with mThreads := update s.mThreads w .lock }
  | exit (w : Fin workers) (at_ : s.mThreads w = .check) (flag : s.isRunning = false) :
      Step qSize s (.runInThread w) { s with mThreads := update s.mThreads w .exited }
  /-- `while(mTasks.size()<=0) isEmpty.wait();` -/
  | empty (w : Fin workers) (at_ : (s.mThreads w).Entering) (free : s.Free) (size : s.mTasks = []) :
      Step qSize s (.take w) { s with mThreads := update s.mThreads w .waiting }
  | pop (w : Fin workers) (t : τ) (rest : List τ) (at_ : (s.mThreads w).Entering) (free : s.Free)
      (size : s.mTasks = t :: rest) (flag : s.isRunning = true) (adding : ι → Adding τ)
      (post : SignalIf (rest.length + 1 = qSize) Adding.wake s.adding adding) :
      Step qSize s (.take w)
        { s.pop w t rest with mThreads := update s.mThreads w (.running t), adding }
  /-- `t= nullptr` -/
  | null (w : Fin workers) (at_ : (s.mThreads w).Entering) (free : s.Free) (size : s.mTasks ≠ [])
      (flag : s.isRunning = false) (adding : ι → Adding τ)
      (post : SignalIf (s.mTasks.length + 1 = qSize) Adding.wake s.adding adding) :
      Step qSize s (.take w) { s with mThreads := update s.mThreads w .check, adding }
  | taskEnds (w : Fin workers) (t : τ) (at_ : s.mThreads w = .running t) :
      Step qSize s (.taskEnds w) (s.taskReturns w t)
  | wakeWorker (w : Fin workers) (at_ : s.mThreads w = .waiting) :
      Step qSize s (.wakeWorker w) { s with mThreads := update s.mThreads w .signalled }
  | Stop (started : s.life = .started) : Step qSize s .Stop s.shutdown
  | join (w : Fin workers) (at_ : s.life = .joining w) (ended : s.mThreads w = .exited) :
      Step qSize s .join { s with life := .joining (w + 1) }
  | stopReturns (at_ : s.life = .joining workers) : Step qSize s .stopReturns { s with life := .stopped }

/-- The states that a pool gets into. -/
def Reachable [DecidableEq ι] (qSize : Nat) (s : ThreadPool ι τ workers) : Prop :=
  Lib.Reachable (· = new) (fun s s' => ∃ a, Step qSize s a s') s

end ThreadPool
end Knpnl.Base
