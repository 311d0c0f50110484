import Knpnl.Event.TimerSteps

/-!
# `TimerQueue::ResetTimer` from any thread

In the loop's thread the timer is reset at once. Elsewhere the loop is given a task, for which
`std::bind` copies the arguments, among them the flag that is to report the result.
-/
namespace Knpnl.Event

open Lib

variable {P : Type*} [LinearOrder P]

/-- A call of `resetTimer` that was bound to its arguments. -/
structure ResetTask where
  timerId : Timer_t
  ts : Timestamp
  isReset : Bool
  deriving DecidableEq

/-- The flag that is written is the task's own. -/
def ResetTask.call (task : ResetTask) (q : TimerQueue P) (r : Reads P) : TimerQueue P × ResetTask :=
  let result := q.resetTimer r task.timerId task.ts
  (result.1, { task with isReset := result.2 })

/-- A queue, the tasks of its loop, and the variable that a caller of `ResetTimer` passes by
reference. -/
structure Resetting (P : Type*) [LinearOrder P] where
  queue : TimerQueue P
  mTasks : List ResetTask
  isReset : Bool

namespace Resetting

def QueueInLoop (s : Resetting P) (t : ResetTask) : Resetting P := { s with mTasks := s.mTasks ++ [t] }

def RunInLoop (s : Resetting P) (r : Reads P) (isInLoopThread : Bool) (t : ResetTask) : Resetting P :=
  if isInLoopThread then { s with queue := (t.call s.queue r).1 } else s.QueueInLoop t

def ResetTimer (s : Resetting P) (r : Reads P) (isInLoopThread : Bool) (timerId : Timer_t) (ts : Timestamp) :
    Resetting P :=
  if isInLoopThread then
    let result := s.queue.resetTimer r timerId ts
    { s with queue := result.1, isReset := result.2 }
  else s.RunInLoop r isInLoopThread ⟨timerId, ts, s.isReset⟩

def doTask (s : Resetting P) (r : Reads P) : Resetting P :=
  { s with queue := s.mTasks.foldl (fun q t => (t.call q r).1) s.queue, mTasks := [] }

/-- After a call in the loop's thread. -/
def called (q : TimerQueue P) (r : Reads P) (id : Timer_t) (ts : Timestamp) (isReset : Bool) : Resetting P :=
  ResetTimer ⟨q, [], isReset⟩ r true id ts

/-- After a call in another thread, when the loop has run the task. -/
def queued (q : TimerQueue P) (r : Reads P) (id : Timer_t) (ts : Timestamp) (isReset : Bool) : Resetting P :=
  (ResetTimer ⟨q, [], isReset⟩ r false id ts).doTask r

theorem queue_queued (q : TimerQueue P) (r : Reads P) (id : Timer_t) (ts : Timestamp) (isReset : Bool) :
    (queued q r id ts isReset).queue = (called q r id ts isReset).queue := rfl

/-- The caller's variable is not written. -/
theorem isReset_queued (q : TimerQueue P) (r : Reads P) (id : Timer_t) (ts : Timestamp) (isReset : Bool) :
    (queued q r id ts isReset).isReset = isReset := rfl

end Resetting

namespace TimerQueue

variable {q : TimerQueue P} {r : Reads P} {id : Timer_t} {ts : Timestamp} {out : Set P}

/-- The timer with the id was found, and it is queued under the new time. -/
def Moved (q q' : TimerQueue P) (id : Timer_t) (ts : Timestamp) : Prop :=
  ∃ p t, q.mTimerIdMap.lookup id = some (some p) ∧ q'.heap p = .live t ∧ t.mTimerId = id ∧
    t.mExpired = ts ∧ toLex (ts, p) ∈ q'.mTimerSet

theorem resetTimer_reports (q : TimerQueue P) (r : Reads P) (id : Timer_t) (ts : Timestamp) :
    (q.resetTimer r id ts).2 = true ↔ id ∈ q.mTimerIdMap := by
  rw [← Finmap.lookup_isSome]
  unfold resetTimer
  split
  · rename_i hlookup
    rw [hlookup]
    exact iff_of_false Bool.false_ne_true Bool.false_ne_true
  · rename_i hlookup
    rw [hlookup]
    exact iff_of_true rfl rfl
  · rename_i p hlookup
    rw [hlookup]
    exact iff_of_true rfl rfl

theorem Indexed.moved_iff (h : Indexed q out) (hnull : NoNull q) :
    Moved q (q.resetTimer r id ts).1 id ts ↔ id ∈ q.mTimerIdMap := by
  constructor
  · intro ⟨p, t, hlookup, _⟩
    exact Finmap.mem_iff.mpr ⟨some p, hlookup⟩
  · intro hmem
    obtain ⟨v, hv⟩ := Finmap.mem_iff.mp hmem
    cases v with
    | none => exact absurd hv (hnull id)
    | some p =>
      obtain ⟨t, hlive, hid⟩ := h.owned id p hv
      have hreset : (q.resetTimer r id ts).1.heap p = .live (t.reset ts) := by
        rw [heap_resetTimer_found hv hlive, heap_setTimer_self]
      refine ⟨p, t.reset ts, hv, hreset, hid, rfl, ((h.resetTimer r id ts).agree ts p).mpr ?_⟩
      refine ⟨t.reset ts, hreset, rfl, ?_⟩
      rw [mTimerIdMap_resetTimer]
      exact hid ▸ hv

end TimerQueue

namespace Resetting

open TimerLoop (step Enabled)

/-- The queue and the flag are the same as after a call in the loop's thread, and the flag tells
whether the timer was moved. -/
def ReportsSame (q : TimerQueue P) (r : Reads P) (id : Timer_t) (ts : Timestamp) (isReset : Bool) : Prop :=
  (queued q r id ts isReset).queue = (called q r id ts isReset).queue ∧
    (queued q r id ts isReset).isReset = (called q r id ts isReset).isReset ∧
    ((queued q r id ts isReset).isReset = true ↔ q.Moved (queued q r id ts isReset).queue id ts)

/-- In the loop's thread the flag tells whether the timer was moved. -/
theorem isReset_called {q : TimerQueue P} {out : Set P} (h : q.Indexed out) (hnull : q.NoNull) (r : Reads P)
    (id : Timer_t) (ts : Timestamp) (isReset : Bool) :
    (called q r id ts isReset).isReset = true ↔ q.Moved (called q r id ts isReset).queue id ts :=
  (q.resetTimer_reports r id ts).trans (h.moved_iff hnull).symm

/-- In every state of a queue, a call from another thread reports the same if and only if the caller's
flag says beforehand whether there is such a timer. -/
theorem reportsSame_iff {calls : List (TimerCall P)}
    (hcalls : Along step Enabled (TimerLoop.new : TimerLoop P) calls) (r : Reads P) (id : Timer_t)
    (ts : Timestamp) (isReset : Bool) :
    ReportsSame ((TimerLoop.new : TimerLoop P).run calls).queue r id ts isReset ↔
      (isReset = true ↔ id ∈ ((TimerLoop.new : TimerLoop P).run calls).queue.mTimerIdMap) := by
  have hindexed := (TimerLoop.inv_run hcalls).indexed
  have hnull := TimerLoop.noNull_run hcalls
  generalize ((TimerLoop.new : TimerLoop P).run calls).queue = q at hindexed hnull ⊢
  rw [ReportsSame, queue_queued, isReset_queued, ← isReset_called hindexed hnull]
  have hcalled : (called q r id ts isReset).isReset = true ↔ id ∈ q.mTimerIdMap := q.resetTimer_reports r id ts
  rw [hcalled]
  constructor
  · intro ⟨_, _, hiff⟩
    exact hiff
  · intro hiff
    exact ⟨rfl, Bool.eq_iff_iff.mpr (hiff.trans hcalled.symm), hiff⟩

/-- A timer that is queued. -/
def oneTimer : List (TimerCall Nat) := [.AddTimer ⟨1, 0, none⟩ 10 5 ⟨false, 0⟩]

theorem reportsSame_iff_true :
    ReportsSame ((TimerLoop.new : TimerLoop Nat).run oneTimer).queue ⟨2, 0, none⟩ 0 9 true :=
  (reportsSame_iff (by decide +kernel) ⟨2, 0, none⟩ 0 9 true).mpr (by decide +kernel)

/-- In every state of a queue, for every timer, time and value of the flag before the call. -/
def AlwaysReportsSame (P : Type*) [LinearOrder P] : Prop :=
  ∀ calls : List (TimerCall P), Along step Enabled (TimerLoop.new : TimerLoop P) calls →
    ∀ (r : Reads P) (id : Timer_t) (ts : Timestamp) (isReset : Bool),
      ReportsSame ((TimerLoop.new : TimerLoop P).run calls).queue r id ts isReset

/-- The queued timer is reset, and the flag stays false. -/
theorem alwaysReportsSame_false : ¬ AlwaysReportsSame Nat := by
  intro hclaim
  obtain ⟨_, hflag, _⟩ := hclaim oneTimer (by decide +kernel) ⟨2, 0, none⟩ 0 9 false
  revert hflag
  decide +kernel

end Resetting
end Knpnl.Event
