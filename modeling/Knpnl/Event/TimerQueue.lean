import Mathlib.Data.Finmap
import Mathlib.Data.Prod.Lex
import Knpnl.Base.Buffer
import Knpnl.Lib.Reach
import Knpnl.Lib.SortedSet

/-!
# `event/TimerQueue`: the timers of an event loop

Timers are allocated and freed by hand: the queue holds pointers to them, in a set ordered
by time and in a map by id. `handleRead` is cut where it calls a timer's callback, since
the callback may use the queue. A pointer stands for one allocation.
-/
namespace Knpnl.Event

open Lib
open Base (sizeT signed)

/-- Microseconds, a `uint64_t`. -/
abbrev Timestamp := Nat

/-- The seconds to add are given as the microseconds that they are cast to. -/
def addTime (timestamp : Timestamp) (delta : Int) : Timestamp := sizeT (timestamp + delta)

/-- The number of timers that were created before. -/
abbrev Timer_t := Nat

/-- What the code asks of an interval, which is a `double`: is it greater than 0, and how many
microseconds is it? -/
structure Interval where
  positive : Bool
  micros : Int
  deriving DecidableEq

structure Timer where
  mExpired : Timestamp
  mInterval : Interval
  mRepeatable : Bool
  mTimerId : Timer_t
  deriving DecidableEq

namespace Timer

def new (expired : Timestamp) (interval : Interval) (id : Timer_t) : Timer :=
  ⟨expired, interval, interval.positive, id⟩

/-- `now` is the time that is read. -/
def restart (t : Timer) (now : Timestamp) : Timer :=
  { t with mExpired := if t.mInterval.positive then addTime now t.mInterval.micros else now }

def reset (t : Timer) (ts : Timestamp) : Timer := { t with mExpired := ts }

end Timer

/-- What a pointer points to. -/
inductive Cell where
  | unallocated
  | live (t : Timer)
  | freed
  deriving DecidableEq

/-- What a function reads beside its arguments: the time, and what `mTimerSet.begin()` points
to when the set is empty. -/
structure Reads (P : Type*) where
  now : Timestamp
  empty : Timestamp × Option P

/-- A timerfd that was set at a time, for so many microseconds. -/
structure Armed where
  setAt : Timestamp
  micros : Nat
  deriving DecidableEq

def howMuchTimeFromNow (now expiration : Timestamp) : Nat :=
  (max 100 (signed 64 ((expiration : Int) - now))).toNat

/-- Pointers in the map can be null. `heap` and `TimerCount` are shared by all queues. -/
structure TimerQueue (P : Type*) [LinearOrder P] where
  mTimerSet : SortedSet (Timestamp ×ₗ P)
  mTimerIdMap : Finmap fun _ : Timer_t => Option P
  mTimerfd : Option Armed
  heap : P → Cell
  TimerCount : Timer_t

namespace TimerQueue

variable {P : Type*} [LinearOrder P]

def new : TimerQueue P := ⟨.empty, ∅, none, fun _ => .unallocated, 0⟩

/-- The timer at a pointer. What is not live must not be read. -/
def timer (q : TimerQueue P) (p : P) : Timer :=
  match q.heap p with
  | .live t => t
  | .unallocated | .freed => .new 0 ⟨false, 0⟩ 0

def setTimer (q : TimerQueue P) (p : P) (c : Cell) : TimerQueue P :=
  { q with heap := Function.update q.heap p c }

/-- `*mTimerSet.begin()` -/
def begin (q : TimerQueue P) (r : Reads P) : Timestamp × Option P :=
  match q.mTimerSet.first with
  | some e => ((ofLex e).1, some (ofLex e).2)
  | none => r.empty

def resetTimerfd (q : TimerQueue P) (r : Reads P) (expiration : Timestamp) : TimerQueue P :=
  { q with mTimerfd := some ⟨r.now, howMuchTimeFromNow r.now expiration⟩ }

/-- `mTimerSet.insert` and `mTimerIdMap[..]=` -/
def link (q : TimerQueue P) (p : P) : TimerQueue P :=
  { q with
    mTimerSet := q.mTimerSet.insert (toLex ((q.timer p).mExpired, p))
    mTimerIdMap := q.mTimerIdMap.insert (q.timer p).mTimerId (some p) }

/-- `mTimerIdMap.erase` and `mTimerSet.erase` -/
def unlink (q : TimerQueue P) (p : P) : TimerQueue P :=
  { q with
    mTimerSet := q.mTimerSet.erase (toLex ((q.timer p).mExpired, p))
    mTimerIdMap := q.mTimerIdMap.erase (q.timer p).mTimerId }

def insert (q : TimerQueue P) (r : Reads P) (p : P) : TimerQueue P :=
  let ts := (q.timer p).mExpired
  let q := q.link p
  if (q.begin r).2 = some p then q.resetTimerfd r ts else q

/-- The process ends where a null pointer is passed, by the assertion. -/
def deleteTimer (q : TimerQueue P) (r : Reads P) : Option P → TimerQueue P
  | none => q
  | some p =>
      let isHeadChange := (q.begin r).2 = some p
      let q := (q.unlink p).setTimer p .freed
      if isHeadChange then q.resetTimerfd r (q.begin r).1 else q

/-- With what becomes of `isReset`. The process ends where the map holds a null pointer. -/
def resetTimer (q : TimerQueue P) (r : Reads P) (id : Timer_t) (ts : Timestamp) : TimerQueue P × Bool :=
  match q.mTimerIdMap.lookup id with
  | none => (q, false)
  | some none => (q, true)
  | some (some p) =>
      let old := toLex ((q.timer p).mExpired, p)
      let t := (q.timer p).reset ts
      let q := q.setTimer p (.live t)
      let q := { q with mTimerSet := (q.mTimerSet.erase old).insert (toLex (t.mExpired, p)) }
      (if (q.begin r).2 = some p then q.resetTimerfd r t.mExpired else q, true)

/-- The entries before `lower_bound(pivot)`, where the pointer in `pivot` is above all others. -/
def isExpired (when : Timestamp) (e : Timestamp ×ₗ P) : Bool := (ofLex e).1 ≤ when

/-- The timers of the expired entries. -/
def expired (q : TimerQueue P) (when : Timestamp) : List P :=
  (q.mTimerSet.below (isExpired when)).map fun e => (ofLex e).2

def findExpiredTimer (q : TimerQueue P) (when : Timestamp) : TimerQueue P :=
  { q with
    mTimerSet := q.mTimerSet.dropBelow (isExpired when)
    mTimerIdMap := (q.expired when).foldl (fun m p => m.erase (q.timer p).mTimerId) q.mTimerIdMap }

/-- A timer is created at a pointer that has not been allocated. -/
def newTimer (q : TimerQueue P) (p : P) (ts : Timestamp) (interval : Interval) : TimerQueue P :=
  { q.setTimer p (.live (.new ts interval q.TimerCount)) with TimerCount := q.TimerCount + 1 }

/-- What `handleRead` does after the callback of a timer. -/
def afterRun (q : TimerQueue P) (r : Reads P) (p : P) : TimerQueue P :=
  let t := q.timer p
  if t.mRepeatable then (q.setTimer p (.live (t.restart r.now))).link p else q.setTimer p .freed

variable {q : TimerQueue P} {r : Reads P} {p : P} {t : Timer}

theorem timer_eq (h : q.heap p = .live t) : q.timer p = t := by rw [timer, h]

@[simp] theorem heap_setTimer_self (q : TimerQueue P) (p : P) (c : Cell) : (q.setTimer p c).heap p = c :=
  Function.update_self ..

theorem heap_setTimer_of_ne {p' : P} (h : p' ≠ p) (c : Cell) : (q.setTimer p c).heap p' = q.heap p' :=
  Function.update_of_ne h ..

@[simp] theorem heap_insert (q : TimerQueue P) (r : Reads P) (p : P) : (q.insert r p).heap = q.heap := by
  unfold insert
  dsimp only
  split <;> rfl

@[simp] theorem mTimerIdMap_insert (q : TimerQueue P) (r : Reads P) (p : P) :
    (q.insert r p).mTimerIdMap = q.mTimerIdMap.insert (q.timer p).mTimerId (some p) := by
  unfold insert
  dsimp only
  split <;> rfl

@[simp] theorem heap_deleteTimer (q : TimerQueue P) (r : Reads P) (p : P) :
    (q.deleteTimer r (some p)).heap = (q.setTimer p .freed).heap := by
  unfold deleteTimer
  dsimp only
  split <;> rfl

@[simp] theorem mTimerIdMap_deleteTimer (q : TimerQueue P) (r : Reads P) (p : P) :
    (q.deleteTimer r (some p)).mTimerIdMap = q.mTimerIdMap.erase (q.timer p).mTimerId := by
  unfold deleteTimer
  dsimp only
  split <;> rfl

@[simp] theorem mTimerIdMap_resetTimer (q : TimerQueue P) (r : Reads P) (id : Timer_t) (ts : Timestamp) :
    (q.resetTimer r id ts).1.mTimerIdMap = q.mTimerIdMap := by
  unfold resetTimer
  split
  · rfl
  · rfl
  · dsimp only
    split <;> rfl

/-- At most the timer with the id gets another time. -/
theorem heap_resetTimer (q : TimerQueue P) (r : Reads P) (id : Timer_t) (ts : Timestamp) :
    (q.resetTimer r id ts).1.heap = q.heap ∨ ∃ p, q.mTimerIdMap.lookup id = some (some p) ∧
      (q.resetTimer r id ts).1.heap = (q.setTimer p (.live ((q.timer p).reset ts))).heap := by
  unfold resetTimer
  split
  · exact Or.inl rfl
  · exact Or.inl rfl
  · rename_i p hlookup
    refine Or.inr ⟨p, hlookup, ?_⟩
    dsimp only
    split <;> rfl

@[simp] theorem TimerCount_insert (q : TimerQueue P) (r : Reads P) (p : P) :
    (q.insert r p).TimerCount = q.TimerCount := by
  unfold insert
  dsimp only
  split <;> rfl

@[simp] theorem TimerCount_deleteTimer (q : TimerQueue P) (r : Reads P) (v : Option P) :
    (q.deleteTimer r v).TimerCount = q.TimerCount := by
  unfold deleteTimer
  split
  · rfl
  · dsimp only
    split <;> rfl

@[simp] theorem TimerCount_resetTimer (q : TimerQueue P) (r : Reads P) (id : Timer_t) (ts : Timestamp) :
    (q.resetTimer r id ts).1.TimerCount = q.TimerCount := by
  unfold resetTimer
  split
  · rfl
  · rfl
  · dsimp only
    split <;> rfl

@[simp] theorem TimerCount_afterRun (q : TimerQueue P) (r : Reads P) (p : P) :
    (q.afterRun r p).TimerCount = q.TimerCount := by
  unfold afterRun
  dsimp only
  split <;> rfl

theorem afterRun_repeating (h : (q.timer p).mRepeatable = true) :
    q.afterRun r p = (q.setTimer p (.live ((q.timer p).restart r.now))).link p := by
  unfold afterRun
  dsimp only
  rw [if_pos h]

theorem afterRun_oneShot (h : ¬ (q.timer p).mRepeatable = true) : q.afterRun r p = q.setTimer p .freed := by
  unfold afterRun
  dsimp only
  rw [if_neg h]

end TimerQueue

/-- A `handleRead` that has not returned: it is between two timers, or in the callback of one,
and `rest` are the timers to come. -/
inductive Frame (P : Type*) where
  | next (rest : List P)
  | run (p : P) (rest : List P)
  deriving DecidableEq

/-- What a user sees of a queue: ids that were returned by `AddTimer` and passed to `Remove`,
and the ids of the timers whose callbacks were called. -/
inductive TimerEvent where
  | added (id : Timer_t)
  | removed (id : Timer_t)
  | started (id : Timer_t)
  deriving DecidableEq

/-- A queue, the calls of `handleRead` that have not returned, the innermost first, and what
has happened. -/
structure TimerLoop (P : Type*) [LinearOrder P] where
  queue : TimerQueue P
  stack : List (Frame P)
  log : List TimerEvent

/-- Steps of the loop's thread. `handleRead` begins, calls the next callback, goes on when it
has returned, and ends. `elsewhere` is the creation of another queue's timer. -/
inductive TimerCall (P : Type*) where
  | AddTimer (r : Reads P) (p : P) (ts : Timestamp) (interval : Interval)
  | Remove (r : Reads P) (id : Timer_t)
  | ResetTimer (r : Reads P) (id : Timer_t) (ts : Timestamp)
  | handleRead (r : Reads P)
  | run
  | returned (r : Reads P)
  | finish (r : Reads P)
  | elsewhere

namespace TimerLoop

variable {P : Type*} [LinearOrder P]

def new : TimerLoop P := ⟨.new, [], []⟩

/-- The queue can be used: outside `handleRead`, and in callbacks. -/
def Calling (x : TimerLoop P) : Prop :=
  match x.stack with
  | .next _ :: _ => False
  | .run _ _ :: _ | [] => True

def Enabled (x : TimerLoop P) : TimerCall P → Prop
  | .AddTimer _ p _ _ => x.Calling ∧ x.queue.heap p = .unallocated
  | .Remove _ _ | .ResetTimer _ _ _ | .handleRead _ => x.Calling
  | .run =>
      match x.stack with
      | .next (_ :: _) :: _ => True
      | _ => False
  | .returned _ =>
      match x.stack with
      | .run _ _ :: _ => True
      | _ => False
  | .finish _ =>
      match x.stack with
      | .next [] :: _ => True
      | _ => False
  | .elsewhere => True

def step (x : TimerLoop P) : TimerCall P → TimerLoop P
  | .AddTimer r p ts interval =>
      { x with
        queue := (x.queue.newTimer p ts interval).insert r p
        log := x.log ++ [.added x.queue.TimerCount] }
  | .Remove r id =>
      { x with
        queue :=
          match x.queue.mTimerIdMap.lookup id with
          | some p => x.queue.deleteTimer r p
          | none => x.queue
        log := x.log ++ [.removed id] }
  | .ResetTimer r id ts => { x with queue := (x.queue.resetTimer r id ts).1 }
  | .handleRead r =>
      { x with
        queue := x.queue.findExpiredTimer r.now
        stack := .next (x.queue.expired r.now) :: x.stack }
  | .run =>
      match x.stack with
      | .next (p :: rest) :: stack =>
          { x with stack := .run p rest :: stack, log := x.log ++ [.started (x.queue.timer p).mTimerId] }
      | _ => x
  | .returned r =>
      match x.stack with
      | .run p rest :: stack => { x with queue := x.queue.afterRun r p, stack := .next rest :: stack }
      | _ => x
  | .finish r =>
      match x.stack with
      | .next [] :: stack => { x with queue := x.queue.resetTimerfd r (x.queue.begin r).1, stack := stack }
      | _ => x
  | .elsewhere => { x with queue := { x.queue with TimerCount := x.queue.TimerCount + 1 } }

def run (x : TimerLoop P) (calls : List (TimerCall P)) : TimerLoop P := calls.foldl step x

instance (x : TimerLoop P) : Decidable x.Calling := by
  unfold Calling
  split <;> infer_instance

instance (x : TimerLoop P) (c : TimerCall P) : Decidable (x.Enabled c) := by
  cases c <;> unfold Enabled <;> first | infer_instance | (dsimp only; split <;> infer_instance)

variable {x : TimerLoop P} {r : Reads P} {p : P} {rest : List P} {stack : List (Frame P)}

theorem stack_of_run (h : x.Enabled .run) : ∃ p rest stack, x.stack = .next (p :: rest) :: stack := by
  simp only [Enabled] at h
  split at h
  · rename_i hstack
    exact ⟨_, _, _, hstack⟩
  · cases h

theorem stack_of_returned (h : x.Enabled (.returned r)) : ∃ p rest stack, x.stack = .run p rest :: stack := by
  simp only [Enabled] at h
  split at h
  · rename_i hstack
    exact ⟨_, _, _, hstack⟩
  · cases h

theorem stack_of_finish (h : x.Enabled (.finish r)) : ∃ stack, x.stack = .next [] :: stack := by
  simp only [Enabled] at h
  split at h
  · rename_i hstack
    exact ⟨_, hstack⟩
  · cases h

theorem step_run (h : x.stack = .next (p :: rest) :: stack) :
    x.step .run =
      { x with stack := .run p rest :: stack, log := x.log ++ [.started (x.queue.timer p).mTimerId] } := by
  simp only [step, h]

theorem step_returned (h : x.stack = .run p rest :: stack) :
    x.step (.returned r) = { x with queue := x.queue.afterRun r p, stack := .next rest :: stack } := by
  simp only [step, h]

theorem step_finish (h : x.stack = .next [] :: stack) :
    x.step (.finish r) = { x with queue := x.queue.resetTimerfd r (x.queue.begin r).1, stack := stack } := by
  simp only [step, h]

/-- `Remove` deletes the timer that the map leads to, if any. -/
theorem queue_Remove (x : TimerLoop P) (r : Reads P) (id : Timer_t) :
    (∃ p, x.queue.mTimerIdMap.lookup id = some (some p) ∧
      (x.step (.Remove r id)).queue = x.queue.deleteTimer r (some p)) ∨
    (∀ p, x.queue.mTimerIdMap.lookup id ≠ some (some p)) ∧ (x.step (.Remove r id)).queue = x.queue := by
  cases hlookup : x.queue.mTimerIdMap.lookup id with
  | none => exact Or.inr ⟨fun p hp => (by cases hp), by simp only [step, hlookup]⟩
  | some v =>
    cases v with
    | none => exact Or.inr ⟨fun p hp => (by cases hp), by simp only [step, hlookup]; rfl⟩
    | some p => exact Or.inl ⟨p, rfl, by simp only [step, hlookup]⟩

/-- What may become of the timer at `p` in a call. -/
inductive Change (x : TimerLoop P) (p : P) : TimerCall P → Cell → Prop
  | same (c : TimerCall P) : x.Change p c (x.queue.heap p)
  | created (r : Reads P) (ts : Timestamp) (interval : Interval) :
      x.Change p (.AddTimer r p ts interval) (.live (.new ts interval x.queue.TimerCount))
  | removed (r : Reads P) {id : Timer_t} (hlookup : x.queue.mTimerIdMap.lookup id = some (some p)) :
      x.Change p (.Remove r id) .freed
  | reset (r : Reads P) {id : Timer_t} (ts : Timestamp)
      (hlookup : x.queue.mTimerIdMap.lookup id = some (some p)) :
      x.Change p (.ResetTimer r id ts) (.live ((x.queue.timer p).reset ts))
  | restarted (r : Reads P) {rest : List P} {stack : List (Frame P)} (hstack : x.stack = .run p rest :: stack)
      (hrepeat : (x.queue.timer p).mRepeatable = true) :
      x.Change p (.returned r) (.live ((x.queue.timer p).restart r.now))
  | done (r : Reads P) {rest : List P} {stack : List (Frame P)} (hstack : x.stack = .run p rest :: stack)
      (hrepeat : ¬ (x.queue.timer p).mRepeatable = true) : x.Change p (.returned r) .freed

theorem change_step (x : TimerLoop P) (p : P) {c : TimerCall P} (hc : x.Enabled c) :
    x.Change p c ((x.step c).queue.heap p) := by
  cases c with
  | AddTimer r p' ts interval =>
    rw [step, TimerQueue.heap_insert, TimerQueue.newTimer]
    by_cases hp : p = p'
    · subst hp
      rw [TimerQueue.heap_setTimer_self]
      exact .created r ts interval
    · rw [TimerQueue.heap_setTimer_of_ne hp]
      exact .same _
  | Remove r id =>
    rcases queue_Remove x r id with ⟨p', hlookup, hqueue⟩ | ⟨_, hqueue⟩
    · rw [hqueue, TimerQueue.heap_deleteTimer]
      by_cases hp : p = p'
      · subst hp
        rw [TimerQueue.heap_setTimer_self]
        exact .removed r hlookup
      · rw [TimerQueue.heap_setTimer_of_ne hp]
        exact .same _
    · rw [hqueue]
      exact .same _
  | ResetTimer r id ts =>
    rw [step]
    rcases TimerQueue.heap_resetTimer x.queue r id ts with hsame | ⟨p', hlookup, hreset⟩
    · rw [hsame]
      exact .same _
    · rw [hreset]
      by_cases hp : p = p'
      · subst hp
        rw [TimerQueue.heap_setTimer_self]
        exact .reset r ts hlookup
      · rw [TimerQueue.heap_setTimer_of_ne hp]
        exact .same _
  | returned r =>
    obtain ⟨p', rest, stack, hstack⟩ := stack_of_returned hc
    rw [step_returned hstack]
    by_cases hp : p = p'
    · subst hp
      by_cases hrepeat : (x.queue.timer p).mRepeatable = true
      · rw [TimerQueue.afterRun_repeating hrepeat, TimerQueue.link, TimerQueue.heap_setTimer_self]
        exact .restarted r hstack hrepeat
      · rw [TimerQueue.afterRun_oneShot hrepeat, TimerQueue.heap_setTimer_self]
        exact .done r hstack hrepeat
    · by_cases hrepeat : (x.queue.timer p').mRepeatable = true
      · rw [TimerQueue.afterRun_repeating hrepeat, TimerQueue.link, TimerQueue.heap_setTimer_of_ne hp]
        exact .same _
      · rw [TimerQueue.afterRun_oneShot hrepeat, TimerQueue.heap_setTimer_of_ne hp]
        exact .same _
  | run =>
    obtain ⟨_, _, _, hstack⟩ := stack_of_run hc
    rw [step_run hstack]
    exact .same _
  | finish r =>
    obtain ⟨_, hstack⟩ := stack_of_finish hc
    rw [step_finish hstack]
    exact .same _
  | handleRead r => exact .same _
  | elsewhere => exact .same _

end TimerLoop
end Knpnl.Event
