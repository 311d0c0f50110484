import Knpnl.Lib.Reach
import Knpnl.Event.EventLoop

/-!
# `event/LoopThread`: a loop in a thread of its own

`threadFunc` constructs a loop, lets `mLoop` point to it and runs it. The owner reads `mLoop` in
`GetLoop`, and calls `Quit` through it in `Stop` and in the destructor. Only `join` makes one of
the two threads wait for the other.
-/
namespace Knpnl.Event

open Lib

/-- How far `threadFunc` is with its local `EventLoop`. -/
inductive LocalLoop where
  | before
  | constructed
  | looping
  | left
  | destroyed
  deriving DecidableEq

namespace LocalLoop

/-- Constructed, and not destroyed. -/
def isLive : LocalLoop → Bool
  | .constructed | .looping | .left => true
  | .before | .destroyed => false

/-- `mLoop` has been assigned. -/
def isPublished : LocalLoop → Bool
  | .looping | .left | .destroyed => true
  | .before | .constructed => false

theorem isLive_of_isPublished {l : LocalLoop} (h : l.isPublished = true) (hnot : l ≠ .destroyed) :
    l.isLive = true := by
  cases l with
  | before | constructed => cases h
  | looping | left => rfl
  | destroyed => exact absurd rfl hnot

end LocalLoop

/-- Which function of the thread its owner is in. -/
inductive OwnerAt where
  | ready
  | Stop
  | destructor
  deriving DecidableEq

/-- `mLoop` says that the pointer is not null. `mQuit` and `isWakeup` are those of the loop, and
`quit` is how far the owner's call of `Quit` is. `returned` are the pointers that `GetLoop`
returned; for every call through one of them or through `mLoop`, `calls` has the pointer and what
the loop was then. -/
structure LoopThread where
  loop : LocalLoop
  mLoop : Bool
  mStop : Bool
  mQuit : Bool
  isWakeup : Bool
  owner : OwnerAt
  quit : Call
  returned : List Bool
  calls : List (Bool × LocalLoop)

/-- The first six are steps of the new thread, where `leave` sees `mQuit` and leaves `Loop`. The
others are steps of the owner: `RunInLoop` is what it calls through the pointer that it got last,
`notify` and `wakeup` are the rest of a call of `Quit`. -/
inductive LoopThreadStep where
  | construct
  | publish
  | awake
  | doTask
  | leave
  | destroy
  | GetLoop
  | RunInLoop
  | Stop
  | notify
  | wakeup
  | join
  | destructor
  deriving DecidableEq

namespace LoopThread

/-- When the constructor has started the thread. What the loop's flags are is of no account before
it is constructed. -/
def new : LoopThread where
  loop := .before
  mLoop := false
  mStop := false
  mQuit := false
  isWakeup := false
  owner := .ready
  quit := .none
  returned := []
  calls := []

/-- Something of the loop is accessed through a pointer. -/
def call (s : LoopThread) (pointer : Bool) : LoopThread := { s with calls := s.calls ++ [(pointer, s.loop)] }

/-- `mLoop->Quit()` sets the flag first. -/
def Quit (s : LoopThread) (owner : OwnerAt) : LoopThread :=
  { s.call s.mLoop with mQuit := true, owner := owner, quit := .notify }

def step (s : LoopThread) : LoopThreadStep → LoopThread
  | .construct => { s with loop := .constructed, mQuit := false, isWakeup := false }
  | .publish => { s with loop := .looping, mLoop := true }
  | .awake => { s with isWakeup := true }
  | .doTask => { s with isWakeup := false }
  | .leave => { s with loop := .left }
  | .destroy => { s with loop := .destroyed }
  | .GetLoop => { s with returned := s.returned ++ [s.mLoop] }
  | .RunInLoop => s.call (s.returned.getLastD false)
  | .Stop => s.Quit .Stop
  | .notify => { s.call s.mLoop with quit := if s.isWakeup then .none else .wakeup }
  | .wakeup => { s.call s.mLoop with quit := .none }
  | .join => { s with owner := .ready, mStop := true }
  | .destructor => s.Quit .destructor

def run (s : LoopThread) (steps : List LoopThreadStep) : LoopThread := steps.foldl step s

/-- Each thread goes on with what it is at. The owner does what `LoopThreadPool` does: it gets the
loop any number of times, stops the thread and deletes it. `Loop` reads `mQuit` after `doTask`,
and `join` returns when `threadFunc` has. -/
def Possible (s : LoopThread) : LoopThreadStep → Prop
  | .construct => s.loop = .before
  | .publish => s.loop = .constructed
  | .awake => s.loop = .looping ∧ s.isWakeup = false
  | .doTask => s.loop = .looping ∧ s.isWakeup = true
  | .leave => s.loop = .looping ∧ s.isWakeup = false ∧ s.mQuit = true
  | .destroy => s.loop = .left
  | .GetLoop | .Stop => s.owner = .ready ∧ s.mStop = false
  | .RunInLoop => s.owner = .ready ∧ s.mStop = false ∧ s.returned ≠ []
  | .notify => s.quit = .notify
  | .wakeup => s.quit = .wakeup
  | .join => s.owner = .Stop ∧ s.quit = .none ∧ s.loop = .destroyed
  | .destructor => s.owner = .ready ∧ s.mStop = true

/-- `GetLoop` has never returned null, and every call was made through a pointer that is not null
on a loop that is constructed and not destroyed. -/
def OnlyLive (s : LoopThread) : Prop :=
  (∀ pointer ∈ s.returned, pointer = true) ∧ ∀ c ∈ s.calls, c.1 = true ∧ c.2.isLive = true

/-- `GetLoop` and `Stop` are called after `threadFunc` has assigned `mLoop`, `threadFunc` returns
after `Stop` is through with `Quit`, and the destructor is not called. -/
def Timely (s : LoopThread) : LoopThreadStep → Prop
  | .GetLoop | .Stop => s.loop.isPublished = true
  | .notify | .wakeup => s.loop ≠ .destroyed
  | .destructor => False
  | _ => True

instance (s : LoopThread) : (a : LoopThreadStep) → Decidable (s.Possible a)
  | .construct | .publish | .destroy | .notify | .wakeup => inferInstanceAs (Decidable (_ = _))
  | .awake | .doTask | .GetLoop | .Stop | .destructor => inferInstanceAs (Decidable (_ ∧ _))
  | .leave | .RunInLoop | .join => inferInstanceAs (Decidable (_ ∧ _ ∧ _))

instance (s : LoopThread) : Decidable s.OnlyLive := inferInstanceAs (Decidable (_ ∧ _))

instance (s : LoopThread) : (a : LoopThreadStep) → Decidable (s.Timely a)
  | .GetLoop | .Stop => inferInstanceAs (Decidable (_ = _))
  | .notify | .wakeup => inferInstanceAs (Decidable (_ ≠ _))
  | .destructor => isFalse id
  | .construct | .publish | .awake | .doTask | .leave | .destroy | .RunInLoop | .join => isTrue trivial

variable {s : LoopThread}

/-- Until `Stop` the loop is not told to quit, so a pointer that the owner got is good. -/
structure Inv (s : LoopThread) : Prop where
  onlyLive : s.OnlyLive
  published : s.mLoop = s.loop.isPublished
  returned : s.returned ≠ [] → s.loop.isPublished = true
  quitting : s.quit ≠ .none → s.loop.isPublished = true
  running : s.owner = .ready → s.mStop = false → s.mQuit = false
  looping : s.mQuit = false → s.loop ≠ .left ∧ s.loop ≠ .destroyed
  stopped : s.mStop = true → s.loop = .destroyed

theorem inv_new : new.Inv where
  onlyLive := ⟨nofun, nofun⟩
  published := rfl
  returned h := absurd rfl h
  quitting h := absurd rfl h
  running _ _ := rfl
  looping _ := ⟨nofun, nofun⟩
  stopped := nofun

theorem onlyLive_call (s : LoopThread) (pointer : Bool) :
    (s.call pointer).OnlyLive ↔ s.OnlyLive ∧ pointer = true ∧ s.loop.isLive = true := by
  rw [OnlyLive, OnlyLive, call, List.forall_mem_append, List.forall_mem_singleton, and_assoc]

theorem onlyLive_got (s : LoopThread) (pointer : Bool) :
    OnlyLive { s with returned := s.returned ++ [pointer] } ↔ s.OnlyLive ∧ pointer = true := by
  rw [OnlyLive, OnlyLive, List.forall_mem_append, List.forall_mem_singleton]
  exact and_right_comm

theorem Inv.isLive (h : s.Inv) (hquit : s.mQuit = false) (hpublished : s.loop.isPublished = true) :
    s.loop.isLive = true :=
  LocalLoop.isLive_of_isPublished hpublished (h.looping hquit).2

/-- The pointer that the owner got last. -/
theorem Inv.last (h : s.Inv) (hreturned : s.returned ≠ []) : s.returned.getLastD false = true := by
  rw [List.getLastD_eq_getLast?, List.getLast?_eq_some_getLast hreturned]
  exact h.onlyLive.1 _ (List.getLast_mem hreturned)

/-- The new thread goes on to `l` while its owner is not waiting for it. -/
theorem Inv.advance (h : s.Inv) {l : LocalLoop} (hlive : s.loop ≠ .destroyed)
    (hpublished : l.isPublished = s.loop.isPublished) (hleft : s.mQuit = false → l ≠ .left ∧ l ≠ .destroyed) :
    Inv { s with loop := l } where
  onlyLive := h.onlyLive
  published := h.published.trans hpublished.symm
  returned hreturned := hpublished.trans (h.returned hreturned)
  quitting hquit := hpublished.trans (h.quitting hquit)
  running := h.running
  looping := hleft
  stopped hstop := absurd (h.stopped hstop) hlive

/-- A call of `Quit` through a pointer that is good. -/
theorem Inv.Quit (h : s.Inv) (hstop : s.mStop = false) (hready : s.owner = .ready)
    (hpublished : s.loop.isPublished = true) : (s.Quit .Stop).Inv where
  onlyLive := (onlyLive_call s s.mLoop).mpr
    ⟨h.onlyLive, h.published.trans hpublished, h.isLive (h.running hready hstop) hpublished⟩
  published := h.published
  returned := h.returned
  quitting _ := hpublished
  running := nofun
  looping := nofun
  stopped := h.stopped

/-- The rest of it. -/
theorem Inv.quitRest (h : s.Inv) {next : Call} (hquit : s.quit ≠ .none) (hlive : s.loop ≠ .destroyed) :
    Inv { s.call s.mLoop with quit := next } where
  onlyLive := (onlyLive_call s s.mLoop).mpr
    ⟨h.onlyLive, h.published.trans (h.quitting hquit),
      LocalLoop.isLive_of_isPublished (h.quitting hquit) hlive⟩
  published := h.published
  returned := h.returned
  quitting _ := h.quitting hquit
  running := h.running
  looping := h.looping
  stopped := h.stopped

theorem Inv.step (h : s.Inv) {a : LoopThreadStep} (hpossible : s.Possible a) (htimely : s.Timely a) :
    (s.step a).Inv := by
  cases a with
  | construct =>
    have hbefore : s.loop = .before := hpossible
    have hadvance := h.advance (l := .constructed) (by rw [hbefore]; decide) (by rw [hbefore]; rfl)
      fun _ => by decide
    exact { hadvance with running := fun _ _ => rfl, looping := fun _ => ⟨nofun, nofun⟩ }
  | publish =>
    have hconstructed : s.loop = .constructed := hpossible
    exact {
      onlyLive := h.onlyLive
      published := rfl
      returned _ := rfl
      quitting _ := rfl
      running := h.running
      looping _ := ⟨nofun, nofun⟩
      stopped hstop := absurd (hconstructed.symm.trans (h.stopped hstop)) (by decide) }
  | awake => exact ⟨h.onlyLive, h.published, h.returned, h.quitting, h.running, h.looping, h.stopped⟩
  | doTask => exact ⟨h.onlyLive, h.published, h.returned, h.quitting, h.running, h.looping, h.stopped⟩
  | leave =>
    obtain ⟨hlooping, _, hquit⟩ := hpossible
    refine h.advance (by rw [hlooping]; decide) (by rw [hlooping]; rfl) fun hnot => ?_
    rw [hquit] at hnot
    cases hnot
  | destroy =>
    have hleft : s.loop = .left := hpossible
    exact h.advance (by rw [hleft]; decide) (by rw [hleft]; rfl) fun hnot => absurd hleft (h.looping hnot).1
  | GetLoop =>
    exact ⟨(onlyLive_got s s.mLoop).mpr ⟨h.onlyLive, h.published.trans htimely⟩, h.published,
      fun _ => htimely, h.quitting, h.running, h.looping, h.stopped⟩
  | RunInLoop =>
    obtain ⟨hready, hstop, hreturned⟩ := hpossible
    have hlive := h.isLive (h.running hready hstop) (h.returned hreturned)
    exact ⟨(onlyLive_call s _).mpr ⟨h.onlyLive, h.last hreturned, hlive⟩, h.published,
      h.returned, h.quitting, h.running, h.looping, h.stopped⟩
  | Stop => exact h.Quit hpossible.2 hpossible.1 htimely
  | notify =>
    have hquit : s.quit = .notify := hpossible
    exact h.quitRest (by rw [hquit]; decide) htimely
  | wakeup =>
    have hquit : s.quit = .wakeup := hpossible
    exact h.quitRest (by rw [hquit]; decide) htimely
  | join =>
    exact ⟨h.onlyLive, h.published, h.returned, h.quitting, fun _ => nofun, h.looping, fun _ => hpossible.2.2⟩
  | destructor => exact htimely.elim

/-- The first untimely step meets no loop. -/
theorem Inv.not_onlyLive (h : s.Inv) {a : LoopThreadStep} (hpossible : s.Possible a) (hnot : ¬ s.Timely a) :
    ¬ (s.step a).OnlyLive := by
  have hcalled : ∀ pointer, s.loop.isLive = false → ¬ (s.call pointer).OnlyLive := by
    intro pointer hdead honly
    have hlive := ((onlyLive_call s pointer).mp honly).2.2
    rw [hdead] at hlive
    cases hlive
  cases a with
  | GetLoop =>
    intro honly
    exact hnot (h.published.symm.trans ((onlyLive_got s s.mLoop).mp honly).2)
  | Stop =>
    intro honly
    exact hnot (h.published.symm.trans ((onlyLive_call s s.mLoop).mp honly).2.1)
  | notify | wakeup =>
    have hdestroyed : s.loop = .destroyed := not_not.mp hnot
    exact hcalled s.mLoop (by rw [hdestroyed]; rfl)
  | destructor => exact hcalled s.mLoop (by rw [h.stopped hpossible.2]; rfl)
  | construct | publish | awake | doTask | leave | destroy | RunInLoop | join => exact absurd trivial hnot

/-- What was called is not forgotten. -/
theorem not_onlyLive_step (s : LoopThread) (a : LoopThreadStep) (h : ¬ s.OnlyLive) :
    ¬ (s.step a).OnlyLive := by
  have hcall : ∀ pointer, ¬ (s.call pointer).OnlyLive := fun pointer honly =>
    h ((onlyLive_call s pointer).mp honly).1
  cases a with
  | GetLoop => exact fun honly => h ((onlyLive_got s s.mLoop).mp honly).1
  | RunInLoop => exact hcall _
  | Stop | notify | wakeup | destructor => exact hcall s.mLoop
  | construct | publish | awake | doTask | leave | destroy | join => exact h

/-- In every run of the two threads, `GetLoop` never returns null and every call is made on a live
loop, if and only if the owner calls `GetLoop` and `Stop` only after `mLoop` was assigned, is
through with `Quit` before the loop is destroyed, and never calls the destructor. -/
theorem onlyLive_iff (steps : List LoopThreadStep) (hpossible : Along step Possible new steps) :
    (new.run steps).OnlyLive ↔ Along step Timely new steps :=
  along_iff_final (fun _ h => Inv.onlyLive h) (fun _ => id) (fun _ _ h => h.step) (fun _ _ h => h.not_onlyLive)
    not_onlyLive_step inv_new hpossible

/-- A connection is handed to the loop, which quits while it is running its tasks. -/
theorem onlyLive_iff_stopped :
    (new.run [.construct, .publish, .GetLoop, .RunInLoop, .awake, .Stop, .notify, .doTask, .leave,
      .destroy, .join]).OnlyLive :=
  (onlyLive_iff [.construct, .publish, .GetLoop, .RunInLoop, .awake, .Stop, .notify, .doTask, .leave,
    .destroy, .join] (by decide)).mpr (by decide)

/-- Whatever the order in which the threads take their steps. -/
def AlwaysOnlyLive : Prop :=
  ∀ steps : List LoopThreadStep, Along step Possible new steps → (new.run steps).OnlyLive

/-- Everything is in time until the destructor quits a loop that is gone since `Stop`. -/
theorem alwaysOnlyLive_deleted : ¬ AlwaysOnlyLive := by
  intro hclaim
  have honly := hclaim [.construct, .publish, .GetLoop, .RunInLoop, .Stop, .notify, .wakeup, .leave,
    .destroy, .join, .destructor] (by decide)
  revert honly
  decide

end LoopThread
end Knpnl.Event
