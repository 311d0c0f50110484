import Knpnl.Lib.Quiescence
import Knpnl.Event.Wakeup

/-!
# An event loop comes to rest

When no thread calls the loop any more, the calls that are under way end, and the loop wakes up as often
as it has to. In whatever order the threads go on, it ends in `epoll_wait` with every task run, or it has
returned because of `Quit`.
-/
namespace Knpnl.Event

open Lib
open Relation (ReflTransGen)

/-- The steps that a call can still bring about. A write of `mWakeupFd` costs the loop another turn. -/
def Call.left : Call → Nat
  | .none => 0
  | .wakeup => 9
  | .notify => 10

/-- The steps to the next `epoll_wait`, tasks apart. -/
def LoopAt.left {τ : Type*} : LoopAt τ → Nat
  | stopped => 0
  | poll => 1
  | check => 2
  | start | tasks _ => 3
  | task _ | doTask => 4
  | events activeChannel => 2 * activeChannel.length + 5
  | polled activeChannel | callback activeChannel => 2 * activeChannel.length + 6

namespace EventLoop

variable {ι τ : Type*} [DecidableEq ι] {s s' : EventLoop ι τ}

/-- A step with nothing new from outside: no call begins, and `epoll_wait` reports no channel of a user. -/
inductive Drain (s : EventLoop ι τ) : EventLoop ι τ → Prop where
  | skip (t : Thread ι) (at_ : s.calls t = .notify) (flag : s.isWakeup = true) : Drain s (s.setCall t .none)
  | notify (t : Thread ι) (at_ : s.calls t = .notify) (flag : s.isWakeup = false) :
      Drain s (s.setCall t .wakeup)
  | wakeup (t : Thread ι) (at_ : s.calls t = .wakeup) : Drain s (s.wakeup.setCall t .none)
  | begin (at_ : s.loop = .start) (idle : s.calls .loop = .none) : Drain s { s with loop := .check }
  | again (at_ : s.loop = .check) (flag : s.mQuit = false) : Drain s { s with loop := .poll }
  | stop (at_ : s.loop = .check) (flag : s.mQuit = true) : Drain s { s with loop := .stopped }
  | poll (at_ : s.loop = .poll) (pending : s.WakeupPending) : Drain s (s.report [.wakeup])
  | awake (activeChannel : List Active) (at_ : s.loop = .polled activeChannel) :
      Drain s { s with loop := .events activeChannel, isWakeup := true }
  | wakeupRead (rest : List Active) (at_ : s.loop = .events (.wakeup :: rest)) :
      Drain s { s.wakeupRead with loop := .events rest }
  | callback (rest : List Active) (at_ : s.loop = .events (.user :: rest)) :
      Drain s { s with loop := .callback rest }
  | callbackReturn (rest : List Active) (at_ : s.loop = .callback rest) (idle : s.calls .loop = .none) :
      Drain s { s with loop := .events rest }
  | handled (at_ : s.loop = .events []) : Drain s { s with loop := .doTask }
  | swap (at_ : s.loop = .doTask) : Drain s s.swap
  | task (task : τ) (rest : List τ) (at_ : s.loop = .tasks (task :: rest)) :
      Drain s { s with loop := .task rest, ran := s.ran ++ [task] }
  | taskReturn (rest : List τ) (at_ : s.loop = .task rest) (idle : s.calls .loop = .none) :
      Drain s { s with loop := .tasks rest }
  | ranAll (at_ : s.loop = .tasks []) : Drain s { s with loop := .check }

theorem Drain.step (h : Drain s s') : Step s s' := by
  cases h with
  | skip t at_ flag => exact .skip t at_ flag
  | notify t at_ flag => exact .notify t at_ flag
  | wakeup t at_ => exact .wakeup t at_
  | begin at_ idle => exact .begin at_ idle
  | again at_ flag => exact .again at_ flag
  | stop at_ flag => exact .stop at_ flag
  | poll at_ pending => exact .poll [.wakeup] at_ fun _ => pending
  | awake activeChannel at_ => exact .awake activeChannel at_
  | wakeupRead rest at_ => exact .wakeupRead rest at_
  | callback rest at_ => exact .callback rest at_
  | callbackReturn rest at_ idle => exact .callbackReturn rest at_ idle
  | handled at_ => exact .handled at_
  | swap at_ => exact .swap at_
  | task task rest at_ => exact .task task rest at_
  | taskReturn rest at_ idle => exact .taskReturn rest at_ idle
  | ranAll at_ => exact .ranAll at_

/-- What the loop has left: two steps for a task, a turn for a wakeup. -/
def loopLeft (s : EventLoop ι τ) : Nat :=
  2 * (s.loop.taken.length + s.mTasks.length) + 8 * s.ready.toNat + s.loop.left

section
variable [Fintype ι]

def callsLeft (s : EventLoop ι τ) : Nat := (s.calls .loop).left + ∑ i, (s.calls (.producer i)).left

def toDo (s : EventLoop ι τ) : Nat := s.callsLeft + s.loopLeft

omit [Fintype ι] in
theorem calls_setCall_of_ne (s : EventLoop ι τ) (c : Call) {t t' : Thread ι} (hne : t' ≠ t) :
    (s.setCall t c).calls t' = s.calls t' := by
  unfold setCall
  exact Function.update_of_ne hne ..

theorem callsLeft_setCall (s : EventLoop ι τ) (t : Thread ι) (c : Call) :
    (s.setCall t c).callsLeft + (s.calls t).left = s.callsLeft + c.left := by
  cases t with
  | loop =>
    have hothers : ∀ i, (s.setCall .loop c).calls (.producer i) = s.calls (.producer i) := fun i =>
      calls_setCall_of_ne s c (by simp)
    simp only [callsLeft, calls_setCall, hothers]
    omega
  | producer i =>
    have hloop : (s.setCall (.producer i) c).calls .loop = s.calls .loop := calls_setCall_of_ne s c (by simp)
    have hsum : ∑ j, ((s.setCall (.producer i) c).calls (.producer j)).left + (s.calls (.producer i)).left =
        ∑ j, (s.calls (.producer j)).left + c.left := by
      refine sum_change (k := i) ?_ fun j hj => ?_
      · rw [calls_setCall]
        exact Nat.add_comm ..
      · exact congrArg Call.left (calls_setCall_of_ne s c (by simpa using hj))
    simp only [callsLeft, hloop]
    omega

omit [DecidableEq ι] in
/-- A step of the loop's thread itself. -/
theorem toDo_lt_of_loop (hcalls : s'.calls = s.calls) (hless : s'.loopLeft < s.loopLeft) : s'.toDo < s.toDo := by
  have hsame : s'.callsLeft = s.callsLeft := by simp only [callsLeft, hcalls]
  rw [toDo, toDo, hsame]
  exact Nat.add_lt_add_left hless _

theorem Drain.less (h : Drain s s') : s'.toDo < s.toDo := by
  cases h with
  | skip t at_ flag =>
    have hcalls := callsLeft_setCall s t .none
    have hloop : (s.setCall t .none).loopLeft = s.loopLeft := rfl
    rw [at_] at hcalls
    simp only [toDo, hloop, Call.left] at hcalls ⊢
    omega
  | notify t at_ flag =>
    have hcalls := callsLeft_setCall s t .wakeup
    have hloop : (s.setCall t .wakeup).loopLeft = s.loopLeft := rfl
    rw [at_] at hcalls
    simp only [toDo, hloop, Call.left] at hcalls ⊢
    omega
  | wakeup t at_ =>
    have hcalls := callsLeft_setCall s t .none
    have hsame : (s.wakeup.setCall t .none).callsLeft = (s.setCall t .none).callsLeft := by rw [wakeup_frame]; rfl
    have hloop : (s.wakeup.setCall t .none).loopLeft ≤ s.loopLeft + 8 := by
      rw [wakeup_frame]
      have hbool := Bool.toNat_le s.wakeup.ready
      simp only [loopLeft, setCall]
      omega
    rw [at_] at hcalls
    simp only [toDo, hsame, Call.left] at hcalls ⊢
    omega
  | begin at_ idle | again at_ flag | stop at_ flag | awake activeChannel at_ | callback rest at_
  | callbackReturn rest at_ idle | handled at_ | task task rest at_ | taskReturn rest at_ idle | ranAll at_ =>
    refine toDo_lt_of_loop rfl ?_
    simp only [loopLeft, at_, LoopAt.left, LoopAt.taken, List.length_cons, List.length_nil]
    omega
  | poll at_ pending =>
    refine toDo_lt_of_loop rfl ?_
    have hbefore : s.loopLeft = 2 * s.mTasks.length + 9 := by simp [loopLeft, at_, pending.1, LoopAt.left]
    have hafter : (s.report [.wakeup]).loopLeft = 2 * s.mTasks.length + 8 := by
      simp [loopLeft, report, LoopAt.left]
    omega
  | wakeupRead rest at_ =>
    refine toDo_lt_of_loop rfl ?_
    simp only [loopLeft, at_, EventLoop.wakeupRead, LoopAt.left, LoopAt.taken, List.length_cons]
    omega
  | swap at_ =>
    refine toDo_lt_of_loop rfl ?_
    simp only [loopLeft, at_, EventLoop.swap, LoopAt.left, LoopAt.taken, List.length_nil]
    omega

end

/-- No call is under way. The loop waits in `epoll_wait` and has run all that was pushed, or it has returned
because of `Quit` and has run all but what it leaves in `mTasks`. -/
structure AtRest (s : EventLoop ι τ) : Prop where
  calls : ∀ t, s.calls t = .none
  loop : s.loop = .poll ∧ s.mQuit = false ∧ s.ran = s.pushed ∨
    s.loop = .stopped ∧ s.mQuit = true ∧ s.ran ++ s.mTasks = s.pushed

theorem Reachable.quit_of_stopped (h : s.Reachable) (hstopped : s.loop = .stopped) : s.mQuit = true := by
  refine Lib.Reachable.invariant (P := fun s : EventLoop ι τ => s.loop = .stopped → s.mQuit = true) ?_ ?_ h
    hstopped
  · rintro _ rfl hnew
    cases hnew
  · intro s s' hs hstep hstopped
    cases hstep with
    | quit t may => rfl
    | stop at_ flag => exact flag
    | push t task may | skip t at_ flag | notify t at_ flag => exact hs hstopped
    | wakeup t at_ =>
      rw [wakeup_frame] at hstopped ⊢
      exact hs hstopped
    | _ => cases hstopped

theorem calls_of_final (h : Final Drain s) (t : Thread ι) : s.calls t = .none := by
  cases hcall : s.calls t with
  | none => rfl
  | wakeup => exact absurd (.wakeup t hcall) (h _)
  | notify =>
    cases hflag : s.isWakeup with
    | true => exact absurd (.skip t hcall hflag) (h _)
    | false => exact absurd (.notify t hcall hflag) (h _)

/-- A loop that cannot go on waits with no wakeup pending, or has returned. -/
theorem loop_of_final (h : Final Drain s) : s.loop = .poll ∧ ¬ s.WakeupPending ∨ s.loop = .stopped := by
  have hidle := calls_of_final h .loop
  cases hat : s.loop with
  | start => exact absurd (.begin hat hidle) (h _)
  | check =>
    cases hquit : s.mQuit with
    | true => exact absurd (.stop hat hquit) (h _)
    | false => exact absurd (.again hat hquit) (h _)
  | poll => exact Or.inl ⟨rfl, fun hpending => h _ (.poll hat hpending)⟩
  | polled activeChannel => exact absurd (.awake _ hat) (h _)
  | events activeChannel =>
    cases activeChannel with
    | nil => exact absurd (.handled hat) (h _)
    | cons ch rest =>
      cases ch with
      | wakeup => exact absurd (.wakeupRead rest hat) (h _)
      | user => exact absurd (.callback rest hat) (h _)
  | callback rest => exact absurd (.callbackReturn rest hat hidle) (h _)
  | doTask => exact absurd (.swap hat) (h _)
  | tasks rest =>
    cases rest with
    | nil => exact absurd (.ranAll hat) (h _)
    | cons task rest => exact absurd (.task task rest hat) (h _)
  | task rest => exact absurd (.taskReturn rest hat hidle) (h _)
  | stopped => exact Or.inr rfl

theorem atRest_of_final (hreach : s.Reachable) (h : Final Drain s) : s.AtRest := by
  have hinv := hreach.inv
  have hcalls := calls_of_final h
  have horder := hinv.order
  rcases loop_of_final h with ⟨hat, hpending⟩ | hat
  · -- over a task or a request to quit a wakeup would be pending
    have hsilent : ¬ s.Waking := by
      rintro (⟨t, ht⟩ | hwake)
      · exact ht (hcalls t)
      · exact hpending hwake
    have htasks : s.mTasks = [] := by
      by_contra hne
      exact hsilent (hinv.waiting (by simp [hat]) hne)
    refine ⟨hcalls, Or.inl ⟨hat, ?_, ?_⟩⟩
    · by_contra hquit
      exact hsilent (hinv.quitting hat (by simpa using hquit))
    · rw [horder, hat, htasks]
      simp
  · refine ⟨hcalls, Or.inr ⟨hat, hreach.quit_of_stopped hat, ?_⟩⟩
    rw [horder, hat]
    simp

/-- From every state of every run: if no call begins any more, the threads come to rest in whatever order
they go on, and the loop has run every task unless it was told to quit. -/
theorem drains_atRest [Fintype ι] (h : s.Reachable) :
    Ends Drain s ∧ ∀ s', ReflTransGen Drain s s' → Final Drain s' → s'.AtRest := by
  constructor
  · exact ends_of_measure (I := fun _ => True) toDo (fun _ _ _ _ => trivial) (fun _ _ _ hstep => hstep.less)
      trivial
  · intro s' hrun hfinal
    have hreach : s'.Reachable := by
      clear hfinal
      induction hrun with
      | refl => exact h
      | tail _ hlast ih => exact Lib.Reachable.tail ih hlast.step
    exact atRest_of_final hreach hfinal

/-- A task is pushed while the loop waits, and its producer has not yet looked at the flag. -/
theorem drains_atRest_pushed :
    ∃ s : EventLoop (Fin 1) Nat, s.loop = .poll ∧ s.pushed = [7] ∧ s.mWakeupFd = 0 ∧
      (Ends Drain s ∧ ∀ s', ReflTransGen Drain s s' → Final Drain s' → s'.AtRest) := by
  have start : (new : EventLoop (Fin 1) Nat).Reachable := .start rfl
  have polling := (start.tail (.begin rfl rfl)).tail (.again rfl rfl)
  have pushed := polling.tail (.push (.producer 0) 7 ⟨rfl, by simp⟩)
  exact ⟨_, rfl, rfl, rfl, drains_atRest pushed⟩

end EventLoop
end Knpnl.Event
