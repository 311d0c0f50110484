import Knpnl.Event.EventLoop

/-!
# No task and no wakeup of an event loop is lost

Outside the stretch between setting `isWakeup` and swapping the tasks the flag is false,
so a thread that has pushed a task there goes on to write `mWakeupFd`: until a swap, a
waiting task has a call under way or a wakeup pending. Inside it no wakeup is needed.
-/
namespace Knpnl.Event

namespace LoopAt

variable {τ : Type*}

/-- The tasks that were swapped out and not begun. -/
@[simp] def taken : LoopAt τ → List τ
  | tasks rest | task rest => rest
  | _ => []

/-- The channels that were reported and not handled. -/
@[simp] def active : LoopAt τ → List Active
  | polled activeChannel | events activeChannel | callback activeChannel => activeChannel
  | _ => []

/-- Between setting the flag and the swap. -/
@[simp] def Awake : LoopAt τ → Prop
  | events _ | callback _ | doTask => True
  | _ => False

/-- Between the swap and the return of `poll`. -/
@[simp] def Asleep : LoopAt τ → Prop
  | start | tasks _ | task _ | check | poll => True
  | _ => False

theorem Asleep.active {l : LoopAt τ} (h : l.Asleep) : l.active = [] := by
  cases l <;> first | rfl | exact h.elim

theorem Asleep.not_awake {l : LoopAt τ} (h : l.Asleep) : ¬ l.Awake := by
  cases l <;> first | exact id | exact h.elim

end LoopAt

namespace EventLoop

variable {ι τ : Type*} {s s' : EventLoop ι τ}

/-- `epoll_wait` will report `mWakeupFd`. -/
def WakeupPending (s : EventLoop ι τ) : Prop := s.ready = true ∧ 0 < s.mWakeupFd

/-- A wakeup is pending, or a thread is between its push, or its write of `mQuit`, and the
end of its call. -/
def Waking (s : EventLoop ι τ) : Prop := (∃ t, s.calls t ≠ .none) ∨ s.WakeupPending

structure Inv (s : EventLoop ι τ) : Prop where
  order : s.pushed = s.ran ++ s.loop.taken ++ s.mTasks
  flag : s.isWakeup = true → s.loop.Awake
  own : ¬ s.loop.InCallback → s.calls .loop = .none
  reported : 0 < s.mWakeupFd → s.ready = true ∨ .wakeup ∈ s.loop.active
  waiting : s.loop.Asleep → s.mTasks ≠ [] → s.Waking
  quitting : s.loop = .poll → s.mQuit = true → s.Waking

theorem inv_new : Inv (new : EventLoop ι τ) where
  order := rfl
  flag h := by cases h
  own _ := rfl
  reported h := by cases h
  waiting _ h := absurd rfl h
  quitting h := by cases h

/-- A thread that is in a call is a producer, or the loop is in a callback. -/
theorem Inv.inCallback (h : s.Inv) {t : Thread ι} (hcall : s.calls t ≠ .none) (ht : t = .loop) :
    s.loop.InCallback := by
  by_contra hout
  exact hcall (ht ▸ h.own hout)

/-- `poll` returns. A wakeup it reports is read before the tasks are swapped. -/
theorem Inv.report (h : s.Inv) (hat : s.loop = .poll) (activeChannel : List Active) :
    (s.report activeChannel).Inv where
  order := by
    have horder := h.order
    rwa [hat] at horder
  flag hflag := by
    have hawake := h.flag hflag
    rw [hat] at hawake
    exact hawake.elim
  own _ := h.own (by rw [hat]; exact id)
  reported hpos := by
    have hready := h.reported hpos
    rw [hat] at hready
    by_cases hmem : Active.wakeup ∈ activeChannel
    · exact Or.inr hmem
    · left
      simp [EventLoop.report, hmem, hready.resolve_right (by simp)]
  waiting hasleep := hasleep.elim
  quitting hpoll := by cases hpoll

/-- The loop moves on and its flag stays. -/
theorem Inv.move (h : s.Inv) {l : LoopAt τ} (hin : ¬ s.loop.InCallback ∨ s.calls .loop = .none)
    (htaken : l.taken = s.loop.taken) (hactive : .wakeup ∈ s.loop.active → .wakeup ∈ l.active)
    (hawake : s.loop.Awake → l.Awake) (hasleep : l.Asleep → s.loop.Asleep)
    (hpoll : l = .poll → s.mQuit = false) : ({ s with loop := l } : EventLoop ι τ).Inv where
  order := by
    rw [h.order, htaken]
  flag hflag := hawake (h.flag hflag)
  own _ := hin.elim h.own id
  reported hpos := (h.reported hpos).imp id hactive
  waiting hl htasks := h.waiting (hasleep hl) htasks
  quitting hl hquit := by
    rw [hpoll hl] at hquit
    cases hquit

/-- `isWakeup` is set after `poll`. -/
theorem Inv.awake (h : s.Inv) {activeChannel : List Active} (hat : s.loop = .polled activeChannel) :
    ({ s with loop := .events activeChannel, isWakeup := true } : EventLoop ι τ).Inv where
  order := by
    have horder := h.order
    rwa [hat] at horder
  flag _ := trivial
  own _ := h.own (by simp [hat])
  reported hpos := by
    have hready := h.reported hpos
    rwa [hat] at hready
  waiting hasleep := hasleep.elim
  quitting hpoll := by cases hpoll

/-- The reported wakeup is read. -/
theorem Inv.wakeupRead (h : s.Inv) {rest : List Active} (hat : s.loop = .events (.wakeup :: rest)) :
    ({ s.wakeupRead with loop := .events rest } : EventLoop ι τ).Inv where
  order := by
    have horder := h.order
    rwa [hat] at horder
  flag _ := trivial
  own _ := h.own (by simp [hat])
  reported hpos := absurd hpos (Nat.lt_irrefl 0)
  waiting hasleep := hasleep.elim
  quitting hpoll := by cases hpoll

/-- The tasks are swapped out: none is waiting. -/
theorem Inv.swap (h : s.Inv) (hat : s.loop = .doTask) : s.swap.Inv where
  order := by
    rw [show s.swap.pushed = s.pushed from rfl, h.order, hat]
    simp [EventLoop.swap]
  flag hflag := by cases hflag
  own _ := h.own (by simp [hat])
  reported hpos := by
    have hready := h.reported hpos
    rwa [hat] at hready
  waiting _ htasks := absurd rfl htasks
  quitting hpoll := by cases hpoll

/-- The next task is begun. -/
theorem Inv.task (h : s.Inv) {task : τ} {rest : List τ} (hat : s.loop = .tasks (task :: rest)) :
    ({ s with loop := .task rest, ran := s.ran ++ [task] } : EventLoop ι τ).Inv where
  order := by
    simp [h.order, hat]
  flag hflag := by
    have hawake := h.flag hflag
    rw [hat] at hawake
    exact hawake.elim
  own hout := absurd trivial hout
  reported hpos := by
    have hready := h.reported hpos
    rwa [hat] at hready
  waiting _ htasks := h.waiting (by simp [hat]) htasks
  quitting hpoll := by cases hpoll

/-- After a write `mWakeupFd` can be read, and is ready or reported. -/
theorem Inv.written (h : s.Inv) :
    0 < s.wakeup.mWakeupFd ∧ (s.wakeup.ready = true ∨ .wakeup ∈ s.loop.active) := by
  unfold EventLoop.wakeup
  by_cases hmax : s.mWakeupFd < eventfdMax
  · rw [if_pos hmax]
    exact ⟨Nat.succ_pos _, Or.inl rfl⟩
  · rw [if_neg hmax]
    have hpos : 0 < s.mWakeupFd := Nat.lt_of_lt_of_le (by decide) (Nat.le_of_not_lt hmax)
    exact ⟨hpos, h.reported hpos⟩

variable [DecidableEq ι]

theorem calls_setCall (s : EventLoop ι τ) (t : Thread ι) (c : Call) : (s.setCall t c).calls t = c :=
  Function.update_self ..

/-- A call that is under way will see to it. -/
theorem waking_setCall (s : EventLoop ι τ) (t : Thread ι) {c : Call} (h : c ≠ .none) :
    (s.setCall t c).Waking := Or.inl ⟨t, by rwa [calls_setCall]⟩

/-- The loop's own calls are made in callbacks. -/
theorem Inv.own_setCall (h : s.Inv) {t : Thread ι} (c : Call) (hin : t = .loop → s.loop.InCallback) :
    ¬ s.loop.InCallback → (s.setCall t c).calls .loop = .none := by
  intro hout
  have hne : Thread.loop ≠ t := fun he => hout (hin he.symm)
  exact (Function.update_of_ne hne c s.calls).trans (h.own hout)

/-- Beginning or going on with a call. -/
theorem Inv.setCall (h : s.Inv) {t : Thread ι} {c : Call} (hc : c ≠ .none)
    (hin : t = .loop → s.loop.InCallback) : (s.setCall t c).Inv where
  order := h.order
  flag := h.flag
  own := h.own_setCall c hin
  reported := h.reported
  waiting _ _ := waking_setCall s t hc
  quitting _ _ := waking_setCall s t hc

/-- After a push. -/
theorem Inv.push (h : s.Inv) {t : Thread ι} (task : τ) (hin : t = .loop → s.loop.InCallback) :
    ((s.push_back task).setCall t .notify).Inv where
  order := by
    simp only [EventLoop.setCall, push_back, h.order, List.append_assoc]
  flag := h.flag
  own := h.own_setCall _ hin
  reported := h.reported
  waiting _ _ := waking_setCall _ t (by decide)
  quitting _ _ := waking_setCall _ t (by decide)

/-- After a write of `mQuit`. -/
theorem Inv.quit (h : s.Inv) {t : Thread ι} (hin : t = .loop → s.loop.InCallback) :
    (({ s with mQuit := true } : EventLoop ι τ).setCall t .notify).Inv where
  order := h.order
  flag := h.flag
  own := h.own_setCall _ hin
  reported := h.reported
  waiting _ _ := waking_setCall _ t (by decide)
  quitting _ _ := waking_setCall _ t (by decide)

/-- A call ends without a write only while the loop is awake. -/
theorem Inv.skip (h : s.Inv) {t : Thread ι} (hcall : s.calls t ≠ .none) (hflag : s.isWakeup = true) :
    (s.setCall t .none).Inv where
  order := h.order
  flag := h.flag
  own := h.own_setCall _ (h.inCallback hcall)
  reported := h.reported
  waiting hasleep := absurd (h.flag hflag) hasleep.not_awake
  quitting hpoll := by
    have hawake := h.flag hflag
    rw [show s.loop = .poll from hpoll] at hawake
    exact hawake.elim

/-- A write changes the eventfd only. -/
theorem wakeup_frame (s : EventLoop ι τ) (c : Call) (t : Thread ι) :
    s.wakeup.setCall t c =
      { s.setCall t c with mWakeupFd := s.wakeup.mWakeupFd, ready := s.wakeup.ready } := by
  unfold EventLoop.wakeup
  split <;> rfl

/-- A call ends with a write: a sleeping loop then has a wakeup pending. -/
theorem Inv.wakeup (h : s.Inv) {t : Thread ι} (hcall : s.calls t ≠ .none) :
    (s.wakeup.setCall t .none).Inv := by
  obtain ⟨hpos, hready⟩ := h.written
  have hpending : s.loop.Asleep → (s.wakeup.setCall t .none).Waking := by
    intro hasleep
    rw [hasleep.active] at hready
    rw [wakeup_frame]
    exact Or.inr ⟨hready.resolve_right (by simp), hpos⟩
  rw [wakeup_frame] at hpending ⊢
  constructor
  · exact h.order
  · exact h.flag
  · exact h.own_setCall _ (h.inCallback hcall)
  · exact fun _ => hready
  · exact fun hasleep _ => hpending hasleep
  · intro hpoll _
    exact hpending (by rw [show s.loop = .poll from hpoll]; trivial)

theorem Step.inv (h : s.Inv) (hstep : Step s s') : s'.Inv := by
  cases hstep with
  | push t task may => exact h.push task may.2
  | quit t may => exact h.quit may.2
  | skip t at_ flag => exact h.skip (by simp [at_]) flag
  | notify t at_ flag => exact h.setCall (by decide) (h.inCallback (by simp [at_]))
  | wakeup t at_ => exact h.wakeup (by simp [at_])
  | begin at_ idle => apply h.move (Or.inr idle) <;> simp [at_]
  | again at_ flag => apply h.move <;> simp [at_, flag]
  | stop at_ flag => apply h.move <;> simp [at_]
  | poll activeChannel at_ can => exact h.report at_ activeChannel
  | awake activeChannel at_ => exact h.awake at_
  | wakeupRead rest at_ => exact h.wakeupRead at_
  | callback rest at_ => apply h.move <;> simp [at_]
  | callbackReturn rest at_ idle => apply h.move (Or.inr idle) <;> simp [at_]
  | handled at_ => apply h.move <;> simp [at_]
  | swap at_ => exact h.swap at_
  | task t rest at_ => exact h.task at_
  | taskReturn rest at_ idle => apply h.move (Or.inr idle) <;> simp [at_]
  | ranAll at_ => apply h.move <;> simp [at_]

theorem Reachable.inv (h : s.Reachable) : s.Inv := by
  apply Lib.Reachable.invariant ?_ ?_ h
  · rintro _ rfl
    exact inv_new
  · exact fun _ _ hinv hstep => hstep.inv hinv

/-- The loop sleeps with no wakeup pending and no call under way, over a task or a request
to quit. -/
structure Stuck (s : EventLoop ι τ) : Prop where
  blocked : s.loop = .poll
  silent : ¬ s.WakeupPending
  settled : ∀ i, s.calls (.producer i) = .none
  missed : s.mTasks ≠ [] ∨ s.mQuit = true

/-- The tasks begun, those swapped out and those waiting are the tasks pushed, in order, so
that the tasks begun are the first ones pushed. The loop never sleeps over a task or a
request to quit. -/
theorem eventLoop_no_loss (h : s.Reachable) :
    s.pushed = s.ran ++ s.loop.taken ++ s.mTasks ∧ s.ran <+: s.pushed ∧ ¬ s.Stuck := by
  have hinv := h.inv
  refine ⟨hinv.order, ⟨s.loop.taken ++ s.mTasks, ?_⟩, fun hstuck => ?_⟩
  · rw [← List.append_assoc, ← hinv.order]
  · have hwaking : s.Waking := by
      rcases hstuck.missed with htasks | hquit
      · exact hinv.waiting (by simp [hstuck.blocked]) htasks
      · exact hinv.quitting hstuck.blocked hquit
    rcases hwaking with ⟨t, ht⟩ | hpending
    · cases t with
      | loop => exact ht (hinv.own (by simp [hstuck.blocked]))
      | producer i => exact ht (hstuck.settled i)
    · exact hstuck.silent hpending

/-- A task wakes the loop; a second one is pushed while the flag is set, without a write. -/
theorem eventLoop_no_loss_two :
    ∃ s : EventLoop (Fin 2) Nat, s.ran = [7] ∧ s.loop.taken = [8] ∧
      s.pushed = s.ran ++ s.loop.taken ++ s.mTasks ∧ s.ran <+: s.pushed ∧ ¬ s.Stuck := by
  have start : (new : EventLoop (Fin 2) Nat).Reachable := .start rfl
  have polling := (start.tail (.begin rfl rfl)).tail (.again rfl rfl)
  have pushed := polling.tail (.push (.producer 0) 7 ⟨rfl, by simp⟩)
  have woken := (pushed.tail (.notify (.producer 0) rfl rfl)).tail (.wakeup (.producer 0) rfl)
  have awake := (woken.tail (.poll [.wakeup] rfl (fun _ => ⟨rfl, by decide⟩))).tail (.awake _ rfl)
  have raced := awake.tail (.push (.producer 1) 8 ⟨rfl, by simp⟩)
  have skipped := raced.tail (.skip (.producer 1) rfl rfl)
  have swapped := ((skipped.tail (.wakeupRead [] rfl)).tail (.handled rfl)).tail (.swap rfl)
  have running := swapped.tail (.task 7 [8] rfl)
  exact ⟨_, rfl, rfl, eventLoop_no_loss running⟩

end EventLoop
end Knpnl.Event
