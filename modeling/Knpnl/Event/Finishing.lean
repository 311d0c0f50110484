import Knpnl.Event.Wakeup

/-!
# Which tasks a loop finishes before it returns

`Loop` tests `mQuit` and then polls, handles events and swaps the tasks. Once `mQuit` is set
a swap follows only if the loop is already past the test; otherwise the tasks that wait in
`mTasks` are dropped.
-/
namespace Knpnl.Event

open Function (update)
open Relation (ReflTransGen)

namespace LoopAt

variable {τ : Type*}

/-- Past the test of `mQuit`, with the swap still to come. -/
def BeforeSwap : LoopAt τ → Prop
  | poll | polled _ | events _ | callback _ | doTask => True
  | _ => False

end LoopAt

variable {ι τ : Type*} [DecidableEq ι]

/-- An event loop, and for each thread the place in `pushed` of the task of its last call, if
that was a call of `QueueInLoop`. -/
structure Observed (ι τ : Type*) where
  loop : EventLoop ι τ
  current : Thread ι → Option Nat

namespace Observed

variable {x y : Observed ι τ} {s s' : EventLoop ι τ} {t : Thread ι} {k n : Nat}

def new : Observed ι τ := ⟨.new, fun _ => none⟩

/-- What a step of the loop shows: a call that begins has pushed a task, or set `mQuit`. -/
def observe (x : Observed ι τ) (s' : EventLoop ι τ) : Observed ι τ where
  loop := s'
  current t :=
    if x.loop.calls t = .none ∧ s'.calls t = .notify then
      if x.loop.pushed.length < s'.pushed.length then some x.loop.pushed.length else none
    else x.current t

def Reachable (x : Observed ι τ) : Prop :=
  Lib.Reachable (· = new) (fun x y => ∃ s', x.loop.Step s' ∧ y = x.observe s') x

/-- The call of `QueueInLoop` that pushed the task at place `k` has returned. -/
def Completed (x : Observed ι τ) (k : Nat) : Prop :=
  k < x.loop.pushed.length ∧ ∀ t, x.current t = some k → x.loop.calls t = .none

/-- Thread `t` calls `Quit`. -/
def quit (x : Observed ι τ) (t : Thread ι) : EventLoop ι τ :=
  ({ x.loop with mQuit := true } : EventLoop ι τ).setCall t .notify

/-- However the run goes on, when `Loop` has returned the tasks whose calls had completed
before `t` called `Quit` have been run. -/
def FinishesTasks (x : Observed ι τ) (t : Thread ι) : Prop :=
  ∀ s', ReflTransGen EventLoop.Step (x.quit t) s' → s'.loop = .stopped →
    ∀ k, x.Completed k → ∃ task, x.loop.pushed[k]? = some task ∧ s'.ran[k]? = some task

/-- The same at every first call of `Quit`. -/
def LoopFinishes (ι τ : Type*) [DecidableEq ι] : Prop :=
  ∀ (x : Observed ι τ) (t : Thread ι), x.Reachable → x.loop.MayCall t → x.loop.mQuit = false →
    x.FinishesTasks t

/-- `mQuit` is set, and the first `n` tasks pushed are swapped out or will be. -/
structure Finishing (n : Nat) (s : EventLoop ι τ) : Prop where
  inv : s.Inv
  flag : s.mQuit = true
  pushed : n ≤ s.pushed.length
  taken : s.loop.BeforeSwap ∨ n ≤ (s.ran ++ s.loop.taken).length

/-- The loop moves on past the swap, or before it. -/
theorem Finishing.move (h : Finishing n s) (hstep : s.Step s') (hpushed : s'.pushed = s.pushed)
    (hflag : s'.mQuit = s.mQuit) (hbefore : s.loop.BeforeSwap → s'.loop.BeforeSwap)
    (htaken : s'.ran ++ s'.loop.taken = s.ran ++ s.loop.taken) : Finishing n s' where
  inv := hstep.inv h.inv
  flag := hflag.trans h.flag
  pushed := hpushed ▸ h.pushed
  taken := by
    rw [htaken]
    exact h.taken.imp_left hbefore

theorem Finishing.step (h : Finishing n s) (hstep : s.Step s') : Finishing n s' := by
  cases hstep with
  | push t task may =>
    refine ⟨(EventLoop.Step.push t task may).inv h.inv, h.flag, ?_, h.taken⟩
    show n ≤ (s.pushed ++ [task]).length
    have hle := h.pushed
    rw [List.length_append]
    omega
  | quit t may => exact ⟨(EventLoop.Step.quit t may).inv h.inv, rfl, h.pushed, h.taken⟩
  | skip t at_ flag => exact h.move (.skip t at_ flag) rfl rfl id rfl
  | notify t at_ flag => exact h.move (.notify t at_ flag) rfl rfl id rfl
  | wakeup t at_ =>
    have hstep := EventLoop.Step.wakeup t at_
    rw [EventLoop.wakeup_frame] at hstep ⊢
    exact h.move hstep rfl rfl id rfl
  | begin at_ idle => exact h.move (.begin at_ idle) rfl rfl (by rw [at_]; exact id) (by simp [at_])
  | again at_ flag =>
    rw [h.flag] at flag
    cases flag
  | stop at_ flag => exact h.move (.stop at_ flag) rfl rfl (by rw [at_]; exact id) (by simp [at_])
  | poll activeChannel at_ can =>
    exact h.move (.poll activeChannel at_ can) rfl rfl (fun _ => trivial) (by simp [EventLoop.report, at_])
  | awake activeChannel at_ =>
    exact h.move (.awake activeChannel at_) rfl rfl (fun _ => trivial) (by simp [at_])
  | wakeupRead rest at_ =>
    exact h.move (.wakeupRead rest at_) rfl rfl (fun _ => trivial) (by simp [EventLoop.wakeupRead, at_])
  | callback rest at_ => exact h.move (.callback rest at_) rfl rfl (fun _ => trivial) (by simp [at_])
  | callbackReturn rest at_ idle =>
    exact h.move (.callbackReturn rest at_ idle) rfl rfl (fun _ => trivial) (by simp [at_])
  | handled at_ => exact h.move (.handled at_) rfl rfl (fun _ => trivial) (by simp [at_])
  | swap at_ =>
    -- all that had been pushed is swapped out now
    refine ⟨(EventLoop.Step.swap at_).inv h.inv, h.flag, h.pushed, Or.inr ?_⟩
    have horder := h.inv.order
    rw [at_] at horder
    have hle := h.pushed
    rw [horder] at hle
    show n ≤ (s.ran ++ s.mTasks).length
    simpa using hle
  | task task rest at_ => exact h.move (.task task rest at_) rfl rfl (by rw [at_]; exact id) (by simp [at_])
  | taskReturn rest at_ idle =>
    exact h.move (.taskReturn rest at_ idle) rfl rfl (by rw [at_]; exact id) (by simp [at_])
  | ranAll at_ => exact h.move (.ranAll at_) rfl rfl (by rw [at_]; exact id) (by simp [at_])

theorem Finishing.run (h : Finishing n s) (hrun : ReflTransGen EventLoop.Step s s') : Finishing n s' := by
  induction hrun with
  | refl => exact h
  | tail _ hstep ih => exact ih.step hstep

omit [DecidableEq ι] in
/-- When `Loop` has returned the first `n` tasks have been run. -/
theorem Finishing.stopped (h : Finishing n s) (hstopped : s.loop = .stopped) : n ≤ s.ran.length := by
  rcases h.taken with hbefore | htaken
  · rw [hstopped] at hbefore
    exact hbefore.elim
  · simpa [hstopped] using htaken

/-- Tasks are only added at the end. -/
theorem pushed_prefix (hrun : ReflTransGen EventLoop.Step s s') : s.pushed <+: s'.pushed := by
  induction hrun with
  | refl => exact List.prefix_refl _
  | tail _ hstep ih =>
    refine ih.trans ?_
    cases hstep with
    | push t task may => exact List.prefix_append _ _
    | wakeup t at_ =>
      rw [EventLoop.wakeup_frame]
      exact List.prefix_refl _
    | _ => exact List.prefix_refl _

/-- The loop's own call goes on to its end. -/
theorem finish_call (s : EventLoop ι τ) : ∃ s', ReflTransGen EventLoop.Step s s' ∧
    s'.calls .loop = .none ∧ s'.loop = s.loop ∧ s'.ran = s.ran ∧ s'.mQuit = s.mQuit := by
  have hend : ∀ s : EventLoop ι τ, s.calls .loop = .wakeup → ∃ s', ReflTransGen EventLoop.Step s s' ∧
      s'.calls .loop = .none ∧ s'.loop = s.loop ∧ s'.ran = s.ran ∧ s'.mQuit = s.mQuit := by
    intro s hcall
    have hstep := EventLoop.Step.wakeup _ hcall
    rw [EventLoop.wakeup_frame] at hstep
    exact ⟨_, .single hstep, EventLoop.calls_setCall s .loop .none, rfl, rfl, rfl⟩
  cases hcall : s.calls .loop with
  | none => exact ⟨s, .refl, hcall, rfl, rfl, rfl⟩
  | wakeup => exact hend s hcall
  | notify =>
    cases hflag : s.isWakeup with
    | true => exact ⟨_, .single (.skip _ hcall hflag), EventLoop.calls_setCall s _ _, rfl, rfl, rfl⟩
    | false =>
      obtain ⟨s', hrun, h⟩ := hend (s.setCall .loop .wakeup) (EventLoop.calls_setCall s _ _)
      exact ⟨s', .head (.notify _ hcall hflag) hrun, h⟩

/-- A batch is run to its end, and `Loop` returns. -/
theorem finish_batch (rest : List τ) : ∀ s : EventLoop ι τ, s.loop = .tasks rest →
    s.calls .loop = .none → s.mQuit = true →
    ∃ s', ReflTransGen EventLoop.Step s s' ∧ s'.loop = .stopped ∧ s'.ran = s.ran ++ rest := by
  induction rest with
  | nil =>
    intro s hat _ hquit
    have hchecked := (ReflTransGen.single (EventLoop.Step.ranAll hat)).tail (.stop rfl hquit)
    exact ⟨_, hchecked, rfl, (List.append_nil s.ran).symm⟩
  | cons task rest ih =>
    intro s hat hidle hquit
    obtain ⟨s', hrun, hstopped, hran⟩ :=
      ih { s with loop := .tasks rest, ran := s.ran ++ [task] } rfl hidle hquit
    refine ⟨s', ?_, hstopped, by rw [hran, List.append_assoc, List.singleton_append]⟩
    exact .head (.task task rest hat) (.head (.taskReturn rest rfl hidle) hrun)

/-- With `mQuit` set and no swap to come, `Loop` can return after the tasks it has taken. -/
theorem finish_loop {s : EventLoop ι τ} (hquit : s.mQuit = true) (hpast : ¬ s.loop.BeforeSwap) :
    ∃ s', ReflTransGen EventLoop.Step s s' ∧ s'.loop = .stopped ∧ s'.ran = s.ran ++ s.loop.taken := by
  obtain ⟨s₁, hrun₁, hidle, hloop, hran, hquit₁⟩ := finish_call s
  rw [hquit] at hquit₁
  cases hat : s.loop with
  | start =>
    rw [hat] at hloop
    have hchecked := (hrun₁.tail (.begin hloop hidle)).tail (.stop rfl hquit₁)
    exact ⟨_, hchecked, rfl, hran.trans (List.append_nil s.ran).symm⟩
  | check =>
    rw [hat] at hloop
    exact ⟨_, hrun₁.tail (.stop hloop hquit₁), rfl, hran.trans (List.append_nil s.ran).symm⟩
  | tasks rest =>
    rw [hat] at hloop
    obtain ⟨s₂, hrun₂, hstopped, hran₂⟩ := finish_batch rest s₁ hloop hidle hquit₁
    exact ⟨s₂, hrun₁.trans hrun₂, hstopped, by rw [hran₂, hran]; rfl⟩
  | task rest =>
    rw [hat] at hloop
    obtain ⟨s₂, hrun₂, hstopped, hran₂⟩ :=
      finish_batch rest { s₁ with loop := .tasks rest } rfl hidle hquit₁
    refine ⟨s₂, hrun₁.trans (.head (.taskReturn rest hloop hidle) hrun₂), hstopped, ?_⟩
    rw [hran₂]
    exact congrArg (· ++ rest) hran
  | stopped => exact ⟨s, .refl, hat, (List.append_nil s.ran).symm⟩
  | _ =>
    rw [hat] at hpast
    exact absurd trivial hpast

theorem Reachable.inv (h : x.Reachable) : x.loop.Inv := by
  apply Lib.Reachable.invariant (P := fun x : Observed ι τ => x.loop.Inv) ?_ ?_ h
  · rintro _ rfl
    exact EventLoop.inv_new
  · rintro x _ hinv ⟨s', hstep, rfl⟩
    exact hstep.inv hinv

/-- At the first call of `Quit`, the tasks whose calls have completed are all run before
`Loop` returns if and only if a swap is still to come, or all of them have been swapped out. -/
theorem finishesTasks_iff (h : x.Reachable) (may : x.loop.MayCall t) :
    x.FinishesTasks t ↔ x.loop.loop.BeforeSwap ∨
      ∀ k, x.Completed k → k < (x.loop.ran ++ x.loop.loop.taken).length := by
  constructor
  · intro hfinishes
    by_contra hnot
    obtain ⟨hpast, hdropped⟩ := not_or.mp hnot
    apply hdropped
    intro k hk
    obtain ⟨s', hrun, hstopped, hran⟩ := finish_loop (s := x.quit t) rfl hpast
    obtain ⟨task, _, htask⟩ := hfinishes s' hrun hstopped k hk
    rw [hran] at htask
    exact (List.getElem?_eq_some_iff.mp htask).1
  · intro hcond s' hrun hstopped k hk
    have hinv : (x.quit t).Inv := (EventLoop.Step.quit t may).inv h.inv
    have hk' : k < s'.ran.length := by
      rcases hcond with hbefore | hswapped
      · have hall : Finishing x.loop.pushed.length (x.quit t) := ⟨hinv, rfl, Nat.le_refl _, Or.inl hbefore⟩
        exact Nat.lt_of_lt_of_le hk.1 ((hall.run hrun).stopped hstopped)
      · have hupto : Finishing (k + 1) (x.quit t) := ⟨hinv, rfl, hk.1, Or.inr (hswapped k hk)⟩
        exact (hupto.run hrun).stopped hstopped
    -- what has been run is what was pushed first
    obtain ⟨later, hlater⟩ : (x.quit t).pushed <+: s'.pushed := pushed_prefix hrun
    have hnone : Finishing 0 (x.quit t) := ⟨hinv, rfl, Nat.zero_le _, Or.inr (Nat.zero_le _)⟩
    have horder : s'.pushed = s'.ran ++ s'.loop.taken ++ s'.mTasks := (hnone.run hrun).inv.order
    have hsame : s'.ran[k]? = x.loop.pushed[k]? := by
      calc s'.ran[k]? = s'.pushed[k]? := by
            rw [horder, List.append_assoc, List.getElem?_append_left hk']
        _ = (x.quit t).pushed[k]? := by
            rw [← hlater, List.getElem?_append_left (show k < (x.quit t).pushed.length from hk.1)]
    obtain ⟨hlt, _⟩ := hk
    exact ⟨x.loop.pushed[k], List.getElem?_eq_getElem hlt, hsame.trans (List.getElem?_eq_getElem hlt)⟩

/-- The loop is in `poll` when a producer calls `Quit` after having queued a task. -/
theorem finishesTasks_poll :
    ∃ x : Observed (Fin 1) Nat, x.loop.mTasks = [7] ∧ x.Completed 0 ∧ x.FinishesTasks (.producer 0) := by
  have fresh : (new : Observed (Fin 1) Nat).Reachable := .start rfl
  have polling := (fresh.tail ⟨_, .begin rfl rfl, rfl⟩).tail ⟨_, .again rfl rfl, rfl⟩
  have pushed := polling.tail ⟨_, .push (.producer 0) 7 ⟨rfl, by simp⟩, rfl⟩
  have notified := pushed.tail ⟨_, .notify (.producer 0) rfl rfl, rfl⟩
  have queued := notified.tail ⟨_, .wakeup (.producer 0) rfl, rfl⟩
  have hfinishes := (finishesTasks_iff (t := .producer 0) queued ⟨rfl, by simp⟩).mpr (Or.inl trivial)
  refine ⟨_, rfl, ⟨by exact Nat.zero_lt_one, fun t _ => ?_⟩, hfinishes⟩
  cases t with
  | loop => rfl
  | producer i => rw [Subsingleton.elim i 0]; rfl

/-- A task is queued, and then `Quit` called, while the loop is running an earlier batch. -/
theorem loopFinishes_batch : ¬ LoopFinishes (Fin 1) Nat := by
  intro hclaim
  have fresh : (new : Observed (Fin 1) Nat).Reachable := .start rfl
  have polling := (fresh.tail ⟨_, .begin rfl rfl, rfl⟩).tail ⟨_, .again rfl rfl, rfl⟩
  have polled := polling.tail ⟨_, .poll [] rfl (by simp [EventLoop.CanReport]), rfl⟩
  have awake := polled.tail ⟨_, .awake [] rfl, rfl⟩
  have batch := (awake.tail ⟨_, .handled rfl, rfl⟩).tail ⟨_, .swap rfl, rfl⟩
  have pushed := batch.tail ⟨_, .push (.producer 0) 7 ⟨rfl, by simp⟩, rfl⟩
  have notified := pushed.tail ⟨_, .notify (.producer 0) rfl rfl, rfl⟩
  have queued := notified.tail ⟨_, .wakeup (.producer 0) rfl, rfl⟩
  have hfinishes := hclaim _ (.producer 0) queued ⟨rfl, by simp⟩ rfl
  have hreturns := hfinishes _ ((ReflTransGen.single (.ranAll rfl)).tail (.stop rfl rfl)) rfl 0
  obtain ⟨task, _, htask⟩ := hreturns ⟨Nat.zero_lt_one, fun t _ => by
    cases t with
    | loop => rfl
    | producer i => rw [Subsingleton.elim i 0]; rfl⟩
  cases htask

end Observed
end Knpnl.Event
