import Knpnl.Base.ThreadPool

/-!
# The pool's queue is bounded and keeps every task

Whatever the order of producers, workers and `Stop`, and however often a wait ends for no
reason: a task is pushed only into a queue with room, and popped from the front by one
worker.
-/
namespace Knpnl.Base.ThreadPool

open Function (update)
open Lib

variable {ι τ : Type*} {workers : Nat} {s s' : ThreadPool ι τ workers} {qSize : Nat}

/-- The queue has its bound, the tasks accepted are those popped, in order, and those still
queued, and each popped task is held by one worker, once. -/
structure KeepsTasks (qSize : Nat) (s : ThreadPool ι τ workers) : Prop where
  bounded : s.mTasks.length ≤ qSize
  fifo : s.accepted = s.dequeued ++ s.mTasks
  held : ∀ k t, s.dequeued[k]? = some t → ∃! w, (k, t) ∈ s.held w
  popped : ∀ w k t, (k, t) ∈ s.held w → s.dequeued[k]? = some t
  once : ∀ w, (s.held w).Nodup
  running : ∀ w t, s.mThreads w = .running t → ∃ k, (s.held w).getLast? = some (k, t)

theorem keepsTasks_new (qSize : Nat) : (new : ThreadPool ι τ workers).KeepsTasks qSize where
  bounded := Nat.zero_le qSize
  fifo := rfl
  held k t h := by simp [new] at h
  popped w k t h := by simp [new] at h
  once w := List.nodup_nil
  running w t h := by cases h

namespace KeepsTasks

/-- Only threads move, and none of them into a task. -/
theorem move (h : s.KeepsTasks qSize) (hqueue : s'.mTasks = s.mTasks) (hacc : s'.accepted = s.accepted)
    (hdeq : s'.dequeued = s.dequeued) (hheld : s'.held = s.held)
    (hrun : ∀ w t, s'.mThreads w = .running t → s.mThreads w = .running t) : s'.KeepsTasks qSize where
  bounded := by rw [hqueue]; exact h.bounded
  fifo := by rw [hacc, hdeq, hqueue]; exact h.fifo
  held := by rw [hdeq, hheld]; exact h.held
  popped := by rw [hdeq, hheld]; exact h.popped
  once := by rw [hheld]; exact h.once
  running w t hw := by rw [hheld]; exact h.running w t (hrun w t hw)

/-- Another worker's places are older than the one popped now. -/
theorem place_lt (h : s.KeepsTasks qSize) {w : Fin workers} {k : Nat} {t : τ} (hk : (k, t) ∈ s.held w) :
    k < s.dequeued.length := (List.getElem?_eq_some_iff.mp (h.popped w k t hk)).1

theorem mem_held_pop (w v : Fin workers) (t u : τ) (rest : List τ) (k : Nat) :
    (k, u) ∈ (s.pop w t rest).held v ↔
      (k, u) ∈ s.held v ∨ v = w ∧ k = s.dequeued.length ∧ u = t := by
  show (k, u) ∈ update s.held w (s.held w ++ [(s.dequeued.length, t)]) v ↔ _
  by_cases hv : v = w
  · subst hv
    simp
  · simp [hv]

/-- The front of the queue is popped. -/
theorem pop (h : s.KeepsTasks qSize) {w : Fin workers} {t : τ} {rest : List τ}
    (hqueue : s.mTasks = t :: rest) (hidle : ∀ u, s.mThreads w ≠ .running u)
    (hstate : s'.mTasks = rest ∧ s'.accepted = s.accepted ∧ s'.dequeued = s.dequeued ++ [t])
    (hheld : s'.held = (s.pop w t rest).held) (hthreads : s'.mThreads = update s.mThreads w (.running t)) :
    s'.KeepsTasks qSize := by
  obtain ⟨htasks, hacc, hdeq⟩ := hstate
  have hself : s'.held w = s.held w ++ [(s.dequeued.length, t)] := by
    rw [hheld]
    exact Function.update_self w _ s.held
  refine ⟨?_, ?_, fun k u hk => ?_, fun v k u hk => ?_, fun v => ?_, fun v u hv => ?_⟩
  · have hbound := h.bounded
    rw [hqueue, List.length_cons] at hbound
    rw [htasks]
    omega
  · rw [hacc, hdeq, htasks, h.fifo, hqueue, List.append_assoc, List.singleton_append]
  · rw [hheld]
    simp only [mem_held_pop]
    rw [hdeq, List.getElem?_append] at hk
    split at hk
    · rename_i hlt
      obtain ⟨v, hv, hunique⟩ := h.held k u hk
      refine ⟨v, Or.inl hv, ?_⟩
      rintro y (hy | ⟨_, rfl, _⟩)
      · exact hunique y hy
      · exact absurd hlt (lt_irrefl _)
    · rename_i hge
      obtain ⟨hlen, hu⟩ := List.getElem?_eq_some_iff.mp hk
      have hk0 : k = s.dequeued.length := by
        rw [List.length_singleton] at hlen
        omega
      refine ⟨w, Or.inr ⟨rfl, hk0, by simpa [hk0] using hu.symm⟩, ?_⟩
      rintro y (hy | ⟨rfl, _⟩)
      · have := h.place_lt hy
        omega
      · rfl
  · rw [hheld, mem_held_pop] at hk
    rw [hdeq]
    rcases hk with hk | ⟨_, rfl, rfl⟩
    · rw [List.getElem?_append_left (h.place_lt hk)]
      exact h.popped v k u hk
    · exact List.getElem?_concat_length
  · by_cases hv : v = w
    · subst hv
      rw [hself]
      refine (h.once v).append (List.nodup_singleton _) ?_
      intro x hx hlast
      rw [List.mem_singleton.mp hlast] at hx
      exact absurd (h.place_lt hx) (lt_irrefl _)
    · have hother : s'.held v = s.held v := by
        rw [hheld]
        exact Function.update_of_ne hv _ s.held
      rw [hother]
      exact h.once v
  · rw [hthreads] at hv
    by_cases hvw : v = w
    · subst hvw
      rw [Function.update_self] at hv
      obtain rfl := Working.running.inj hv
      exact ⟨s.dequeued.length, by rw [hself, List.getLast?_concat]⟩
    · rw [Function.update_of_ne hvw] at hv
      have hother : s'.held v = s.held v := by
        rw [hheld]
        exact Function.update_of_ne hvw _ s.held
      rw [hother]
      exact h.running v u hv

end KeepsTasks

/-- A worker that is woken was not in its task. -/
theorem running_of_signal {c : Prop} {mThreads : Fin workers → Working τ}
    (h : SignalIf c Working.wake s.mThreads mThreads) {w : Fin workers} {t : τ}
    (hw : mThreads w = .running t) : s.mThreads w = .running t :=
  (h.at_iff rfl (by intro b; cases b <;> simp) w).mp hw

/-- A worker that moves elsewhere is in no task; the others stay where they are. -/
theorem running_of_update {w v : Fin workers} {a : Working τ} {t : τ} (ha : ∀ u, a ≠ .running u)
    (h : update s.mThreads w a v = .running t) : s.mThreads v = .running t := by
  by_cases hv : v = w
  · subst hv
    rw [Function.update_self] at h
    exact absurd h (ha t)
  · rwa [Function.update_of_ne hv] at h

theorem Step.keepsTasks [DecidableEq ι] {a : Act ι τ workers} (hstep : Step qSize s a s')
    (h : s.KeepsTasks qSize) : s'.KeepsTasks qSize := by
  cases hstep with
  | Start created => exact h.move rfl rfl rfl rfl fun w t hw => by cases hw
  | call i t at_ => exact h.move rfl rfl rfl rfl fun w u hw => hw
  | full i t at_ free size => exact h.move rfl rfl rfl rfl fun w u hw => hw
  | push i t at_ free size mThreads post =>
    have hfifo := h.fifo
    refine ⟨?_, ?_, h.held, h.popped, h.once, fun w u hw => h.running w u (running_of_signal post hw)⟩
    · show (s.mTasks ++ [t]).length ≤ qSize
      rw [List.length_append, List.length_singleton]
      exact size
    · show s.accepted ++ [t] = s.dequeued ++ (s.mTasks ++ [t])
      rw [hfifo, List.append_assoc]
  | wakeProducer i t at_ => exact h.move rfl rfl rfl rfl fun w u hw => hw
  | loop w at_ flag => exact h.move rfl rfl rfl rfl fun v u hv => running_of_update (by simp) hv
  | exit w at_ flag => exact h.move rfl rfl rfl rfl fun v u hv => running_of_update (by simp) hv
  | empty w at_ free size =>
    exact h.move rfl rfl rfl rfl fun v u hv => running_of_update (by simp) hv
  | pop w t rest at_ free size flag adding post =>
    refine h.pop size (fun u hu => ?_) ⟨rfl, rfl, rfl⟩ rfl rfl
    rw [hu] at at_
    exact at_
  | null w at_ free size flag adding post =>
    exact h.move rfl rfl rfl rfl fun v u hv => running_of_update (by simp) hv
  | taskEnds w t at_ => exact h.move rfl rfl rfl rfl fun v u hv => running_of_update (by simp) hv
  | wakeWorker w at_ => exact h.move rfl rfl rfl rfl fun v u hv => running_of_update (by simp) hv
  | Stop started =>
    refine h.move rfl rfl rfl rfl fun w t hw => ?_
    have hbroadcast : (Working.wake (s.mThreads w)).getD (s.mThreads w) = .running t := hw
    cases hplace : s.mThreads w <;> simp_all
  | join w at_ ended => exact h.move rfl rfl rfl rfl fun v u hv => hv
  | stopReturns at_ => exact h.move rfl rfl rfl rfl fun v u hv => hv

/-- In every order of the steps, with or without `Stop`, the queue keeps its bound and loses
or duplicates no task. -/
theorem tasks_kept [DecidableEq ι] (h : Reachable qSize s) : s.KeepsTasks qSize := by
  apply Lib.Reachable.invariant ?_ ?_ h
  · rintro _ rfl
    exact keepsTasks_new qSize
  · rintro s s' hs ⟨a, hstep⟩
    exact hstep.keepsTasks hs

/-- Two producers and two workers at a queue of one: a producer waits, a worker is woken for
the second task, and `Stop` is called before it gets it. -/
theorem tasks_kept_two :
    ∃ s : ThreadPool (Fin 2) Nat 2, s.accepted = [7, 8] ∧ s.dequeued = [7] ∧ s.life = .joining 0 ∧
      s.KeepsTasks 1 := by
  have fresh : Reachable 1 (new : ThreadPool (Fin 2) Nat 2) := .start rfl
  have started := fresh.tail ⟨_, .Start rfl⟩
  have called := (started.tail ⟨_, .call 0 7 rfl⟩).tail ⟨_, .call 1 8 rfl⟩
  have waits := (called.tail ⟨_, .loop 0 rfl rfl⟩).tail ⟨_, .empty 0 trivial (by simp [Free]) rfl⟩
  have pushed := waits.tail ⟨_, .push 0 7 (by exact rfl) (by simp [Free]) (by decide) _
    (Or.inl ⟨by decide, .one 0 .signalled rfl⟩)⟩
  have blocked := pushed.tail ⟨_, .full 1 8 rfl (by simp [Free, new, push]) (by decide)⟩
  have popped := blocked.tail ⟨_, .pop 0 7 [] (by exact trivial) (by simp [Free, new, push]) rfl rfl _
    (Or.inl ⟨by decide, .one 1 (.signalled 8) rfl⟩)⟩
  have again := popped.tail ⟨_, .push 1 8 (by exact rfl) (by simp [Free, new, push, pop]) (by decide) _
    (Or.inl ⟨by decide, .nobody (by decide)⟩)⟩
  have stopping := again.tail ⟨_, .Stop rfl⟩
  exact ⟨_, rfl, rfl, rfl, tasks_kept stopping⟩

end Knpnl.Base.ThreadPool
