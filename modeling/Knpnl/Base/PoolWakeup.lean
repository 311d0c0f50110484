import Knpnl.Base.ThreadPool

/-!
# Which wakeups of a pool are lost

`post` wakes one waiter, and is called only when the queue stops being empty or full. A
second push before the woken worker has resumed wakes nobody. What keeps every waiter
covered is that at least as many workers are on their way as there are tasks, and at least
as many producers as there are free places.
-/
namespace Knpnl.Base

open Function (update)
open Lib

variable {ι τ : Type*} {workers : Nat}

/-- The thread has been signalled and has not resumed. -/
def Adding.woken : Adding τ → Bool
  | .signalled _ => true
  | _ => false

def Working.woken : Working τ → Bool
  | .signalled => true
  | _ => false

theorem Adding.wakesTo : WakesTo (Adding.wake (τ := τ)) Adding.woken := by
  intro a b h
  cases a with
  | waiting t =>
    obtain rfl := Option.some.inj h
    exact ⟨rfl, rfl, rfl⟩
  | _ => cases h

theorem Working.wakesTo : WakesTo (Working.wake (τ := τ)) Working.woken := by
  intro a b h
  cases a with
  | waiting =>
    obtain rfl := Option.some.inj h
    exact ⟨rfl, rfl, rfl⟩
  | _ => cases h

theorem Adding.Entering.not_waiting {a : Adding τ} {t : τ} (h : a.Entering t) :
    isWaiting Adding.wake a = false := by
  cases a <;> first | rfl | exact h.elim

theorem Working.Entering.not_waiting {a : Working τ} (h : a.Entering) :
    isWaiting Working.wake a = false := by
  cases a <;> first | rfl | exact h.elim

namespace ThreadPool

/-- No thread has been signalled and not yet resumed. -/
def Settled (s : ThreadPool ι τ workers) : Prop :=
  (∀ i, (s.adding i).woken = false) ∧ ∀ w, (s.mThreads w).woken = false

/-- A settled pool with a producer that waits though there is room, or a worker that waits
though there are tasks. -/
def LostWakeup (qSize : Nat) (s : ThreadPool ι τ workers) : Prop :=
  s.Settled ∧ s.Free ∧
    ((∃ i, isWaiting Adding.wake (s.adding i) = true ∧ s.mTasks.length < qSize) ∨
      ∃ w, isWaiting Working.wake (s.mThreads w) = true ∧ s.mTasks ≠ [])

/-- No wakeup is lost while the pool is running. -/
def LosesNoWakeup (ι τ : Type*) [DecidableEq ι] (workers qSize : Nat) : Prop :=
  ∀ s : ThreadPool ι τ workers, Reachable qSize s → s.life = .started → ¬ s.LostWakeup qSize

section
variable [Fintype ι]

def waitingProducers (s : ThreadPool ι τ workers) : Nat := tally (isWaiting Adding.wake) s.adding
def wokenProducers (s : ThreadPool ι τ workers) : Nat := tally Adding.woken s.adding
def waitingWorkers (s : ThreadPool ι τ workers) : Nat := tally (isWaiting Working.wake) s.mThreads
def wokenWorkers (s : ThreadPool ι τ workers) : Nat := tally Working.woken s.mThreads

/-- A task pushed without a signal while workers wait finds more workers woken than tasks
queued, and a task popped without a signal while producers wait finds more producers woken
than places free. -/
def Covers (qSize : Nat) (s : ThreadPool ι τ workers) : Act ι τ workers → Prop
  | .AddTask _ => s.mTasks.length < qSize → s.mTasks ≠ [] → 0 < s.waitingWorkers →
      s.mTasks.length < s.wokenWorkers
  | .take _ => s.mTasks ≠ [] → s.mTasks.length < qSize → 0 < s.waitingProducers →
      qSize < s.mTasks.length + s.wokenProducers
  | _ => True

/-- As long as `Stop` has not been called: waiters are covered by threads on their way. -/
structure Covered (qSize : Nat) (s : ThreadPool ι τ workers) : Prop where
  born : s.life = .created → ∀ w, s.mThreads w = .unborn
  running : s.life = .started → s.isRunning = true
  workers : s.life = .started → 0 < s.waitingWorkers → s.mTasks.length ≤ s.wokenWorkers
  producers : s.life = .created ∨ s.life = .started → 0 < s.waitingProducers →
    qSize ≤ s.mTasks.length + s.wokenProducers

theorem covered_new (qSize : Nat) : (new : ThreadPool ι τ workers).Covered qSize where
  born _ _ := rfl
  running h := by cases h
  workers h := by cases h
  producers _ h := by
    obtain ⟨i, hi⟩ := tally_pos.mp h
    cases hi

variable {s s' : ThreadPool ι τ workers} {qSize : Nat}

theorem Covered.not_lost (h : s.Covered qSize) (hlife : s.life = .started) : ¬ s.LostWakeup qSize := by
  rintro ⟨⟨hproducers, hworkers⟩, _, hlost⟩
  rcases hlost with ⟨i, hi, hroom⟩ | ⟨w, hw, htasks⟩
  · have hcovered := h.producers (Or.inr hlife) (tally_pos.mpr ⟨i, hi⟩)
    rw [wokenProducers, tally_eq_zero.mpr hproducers] at hcovered
    omega
  · have hcovered := h.workers hlife (tally_pos.mpr ⟨w, hw⟩)
    rw [wokenWorkers, tally_eq_zero.mpr hworkers] at hcovered
    exact htasks (List.eq_nil_of_length_eq_zero (by omega))

/-- A worker moves between places where it neither waits nor has been woken. -/
theorem Covered.moveWorker (h : s.Covered qSize) {w : Fin workers} {a : Working τ}
    (hborn : s.mThreads w ≠ .unborn)
    (hwait : isWaiting Working.wake a = isWaiting Working.wake (s.mThreads w))
    (hwoken : a.woken = (s.mThreads w).woken) :
    Covered qSize { s with mThreads := update s.mThreads w a } where
  born hlife := absurd (h.born hlife w) hborn
  running := h.running
  workers hlife hwaiting := by
    have hsame : tally (isWaiting Working.wake) (update s.mThreads w a) = s.waitingWorkers :=
      tally_update_same hwait
    have hsame' : tally Working.woken (update s.mThreads w a) = s.wokenWorkers := tally_update_same hwoken
    have hcovered := h.workers hlife (hsame ▸ hwaiting)
    show s.mTasks.length ≤ tally Working.woken (update s.mThreads w a)
    rw [hsame']
    exact hcovered
  producers := h.producers

/-- After `Stop` nothing is asked. -/
theorem covered_ended (hcreated : s.life ≠ .created) (hstarted : s.life ≠ .started) : s.Covered qSize where
  born hlife := absurd hlife hcreated
  running hlife := absurd hlife hstarted
  workers hlife := absurd hlife hstarted
  producers hlife := absurd hlife (not_or.mpr ⟨hcreated, hstarted⟩)

variable [DecidableEq ι]

/-- A producer that does not wait comes to wait at a full queue, or is about to enter. -/
theorem Covered.moveProducer (h : s.Covered qSize) {i : ι} {a : Adding τ}
    (hcovered : s.life = .created ∨ s.life = .started →
      0 < tally (isWaiting Adding.wake) (update s.adding i a) →
      qSize ≤ s.mTasks.length + tally Adding.woken (update s.adding i a)) :
    Covered qSize { s with adding := update s.adding i a } where
  born := h.born
  running := h.running
  workers := h.workers
  producers := hcovered

theorem Covered.push (h : s.Covered qSize) {i : ι} {t : τ} (hat : (s.adding i).Entering t)
    (hsize : s.mTasks.length < qSize) {mThreads : Fin workers → Working τ}
    (hpost : SignalIf (s.mTasks.length + 1 = 1) Working.wake s.mThreads mThreads)
    (hcovers : s.Covers qSize (.AddTask i)) :
    Covered qSize { s.push t with adding := update s.adding i .idle, mThreads } where
  born hlife w := (hpost.at_iff rfl (by intro b; cases b <;> simp) w).mpr (h.born hlife w)
  running := h.running
  workers hlife hwaiting := by
    show (s.mTasks ++ [t]).length ≤ tally Working.woken mThreads
    replace hwaiting : 0 < tally (isWaiting Working.wake) mThreads := hwaiting
    rw [List.length_append, List.length_singleton]
    rcases hpost with ⟨hempty, hsignal⟩ | ⟨hnonempty, rfl⟩
    · rcases hsignal.tally Working.wakesTo with ⟨hnobody, rfl⟩ | ⟨_, hwoken⟩
      · omega
      · rw [hwoken]
        omega
    · have hne : s.mTasks ≠ [] := by
        rintro hnil
        rw [hnil] at hnonempty
        exact hnonempty rfl
      exact hcovers hsize hne hwaiting
  producers hlife hwaiting := by
    show qSize ≤ (s.mTasks ++ [t]).length + tally Adding.woken (update s.adding i .idle)
    replace hwaiting : 0 < tally (isWaiting Adding.wake) (update s.adding i .idle) := hwaiting
    have hmoves := tally_update Adding.woken s.adding i .idle
    have hone := Bool.toNat_le (s.adding i).woken
    rw [tally_update_same (by rw [hat.not_waiting]; rfl)] at hwaiting
    have hcovered : qSize ≤ s.mTasks.length + tally Adding.woken s.adding := h.producers hlife hwaiting
    have hidle : (Adding.idle : Adding τ).woken.toNat = 0 := rfl
    rw [List.length_append, List.length_singleton]
    omega

theorem Covered.pop (h : s.Covered qSize) {w : Fin workers} {t : τ} {rest : List τ}
    (hat : (s.mThreads w).Entering) (hsize : s.mTasks = t :: rest) {adding : ι → Adding τ}
    (hpost : SignalIf (rest.length + 1 = qSize) Adding.wake s.adding adding)
    (hcovers : s.Covers qSize (.take w)) :
    Covered qSize { s.pop w t rest with mThreads := update s.mThreads w (.running t), adding } where
  born hlife := by
    have hunborn := h.born hlife w
    rw [hunborn] at hat
    exact hat.elim
  running := h.running
  workers hlife hwaiting := by
    show rest.length ≤ tally Working.woken (update s.mThreads w (.running t))
    replace hwaiting : 0 < tally (isWaiting Working.wake) (update s.mThreads w (.running t)) := hwaiting
    have hmoves := tally_update Working.woken s.mThreads w (.running t)
    have hone := Bool.toNat_le (s.mThreads w).woken
    rw [tally_update_same (by rw [hat.not_waiting]; rfl)] at hwaiting
    have hcovered : s.mTasks.length ≤ tally Working.woken s.mThreads := h.workers hlife hwaiting
    have hrunning : (Working.running t).woken.toNat = 0 := rfl
    rw [hsize, List.length_cons] at hcovered
    omega
  producers hlife hwaiting := by
    show qSize ≤ rest.length + tally Adding.woken adding
    replace hwaiting : 0 < tally (isWaiting Adding.wake) adding := hwaiting
    rcases hpost with ⟨hfull, hsignal⟩ | ⟨hnotfull, rfl⟩
    · rcases hsignal.tally Adding.wakesTo with ⟨hnobody, rfl⟩ | ⟨_, hwoken⟩
      · omega
      · rw [hwoken]
        omega
    · have hcovered : qSize ≤ s.mTasks.length + tally Adding.woken s.adding := h.producers hlife hwaiting
      have hroom : s.mTasks.length < qSize → qSize < s.mTasks.length + tally Adding.woken s.adding :=
        fun hlt => hcovers (by rw [hsize]; simp) hlt hwaiting
      rw [hsize, List.length_cons] at hcovered hroom
      omega

theorem Step.covered {a : Act ι τ workers} (hstep : Step qSize s a s') (h : s.Covered qSize)
    (hcovers : s.Covers qSize a) : s'.Covered qSize := by
  cases hstep with
  | Start created =>
    refine ⟨fun hlife => (by cases hlife), fun _ => rfl, fun _ hwaiting => ?_,
      fun _ => h.producers (Or.inl created)⟩
    obtain ⟨w, hw⟩ := tally_pos.mp hwaiting
    cases hw
  | call i t at_ =>
    apply h.moveProducer
    rw [tally_update_same (by rw [at_]; rfl), tally_update_same (by rw [at_]; rfl)]
    exact h.producers
  | full i t at_ free size =>
    apply h.moveProducer
    intro _ _
    omega
  | push i t at_ free size mThreads post => exact h.push at_ size post hcovers
  | wakeProducer i t at_ =>
    apply h.moveProducer
    intro hlife hwaiting
    have hwait := tally_update (isWaiting Adding.wake) s.adding i (.signalled t)
    have hwoken := tally_update Adding.woken s.adding i (.signalled t)
    rw [at_] at hwait hwoken
    have hcovered : qSize ≤ s.mTasks.length + tally Adding.woken s.adding :=
      h.producers hlife (show 0 < tally (isWaiting Adding.wake) s.adding by
        simp [isWaiting] at hwait hwaiting ⊢; omega)
    simp [Adding.woken] at hwoken ⊢
    omega
  | loop w at_ flag => exact h.moveWorker (by rw [at_]; simp) (by rw [at_]; rfl) (by rw [at_]; rfl)
  | exit w at_ flag => exact h.moveWorker (by rw [at_]; simp) (by rw [at_]; rfl) (by rw [at_]; rfl)
  | empty w at_ free size =>
    refine ⟨fun hlife => ?_, h.running, fun _ _ => ?_, h.producers⟩
    · have hunborn := h.born hlife w
      rw [hunborn] at at_
      exact at_.elim
    · show s.mTasks.length ≤ _
      rw [size]
      exact Nat.zero_le _
  | pop w t rest at_ free size flag adding post => exact h.pop at_ size post hcovers
  | null w at_ free size flag adding post =>
    have hborn : s.mThreads w ≠ .unborn := fun hunborn => by
      rw [hunborn] at at_
      exact at_
    have hstarted : ¬ s.life = .started := fun hlife => by
      rw [h.running hlife] at flag
      cases flag
    have hcreated : ¬ s.life = .created := fun hlife => hborn (h.born hlife w)
    exact covered_ended hcreated hstarted
  | taskEnds w t at_ =>
    have hmoved : Covered qSize { s with mThreads := update s.mThreads w .check } :=
      h.moveWorker (by rw [at_]; simp) (by rw [at_]; rfl) (by rw [at_]; rfl)
    exact ⟨hmoved.born, hmoved.running, hmoved.workers, hmoved.producers⟩
  | wakeWorker w at_ =>
    refine ⟨fun hlife => ?_, h.running, fun hlife hwaiting => ?_, h.producers⟩
    · rw [h.born hlife w] at at_
      cases at_
    · have hwait := tally_update (isWaiting Working.wake) s.mThreads w .signalled
      have hwoken := tally_update Working.woken s.mThreads w .signalled
      rw [at_] at hwait hwoken
      have hcovered : s.mTasks.length ≤ tally Working.woken s.mThreads :=
        h.workers hlife (show 0 < tally (isWaiting Working.wake) s.mThreads by
          simp [isWaiting] at hwait; omega)
      show s.mTasks.length ≤ tally Working.woken (update s.mThreads w .signalled)
      simp [Working.woken] at hwoken
      omega
  | Stop started => exact covered_ended (by simp [shutdown]) (by simp [shutdown])
  | join w at_ ended => exact covered_ended (by simp) (by simp)
  | stopReturns at_ => exact covered_ended (by simp) (by simp)

/-- In every run whose steps all keep the waiters covered, no wakeup is lost while the pool
is running. -/
theorem wakeup_covered
    (h : Lib.Reachable (· = new) (fun s s' => ∃ a, Step qSize s a s' ∧ Covers qSize s a) s)
    (hlife : s.life = .started) : ¬ s.LostWakeup qSize := by
  have hcovered : s.Covered qSize := by
    apply Lib.Reachable.invariant ?_ ?_ h
    · rintro _ rfl
      exact covered_new qSize
    · rintro s s' hs ⟨a, hstep, hcovers⟩
      exact hstep.covered hs hcovers
  exact hcovered.not_lost hlife

/-- Three workers wait. A task wakes one of them, the wait of another ends without a signal before
a second task comes, and these two take the tasks: the third waits at an empty queue. -/
theorem wakeup_covered_three : ∃ s : ThreadPool (Fin 1) Nat 3,
    s.dequeued = [7, 8] ∧ s.Settled ∧ s.mThreads 2 = .waiting ∧ ¬ s.LostWakeup 2 := by
  have fresh : Lib.Reachable (· = new) (fun s s' => ∃ a, Step 2 s a s' ∧ Covers 2 s a)
    (new : ThreadPool (Fin 1) Nat 3) := .start rfl
  have started := fresh.tail ⟨_, .Start rfl, trivial⟩
  have first := (started.tail ⟨_, .loop 0 rfl rfl, trivial⟩).tail
    ⟨_, .empty 0 trivial (by simp [Free]) rfl, fun hne => absurd rfl hne⟩
  have second := (first.tail ⟨_, .loop 1 rfl rfl, trivial⟩).tail
    ⟨_, .empty 1 trivial (by simp [Free]) rfl, fun hne => absurd rfl hne⟩
  have third := (second.tail ⟨_, .loop 2 rfl rfl, trivial⟩).tail
    ⟨_, .empty 2 trivial (by simp [Free]) rfl, fun hne => absurd rfl hne⟩
  have pushed := (third.tail ⟨_, .call 0 7 rfl, trivial⟩).tail ⟨_, .push 0 7 (by exact rfl)
    (by simp [Free]) (by decide) _ (Or.inl ⟨by decide, .one 0 .signalled rfl⟩), fun _ hne => absurd rfl hne⟩
  have woken := pushed.tail ⟨_, .wakeWorker 1 rfl, trivial⟩
  have again := (woken.tail ⟨_, .call 0 8 rfl, trivial⟩).tail ⟨_, .push 0 8 (by exact rfl)
    (by simp [Free, push]) (by decide) _ (Or.inr ⟨by decide, rfl⟩), fun _ _ _ => by decide⟩
  have popped := again.tail ⟨_, .pop 0 7 [8] (by exact trivial) (by simp [Free, push]) rfl rfl _
    (Or.inl ⟨by decide, .nobody (by decide)⟩), fun _ _ h => absurd h (by decide)⟩
  have both := popped.tail ⟨_, .pop 1 8 [] (by exact trivial) (by simp [Free, push, pop]) rfl rfl _
    (Or.inr ⟨by decide, rfl⟩), fun _ _ h => absurd h (by decide)⟩
  exact ⟨_, rfl, ⟨by decide, by decide⟩, rfl, wakeup_covered both rfl⟩

/-- Two workers wait. The first of two tasks wakes one of them, the second wakes nobody, and
the woken worker takes one task: the other sleeps over the second. -/
theorem losesNoWakeup_two : ¬ LosesNoWakeup (Fin 1) Nat 2 2 := by
  intro hclaim
  have fresh : Reachable 2 (new : ThreadPool (Fin 1) Nat 2) := .start rfl
  have started := fresh.tail ⟨_, .Start rfl⟩
  have waits := (started.tail ⟨_, .loop 0 rfl rfl⟩).tail ⟨_, .empty 0 trivial (by simp [Free]) rfl⟩
  have both := (waits.tail ⟨_, .loop 1 rfl rfl⟩).tail ⟨_, .empty 1 trivial (by simp [Free]) rfl⟩
  have pushed := (both.tail ⟨_, .call 0 7 rfl⟩).tail
    ⟨_, .push 0 7 (by exact rfl) (by simp [Free]) (by decide) _ (Or.inl ⟨by decide, .one 0 .signalled rfl⟩)⟩
  have again := (pushed.tail ⟨_, .call 0 8 rfl⟩).tail
    ⟨_, .push 0 8 (by exact rfl) (by simp [Free, push]) (by decide) _ (Or.inr ⟨by decide, rfl⟩)⟩
  have popped := again.tail ⟨_, .pop 0 7 [8] (by exact trivial) (by simp [Free, push]) rfl rfl _
    (Or.inl ⟨by decide, .nobody (by decide)⟩)⟩
  refine hclaim _ popped rfl ⟨⟨by decide, by decide⟩, by simp [Free, push, pop], Or.inr ⟨1, rfl, ?_⟩⟩
  exact List.cons_ne_nil 8 []

end
end ThreadPool
end Knpnl.Base
