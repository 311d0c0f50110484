import Knpnl.Lib.Quiescence
import Knpnl.Base.PoolStop
import Knpnl.Base.PoolWakeup
import Knpnl.Base.TaskQueue

/-!
# A pool works off its queue

A signal may be lost, and a worker may sleep over a task. But over a task there is always a worker that
does not sleep, and it does not go to sleep before the queue is empty. So every task that has been pushed
is run; only a producer may be left behind.
-/
namespace Knpnl.Base

open Function (update)
open Lib
open Relation (ReflTransGen)

/-- The steps that a thread can still bring about. A task in the queue is worth four. -/
def Adding.left {τ : Type*} : Adding τ → Nat
  | idle => 0
  | waiting _ => 5
  | lock _ | signalled _ => 6

def Working.left {τ : Type*} : Working τ → Nat
  | unborn | exited | waiting => 0
  | lock | signalled => 1
  | check => 2
  | running _ => 3

theorem Adding.left_wake {τ : Type*} (a b : Adding τ) (h : a.wake = some b) : b.left ≤ a.left + 1 := by
  cases a with
  | waiting t =>
    obtain rfl := Option.some.inj h
    exact le_rfl
  | _ => cases h

theorem Working.left_wake {τ : Type*} (a b : Working τ) (h : a.wake = some b) : b.left ≤ a.left + 1 := by
  cases a with
  | waiting =>
    obtain rfl := Option.some.inj h
    exact le_rfl
  | _ => cases h

theorem Adding.Entering.left {τ : Type*} {a : Adding τ} {t : τ} (h : a.Entering t) : a.left = 6 := by
  cases a <;> first | rfl | exact h.elim

theorem Working.Entering.left {τ : Type*} {a : Working τ} (h : a.Entering) : a.left = 1 := by
  cases a <;> first | rfl | exact h.elim

theorem Working.Entering.ne_unborn {τ : Type*} {a : Working τ} (h : a.Entering) : a ≠ .unborn := by
  rintro rfl
  exact h

theorem Working.Entering.ne_running {τ : Type*} {a : Working τ} (h : a.Entering) (t : τ) : a ≠ .running t := by
  rintro rfl
  exact h

/-- At this place a worker that has popped `held` has run `ran`. -/
def Working.HasRun {τ : Type*} (held ran : List (Nat × τ)) : Working τ → Prop
  | running t => ∃ k, held = ran ++ [(k, t)]
  | _ => ran = held

section
variable {τ : Type*} {held ran : List (Nat × τ)} {a b : Working τ}

theorem Working.hasRun_iff (h : ∀ t, a ≠ .running t) : a.HasRun held ran ↔ ran = held := by
  cases a with
  | running t => exact absurd rfl (h t)
  | _ => exact Iff.rfl

theorem Working.HasRun.congr (h : b.HasRun held ran) (hsame : ∀ t, a = .running t ↔ b = .running t) :
    a.HasRun held ran := by
  cases b with
  | running t => rwa [(hsame t).mpr rfl]
  | _ => exact (hasRun_iff fun t ht => nomatch (hsame t).mp ht).mpr h

end

namespace ThreadPool

variable {ι τ : Type*} {workers : Nat}

/-- Steps of calls that have begun, of workers and of their tasks. No call begins, and a wait ends with a
signal only. -/
def Act.Onward : Act ι τ workers → Prop
  | AddTask _ | runInThread _ | take _ | taskEnds _ => True
  | Start | call .. | wakeProducer _ | wakeWorker _ | Stop | join | stopReturns => False

variable {s s' : ThreadPool ι τ workers}

/-- Every worker has run what it has popped, but for the task that it is in. -/
structure RunsHeld (s : ThreadPool ι τ workers) : Prop where
  unborn : s.life = .created → ∀ w, s.mThreads w = .unborn
  worker : ∀ w, (s.mThreads w).HasRun (s.held w) (s.ran w)

theorem runsHeld_new : (new : ThreadPool ι τ workers).RunsHeld := ⟨fun _ _ => rfl, fun _ => rfl⟩

/-- No worker gets into a task or out of one. -/
theorem RunsHeld.move (h : s.RunsHeld) (hunborn : s'.life = .created → ∀ w, s'.mThreads w = .unborn)
    (hheld : s'.held = s.held) (hran : s'.ran = s.ran)
    (hrunning : ∀ w t, s'.mThreads w = .running t ↔ s.mThreads w = .running t) : s'.RunsHeld := by
  refine ⟨hunborn, fun w => ?_⟩
  rw [hheld, hran]
  exact (h.worker w).congr (hrunning w)

/-- One worker goes on. -/
theorem RunsHeld.turn (h : s.RunsHeld) {w : Fin workers} (hborn : s.mThreads w ≠ .unborn)
    (hlife : s'.life = s.life)
    (hothers : ∀ v, v ≠ w → s'.mThreads v = s.mThreads v ∧ s'.held v = s.held v ∧ s'.ran v = s.ran v)
    (hself : (s'.mThreads w).HasRun (s'.held w) (s'.ran w)) : s'.RunsHeld := by
  refine ⟨fun hcreated => absurd (h.unborn (hlife ▸ hcreated) w) hborn, fun v => ?_⟩
  by_cases hv : v = w
  · rwa [hv]
  · obtain ⟨hplace, hheld, hran⟩ := hothers v hv
    rw [hplace, hheld, hran]
    exact h.worker v

/-- A worker goes from one place that is in no task to another. -/
theorem RunsHeld.moveWorker (h : s.RunsHeld) {w : Fin workers} {a : Working τ}
    (hmThreads : s'.mThreads = update s.mThreads w a) (hborn : s.mThreads w ≠ .unborn)
    (hout : ∀ t, s.mThreads w ≠ .running t) (hin : ∀ t, a ≠ .running t) (hlife : s'.life = s.life)
    (hheld : s'.held = s.held) (hran : s'.ran = s.ran) : s'.RunsHeld := by
  apply h.turn hborn hlife
  · intro v hv
    rw [hmThreads, hheld, hran]
    exact ⟨Function.update_of_ne hv _ _, rfl, rfl⟩
  · rw [hmThreads, Function.update_self, hheld, hran, Working.hasRun_iff hin, ← Working.hasRun_iff hout]
    exact h.worker w

theorem RunsHeld.pop (h : s.RunsHeld) {w : Fin workers} {t : τ} {rest : List τ} {adding : ι → Adding τ}
    (hentering : (s.mThreads w).Entering) :
    RunsHeld { s.pop w t rest with mThreads := update s.mThreads w (.running t), adding } := by
  have hran := (Working.hasRun_iff hentering.ne_running).mp (h.worker w)
  apply h.turn hentering.ne_unborn
  · rfl
  · exact fun v hv => ⟨Function.update_of_ne hv _ _, Function.update_of_ne hv _ _, rfl⟩
  · show (update s.mThreads w (.running t) w).HasRun (update s.held w _ w) (s.ran w)
    rw [Function.update_self, Function.update_self, hran]
    exact ⟨_, rfl⟩

/-- The task that a worker was in is the last that it has popped. -/
theorem RunsHeld.taskReturns (h : s.RunsHeld) {w : Fin workers} {t : τ} (hw : s.mThreads w = .running t) :
    (s.taskReturns w t).RunsHeld := by
  obtain ⟨k, hk⟩ : ∃ k, s.held w = s.ran w ++ [(k, t)] := by
    have hrun := h.worker w
    rwa [hw] at hrun
  have hplace : s.lastPlace w = k := by simp [lastPlace, hk]
  apply h.turn (w := w)
  · rw [hw]
    simp
  · rfl
  · exact fun v hv => ⟨Function.update_of_ne hv _ _, rfl, Function.update_of_ne hv _ _⟩
  · show (update s.mThreads w .check w).HasRun (s.held w) (update s.ran w _ w)
    rw [Function.update_self, Function.update_self, hplace, hk]
    rfl

variable [DecidableEq ι] {qSize : Nat}

def Drain (qSize : Nat) (s s' : ThreadPool ι τ workers) : Prop :=
  ∃ a : Act ι τ workers, a.Onward ∧ Step qSize s a s'

theorem Drain.life (h : Drain qSize s s') : s'.life = s.life ∧ s'.isRunning = s.isRunning := by
  obtain ⟨a, honward, hstep⟩ := h
  cases hstep with
  | Start | Stop | join | stopReturns => exact honward.elim
  | _ => exact ⟨rfl, rfl⟩

section
variable [Fintype ι]

def left (s : ThreadPool ι τ workers) : Nat :=
  ∑ i, (s.adding i).left + 4 * s.mTasks.length + ∑ w, (s.mThreads w).left

theorem Drain.less (hrunning : s.isRunning = true) (h : Drain qSize s s') : s'.left < s.left := by
  obtain ⟨a, honward, hstep⟩ := h
  cases hstep with
  | Start | call | wakeProducer | wakeWorker | Stop | join | stopReturns => exact honward.elim
  | full i t at_ free size =>
    have hsum := sum_update Adding.left s.adding i (.waiting t)
    rw [at_.left] at hsum
    simp only [left, Adding.left] at hsum ⊢
    omega
  | push i t at_ free size mThreads post =>
    have hsum := sum_update Adding.left s.adding i .idle
    have hpost := post.sum_le Working.left_wake
    rw [at_.left] at hsum
    simp only [left, push, Adding.left, List.length_append, List.length_singleton] at hsum ⊢
    omega
  | loop w at_ flag =>
    have hsum := sum_update Working.left s.mThreads w .lock
    rw [at_] at hsum
    simp only [left, Working.left] at hsum ⊢
    omega
  | exit w at_ flag =>
    rw [hrunning] at flag
    cases flag
  | empty w at_ free size =>
    have hsum := sum_update Working.left s.mThreads w .waiting
    rw [at_.left] at hsum
    simp only [left, Working.left] at hsum ⊢
    omega
  | pop w t rest at_ free size flag adding post =>
    have hsum := sum_update Working.left s.mThreads w (.running t)
    have hpost := post.sum_le Adding.left_wake
    have hlen := congrArg List.length size
    rw [at_.left] at hsum
    simp only [left, pop, Working.left, List.length_cons] at hsum hlen ⊢
    omega
  | null w at_ free size flag adding post =>
    rw [hrunning] at flag
    cases flag
  | taskEnds w t at_ =>
    have hsum := sum_update Working.left s.mThreads w .check
    rw [at_] at hsum
    simp only [left, taskReturns, Working.left] at hsum ⊢
    omega

end

theorem Step.runsHeld {a : Act ι τ workers} (hstep : Step qSize s a s') (h : s.RunsHeld) : s'.RunsHeld := by
  cases hstep with
  | Start created =>
    refine h.move (fun hlife => by cases hlife) rfl rfl fun w t => ?_
    rw [h.unborn created w]
    exact iff_of_false (by simp) (by simp)
  | call | full | wakeProducer => exact ⟨h.unborn, h.worker⟩
  | push i t at_ free size mThreads post =>
    refine h.move (fun hcreated w => ?_) rfl rfl fun w u => ?_
    · exact (post.at_iff rfl (by intro b; cases b <;> simp) w).mpr (h.unborn hcreated w)
    · exact post.at_iff rfl (by intro b; cases b <;> simp) w
  | loop w at_ | exit w at_ | wakeWorker w at_ =>
    exact h.moveWorker rfl (by rw [at_]; simp) (by rw [at_]; simp) (by simp) rfl rfl rfl
  | empty w at_ | null w at_ =>
    exact h.moveWorker rfl at_.ne_unborn at_.ne_running (by simp) rfl rfl rfl
  | pop w t rest at_ => exact h.pop at_
  | taskEnds w t at_ => exact h.taskReturns at_
  | Stop started =>
    refine h.move (fun hlife => by cases hlife) rfl rfl fun w t => ?_
    show (Working.wake (s.mThreads w)).getD (s.mThreads w) = .running t ↔ _
    cases s.mThreads w <;> simp
  | join w at_ | stopReturns at_ =>
    exact ⟨fun hlife => (by cases hlife), h.worker⟩

theorem Reachable.runsHeld (h : Reachable qSize s) : s.RunsHeld := by
  apply Lib.Reachable.invariant ?_ ?_ h
  · rintro _ rfl
    exact runsHeld_new
  · rintro s s' hs ⟨a, hstep⟩
    exact hstep.runsHeld hs

/-- As long as `Stop` has not been called: no worker has left, and not all of them sleep over a task. -/
structure Attended (qSize : Nat) (s : ThreadPool ι τ workers) : Prop where
  keeps : s.KeepsTasks qSize
  running : s.life = .started → s.isRunning = true
  present : s.life = .started → ∀ w, s.mThreads w ≠ .exited
  awake : s.life = .started → s.mTasks ≠ [] → ∃ w, s.mThreads w ≠ .waiting

omit [DecidableEq ι] in
theorem attended_ended (hkeeps : s.KeepsTasks qSize) (hlife : s.life ≠ .started) : s.Attended qSize :=
  ⟨hkeeps, fun h => absurd h hlife, fun h => absurd h hlife, fun h => absurd h hlife⟩

omit [DecidableEq ι] in
/-- A worker moves, and stays awake. -/
theorem Attended.move (h : s.Attended qSize) {w : Fin workers} {a : Working τ}
    (hmThreads : s'.mThreads = update s.mThreads w a) (hexited : a ≠ .exited) (hwaiting : a ≠ .waiting)
    (hkeeps : s'.KeepsTasks qSize) (hlife : s'.life = s.life) (hrunning : s'.isRunning = s.isRunning) :
    s'.Attended qSize where
  keeps := hkeeps
  running hstarted := by
    rw [hrunning]
    exact h.running (hlife ▸ hstarted)
  present hstarted := by
    rw [hmThreads]
    exact (Function.forall_update_iff s.mThreads (p := fun _ a => a ≠ .exited)).mpr
      ⟨hexited, fun v _ => h.present (hlife ▸ hstarted) v⟩
  awake _ _ := ⟨w, by rw [hmThreads, Function.update_self]; exact hwaiting⟩

/-- A task in an empty queue wakes a worker, if there is none that is awake. -/
theorem Attended.push (h : s.Attended qSize) (hworkers : 0 < workers) {i : ι} {t : τ}
    {mThreads : Fin workers → Working τ}
    (hpost : SignalIf (s.mTasks.length + 1 = 1) Working.wake s.mThreads mThreads)
    (hkeeps : KeepsTasks qSize { s.push t with adding := update s.adding i .idle, mThreads }) :
    Attended qSize { s.push t with adding := update s.adding i .idle, mThreads } where
  keeps := hkeeps
  running := h.running
  present hlife w hw := h.present hlife w ((hpost.at_iff rfl (by intro b; cases b <;> simp) w).mp hw)
  awake hlife _ := by
    rcases hpost with ⟨_, hsignal⟩ | ⟨hsome, rfl⟩
    · cases hsignal with
      | nobody idle =>
        refine ⟨⟨0, hworkers⟩, fun hw => ?_⟩
        have hnone := idle ⟨0, hworkers⟩
        rw [show s.mThreads ⟨0, hworkers⟩ = .waiting from hw] at hnone
        cases hnone
      | one w a woken =>
        refine ⟨w, ?_⟩
        show update s.mThreads w a w ≠ .waiting
        rw [Function.update_self]
        rintro rfl
        cases hplace : s.mThreads w <;> simp [hplace] at woken
    · have hne : s.mTasks ≠ [] := fun hnil => hsome (by rw [hnil]; rfl)
      exact h.awake hlife hne

theorem Step.attended {a : Act ι τ workers} (hstep : Step qSize s a s') (hworkers : 0 < workers)
    (h : s.Attended qSize) : s'.Attended qSize := by
  have hkeeps := hstep.keepsTasks h.keeps
  cases hstep with
  | Start created => exact ⟨hkeeps, fun _ => rfl, fun _ w => by simp, fun _ _ => ⟨⟨0, hworkers⟩, by simp⟩⟩
  | call i t at_ | full i t at_ free size | wakeProducer i t at_ =>
    exact ⟨hkeeps, h.running, h.present, h.awake⟩
  | push i t at_ free size mThreads post => exact h.push hworkers post hkeeps
  | loop w at_ flag => exact h.move rfl (by simp) (by simp) hkeeps rfl rfl
  | exit w at_ flag =>
    refine attended_ended hkeeps fun hlife => ?_
    rw [h.running hlife] at flag
    cases flag
  | empty w at_ free size =>
    refine ⟨hkeeps, h.running, fun hlife => ?_, fun _ hne => absurd size hne⟩
    exact (Function.forall_update_iff s.mThreads (p := fun _ a => a ≠ .exited)).mpr
      ⟨by simp, fun v _ => h.present hlife v⟩
  | pop w t rest at_ free size flag adding post => exact h.move rfl (by simp) (by simp) hkeeps rfl rfl
  | null w at_ free size flag adding post => exact h.move rfl (by simp) (by simp) hkeeps rfl rfl
  | taskEnds w t at_ => exact h.move rfl (by simp) (by simp) hkeeps rfl rfl
  | wakeWorker w at_ => exact h.move rfl (by simp) (by simp) hkeeps rfl rfl
  | Stop started => exact attended_ended hkeeps (by simp [shutdown])
  | join w at_ ended => exact attended_ended hkeeps (by simp)
  | stopReturns at_ => exact attended_ended hkeeps (by simp)

theorem Reachable.attended (h : Reachable qSize s) (hworkers : 0 < workers) : s.Attended qSize := by
  apply Lib.Reachable.invariant ?_ ?_ h
  · rintro _ rfl
    exact attended_ended (keepsTasks_new qSize) (by simp [new])
  · rintro s s' hs ⟨a, hstep⟩
    exact hstep.attended hworkers hs

/-- Every task that was pushed has been run, by one worker and once, and all workers wait for more. Every
call of `AddTask` has returned, or a wakeup was lost. -/
structure WorkedOff (qSize : Nat) (s : ThreadPool ι τ workers) : Prop where
  empty : s.mTasks = []
  ran : ∀ k t, s.accepted[k]? = some t → ∃! w, (k, t) ∈ s.ran w
  once : ∀ w, (s.ran w).Nodup
  asleep : ∀ w, s.mThreads w = .waiting
  returned : (∀ i, s.adding i = .idle) ∨ s.LostWakeup qSize

omit [DecidableEq ι] in
theorem free_of_started (hlife : s.life = .started) : s.Free := fun joined h => by
  rw [hlife] at h
  cases h

theorem not_step_of_final (h : Final (Drain qSize) s) (a : Act ι τ workers) (honward : a.Onward) :
    ¬ Step qSize s a s' := fun hstep => h s' ⟨a, honward, hstep⟩

/-- A worker that cannot go on sleeps. -/
theorem waiting_of_final (h : Final (Drain qSize) s) (hlife : s.life = .started) (hborn : s.Born)
    (hattended : s.Attended qSize) (w : Fin workers) : s.mThreads w = .waiting := by
  have hfree := free_of_started hlife
  have hrunning := hattended.running hlife
  have entering : ¬ (s.mThreads w).Entering := by
    intro hat
    cases hqueue : s.mTasks with
    | nil => exact not_step_of_final h (.take w) trivial (.empty w hat hfree hqueue)
    | cons t rest =>
      obtain ⟨adding, hpost⟩ := exists_signalIf (rest.length + 1 = qSize) Adding.wake s.adding
      exact not_step_of_final h (.take w) trivial (.pop w t rest hat hfree hqueue hrunning adding hpost)
  cases hat : s.mThreads w with
  | unborn => exact absurd hat (hborn (by rw [hlife]; simp) w)
  | check => exact absurd (.loop w hat hrunning) (not_step_of_final h (.runInThread w) trivial)
  | lock | signalled => exact absurd (by rw [hat]; trivial) entering
  | waiting => rfl
  | running t => exact absurd (.taskEnds w t hat) (not_step_of_final h (.taskEnds w) trivial)
  | exited => exact absurd hat (hattended.present hlife w)

/-- A producer that cannot go on waits, or has returned. -/
theorem not_entering_of_final (h : Final (Drain qSize) s) (hlife : s.life = .started) (i : ι) (t : τ) :
    ¬ (s.adding i).Entering t := by
  intro hat
  have hfree := free_of_started hlife
  rcases Nat.lt_or_ge s.mTasks.length qSize with hroom | hfull
  · obtain ⟨mThreads, hpost⟩ := exists_signalIf (s.mTasks.length + 1 = 1) Working.wake s.mThreads
    exact not_step_of_final h (.AddTask i) trivial (.push i t hat hfree hroom mThreads hpost)
  · exact not_step_of_final h (.AddTask i) trivial (.full i t hat hfree hfull)

theorem workedOff_of_final (h : Final (Drain qSize) s) (hlife : s.life = .started) (hborn : s.Born)
    (hattended : s.Attended qSize) (hran : s.RunsHeld) (hsize : 0 < qSize) : s.WorkedOff qSize := by
  have hasleep := waiting_of_final h hlife hborn hattended
  have hempty : s.mTasks = [] := by
    by_contra hne
    obtain ⟨w, hw⟩ := hattended.awake hlife hne
    exact hw (hasleep w)
  have hproducer : ∀ i, s.adding i = .idle ∨ isWaiting Adding.wake (s.adding i) = true := by
    intro i
    have hentering := not_entering_of_final h hlife i
    cases hat : s.adding i with
    | idle => exact Or.inl rfl
    | waiting t => exact Or.inr rfl
    | lock t | signalled t => exact absurd (by rw [hat]; rfl) (hentering t)
  -- nobody is in a task, so what has been popped has been run
  have hall : s.ran = s.held := funext fun w => (Working.hasRun_iff (by simp [hasleep w])).mp (hran.worker w)
  refine ⟨hempty, fun k t hk => ?_, hall ▸ hattended.keeps.once, hasleep, ?_⟩
  · have hfifo := hattended.keeps.fifo
    rw [hempty, List.append_nil] at hfifo
    rw [hall]
    exact hattended.keeps.held k t (hfifo ▸ hk)
  · by_cases hreturned : ∀ i, s.adding i = .idle
    · exact Or.inl hreturned
    · obtain ⟨i, hi⟩ := not_forall.mp hreturned
      have hsettled : s.Settled := by
        refine ⟨fun j => ?_, fun w => by rw [hasleep w]; rfl⟩
        rcases hproducer j with hidle | hwaits
        · rw [hidle]
          rfl
        · cases hat : s.adding j <;> simp_all [isWaiting, Adding.woken]
      have hroom : s.mTasks.length < qSize := by rw [hempty]; exact hsize
      exact Or.inr ⟨hsettled, free_of_started hlife, Or.inl ⟨i, (hproducer i).resolve_left hi, hroom⟩⟩

/-- From every state of every run of a pool that has been started and not stopped: if no call begins any more,
the threads come to rest in whatever order they go on, and every task that was pushed has been run. -/
theorem drains_workedOff [Fintype ι] (h : Reachable qSize s) (hlife : s.life = .started)
    (hworkers : 0 < workers) (hsize : 0 < qSize) :
    Ends (Drain qSize) s ∧
      ∀ s', ReflTransGen (Drain qSize) s s' → Final (Drain qSize) s' → s'.WorkedOff qSize := by
  constructor
  · refine ends_of_measure (I := fun s : ThreadPool ι τ workers => s.isRunning = true) left
      (fun s s' hrunning hstep => ?_) (fun s s' hrunning hstep => hstep.less hrunning)
      ((h.attended hworkers).running hlife)
    rw [hstep.life.2]
    exact hrunning
  · intro s' hrun hfinal
    have hreach : Reachable qSize s' ∧ s'.life = .started := by
      clear hfinal
      induction hrun with
      | refl => exact ⟨h, hlife⟩
      | tail _ hlast ih =>
        refine ⟨Lib.Reachable.tail ih.1 ?_, hlast.life.1.trans ih.2⟩
        obtain ⟨a, _, hstep⟩ := hlast
        exact ⟨a, hstep⟩
    exact workedOff_of_final hfinal hreach.2 hreach.1.born (hreach.1.attended hworkers) hreach.1.runsHeld hsize

/-- One of two workers has gone to sleep when a task is pushed. -/
theorem drains_workedOff_pushed :
    ∃ s : ThreadPool (Fin 1) Nat 2, s.mTasks = [7] ∧ s.accepted = [7] ∧
      (Ends (Drain 2) s ∧ ∀ s', ReflTransGen (Drain 2) s s' → Final (Drain 2) s' → s'.WorkedOff 2) := by
  have fresh : Reachable 2 (new : ThreadPool (Fin 1) Nat 2) := .start rfl
  have started := fresh.tail ⟨_, .Start rfl⟩
  have asleep := (started.tail ⟨_, .loop 0 rfl rfl⟩).tail ⟨_, .empty 0 trivial (by simp [Free]) rfl⟩
  have pushed := (asleep.tail ⟨_, .call 0 7 rfl⟩).tail
    ⟨_, .push 0 7 (by exact rfl) (by simp [Free]) (by decide) _ (Or.inl ⟨by decide, .one 0 .signalled rfl⟩)⟩
  exact ⟨_, rfl, rfl, drains_workedOff pushed rfl (by decide) (by decide)⟩

end ThreadPool
end Knpnl.Base
