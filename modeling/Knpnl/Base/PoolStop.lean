import Knpnl.Base.ThreadPool

/-!
# When stopping a pool deadlocks

`Stop` joins the workers while it holds the mutex. A worker that is in `take` has to acquire
that mutex to get out, so it never ends. A worker that is elsewhere finds `isRunning` false
and ends by itself.
-/
namespace Knpnl.Base

open Function (update)
open Lib
open Relation (ReflTransGen)

variable {ι τ : Type*} {workers : Nat}

namespace Working

/-- Waiting for a task, or for the mutex. -/
def InTake : Working τ → Prop
  | lock | waiting | signalled => True
  | _ => False

/-- On the way to its end. -/
def Ending : Working τ → Prop
  | check | running _ | exited => True
  | _ => False

/-- It has a step to take that needs no mutex. -/
def busy : Working τ → Bool
  | check | running _ => true
  | _ => false

def inTask : Working τ → Bool
  | running _ => true
  | _ => false

theorem Ending.not_entering {a : Working τ} (h : a.Ending) : ¬ a.Entering := by
  cases a <;> first | exact id | exact h.elim

end Working

namespace ThreadPool

/-- The steps of `Stop` and of the workers. -/
def Act.Stops : Act ι τ workers → Prop
  | .Stop | .join | .stopReturns | .runInThread _ | .take _ | .taskEnds _ => True
  | _ => False

variable [DecidableEq ι] {s s' : ThreadPool ι τ workers} {qSize : Nat}

/-- `Stop` has not returned, and neither it nor a worker can take a step. -/
def Deadlocked (qSize : Nat) (s : ThreadPool ι τ workers) : Prop :=
  (∃ joined, s.life = .joining joined) ∧ ∀ a s', Step qSize s a s' → ¬ a.Stops

/-- One step, whoever takes it. -/
def Next (qSize : Nat) (s s' : ThreadPool ι τ workers) : Prop := ∃ a, Step qSize s a s'

/-- No deadlock is reached after `Stop` has been called. -/
def StopsSafely (qSize : Nat) (s : ThreadPool ι τ workers) : Prop :=
  ∀ s', ReflTransGen (Next qSize) s.shutdown s' → ¬ s'.Deadlocked qSize

/-- `Stop` deadlocks in no started pool. -/
def StopNeverDeadlocks (ι τ : Type*) [DecidableEq ι] (workers qSize : Nat) : Prop :=
  ∀ s : ThreadPool ι τ workers, Reachable qSize s → s.life = .started → s.StopsSafely qSize

/-- `Stop` is joining or has returned, and every worker is on the way to its end. -/
structure Closing (s : ThreadPool ι τ workers) : Prop where
  life : (∃ joined, joined ≤ workers ∧ s.life = .joining joined) ∨ s.life = .stopped
  flag : s.isRunning = false
  ending : ∀ w, (s.mThreads w).Ending

omit [DecidableEq ι] in
theorem Closing.unborn (h : s.Closing) : s.life ≠ .created ∧ s.life ≠ .started := by
  rcases h.life with ⟨joined, _, hlife⟩ | hlife <;> rw [hlife] <;> exact ⟨by simp, by simp⟩

omit [DecidableEq ι] in
/-- A worker moves on. -/
theorem Closing.move (h : s.Closing) {w : Fin workers} {a : Working τ}
    (hmThreads : s'.mThreads = update s.mThreads w a) (ha : a.Ending) (hlife : s'.life = s.life)
    (hflag : s'.isRunning = s.isRunning) : s'.Closing where
  life := hlife ▸ h.life
  flag := hflag.trans h.flag
  ending := by
    rw [hmThreads]
    exact (Function.forall_update_iff s.mThreads (p := fun _ a => a.Ending)).mpr ⟨ha, fun v _ => h.ending v⟩

theorem Step.closing {a : Act ι τ workers} (hstep : Step qSize s a s') (h : s.Closing) : s'.Closing := by
  cases hstep with
  | Start created => exact absurd created h.unborn.1
  | call i t at_ => exact ⟨h.life, h.flag, h.ending⟩
  | full i t at_ free size => exact ⟨h.life, h.flag, h.ending⟩
  | push i t at_ free size mThreads post =>
    refine ⟨h.life, h.flag, fun w => ?_⟩
    show (mThreads w).Ending
    have hending := h.ending w
    rcases post.at w with hsame | hwoken
    · rw [hsame]
      exact hending
    · -- a worker on its way to the end does not wait
      cases hplace : s.mThreads w <;> rw [hplace] at hwoken hending <;>
        first | cases hwoken | exact hending.elim
  | wakeProducer i t at_ => exact ⟨h.life, h.flag, h.ending⟩
  | loop w at_ flag =>
    rw [h.flag] at flag
    cases flag
  | exit w at_ flag => exact h.move rfl trivial rfl rfl
  | empty w at_ free size => exact absurd at_ (h.ending w).not_entering
  | pop w t rest at_ free size flag adding post => exact absurd at_ (h.ending w).not_entering
  | null w at_ free size flag adding post => exact absurd at_ (h.ending w).not_entering
  | taskEnds w t at_ => exact h.move rfl trivial rfl rfl
  | wakeWorker w at_ =>
    have hending := h.ending w
    rw [at_] at hending
    exact hending.elim
  | Stop started => exact absurd started h.unborn.2
  | join w at_ ended => exact ⟨Or.inl ⟨w + 1, w.isLt, rfl⟩, h.flag, h.ending⟩
  | stopReturns at_ => exact ⟨Or.inr rfl, h.flag, h.ending⟩

/-- As long as every worker is on the way to its end, one of them or `Stop` can step. -/
theorem Closing.not_deadlocked (h : s.Closing) : ¬ s.Deadlocked qSize := by
  rintro ⟨⟨joined, hjoining⟩, hstuck⟩
  rcases h.life with ⟨joined', hle, hlife⟩ | hlife
  · obtain rfl : joined' = joined := PoolLife.joining.inj (hlife.symm.trans hjoining)
    rcases Nat.lt_or_eq_of_le hle with hlt | rfl
    · have hending := h.ending ⟨joined', hlt⟩
      cases hplace : s.mThreads ⟨joined', hlt⟩ with
      | check => exact hstuck _ _ (.exit _ hplace h.flag) trivial
      | running t => exact hstuck _ _ (.taskEnds _ t hplace) trivial
      | exited => exact hstuck _ _ (.join ⟨joined', hlt⟩ hlife hplace) trivial
      | _ =>
        rw [hplace] at hending
        exact hending.elim
    · exact hstuck _ _ (.stopReturns hlife) trivial
  · rw [hlife] at hjoining
    cases hjoining

/-- `Stop` is joining, and every worker is on the way to its end or stuck at the mutex. -/
structure Draining (joined : Nat) (s : ThreadPool ι τ workers) : Prop where
  life : s.life = .joining joined
  flag : s.isRunning = false
  place : ∀ w, (s.mThreads w).Ending ∨ (s.mThreads w).Entering

/-- The steps that workers have left to take. -/
def work (s : ThreadPool ι τ workers) : Nat := tally Working.busy s.mThreads + tally Working.inTask s.mThreads

omit [DecidableEq ι] in
theorem Draining.move {joined : Nat} (h : s.Draining joined) {w : Fin workers} {a : Working τ}
    (hmThreads : s'.mThreads = update s.mThreads w a) (ha : a.Ending) (hlife : s'.life = s.life)
    (hflag : s'.isRunning = s.isRunning) : s'.Draining joined where
  life := hlife.trans h.life
  flag := hflag.trans h.flag
  place := by
    rw [hmThreads]
    exact (Function.forall_update_iff s.mThreads (p := fun _ a => a.Ending ∨ a.Entering)).mpr
      ⟨Or.inl ha, fun v _ => h.place v⟩

/-- A busy worker takes a step, and those at the mutex stay there. -/
theorem Draining.work_step (qSize : Nat) {joined : Nat} (h : s.Draining joined) {w : Fin workers}
    (hbusy : (s.mThreads w).busy = true) :
    ∃ s', Next qSize s s' ∧ s'.Draining joined ∧ s'.work < s.work ∧
      ∀ v, (s.mThreads v).Entering → (s'.mThreads v).Entering := by
  have hstay : ∀ (a : Working τ) v, (s.mThreads v).Entering → (update s.mThreads w a v).Entering := by
    intro a v hv
    have hne : v ≠ w := by
      rintro rfl
      cases hplace : s.mThreads v <;> rw [hplace] at hv hbusy <;> first | exact hv | cases hbusy
    rwa [Function.update_of_ne hne]
  have hmoves := fun a => tally_update Working.busy s.mThreads w a
  have hmoves' := fun a => tally_update Working.inTask s.mThreads w a
  cases hplace : s.mThreads w with
  | check =>
    refine ⟨_, ⟨_, .exit w hplace h.flag⟩, h.move rfl trivial rfl rfl, ?_, hstay _⟩
    have hcount := hmoves .exited
    have hcount' := hmoves' .exited
    rw [hplace] at hcount hcount'
    simp only [work, Working.busy, Working.inTask, Bool.toNat_true, Bool.toNat_false] at hcount hcount' ⊢
    omega
  | running t =>
    refine ⟨_, ⟨_, .taskEnds w t hplace⟩, h.move rfl trivial rfl rfl, ?_, hstay _⟩
    have hcount := hmoves .check
    have hcount' := hmoves' .check
    rw [hplace] at hcount hcount'
    simp only [work, taskReturns, Working.busy, Working.inTask, Bool.toNat_true, Bool.toNat_false]
      at hcount hcount' ⊢
    omega
  | _ =>
    rw [hplace] at hbusy
    cases hbusy

/-- The workers that can end do. -/
theorem Draining.drain (qSize : Nat) {joined : Nat} (n : Nat) : ∀ s : ThreadPool ι τ workers, s.work = n →
    s.Draining joined → ∃ s', ReflTransGen (Next qSize) s s' ∧ s'.Draining joined ∧
      (∀ v, (s'.mThreads v).busy = false) ∧ ∀ v, (s.mThreads v).Entering → (s'.mThreads v).Entering := by
  induction n using Nat.strong_induction_on with
  | h n ih =>
    intro s hn h
    by_cases hbusy : ∃ w, (s.mThreads w).busy = true
    · obtain ⟨w, hw⟩ := hbusy
      obtain ⟨s₁, hnext, h₁, hless, hstay₁⟩ := h.work_step qSize hw
      obtain ⟨s₂, hrun, h₂, hidle, hstay₂⟩ := ih _ (hn ▸ hless) s₁ rfl h₁
      exact ⟨s₂, .head hnext hrun, h₂, hidle, fun v hv => hstay₂ v (hstay₁ v hv)⟩
    · refine ⟨s, .refl, h, fun v => ?_, fun v hv => hv⟩
      exact Bool.eq_false_iff.mpr fun hv => hbusy ⟨v, hv⟩

/-- `Stop` joins the workers that have ended, up to one that has not. -/
theorem Draining.join_all (qSize n : Nat) {w : Fin workers} : ∀ (s : ThreadPool ι τ workers) (joined : Nat),
    joined ≤ w → w - joined = n → s.Draining joined → s.mThreads w ≠ .exited →
    ∃ s', ∃ v : Fin workers, ReflTransGen (Next qSize) s s' ∧ s'.Draining v ∧
      s'.mThreads = s.mThreads ∧ s'.mThreads v ≠ .exited := by
  induction n with
  | zero =>
    intro s joined hle hn h hw
    obtain rfl : joined = w := by omega
    exact ⟨s, w, .refl, h, rfl, hw⟩
  | succ n ih =>
    intro s joined hle hn h hw
    have hlt : joined < workers := by omega
    by_cases hended : s.mThreads ⟨joined, hlt⟩ = .exited
    · obtain ⟨s', v, hrun, h', hsame, hv⟩ := ih { s with life := .joining (joined + 1) } (joined + 1)
        (by omega) (by omega) ⟨rfl, h.flag, h.place⟩ hw
      exact ⟨s', v, .head ⟨_, .join ⟨joined, hlt⟩ h.life hended⟩ hrun, h', hsame, hv⟩
    · exact ⟨s, ⟨joined, hlt⟩, .refl, h, rfl, hended⟩

/-- With no worker busy and one that has not ended, nobody can step. -/
theorem Draining.deadlocked {v : Fin workers} (h : s.Draining v) (hv : s.mThreads v ≠ .exited)
    (hidle : ∀ w, (s.mThreads w).busy = false) : s.Deadlocked qSize := by
  refine ⟨⟨v, h.life⟩, fun a s' hstep hstops => ?_⟩
  have hheld : ¬ s.Free := fun hfree => hfree v h.life
  cases hstep with
  | loop w at_ flag =>
    have hbusy := hidle w
    rw [at_] at hbusy
    cases hbusy
  | exit w at_ flag =>
    have hbusy := hidle w
    rw [at_] at hbusy
    cases hbusy
  | taskEnds w t at_ =>
    have hbusy := hidle w
    rw [at_] at hbusy
    cases hbusy
  | empty w at_ free size => exact hheld free
  | pop w t rest at_ free size flag adding post => exact hheld free
  | null w at_ free size flag adding post => exact hheld free
  | Stop started =>
    rw [h.life] at started
    cases started
  | join w at_ ended =>
    have heq : (w : Nat) = v := PoolLife.joining.inj (at_.symm.trans h.life)
    rw [Fin.val_inj] at heq
    exact hv (heq ▸ ended)
  | stopReturns at_ =>
    have heq : workers = v := PoolLife.joining.inj (at_.symm.trans h.life)
    have := v.isLt
    omega
  | _ => exact hstops

/-- Once the pool has been started there is a thread for every worker. -/
def Born (s : ThreadPool ι τ workers) : Prop := s.life ≠ .created → ∀ w, s.mThreads w ≠ .unborn

omit [DecidableEq ι] in
theorem Born.move (h : s.Born) (w : Fin workers) {a : Working τ} (ha : a ≠ .unborn) :
    Born { s with mThreads := update s.mThreads w a } := by
  intro hlife
  exact (Function.forall_update_iff s.mThreads (p := fun _ a => a ≠ .unborn)).mpr ⟨ha, fun v _ => h hlife v⟩

theorem Step.born {a : Act ι τ workers} (hstep : Step qSize s a s') (h : s.Born) : s'.Born := by
  cases hstep with
  | Start created => exact fun _ w => by simp
  | call i t at_ => exact h
  | full i t at_ free size => exact h
  | push i t at_ free size mThreads post =>
    intro hlife w hw
    exact h hlife w ((post.at_iff rfl (by intro b; cases b <;> simp) w).mp hw)
  | wakeProducer i t at_ => exact h
  | loop w at_ flag => exact h.move w (by simp)
  | exit w at_ flag => exact h.move w (by simp)
  | empty w at_ free size => exact h.move w (by simp)
  | pop w t rest at_ free size flag adding post => exact h.move w (by simp)
  | null w at_ free size flag adding post => exact h.move w (by simp)
  | taskEnds w t at_ => exact h.move w (by simp)
  | wakeWorker w at_ => exact h.move w (by simp)
  | Stop started =>
    intro _ w hw
    have hbroadcast : (Working.wake (s.mThreads w)).getD (s.mThreads w) = .unborn := hw
    have hborn := h (by rw [started]; simp) w
    cases hplace : s.mThreads w <;> simp_all
  | join w at_ ended => exact fun _ => h (by rw [at_]; simp)
  | stopReturns at_ => exact fun _ => h (by rw [at_]; simp)

theorem Reachable.born (h : Reachable qSize s) : s.Born := by
  apply Lib.Reachable.invariant ?_ ?_ h
  · rintro _ rfl hlife
    exact absurd rfl hlife
  · rintro s s' hs ⟨a, hstep⟩
    exact hstep.born hs

omit [DecidableEq ι] in
/-- `Stop` sends every worker in `take` to the mutex. -/
theorem shutdown_place (s : ThreadPool ι τ workers) (w : Fin workers) (hborn : s.mThreads w ≠ .unborn) :
    ((s.mThreads w).InTake ∧ (s.shutdown.mThreads w).Entering) ∨
      (¬ (s.mThreads w).InTake ∧ (s.shutdown.mThreads w).Ending) := by
  show ((s.mThreads w).InTake ∧ ((Working.wake (s.mThreads w)).getD (s.mThreads w)).Entering) ∨
    (¬ (s.mThreads w).InTake ∧ ((Working.wake (s.mThreads w)).getD (s.mThreads w)).Ending)
  cases hplace : s.mThreads w with
  | unborn => exact absurd hplace hborn
  | lock => exact Or.inl ⟨trivial, trivial⟩
  | waiting => exact Or.inl ⟨trivial, trivial⟩
  | signalled => exact Or.inl ⟨trivial, trivial⟩
  | check => exact Or.inr ⟨id, trivial⟩
  | running t => exact Or.inr ⟨id, trivial⟩
  | exited => exact Or.inr ⟨id, trivial⟩

/-- `Stop`, called on a started pool, never deadlocks if and only if no worker is in `take`
when it acquires the mutex. -/
theorem stopsSafely_iff (h : Reachable qSize s) (hlife : s.life = .started) :
    s.StopsSafely qSize ↔ ∀ w, ¬ (s.mThreads w).InTake := by
  have hborn : ∀ w, s.mThreads w ≠ .unborn := h.born (by rw [hlife]; simp)
  constructor
  · intro hsafe w hw
    have hentering : (s.shutdown.mThreads w).Entering := by
      rcases shutdown_place s w (hborn w) with ⟨_, hplace⟩ | ⟨hnot, _⟩
      · exact hplace
      · exact absurd hw hnot
    have hstart : s.shutdown.Draining 0 := by
      refine ⟨rfl, rfl, fun v => ?_⟩
      rcases shutdown_place s v (hborn v) with ⟨_, hplace⟩ | ⟨_, hplace⟩
      · exact Or.inr hplace
      · exact Or.inl hplace
    obtain ⟨s₁, hrun₁, h₁, hidle, hstay⟩ := Draining.drain qSize _ s.shutdown rfl hstart
    have hw₁ : s₁.mThreads w ≠ .exited := fun hexited => by
      have hstill := hstay w hentering
      rw [hexited] at hstill
      exact hstill
    obtain ⟨s₂, v, hrun₂, h₂, hsame, hv⟩ := Draining.join_all qSize _ s₁ 0 (Nat.zero_le _) rfl h₁ hw₁
    exact hsafe s₂ (hrun₁.trans hrun₂) (h₂.deadlocked hv (by rw [hsame]; exact hidle))
  · intro hnone s' hrun
    have hclosing : s'.Closing := by
      induction hrun with
      | refl =>
        refine ⟨Or.inl ⟨0, Nat.zero_le _, rfl⟩, rfl, fun w => ?_⟩
        rcases shutdown_place s w (hborn w) with ⟨htake, _⟩ | ⟨_, hplace⟩
        · exact absurd htake (hnone w)
        · exact hplace
      | tail _ hnext ih =>
        obtain ⟨a, hstep⟩ := hnext
        exact hstep.closing ih
    exact hclosing.not_deadlocked

/-- A worker that is about to test `isRunning` when `Stop` is called. -/
theorem stopsSafely_check :
    StopsSafely 2 { (new : ThreadPool (Fin 1) Nat 1) with
      isRunning := true, life := .started, mThreads := fun _ => .check } := by
  have fresh : Reachable 2 (new : ThreadPool (Fin 1) Nat 1) := .start rfl
  have started := fresh.tail ⟨_, .Start rfl⟩
  exact (stopsSafely_iff started rfl).mpr fun _ h => h

/-- A worker waits for a task when `Stop` is called. -/
theorem stopNeverDeadlocks_waiting : ¬ StopNeverDeadlocks (Fin 1) Nat 1 2 := by
  intro hclaim
  have fresh : Reachable 2 (new : ThreadPool (Fin 1) Nat 1) := .start rfl
  have started := fresh.tail ⟨_, .Start rfl⟩
  have waits := (started.tail ⟨_, .loop 0 rfl rfl⟩).tail ⟨_, .empty 0 trivial (by simp [Free]) rfl⟩
  apply hclaim _ waits rfl _ .refl
  apply Draining.deadlocked (v := 0)
  · exact ⟨rfl, rfl, fun w => Or.inr (by rw [Subsingleton.elim w 0]; exact trivial)⟩
  · simp [shutdown, broadcast]
  · decide

end ThreadPool
end Knpnl.Base
