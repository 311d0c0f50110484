import Mathlib.Data.Fintype.Basic
import Knpnl.Event.TimerIndex

/-!
# The lifetime of timers

Other threads create timers and look them up at once, and queue what is to be done with
them to the loop. A pointer that such a thread or a queued `deleteTimer` keeps says nothing
about the timer: the loop may free it in between.
-/
namespace Knpnl.Event

open Lib

/-- A task that was queued from another thread. -/
inductive TimerTask (P : Type*) where
  | insert (timer : P)
  | deleteTimer (timer : Option P)
  | resetTimer (id : Timer_t) (ts : Timestamp)
  deriving DecidableEq

/-- Where another thread is: between calls, in `AddTimer` with a new timer, there with the timer
queued, in `Remove` with an id that was found, and there with the pointer that was looked up. -/
inductive Position (P : Type*) where
  | idle
  | created (timer : P)
  | inserted (timer : P)
  | found (id : Timer_t)
  | lookedUp (timer : Option P)
  deriving DecidableEq

/-- The loop's thread, the tasks queued to it, and the other threads. -/
structure TimerThreads (ι P : Type*) [LinearOrder P] where
  loop : TimerLoop P
  mTasks : List (TimerTask P)
  threads : ι → Position P

/-- A step of the loop's thread, which runs a queued task when it is not in `handleRead`, or of
another thread `i`. -/
inductive ThreadStep (ι P : Type*) where
  | loop (c : TimerCall P)
  | runTask (r : Reads P)
  | newTimer (i : ι) (p : P) (ts : Timestamp) (interval : Interval)
  | queueTask (i : ι)
  | GetTimerId (i : ι)
  | find (i : ι) (id : Timer_t)
  | lookup (i : ι)
  | ResetTimer (i : ι) (id : Timer_t) (ts : Timestamp)

variable {ι P : Type*} [LinearOrder P]

namespace TimerQueue

variable {q : TimerQueue P} {out : Set P}

/-- The timer that an id leads to. -/
def mapped (q : TimerQueue P) (id : Timer_t) : List P :=
  match q.mTimerIdMap.lookup id with
  | some (some p) => [p]
  | some none | none => []

/-- `mTimerIdMap[id]`, which maps an id that is not there to null. -/
def subscript (q : TimerQueue P) (id : Timer_t) : Option P × TimerQueue P :=
  match q.mTimerIdMap.lookup id with
  | some p => (p, q)
  | none => (none, { q with mTimerIdMap := q.mTimerIdMap.insert id none })

def runTask (q : TimerQueue P) (r : Reads P) : TimerTask P → TimerQueue P
  | .insert p => q.insert r p
  | .deleteTimer p => q.deleteTimer r p
  | .resetTimer id ts => (q.resetTimer r id ts).1

end TimerQueue

namespace TimerLoop

/-- The timers that a step reads, writes or frees. -/
def touches (x : TimerLoop P) : TimerCall P → List P
  | .Remove _ id | .ResetTimer _ id _ => x.queue.mapped id
  | .handleRead r => x.queue.expired r.now
  | .run =>
      match x.stack with
      | .next (p :: _) :: _ => [p]
      | _ => []
  | .returned _ =>
      match x.stack with
      | .run p _ :: _ => [p]
      | _ => []
  | .AddTimer _ _ _ _ | .finish _ | .elsewhere => []

/-- The timer that a step frees. -/
def frees (x : TimerLoop P) : TimerCall P → List P
  | .Remove _ id => x.queue.mapped id
  | .returned _ =>
      match x.stack with
      | .run p _ :: _ => if (x.queue.timer p).mRepeatable then [] else [p]
      | _ => []
  | _ => []

end TimerLoop

namespace TimerThreads

variable [DecidableEq ι] {s : TimerThreads ι P}

def new : TimerThreads ι P := ⟨.new, [], fun _ => .idle⟩

def setThread (s : TimerThreads ι P) (i : ι) (pos : Position P) : TimerThreads ι P :=
  { s with threads := Function.update s.threads i pos }

def setQueue (s : TimerThreads ι P) (q : TimerQueue P) : TimerThreads ι P :=
  { s with loop := { s.loop with queue := q } }

def Enabled (s : TimerThreads ι P) : ThreadStep ι P → Prop
  | .loop c => s.loop.Enabled c
  | .runTask _ => s.loop.stack = [] ∧ s.mTasks ≠ []
  | .newTimer i p _ _ => s.threads i = .idle ∧ s.loop.queue.heap p = .unallocated
  | .queueTask i =>
      match s.threads i with
      | .created _ | .lookedUp _ => True
      | _ => False
  | .GetTimerId i =>
      match s.threads i with
      | .inserted _ => True
      | _ => False
  | .find i _ | .ResetTimer i _ _ => s.threads i = .idle
  | .lookup i =>
      match s.threads i with
      | .found _ => True
      | _ => False

def step (s : TimerThreads ι P) : ThreadStep ι P → TimerThreads ι P
  | .loop c => { s with loop := s.loop.step c }
  | .runTask r =>
      match s.mTasks with
      | task :: rest => { s.setQueue (s.loop.queue.runTask r task) with mTasks := rest }
      | [] => s
  | .newTimer i p ts interval => (s.setQueue (s.loop.queue.newTimer p ts interval)).setThread i (.created p)
  | .queueTask i =>
      match s.threads i with
      | .created p => { s.setThread i (.inserted p) with mTasks := s.mTasks ++ [.insert p] }
      | .lookedUp p => { s.setThread i .idle with mTasks := s.mTasks ++ [.deleteTimer p] }
      | _ => s
  | .GetTimerId i => s.setThread i .idle
  | .find i id => if (s.loop.queue.mTimerIdMap.lookup id).isSome then s.setThread i (.found id) else s
  | .lookup i =>
      match s.threads i with
      | .found id =>
          let r := s.loop.queue.subscript id
          (s.setQueue r.2).setThread i (.lookedUp r.1)
      | _ => s
  | .ResetTimer _ id ts => { s with mTasks := s.mTasks ++ [.resetTimer id ts] }

def run (s : TimerThreads ι P) (steps : List (ThreadStep ι P)) : TimerThreads ι P := steps.foldl step s

/-- The timers that a step reads, writes or frees. -/
def touches (s : TimerThreads ι P) : ThreadStep ι P → List P
  | .loop c => s.loop.touches c
  | .runTask _ =>
      match s.mTasks with
      | .insert p :: _ | .deleteTimer (some p) :: _ => [p]
      | .resetTimer id _ :: _ => s.loop.queue.mapped id
      | .deleteTimer none :: _ | [] => []
  | .GetTimerId i =>
      match s.threads i with
      | .inserted p => [p]
      | _ => []
  | _ => []

/-- The timer that a step frees. -/
def frees (s : TimerThreads ι P) : ThreadStep ι P → List P
  | .loop c => s.loop.frees c
  | .runTask _ =>
      match s.mTasks with
      | .deleteTimer (some p) :: _ => [p]
      | _ => []
  | _ => []

/-- The tasks that are queued behind a step. -/
def tasksBehind (s : TimerThreads ι P) : ThreadStep ι P → List (TimerTask P)
  | .runTask _ => s.mTasks.tail
  | _ => s.mTasks

/-- Every timer that a step reads, writes or frees is live. -/
def UsesLive (s : TimerThreads ι P) : Prop :=
  ∀ a, s.Enabled a → ∀ p ∈ s.touches a, ∃ t, s.loop.queue.heap p = .live t

/-- When a timer is freed, no thread is still to read its id, and no other `Remove` that has
looked it up is still to be carried out. -/
def FreesUnreferenced (s : TimerThreads ι P) (a : ThreadStep ι P) : Prop :=
  ∀ p ∈ s.frees a, (∀ i, s.threads i ≠ .inserted p ∧ s.threads i ≠ .lookedUp (some p)) ∧
    .deleteTimer (some p) ∉ s.tasksBehind a

instance (s : TimerThreads ι P) (a : ThreadStep ι P) : Decidable (s.Enabled a) := by
  cases a <;> unfold Enabled <;> first | infer_instance | (dsimp only; split <;> infer_instance)

instance [Fintype ι] (s : TimerThreads ι P) (a : ThreadStep ι P) : Decidable (s.FreesUnreferenced a) :=
  inferInstanceAs (Decidable (∀ p ∈ s.frees a, _ ∧ _))

end TimerThreads

namespace TimerLoop

variable {x : TimerLoop P} {pending : Set P} {p : P} {t : Timer}

/-- A timer that is still to be inserted may be anywhere but in the queue. -/
theorem Inv.mono {pending' : Set P} (h : x.Inv pending) (hsub : pending' ⊆ pending) : x.Inv pending' :=
  ⟨h.indexed.mono (Set.union_subset_union_right _ hsub), h.nodup, fun p hp => h.apart p (hsub hp)⟩

theorem mem_mapped {q : TimerQueue P} {id : Timer_t} (hp : p ∈ q.mapped id) :
    q.mTimerIdMap.lookup id = some (some p) := by
  unfold TimerQueue.mapped at hp
  split at hp
  · rename_i hlookup
    rw [hlookup, List.mem_singleton.mp hp]
  · cases hp
  · cases hp

/-- The loop uses live timers only. -/
theorem Inv.touches (h : x.Inv pending) {c : TimerCall P} (hp : p ∈ x.touches c) :
    ∃ t, x.queue.heap p = .live t := by
  have hmapped : ∀ {id}, p ∈ x.queue.mapped id → ∃ t, x.queue.heap p = .live t := by
    intro id hp
    obtain ⟨t, hlive, _⟩ := h.indexed.owned id p (mem_mapped hp)
    exact ⟨t, hlive⟩
  cases c with
  | Remove r id => exact hmapped hp
  | ResetTimer r id ts => exact hmapped hp
  | handleRead r =>
    obtain ⟨t, hlive, _⟩ := h.indexed.live_of_expired hp
    exact ⟨t, hlive⟩
  | run =>
    simp only [TimerLoop.touches] at hp
    split at hp
    · rename_i hstack
      refine h.live_of_held ?_
      rw [held, hstack, List.mem_singleton.mp hp]
      exact List.mem_append_left _ List.mem_cons_self
    · cases hp
  | returned r =>
    simp only [TimerLoop.touches] at hp
    split at hp
    · rename_i hstack
      refine h.live_of_held ?_
      rw [held_eq hstack, List.mem_singleton.mp hp]
      exact List.mem_cons_self
    · cases hp
  | _ => cases hp

/-- A timer that is freed was in use. -/
theorem touches_of_frees {c : TimerCall P} (hp : p ∈ x.frees c) : p ∈ x.touches c := by
  cases c with
  | Remove r id => exact hp
  | returned r =>
    simp only [frees] at hp
    simp only [TimerLoop.touches]
    split at hp
    · split at hp
      · cases hp
      · exact hp
    · cases hp
  | _ => cases hp

theorem Inv.live_of_frees (h : x.Inv pending) {c : TimerCall P} (hp : p ∈ x.frees c) :
    ∃ t, x.queue.heap p = .live t := h.touches (touches_of_frees hp)

/-- A timer that is not freed by a step stays live. -/
theorem live_step (hlive : x.queue.heap p = .live t) {c : TimerCall P} (hc : x.Enabled c)
    (hp : p ∉ x.frees c) : ∃ t', (x.step c).queue.heap p = .live t' := by
  have hchange := x.change_step p hc
  generalize (x.step c).queue.heap p = cell at hchange ⊢
  cases hchange with
  | same => exact ⟨t, hlive⟩
  | created r ts interval => exact ⟨_, rfl⟩
  | removed r hlookup => simp [frees, TimerQueue.mapped, hlookup] at hp
  | reset r ts hlookup => exact ⟨_, rfl⟩
  | restarted r hstack hrepeat => exact ⟨_, rfl⟩
  | done r hstack hrepeat => simp [frees, hstack, hrepeat] at hp

end TimerLoop

namespace TimerThreads

variable {s : TimerThreads ι P}

/-- The timers that are created and not yet inserted. -/
def pending (s : TimerThreads ι P) : Set P :=
  {p | (∃ i, s.threads i = .created p) ∨ .insert p ∈ s.mTasks}

/-- A pointer to the timer was looked up, and is still to be passed to `deleteTimer`. -/
def Removing (s : TimerThreads ι P) (p : P) : Prop :=
  (∃ i, s.threads i = .lookedUp (some p)) ∨ .deleteTimer (some p) ∈ s.mTasks

/-- A timer is inserted once. A thread that is still to read an id has a live timer, and what
is still to be deleted is live, and has been inserted. -/
structure Inv (s : TimerThreads ι P) : Prop where
  loop : s.loop.Inv s.pending
  created : ∀ i p, s.threads i = .created p → .insert p ∉ s.mTasks ∧ ∀ j, s.threads j = .created p → j = i
  queued : ∀ p, s.mTasks.count (.insert p) ≤ 1
  returning : ∀ i p, s.threads i = .inserted p → ∃ t, s.loop.queue.heap p = .live t
  removing : ∀ p, s.Removing p → (∃ t, s.loop.queue.heap p = .live t) ∧ p ∉ s.pending

theorem inv_new : Inv (new : TimerThreads ι P) where
  loop := TimerLoop.inv_new.mono fun p hp => by rcases hp with ⟨_, hp⟩ | hp <;> cases hp
  created i p h := by cases h
  queued p := Nat.zero_le 1
  returning i p h := by cases h
  removing p h := by rcases h with ⟨_, h⟩ | h <;> cases h

/-- What is still to be inserted is live. -/
theorem Inv.live_of_pending (h : s.Inv) {p : P} (hp : p ∈ s.pending) :
    ∃ t, s.loop.queue.heap p = .live t ∧ s.loop.queue.mTimerIdMap.lookup t.mTimerId ≠ some (some p) :=
  h.loop.indexed.out p (Or.inr hp)

theorem Inv.usesLive (h : s.Inv) : s.UsesLive := by
  intro a ha p hp
  cases a with
  | loop c => exact h.loop.touches hp
  | runTask r =>
    cases htasks : s.mTasks with
    | nil => simp [touches, htasks] at hp
    | cons task rest =>
      cases task with
      | insert p' =>
        obtain rfl : p = p' := by simpa [touches, htasks] using hp
        obtain ⟨t, hlive, _⟩ := h.live_of_pending (Or.inr (htasks ▸ List.mem_cons_self))
        exact ⟨t, hlive⟩
      | deleteTimer v =>
        cases v with
        | none => simp [touches, htasks] at hp
        | some p' =>
          obtain rfl : p = p' := by simpa [touches, htasks] using hp
          exact (h.removing p (Or.inr (htasks ▸ List.mem_cons_self))).1
      | resetTimer id ts =>
        have hmapped : p ∈ s.loop.queue.mapped id := by simpa [touches, htasks] using hp
        obtain ⟨t, hlive, _⟩ := h.loop.indexed.owned id p (TimerLoop.mem_mapped hmapped)
        exact ⟨t, hlive⟩
  | GetTimerId i =>
    cases hthread : s.threads i with
    | inserted p' =>
      obtain rfl : p = p' := by simpa [touches, hthread] using hp
      exact h.returning i p hthread
    | _ => simp [touches, hthread] at hp
  | _ => cases hp

theorem Inv.loopStep (h : s.Inv) (c : TimerCall P) (hc : s.loop.Enabled c)
    (hfrees : s.FreesUnreferenced (.loop c)) : Inv { s with loop := s.loop.step c } := by
  refine ⟨h.loop.step c hc, h.created, h.queued, fun i p hp => ?_, fun p hp => ⟨?_, (h.removing p hp).2⟩⟩
  · obtain ⟨t, hlive⟩ := h.returning i p hp
    exact TimerLoop.live_step hlive hc fun hfreed => ((hfrees p hfreed).1 i).1 hp
  · obtain ⟨⟨t, hlive⟩, _⟩ := h.removing p hp
    refine TimerLoop.live_step hlive hc fun hfreed => ?_
    rcases hp with ⟨i, hp⟩ | hp
    · exact ((hfrees p hfreed).1 i).2 hp
    · exact (hfrees p hfreed).2 hp

/-- Steps after which there is no more to insert, and nothing to delete that the map does not
lead to. -/
theorem Inv.weaken {s' : TimerThreads ι P} (h : s.Inv) (hloop : s'.loop = s.loop)
    (hcreated : ∀ i p, s'.threads i = .created p → s.threads i = .created p)
    (hinsert : ∀ p, s'.mTasks.count (.insert p) ≤ s.mTasks.count (.insert p))
    (hinserted : ∀ i p, s'.threads i = .inserted p → s.threads i = .inserted p)
    (hremoving : ∀ p, s'.Removing p →
      s.Removing p ∨ ∃ id, s.loop.queue.mTimerIdMap.lookup id = some (some p)) : s'.Inv := by
  have hmem : ∀ p, .insert p ∈ s'.mTasks → .insert p ∈ s.mTasks := fun p hp =>
    List.one_le_count_iff.mp ((List.one_le_count_iff.mpr hp).trans (hinsert p))
  have hsub : s'.pending ⊆ s.pending := by
    intro p hp
    rcases hp with ⟨i, hp⟩ | hp
    · exact Or.inl ⟨i, hcreated i p hp⟩
    · exact Or.inr (hmem p hp)
  refine ⟨hloop ▸ h.loop.mono hsub, fun i p hp => ?_, fun p => (hinsert p).trans (h.queued p),
    fun i p hp => hloop ▸ h.returning i p (hinserted i p hp), fun p hp => ?_⟩
  · obtain ⟨hnot, honly⟩ := h.created i p (hcreated i p hp)
    exact ⟨fun hin => hnot (hmem p hin), fun j hj => honly j (hcreated j p hj)⟩
  · rw [hloop]
    rcases hremoving p hp with hold | ⟨id, hlookup⟩
    · obtain ⟨hlive, hpending⟩ := h.removing p hold
      exact ⟨hlive, fun hin => hpending (hsub hin)⟩
    · obtain ⟨t, hlive, _⟩ := h.loop.indexed.owned id p hlookup
      exact ⟨⟨t, hlive⟩, fun hin => (h.loop.not_out hlookup).2 (hsub hin)⟩

/-- A task that leaves the other timers live, and has nothing to do with what is still to be
inserted. -/
theorem Inv.runQueue (h : s.Inv) {task : TimerTask P} {rest : List (TimerTask P)}
    (htasks : s.mTasks = task :: rest) {q : TimerQueue P} (gone : Set P)
    (hindexed : q.Indexed (({p | p ∈ s.loop.held} ∪ s.pending) \ gone))
    (hheld : ∀ p ∈ gone, p ∉ s.loop.held) (hcreated : ∀ p ∈ gone, ∀ i, s.threads i ≠ .created p)
    (hinsert : ∀ p ∈ gone, .insert p ∉ rest)
    (hlive : ∀ p t, s.loop.queue.heap p = .live t →
      ((∃ i, s.threads i = .inserted p) ∨ (∃ i, s.threads i = .lookedUp (some p)) ∨
        .deleteTimer (some p) ∈ rest) → ∃ t', q.heap p = .live t') :
    Inv { s.setQueue q with mTasks := rest } := by
  have hsub : pending { s.setQueue q with mTasks := rest } ⊆ s.pending := by
    intro p hp
    rcases hp with hp | hp
    · exact Or.inl hp
    · exact Or.inr (htasks ▸ List.mem_cons_of_mem _ hp)
  have hout : ∀ p ∈ pending { s.setQueue q with mTasks := rest }, p ∉ gone := by
    intro p hp hgone
    rcases hp with ⟨i, hp⟩ | hp
    · exact hcreated p hgone i hp
    · exact hinsert p hgone hp
  refine ⟨⟨hindexed.mono fun p hp => ?_, h.loop.nodup, fun p hp => h.loop.apart p (hsub hp)⟩,
    fun i p hp => ?_, fun p => ?_, fun i p hp => ?_, fun p hp => ?_⟩
  · rcases hp with hp | hp
    · exact ⟨Or.inl hp, fun hgone => hheld p hgone hp⟩
    · exact ⟨Or.inr (hsub hp), hout p hp⟩
  · obtain ⟨hnot, honly⟩ := h.created i p hp
    exact ⟨fun hin => hnot (htasks ▸ List.mem_cons_of_mem _ hin), honly⟩
  · exact (List.count_le_count_cons).trans (htasks ▸ h.queued p)
  · obtain ⟨t, ht⟩ := h.returning i p hp
    exact hlive p t ht (Or.inl ⟨i, hp⟩)
  · have hold : s.Removing p := hp.imp_right fun hin => htasks ▸ List.mem_cons_of_mem _ hin
    obtain ⟨⟨t, ht⟩, hpending⟩ := h.removing p hold
    exact ⟨hlive p t ht (Or.inr hp), fun hin => hpending (hsub hin)⟩

theorem Inv.runTask (h : s.Inv) (r : Reads P) {task : TimerTask P} {rest : List (TimerTask P)}
    (htasks : s.mTasks = task :: rest) (hstack : s.loop.stack = [])
    (hfrees : s.FreesUnreferenced (.runTask r)) :
    Inv { s.setQueue (s.loop.queue.runTask r task) with mTasks := rest } := by
  have hheld : ∀ p, p ∉ s.loop.held := fun p hp => by
    rw [TimerLoop.held, hstack] at hp
    cases hp
  cases task with
  | insert p =>
    have hpending : p ∈ s.pending := Or.inr (htasks ▸ List.mem_cons_self)
    obtain ⟨t, hlive, hnot⟩ := h.live_of_pending hpending
    have hrest : .insert p ∉ rest := by
      have hcount := h.queued p
      rw [htasks, List.count_cons_self] at hcount
      exact List.count_eq_zero.mp (by omega)
    refine h.runQueue htasks {p} (h.loop.indexed.insert r hlive hnot) (fun p' hp' => hheld p')
      (fun p' hp' i hi => ?_) (fun p' hp' => ?_) (fun p' t' hlive' _ => ⟨t', ?_⟩)
    · obtain rfl : p' = p := hp'
      exact (h.created i p' hi).1 (htasks ▸ List.mem_cons_self)
    · obtain rfl : p' = p := hp'
      exact hrest
    · rwa [TimerQueue.runTask, TimerQueue.heap_insert]
  | deleteTimer v =>
    cases v with
    | none =>
      refine h.runQueue htasks ∅ ?_ (fun p hp => hheld p) (fun p hp => absurd hp (Set.notMem_empty p))
        (fun p hp => absurd hp (Set.notMem_empty p)) (fun p t hlive _ => ⟨t, hlive⟩)
      rw [Set.sdiff_empty]
      exact h.loop.indexed
    | some p =>
      obtain ⟨⟨t, hlive⟩, hpending⟩ := h.removing p (Or.inr (htasks ▸ List.mem_cons_self))
      obtain ⟨hthreads, hbehind⟩ := hfrees p (by simp [frees, htasks])
      have hbehind' : .deleteTimer (some p) ∉ rest := by rwa [tasksBehind, htasks] at hbehind
      refine h.runQueue htasks {p} (h.loop.indexed.deleteTimer r hlive) (fun p' hp' => hheld p')
        (fun p' hp' i hi => ?_) (fun p' hp' hin => ?_) (fun p' t' hlive' href => ⟨t', ?_⟩)
      · obtain rfl : p' = p := hp'
        exact hpending (Or.inl ⟨i, hi⟩)
      · obtain rfl : p' = p := hp'
        exact hpending (Or.inr (htasks ▸ List.mem_cons_of_mem _ hin))
      · have hne : p' ≠ p := by
          intro heq
          subst heq
          rcases href with ⟨i, hi⟩ | ⟨i, hi⟩ | hin
          · exact (hthreads i).1 hi
          · exact (hthreads i).2 hi
          · exact hbehind' hin
        rw [TimerQueue.runTask, TimerQueue.heap_deleteTimer]
        exact (TimerQueue.heap_setTimer_of_ne hne _).trans hlive'
  | resetTimer id ts =>
    have hcalling : s.loop.Enabled (.ResetTimer r id ts) := by
      show s.loop.Calling
      rw [TimerLoop.Calling, hstack]
      trivial
    refine h.runQueue htasks ∅ ?_ (fun p hp => hheld p) (fun p hp => absurd hp (Set.notMem_empty p))
      (fun p hp => absurd hp (Set.notMem_empty p)) (fun p t hlive _ => ?_)
    · rw [Set.sdiff_empty]
      exact h.loop.indexed.resetTimer r id ts
    · exact TimerLoop.live_step hlive hcalling List.not_mem_nil

/-- A null pointer in the map leads to no timer. -/
theorem Inv.mapNull (h : s.Inv) {id : Timer_t} (hlookup : s.loop.queue.mTimerIdMap.lookup id = none) :
    Inv (s.setQueue { s.loop.queue with mTimerIdMap := s.loop.queue.mTimerIdMap.insert id none }) := by
  have hsame : ∀ id' p, (s.loop.queue.mTimerIdMap.insert id none).lookup id' = some (some p) ↔
      s.loop.queue.mTimerIdMap.lookup id' = some (some p) := by
    intro id' p
    by_cases hid : id' = id
    · rw [hid, Finmap.lookup_insert, hlookup]
      simp
    · rw [Finmap.lookup_insert_of_ne _ hid]
  obtain ⟨hagree, howned, hids, hcount, hout⟩ := h.loop.indexed
  refine ⟨⟨⟨fun ts p => ?_, fun id' p hp => howned id' p ((hsame id' p).mp hp), hids, hcount, fun p hp => ?_⟩,
    h.loop.nodup, h.loop.apart⟩, h.created, h.queued, h.returning, h.removing⟩
  · refine (hagree ts p).trans (exists_congr fun t => and_congr_right fun _ => and_congr_right fun _ => ?_)
    exact (hsame t.mTimerId p).symm
  · obtain ⟨t, hlive, hnot⟩ := hout p hp
    exact ⟨t, hlive, fun hp' => hnot ((hsame t.mTimerId p).mp hp')⟩

variable [DecidableEq ι]

@[simp] theorem threads_setThread_self (s : TimerThreads ι P) (i : ι) (pos : Position P) :
    (s.setThread i pos).threads i = pos :=
  Function.update_self ..

theorem threads_setThread_of_ne {i j : ι} (h : j ≠ i) (pos : Position P) :
    (s.setThread i pos).threads j = s.threads j :=
  Function.update_of_ne h ..

/-- What was said of a thread before another one went on, or of that one. -/
theorem threads_setThread {i j : ι} {pos pos' : Position P} (h : (s.setThread i pos).threads j = pos') :
    j = i ∧ pos = pos' ∨ j ≠ i ∧ s.threads j = pos' := by
  by_cases hj : j = i
  · subst hj
    exact Or.inl ⟨rfl, (threads_setThread_self ..).symm.trans h⟩
  · exact Or.inr ⟨hj, (threads_setThread_of_ne hj _).symm.trans h⟩

/-- A thread that stands where the one that went on does not. -/
theorem threads_of_setThread {i j : ι} {pos pos' : Position P} (hne : pos ≠ pos')
    (h : (s.setThread i pos).threads j = pos') : j ≠ i ∧ s.threads j = pos' :=
  (threads_setThread h).resolve_left fun hsame => hne hsame.2

/-- What is being removed after a step of a thread that looked nothing up and queued no
`deleteTimer`. -/
theorem removing_of_setThread {i : ι} {pos : Position P} {tasks : List (TimerTask P)} {p : P}
    (hpos : pos ≠ .lookedUp (some p))
    (htasks : .deleteTimer (some p) ∈ tasks → .deleteTimer (some p) ∈ s.mTasks)
    (h : Removing { s.setThread i pos with mTasks := tasks } p) : s.Removing p := by
  rcases h with ⟨j, hj⟩ | hin
  · exact Or.inl ⟨j, (threads_of_setThread hpos hj).2⟩
  · exact Or.inr (htasks hin)

theorem Inv.newTimer (h : s.Inv) (i : ι) {p : P} (ts : Timestamp) (interval : Interval)
    (hp : s.loop.queue.heap p = .unallocated) :
    Inv ((s.setQueue (s.loop.queue.newTimer p ts interval)).setThread i (.created p)) := by
  obtain ⟨hnew, _⟩ := h.loop.indexed.newTimer hp ts interval
  have hne : ∀ {p'}, (∃ t, s.loop.queue.heap p' = .live t) → p' ≠ p := by
    intro p' ⟨t, hlive⟩ heq
    rw [heq, hp] at hlive
    cases hlive
  have hkept : ∀ {p'}, (∃ t, s.loop.queue.heap p' = .live t) →
      ∃ t, (s.loop.queue.newTimer p ts interval).heap p' = .live t := by
    intro p' ⟨t, hlive⟩
    exact ⟨t, (TimerQueue.heap_setTimer_of_ne (hne ⟨t, hlive⟩) _).trans hlive⟩
  have hfresh : p ∉ s.pending := by
    intro hin
    obtain ⟨t, hlive, _⟩ := h.live_of_pending hin
    exact hne ⟨t, hlive⟩ rfl
  have hpending : ∀ {p'},
      p' ∈ pending ((s.setQueue (s.loop.queue.newTimer p ts interval)).setThread i (.created p)) →
        p' = p ∨ p' ∈ s.pending := by
    intro p' hp'
    rcases hp' with ⟨j, hj⟩ | hin
    · rcases threads_setThread hj with ⟨_, heq⟩ | ⟨_, hj⟩
      · exact Or.inl (Position.created.inj heq).symm
      · exact Or.inr (Or.inl ⟨j, hj⟩)
    · exact Or.inr (Or.inr hin)
  refine ⟨⟨hnew.mono fun p' hp' => ?_, h.loop.nodup, fun p' hp' hheld => ?_⟩, fun j p' hj => ?_, h.queued,
    fun j p' hj => ?_, fun p' hp' => ?_⟩
  · rcases hp' with hp' | hp'
    · exact Or.inl (Or.inl hp')
    · rcases hpending hp' with heq | hp'
      · exact Or.inr heq
      · exact Or.inl (Or.inr hp')
  · rcases hpending hp' with rfl | hp'
    · exact hne (h.loop.live_of_held hheld) rfl
    · exact h.loop.apart p' hp' hheld
  · rcases threads_setThread hj with ⟨rfl, heq⟩ | ⟨hji, hj⟩
    · obtain rfl : p = p' := Position.created.inj heq
      refine ⟨fun hin => hfresh (Or.inr hin), fun k hk => ?_⟩
      rcases threads_setThread hk with ⟨rfl, _⟩ | ⟨_, hk⟩
      · rfl
      · exact absurd (Or.inl ⟨k, hk⟩) hfresh
    · refine ⟨(h.created j p' hj).1, fun k hk => ?_⟩
      rcases threads_setThread hk with ⟨_, heq⟩ | ⟨_, hk⟩
      · obtain rfl : p = p' := Position.created.inj heq
        exact absurd (Or.inl ⟨j, hj⟩) hfresh
      · exact (h.created j p' hj).2 k hk
  · exact hkept (h.returning j p' (threads_of_setThread (by simp) hj).2)
  · have hold : s.Removing p' := removing_of_setThread (by simp) id hp'
    obtain ⟨hlive, hnot⟩ := h.removing p' hold
    exact ⟨hkept hlive, fun hin => (hpending hin).elim (hne hlive) hnot⟩

theorem Inv.queueInsert (h : s.Inv) {i : ι} {p : P} (hi : s.threads i = .created p) :
    Inv { s.setThread i (.inserted p) with mTasks := s.mTasks ++ [.insert p] } := by
  obtain ⟨hnot, honly⟩ := h.created i p hi
  have hsub : pending { s.setThread i (.inserted p) with mTasks := s.mTasks ++ [.insert p] } ⊆ s.pending := by
    intro p' hp'
    rcases hp' with ⟨j, hj⟩ | hin
    · exact Or.inl ⟨j, (threads_of_setThread (by simp) hj).2⟩
    · rcases List.mem_append.mp hin with hin | hin
      · exact Or.inr hin
      · obtain rfl : p' = p := by simpa using hin
        exact Or.inl ⟨i, hi⟩
  refine ⟨h.loop.mono hsub, fun j p' hj => ?_, fun p' => ?_, fun j p' hj => ?_, fun p' hp' => ?_⟩
  · obtain ⟨hji, hold⟩ := threads_of_setThread (by simp) hj
    obtain ⟨hnot', honly'⟩ := h.created j p' hold
    refine ⟨fun hin => ?_, fun k hk => honly' k (threads_of_setThread (by simp) hk).2⟩
    rcases List.mem_append.mp hin with hin | hin
    · exact hnot' hin
    · obtain rfl : p' = p := by simpa using hin
      exact hji (honly j hold)
  · show (s.mTasks ++ [TimerTask.insert p]).count (.insert p') ≤ 1
    rw [List.count_append]
    by_cases hp' : p' = p
    · subst hp'
      rw [List.count_eq_zero.mpr hnot, List.count_singleton_self]
    · have hother : [TimerTask.insert p].count (.insert p') = 0 :=
        List.count_eq_zero.mpr fun hin => hp' (by simpa using hin)
      rw [hother]
      exact h.queued p'
  · rcases threads_setThread hj with ⟨_, heq⟩ | ⟨_, hj⟩
    · obtain rfl : p = p' := Position.inserted.inj heq
      obtain ⟨t, hlive, _⟩ := h.live_of_pending (Or.inl ⟨i, hi⟩)
      exact ⟨t, hlive⟩
    · exact h.returning j p' hj
  · have hold : s.Removing p' := removing_of_setThread (by simp) (by simp) hp'
    obtain ⟨hlive, hpending⟩ := h.removing p' hold
    exact ⟨hlive, fun hin => hpending (hsub hin)⟩

/-- A thread goes on to where it neither creates nor removes a timer, except one that the map
leads to, and queues nothing that is to be inserted. -/
theorem Inv.goOn (h : s.Inv) (i : ι) (pos : Position P) (tasks : List (TimerTask P))
    (hcreated : ∀ p, pos ≠ .created p) (hinserted : ∀ p, pos ≠ .inserted p)
    (hlooked : ∀ p, pos = .lookedUp (some p) → ∃ id, s.loop.queue.mTimerIdMap.lookup id = some (some p))
    (hinsert : ∀ p, .insert p ∉ tasks)
    (hdelete : ∀ p, .deleteTimer (some p) ∈ tasks → s.threads i = .lookedUp (some p)) :
    Inv { s.setThread i pos with mTasks := s.mTasks ++ tasks } := by
  refine h.weaken rfl (fun j p hj => (threads_of_setThread (hcreated p) hj).2) (fun p => ?_)
    (fun j p hj => (threads_of_setThread (hinserted p) hj).2) (fun p hp => ?_)
  · show (s.mTasks ++ tasks).count (.insert p) ≤ _
    rw [List.count_append, List.count_eq_zero.mpr (hinsert p), Nat.add_zero]
  · rcases hp with ⟨j, hj⟩ | hin
    · rcases threads_setThread hj with ⟨_, heq⟩ | ⟨_, hj⟩
      · exact Or.inr (hlooked p heq)
      · exact Or.inl (Or.inl ⟨j, hj⟩)
    · rcases List.mem_append.mp hin with hin | hin
      · exact Or.inl (Or.inr hin)
      · exact Or.inl (Or.inl ⟨i, hdelete p hin⟩)

theorem Inv.step (h : s.Inv) (a : ThreadStep ι P) (ha : s.Enabled a) (hfrees : s.FreesUnreferenced a) :
    (s.step a).Inv := by
  cases a with
  | loop c => exact h.loopStep c ha hfrees
  | runTask r =>
    obtain ⟨hstack, hne⟩ := ha
    obtain ⟨task, rest, htasks⟩ := List.exists_cons_of_ne_nil hne
    have hstep : s.step (.runTask r) =
        { s.setQueue (s.loop.queue.runTask r task) with mTasks := rest } := by
      simp only [TimerThreads.step, htasks]
    rw [hstep]
    exact h.runTask r htasks hstack hfrees
  | newTimer i p ts interval => exact h.newTimer i ts interval ha.2
  | queueTask i =>
    cases hi : s.threads i with
    | created p =>
      simp only [TimerThreads.step, hi]
      exact h.queueInsert hi
    | lookedUp v =>
      simp only [TimerThreads.step, hi]
      refine h.goOn i .idle [.deleteTimer v] (by simp) (by simp) (by simp) (by simp) fun p hp => ?_
      obtain rfl : some p = v := by simpa using hp
      exact hi
    | _ => simp [Enabled, hi] at ha
  | GetTimerId i =>
    have hon := h.goOn i .idle [] (by simp) (by simp) (by simp) (by simp) (by simp)
    rwa [List.append_nil] at hon
  | find i id =>
    simp only [TimerThreads.step]
    split
    · have hon := h.goOn i (.found id) [] (by simp) (by simp) (by simp) (by simp) (by simp)
      rwa [List.append_nil] at hon
    · exact h
  | lookup i =>
    cases hi : s.threads i with
    | found id =>
      have hstep : s.step (.lookup i) =
          (s.setQueue (s.loop.queue.subscript id).2).setThread i
            (.lookedUp (s.loop.queue.subscript id).1) := by
        simp only [TimerThreads.step, hi]
      rw [hstep, TimerQueue.subscript]
      cases hlookup : s.loop.queue.mTimerIdMap.lookup id with
      | none =>
        have hon := (h.mapNull hlookup).goOn i (.lookedUp none) [] (by simp) (by simp)
          (by simp) (by simp) (by simp)
        rwa [List.append_nil] at hon
      | some v =>
        have hon := h.goOn i (.lookedUp v) [] (by simp) (by simp)
          (fun p hp => ⟨id, by rw [hlookup, Position.lookedUp.inj hp]⟩) (by simp) (by simp)
        rwa [List.append_nil] at hon
    | _ => simp [Enabled, hi] at ha
  | ResetTimer i id ts =>
    refine h.weaken rfl (fun _ _ hj => hj) (fun p => ?_) (fun _ _ hj => hj) (fun p hp => Or.inl ?_)
    · show (s.mTasks ++ [TimerTask.resetTimer id ts]).count (TimerTask.insert p) ≤ _
      have hnone : [TimerTask.resetTimer id ts].count (.insert p) = 0 := List.count_eq_zero.mpr (by simp)
      rw [List.count_append, hnone, Nat.add_zero]
    · exact hp.imp_right fun hin => by simpa [TimerThreads.step] using hin

/-- In every run in which a timer is freed only when nothing but the loop refers to it, no step
uses or frees a timer that has been freed. -/
theorem usesLive_run {steps : List (ThreadStep ι P)}
    (hsteps : Along step (fun s a => s.Enabled a ∧ s.FreesUnreferenced a) (new : TimerThreads ι P) steps) :
    ((new : TimerThreads ι P).run steps).UsesLive :=
  (hsteps.invariant (P := Inv) (fun _ a hs ha => hs.step a ha.1 ha.2) inv_new).usesLive

/-- Another thread adds a timer, and removes it when it has been inserted. -/
theorem usesLive_run_remove : ((new : TimerThreads (Fin 1) Nat).run
    [.newTimer 0 10 50 ⟨false, 0⟩, .queueTask 0, .GetTimerId 0, .runTask ⟨1, 0, none⟩, .find 0 0, .lookup 0,
      .queueTask 0, .loop (.handleRead ⟨6, 0, none⟩), .loop (.finish ⟨6, 0, none⟩),
      .runTask ⟨7, 0, none⟩]).UsesLive :=
  usesLive_run (by decide +kernel)

/-- Whatever the threads do. -/
def AlwaysUsesLive (ι P : Type*) [DecidableEq ι] [LinearOrder P] : Prop :=
  ∀ steps : List (ThreadStep ι P), Along step Enabled (new : TimerThreads ι P) steps →
    ((new : TimerThreads ι P).run steps).UsesLive

/-- One of two timers is looked up by a `Remove`, and fires before the queued `deleteTimer` is
run. -/
theorem alwaysUsesLive_fires : ¬ AlwaysUsesLive (Fin 1) Nat := by
  intro hclaim
  obtain ⟨t, hlive⟩ := hclaim
    [.loop (.AddTimer ⟨1, 0, none⟩ 10 5 ⟨false, 0⟩), .loop (.AddTimer ⟨1, 0, none⟩ 11 50 ⟨false, 0⟩),
      .find 0 0, .lookup 0, .queueTask 0, .loop (.handleRead ⟨6, 0, none⟩), .loop .run,
      .loop (.returned ⟨6, 0, none⟩), .loop (.finish ⟨6, 0, none⟩)]
    (by decide +kernel) (.runTask ⟨7, 0, none⟩) (by decide +kernel) 10 (by decide +kernel)
  cases hlive

end TimerThreads
end Knpnl.Event
