import Knpnl.Event.TimerSteps

/-!
# Removed timers

`Remove` looks in the map only. A timer that a `handleRead` has taken out is not there, so
removing it does nothing: its callback may still be ahead, and a repeating timer is put back
after its callback. A timer that is removed at any other moment is never started again.
-/
namespace Knpnl.Event

open Lib

variable {P : Type*} [LinearOrder P]

/-- The callback of the timer is still ahead of this `handleRead`, or the timer will be put back. -/
def Frame.Ahead (p : P) (t : Timer) : Frame P → Prop
  | .next rest => p ∈ rest
  | .run p' rest => p ∈ rest ∨ p' = p ∧ t.mRepeatable = true

instance (p : P) (t : Timer) : (f : Frame P) → Decidable (f.Ahead p t)
  | .next _ => inferInstanceAs (Decidable (_ ∈ _))
  | .run _ _ => inferInstanceAs (Decidable (_ ∨ _ ∧ _))

omit [LinearOrder P] in
theorem Frame.Ahead.held {f : Frame P} {p : P} {t : Timer} (h : f.Ahead p t) : p ∈ f.held := by
  cases f with
  | next rest => exact h
  | run p' rest =>
    rcases h with hrest | ⟨rfl, _⟩
    · exact List.mem_cons_of_mem _ hrest
    · exact List.mem_cons_self

namespace TimerLoop

variable {x : TimerLoop P} {id : Timer_t} {pending : Set P}

/-- In the order of what happened, no timer is added, removed, and then started. -/
def NeverAgain (log : List TimerEvent) : Prop :=
  ∀ id, ¬ [.added id, .removed id, .started id].Sublist log

/-- A timer is not removed while a `handleRead` has it ahead. -/
def RemovesQueued (x : TimerLoop P) : TimerCall P → Prop
  | .Remove _ id =>
      ∀ f ∈ x.stack, ∀ p ∈ f.held, (x.queue.timer p).mTimerId = id → ¬ f.Ahead p (x.queue.timer p)
  | _ => True

instance (x : TimerLoop P) : (c : TimerCall P) → Decidable (x.RemovesQueued c)
  | .Remove _ id =>
      inferInstanceAs (Decidable (∀ f ∈ x.stack, ∀ p ∈ f.held,
        (x.queue.timer p).mTimerId = id → ¬ f.Ahead p (x.queue.timer p)))
  | .AddTimer _ _ _ _ | .ResetTimer _ _ _ | .handleRead _ | .run | .returned _ | .finish _ | .elsewhere =>
      isTrue trivial

/-- If a timer with this id is still live, it is in its callback for the last time. -/
def Gone (x : TimerLoop P) (id : Timer_t) : Prop :=
  ∀ p t, x.queue.heap p = .live t → t.mTimerId = id →
    x.queue.mTimerIdMap.lookup id ≠ some (some p) ∧ ∀ f ∈ x.stack, ¬ f.Ahead p t

theorem gone_Remove (h : x.Inv pending) {r : Reads P} (hqueued : x.RemovesQueued (.Remove r id)) :
    (x.step (.Remove r id)).Gone id := by
  intro p t hlive hid
  rcases queue_Remove x r id with ⟨p', hlookup, hqueue⟩ | ⟨hnone, hqueue⟩
  · -- the one timer with this id has been freed
    rw [hqueue, TimerQueue.heap_deleteTimer] at hlive
    obtain ⟨t', hlive', hid'⟩ := h.indexed.owned id p' hlookup
    by_cases hp : p = p'
    · rw [hp, TimerQueue.heap_setTimer_self] at hlive
      cases hlive
    · rw [TimerQueue.heap_setTimer_of_ne hp] at hlive
      exact absurd (h.indexed.ids p p' t t' hlive hlive' (hid.trans hid'.symm)) hp
  · rw [hqueue] at hlive ⊢
    refine ⟨hnone p, fun f hf hahead => ?_⟩
    have htimer := TimerQueue.timer_eq hlive
    exact hqueued f hf p hahead.held (by rw [htimer, hid]) (by rwa [htimer])

/-- A step does not bring a callback that is ahead back. -/
theorem ahead_step {p : P} {t : Timer} (h : x.Inv pending) (hp : p ∈ x.held) (c : TimerCall P)
    (hc : x.Enabled c) {f : Frame P} (hf : f ∈ (x.step c).stack) (hahead : f.Ahead p t) :
    ∃ f ∈ x.stack, f.Ahead p t := by
  cases c with
  | handleRead r =>
    rcases List.mem_cons.mp hf with rfl | hf
    · -- what has expired was in the map
      obtain ⟨_, _, hlookup, _⟩ := h.indexed.live_of_expired hahead
      exact absurd hp (h.not_out hlookup).1
    · exact ⟨f, hf, hahead⟩
  | run =>
    obtain ⟨p', rest, stack, hstack⟩ := stack_of_run hc
    rw [step_run hstack] at hf
    rcases List.mem_cons.mp hf with rfl | hf
    · refine ⟨_, hstack ▸ List.mem_cons_self, ?_⟩
      rcases hahead with hrest | ⟨rfl, _⟩
      · exact List.mem_cons_of_mem _ hrest
      · exact List.mem_cons_self
    · exact ⟨f, hstack ▸ List.mem_cons_of_mem _ hf, hahead⟩
  | returned r =>
    obtain ⟨p', rest, stack, hstack⟩ := stack_of_returned hc
    rw [step_returned hstack] at hf
    rcases List.mem_cons.mp hf with rfl | hf
    · exact ⟨.run p' rest, hstack ▸ List.mem_cons_self, Or.inl hahead⟩
    · exact ⟨f, hstack ▸ List.mem_cons_of_mem _ hf, hahead⟩
  | finish r =>
    obtain ⟨stack, hstack⟩ := stack_of_finish hc
    rw [step_finish hstack] at hf
    exact ⟨f, hstack ▸ List.mem_cons_of_mem _ hf, hahead⟩
  | _ => exact ⟨f, hf, hahead⟩

/-- What is gone stays gone, whatever is called. -/
theorem Gone.step (hgone : x.Gone id) (h : x.Inv pending) (hkept : x.Kept) (hold : id < x.queue.TimerCount)
    (c : TimerCall P) (hc : x.Enabled c) : (x.step c).Gone id := by
  intro p t hlive hid
  cases hp : x.queue.heap p with
  | unallocated =>
    have hdead : ∀ t, x.queue.heap p ≠ .live t := fun t hlive => by cases hp.symm.trans hlive
    rcases not_live_step h hdead c hc with hsame | ⟨r, ts, interval, rfl⟩
    · cases (hsame.trans hp).symm.trans hlive
    · -- a new timer has a new id
      obtain rfl := (AddTimer_self x r p ts interval).eq_of_live hlive
      exact absurd hid hold.ne'
  | freed => cases (freed_step h hp c hc).symm.trans hlive
  | live t₀ =>
    have hgone₀ := hgone p t₀ hp
    rcases hkept p t₀ hp with hq | hheld
    · -- with another id it would be queued
      have hid₀ : t₀.mTimerId ≠ id := fun hid₀ => (hgone₀ hid₀).1 (hid₀ ▸ hq.2)
      rcases hq.step h c hc with hstays | ⟨_, hfreed⟩ | ⟨r, rfl, _⟩
      · obtain rfl := hstays.eq_of_live hlive
        exact absurd ((Timer.mTimerId_after t₀ c).symm.trans hid) hid₀
      · cases hfreed.symm.trans hlive
      · obtain rfl := hq.eq_of_live hlive
        exact absurd hid hid₀
    · rcases held_step h hheld hp c hc with ⟨hheld', hlive'⟩ | ⟨r, rest, stack, rfl, hstack⟩
      · obtain rfl : t = t₀ := Cell.live.inj (hlive.symm.trans hlive')
        refine ⟨hid ▸ (h.step c hc).indexed.not_lookup (Or.inl hheld') hlive, fun f hf hahead => ?_⟩
        obtain ⟨f', hf', hahead'⟩ := ahead_step h hheld c hc hf hahead
        exact (hgone₀ hid).2 f' hf' hahead'
      · have hself := returned_self (r := r) hstack hp
        split at hself
        · -- a repeating timer in its callback is not gone
          rename_i hrepeat
          obtain rfl := hself.eq_of_live hlive
          have hahead : (Frame.run p rest).Ahead p t₀ := Or.inr ⟨rfl, hrepeat⟩
          exact absurd hahead ((hgone₀ hid).2 _ (hstack ▸ List.mem_cons_self))
        · cases hself.symm.trans hlive

/-- What a step adds to the log. -/
def events (x : TimerLoop P) : TimerCall P → List TimerEvent
  | .AddTimer _ _ _ _ => [.added x.queue.TimerCount]
  | .Remove _ id => [.removed id]
  | .run =>
      match x.stack with
      | .next (p :: _) :: _ => [.started (x.queue.timer p).mTimerId]
      | _ => []
  | _ => []

theorem log_step (x : TimerLoop P) (c : TimerCall P) : (x.step c).log = x.log ++ x.events c := by
  cases c with
  | AddTimer r p ts interval => rfl
  | Remove r id => rfl
  | run =>
    cases hstack : x.stack with
    | nil => simp [step, events, hstack]
    | cons f stack =>
      cases f with
      | next rest => cases rest <;> simp [step, events, hstack]
      | run p rest => simp [step, events, hstack]
  | returned r =>
    rw [step]
    split <;> exact (List.append_nil _).symm
  | finish r =>
    rw [step]
    split <;> exact (List.append_nil _).symm
  | _ => exact (List.append_nil _).symm

theorem sublist_concat {l log : List TimerEvent} {e e' : TimerEvent} (h : (l ++ [e]).Sublist (log ++ [e'])) :
    (l ++ [e]).Sublist log ∨ l.Sublist log ∧ e = e' := by
  obtain ⟨l₁, l₂, heq, h₁, h₂⟩ := List.sublist_append_iff.mp h
  rcases List.sublist_singleton.mp h₂ with rfl | rfl
  · left
    rwa [heq, List.append_nil]
  · obtain ⟨rfl, he⟩ := List.append_inj' heq rfl
    exact Or.inr ⟨h₁, by simpa using he⟩

theorem events_le_one (x : TimerLoop P) (c : TimerCall P) : x.events c = [] ∨ ∃ e, x.events c = [e] := by
  cases c with
  | AddTimer r p ts interval => exact Or.inr ⟨_, rfl⟩
  | Remove r id => exact Or.inr ⟨_, rfl⟩
  | run =>
    rw [events]
    split
    · exact Or.inr ⟨_, rfl⟩
    · exact Or.inl rfl
  | _ => exact Or.inl rfl

theorem call_of_removed {c : TimerCall P} (h : .removed id ∈ x.events c) : ∃ r, c = .Remove r id := by
  cases c with
  | Remove r id' =>
    obtain rfl : id = id' := by simpa [events] using h
    exact ⟨r, rfl⟩
  | run =>
    rw [events] at h
    split at h <;> simp at h
  | _ => simp [events] at h

theorem stack_of_started {c : TimerCall P} (h : .started id ∈ x.events c) :
    ∃ p rest stack, x.stack = .next (p :: rest) :: stack ∧ (x.queue.timer p).mTimerId = id := by
  cases c with
  | run =>
    rw [events] at h
    split at h
    · rename_i p rest stack hstack
      exact ⟨p, rest, stack, hstack, (TimerEvent.started.inj (List.mem_singleton.mp h)).symm⟩
    · cases h
  | _ => simp [events] at h

theorem TimerCount_le_step (x : TimerLoop P) (c : TimerCall P) :
    x.queue.TimerCount ≤ (x.step c).queue.TimerCount := by
  cases c with
  | AddTimer r p ts interval =>
    rw [step, TimerQueue.TimerCount_insert]
    exact Nat.le_succ _
  | Remove r id =>
    rw [step]
    dsimp only
    split
    · exact (TimerQueue.TimerCount_deleteTimer ..).ge
    · exact le_rfl
  | ResetTimer r id ts => exact (TimerQueue.TimerCount_resetTimer ..).ge
  | handleRead r => exact le_rfl
  | run =>
    rw [step]
    split <;> exact le_rfl
  | returned r =>
    rw [step]
    split
    · exact (TimerQueue.TimerCount_afterRun ..).ge
    · exact le_rfl
  | finish r =>
    rw [step]
    split <;> exact le_rfl
  | elsewhere => exact Nat.le_succ _

theorem lt_TimerCount_of_added {c : TimerCall P} (h : .added id ∈ x.events c) :
    id < (x.step c).queue.TimerCount := by
  cases c with
  | AddTimer r p ts interval =>
    obtain rfl : id = x.queue.TimerCount := by simpa [events] using h
    rw [step, TimerQueue.TimerCount_insert]
    exact Nat.lt_succ_self _
  | run =>
    rw [events] at h
    split at h <;> simp at h
  | _ => simp [events] at h

/-- Ids come from the counter, and what was added and removed is gone and has not been started
since. -/
structure Removals (x : TimerLoop P) : Prop where
  inv : x.Inv ∅
  added : ∀ id, .added id ∈ x.log → id < x.queue.TimerCount
  gone : ∀ id, [.added id, .removed id].Sublist x.log → x.Gone id
  never : NeverAgain x.log

theorem Removals.step (h : x.Removals) (hkept : x.Kept) (c : TimerCall P) (hc : x.Enabled c)
    (hqueued : x.RemovesQueued c) : (x.step c).Removals := by
  have hgone : ∀ id, [.added id, .removed id].Sublist x.log → (x.step c).Gone id := fun id hid =>
    (h.gone id hid).step h.inv hkept (h.added id (hid.subset List.mem_cons_self)) c hc
  refine ⟨h.inv.step c hc, fun id hid => ?_, fun id hid => ?_, fun id hid => ?_⟩
  · rw [log_step] at hid
    rcases List.mem_append.mp hid with hbefore | hnow
    · exact (h.added id hbefore).trans_le (x.TimerCount_le_step c)
    · exact lt_TimerCount_of_added hnow
  · rw [log_step] at hid
    rcases x.events_le_one c with hnone | ⟨e, he⟩
    · rw [hnone, List.append_nil] at hid
      exact hgone id hid
    · rw [he] at hid
      rcases sublist_concat (l := [.added id]) hid with hbefore | ⟨_, rfl⟩
      · exact hgone id hbefore
      · obtain ⟨r, rfl⟩ := call_of_removed (he ▸ List.mem_singleton_self _)
        exact gone_Remove h.inv hqueued
  · rw [log_step] at hid
    rcases x.events_le_one c with hnone | ⟨e, he⟩
    · rw [hnone, List.append_nil] at hid
      exact h.never id hid
    · rw [he] at hid
      rcases sublist_concat (l := [.added id, .removed id]) hid with hbefore | ⟨hremoved, rfl⟩
      · exact h.never id hbefore
      · -- what is started is ahead of the innermost `handleRead`
        obtain ⟨p, rest, stack, hstack, hstarted⟩ := stack_of_started (he ▸ List.mem_singleton_self _)
        have hheld : p ∈ x.held := by
          rw [held, hstack]
          exact List.mem_append_left _ List.mem_cons_self
        obtain ⟨t, hlive⟩ := h.inv.live_of_held hheld
        rw [TimerQueue.timer_eq hlive] at hstarted
        exact (h.gone id hremoved p t hlive hstarted).2 _ (hstack ▸ List.mem_cons_self) List.mem_cons_self

theorem removals_new : Removals (new : TimerLoop P) where
  inv := inv_new
  added id h := by cases h
  gone id h := by cases h
  never id h := by cases h

/-- In every run in which no timer is removed while a `handleRead` has it ahead, a timer that
has been removed is never started again. -/
theorem neverAgain_run {calls : List (TimerCall P)}
    (hcalls : Along step (fun x c => x.Enabled c ∧ x.RemovesQueued c) (new : TimerLoop P) calls) :
    NeverAgain ((new : TimerLoop P).run calls).log :=
  (hcalls.invariant (P := fun x : TimerLoop P => x.Removals ∧ x.Kept)
    (fun _ c hx hc => ⟨hx.1.step hx.2 c hc.1 hc.2, kept_step hx.2 hx.1.inv c hc.1⟩)
    ⟨removals_new, kept_new⟩).1.never

/-- A repeating timer is removed between two of its callbacks. -/
theorem neverAgain_run_between :
    NeverAgain ((new : TimerLoop Nat).run
      [.AddTimer ⟨1, 0, none⟩ 10 5 ⟨true, 3⟩, .handleRead ⟨5, 0, none⟩, .run, .returned ⟨6, 0, none⟩,
        .finish ⟨6, 0, none⟩, .Remove ⟨7, 0, none⟩ 0, .handleRead ⟨9, 0, none⟩]).log :=
  neverAgain_run (by decide +kernel)

/-- Whatever is called. -/
def RemovedNeverAgain (P : Type*) [LinearOrder P] : Prop :=
  ∀ calls : List (TimerCall P), Along step Enabled (new : TimerLoop P) calls →
    NeverAgain ((new : TimerLoop P).run calls).log

/-- A repeating timer removes itself in its callback, and is put back. -/
theorem removedNeverAgain_self : ¬ RemovedNeverAgain Nat := by
  intro hclaim
  apply hclaim [.AddTimer ⟨1, 0, none⟩ 10 5 ⟨true, 3⟩, .handleRead ⟨5, 0, none⟩, .run,
    .Remove ⟨5, 0, none⟩ 0, .returned ⟨6, 0, none⟩, .finish ⟨6, 0, none⟩, .handleRead ⟨9, 0, none⟩, .run]
    (by decide +kernel) 0
  decide +kernel

end TimerLoop
end Knpnl.Event
