import Knpnl.Event.TimerIndex

/-!
# One timer through the steps of the loop

A timer is allocated, queued, held by a `handleRead` and freed. What a step does to a timer
depends on where the timer is, and every live timer is queued or held.
-/
namespace Knpnl.Event

open Lib

variable {P : Type*} [LinearOrder P]

namespace TimerQueue

variable {q : TimerQueue P} {r : Reads P} {p : P} {t : Timer} {id : Timer_t} {ts : Timestamp}

theorem heap_resetTimer_found (hlookup : q.mTimerIdMap.lookup id = some (some p)) (hlive : q.heap p = .live t) :
    (q.resetTimer r id ts).1.heap = (q.setTimer p (.live (t.reset ts))).heap := by
  unfold resetTimer
  rw [hlookup]
  dsimp only
  rw [timer_eq hlive]
  split <;> rfl

theorem resetTimer_missing (h : ∀ p, q.mTimerIdMap.lookup id ≠ some (some p)) :
    (q.resetTimer r id ts).1 = q := by
  unfold resetTimer
  split
  · rfl
  · rfl
  · rename_i p hlookup
    exact absurd hlookup (h p)

end TimerQueue

/-- A timer after a call that leaves it in the queue. -/
def Timer.after (t : Timer) : TimerCall P → Timer
  | .ResetTimer _ id ts => if id = t.mTimerId then t.reset ts else t
  | _ => t

omit [LinearOrder P] in
@[simp] theorem Timer.mTimerId_after (t : Timer) (c : TimerCall P) : (t.after c).mTimerId = t.mTimerId := by
  unfold Timer.after
  split
  · split <;> rfl
  · rfl

namespace TimerLoop

variable {x : TimerLoop P} {pending : Set P} {p : P} {t : Timer} {c : TimerCall P}

/-- A live timer that the map leads to. -/
def Queued (x : TimerLoop P) (p : P) (t : Timer) : Prop :=
  x.queue.heap p = .live t ∧ x.queue.mTimerIdMap.lookup t.mTimerId = some (some p)

/-- It is in the set too. -/
theorem Inv.mem_set (h : x.Inv pending) {ts : Timestamp} :
    toLex (ts, p) ∈ x.queue.mTimerSet ↔ ∃ t, x.Queued p t ∧ t.mExpired = ts := by
  rw [h.indexed.agree]
  exact exists_congr fun t => ⟨fun ⟨hlive, hts, hlookup⟩ => ⟨⟨hlive, hlookup⟩, hts⟩,
    fun ⟨⟨hlive, hlookup⟩, hts⟩ => ⟨hlive, hts, hlookup⟩⟩

namespace Queued

theorem not_held (hq : x.Queued p t) (h : x.Inv pending) : p ∉ x.held := (h.not_out hq.2).1

/-- Another live timer has another entry of the map. -/
theorem lookup_ne (hq : x.Queued p t) (h : x.Inv pending) {p' : P} {t' : Timer} (hne : p' ≠ p)
    (hlive : x.queue.heap p' = .live t') : t.mTimerId ≠ t'.mTimerId :=
  h.indexed.id_ne hne.symm hlive hq.1

theorem eq_of_live (hq : x.Queued p t) {t' : Timer} (hlive : x.queue.heap p = .live t') : t' = t :=
  Cell.live.inj (hlive.symm.trans hq.1)

theorem AddTimer (hq : x.Queued p t) (h : x.Inv pending) {r : Reads P} {p' : P} (ts : Timestamp)
    (interval : Interval) (hp : x.queue.heap p' = .unallocated) :
    (x.step (.AddTimer r p' ts interval)).Queued p t := by
  have hne : p ≠ p' := by
    rintro rfl
    cases hp.symm.trans hq.1
  have hself : (x.queue.newTimer p' ts interval).heap p' = .live (.new ts interval x.queue.TimerCount) :=
    TimerQueue.heap_setTimer_self ..
  have hold : t.mTimerId ≠ x.queue.TimerCount := (h.indexed.count p t hq.1).ne
  constructor
  · rw [step, TimerQueue.heap_insert]
    exact (TimerQueue.heap_setTimer_of_ne hne _).trans hq.1
  · rw [step, TimerQueue.mTimerIdMap_insert, TimerQueue.timer_eq hself]
    exact (Finmap.lookup_insert_of_ne _ hold).trans hq.2

theorem Remove (hq : x.Queued p t) (h : x.Inv pending) (r : Reads P) (id : Timer_t) :
    (x.step (.Remove r id)).Queued p t ∨
      id = t.mTimerId ∧ (x.step (.Remove r id)).queue.heap p = .freed := by
  rcases queue_Remove x r id with ⟨p', hlookup, hqueue⟩ | ⟨_, hqueue⟩
  · obtain ⟨t', hlive, rfl⟩ := h.indexed.owned id p' hlookup
    by_cases hp : p' = p
    · subst hp
      refine Or.inr ⟨by rw [hq.eq_of_live hlive], ?_⟩
      rw [hqueue, TimerQueue.heap_deleteTimer, TimerQueue.heap_setTimer_self]
    · refine Or.inl ⟨?_, ?_⟩
      · rw [hqueue, TimerQueue.heap_deleteTimer, TimerQueue.heap_setTimer_of_ne (Ne.symm hp)]
        exact hq.1
      · rw [hqueue, TimerQueue.mTimerIdMap_deleteTimer, TimerQueue.timer_eq hlive,
          Finmap.lookup_erase_ne (hq.lookup_ne h hp hlive)]
        exact hq.2
  · refine Or.inl ?_
    unfold Queued
    rw [hqueue]
    exact hq

theorem ResetTimer (hq : x.Queued p t) (h : x.Inv pending) (r : Reads P) (id : Timer_t) (ts : Timestamp) :
    (x.step (.ResetTimer r id ts)).Queued p (t.after (.ResetTimer r id ts : TimerCall P)) := by
  have hmap : (x.step (.ResetTimer r id ts)).queue.mTimerIdMap = x.queue.mTimerIdMap :=
    TimerQueue.mTimerIdMap_resetTimer ..
  refine ⟨?_, by rw [hmap, Timer.mTimerId_after]; exact hq.2⟩
  by_cases hid : id = t.mTimerId
  · rw [Timer.after, if_pos hid, step, TimerQueue.heap_resetTimer_found (hid ▸ hq.2) hq.1,
      TimerQueue.heap_setTimer_self]
  · rw [Timer.after, if_neg hid, step]
    by_cases hfound : ∃ p', x.queue.mTimerIdMap.lookup id = some (some p')
    · obtain ⟨p', hlookup⟩ := hfound
      obtain ⟨t', hlive, hid'⟩ := h.indexed.owned id p' hlookup
      have hne : p ≠ p' := by
        rintro rfl
        exact hid (hq.eq_of_live hlive ▸ hid'.symm)
      rw [TimerQueue.heap_resetTimer_found hlookup hlive, TimerQueue.heap_setTimer_of_ne hne]
      exact hq.1
    · rw [TimerQueue.resetTimer_missing (not_exists.mp hfound)]
      exact hq.1

theorem handleRead (hq : x.Queued p t) (h : x.Inv pending) (r : Reads P) :
    (x.step (.handleRead r)).Queued p t ∨ t.mExpired ≤ r.now ∧ p ∈ x.queue.expired r.now := by
  by_cases hp : p ∈ x.queue.expired r.now
  · obtain ⟨t', hlive, _, hbelow⟩ := h.indexed.live_of_expired hp
    obtain rfl := hq.eq_of_live hlive
    exact Or.inr ⟨of_decide_eq_true (SortedSet.mem_of_mem_below hbelow).2, hp⟩
  · refine Or.inl ⟨hq.1, TimerQueue.Indexed.lookup_findExpiredTimer.mpr ⟨hq.2, fun p' hp' hid => ?_⟩⟩
    obtain ⟨t', hlive, _⟩ := h.indexed.live_of_expired hp'
    rw [TimerQueue.timer_eq hlive] at hid
    exact hp (h.indexed.ids p' p t' t hlive hq.1 hid ▸ hp')

theorem returned (hq : x.Queued p t) (h : x.Inv pending) (r : Reads P) {p' : P} {rest : List P}
    {stack : List (Frame P)} (hstack : x.stack = .run p' rest :: stack) :
    (x.step (.returned r)).Queued p t := by
  have hp' : p' ∈ x.held := held_eq hstack ▸ List.mem_cons_self
  obtain ⟨t', hlive⟩ := h.live_of_held hp'
  have hne : p' ≠ p := by
    rintro rfl
    exact hq.not_held h hp'
  rw [step_returned hstack]
  unfold Queued
  by_cases hrepeat : (x.queue.timer p').mRepeatable = true
  · rw [TimerQueue.afterRun_repeating hrepeat]
    refine ⟨(TimerQueue.heap_setTimer_of_ne hne.symm _).trans hq.1, ?_⟩
    rw [TimerQueue.link, TimerQueue.timer_eq (TimerQueue.heap_setTimer_self ..), TimerQueue.timer_eq hlive]
    exact (Finmap.lookup_insert_of_ne _ (hq.lookup_ne h hne hlive)).trans hq.2
  · rw [TimerQueue.afterRun_oneShot hrepeat]
    exact ⟨(TimerQueue.heap_setTimer_of_ne hne.symm _).trans hq.1, hq.2⟩

/-- A queued timer stays so, with the same id, unless it is removed or due. -/
theorem step (hq : x.Queued p t) (h : x.Inv pending) (c : TimerCall P) (hc : x.Enabled c) :
    (x.step c).Queued p (t.after c) ∨
      (∃ r, c = .Remove r t.mTimerId) ∧ (x.step c).queue.heap p = .freed ∨
      ∃ r, c = .handleRead r ∧ t.mExpired ≤ r.now ∧ p ∈ x.queue.expired r.now := by
  cases c with
  | AddTimer r p' ts interval => exact Or.inl (hq.AddTimer h ts interval hc.2)
  | Remove r id =>
    rcases hq.Remove h r id with hstays | ⟨rfl, hfreed⟩
    · exact Or.inl hstays
    · exact Or.inr (Or.inl ⟨⟨r, rfl⟩, hfreed⟩)
  | ResetTimer r id ts => exact Or.inl (hq.ResetTimer h r id ts)
  | handleRead r => exact (hq.handleRead h r).imp_right fun hdue => Or.inr ⟨r, rfl, hdue⟩
  | run =>
    obtain ⟨_, _, _, hstack⟩ := stack_of_run hc
    rw [step_run hstack]
    exact Or.inl hq
  | returned r =>
    obtain ⟨_, _, _, hstack⟩ := stack_of_returned hc
    exact Or.inl (hq.returned h r hstack)
  | finish r =>
    obtain ⟨_, hstack⟩ := stack_of_finish hc
    rw [step_finish hstack]
    exact Or.inl hq
  | elsewhere => exact Or.inl hq

end Queued

theorem mem_held_step (hp : p ∈ x.held) (c : TimerCall P) (hc : x.Enabled c) :
    p ∈ (x.step c).held ∨ ∃ r rest stack, c = .returned r ∧ x.stack = .run p rest :: stack := by
  cases c with
  | handleRead r => exact Or.inl (List.mem_append_right _ hp)
  | run =>
    obtain ⟨_, _, _, hstack⟩ := stack_of_run hc
    rw [step_run hstack]
    rw [held, hstack] at hp
    exact Or.inl hp
  | returned r =>
    obtain ⟨p', rest, stack, hstack⟩ := stack_of_returned hc
    by_cases hpp : p = p'
    · exact Or.inr ⟨r, rest, stack, rfl, hpp ▸ hstack⟩
    · rw [held_eq hstack] at hp
      rw [step_returned hstack]
      exact Or.inl ((List.mem_cons.mp hp).resolve_left hpp)
  | finish r =>
    obtain ⟨_, hstack⟩ := stack_of_finish hc
    rw [step_finish hstack]
    rw [held, hstack] at hp
    exact Or.inl hp
  | _ => exact Or.inl hp

/-- A held timer is left alone until its callback has returned. -/
theorem held_step (h : x.Inv pending) (hp : p ∈ x.held) (hlive : x.queue.heap p = .live t) (c : TimerCall P)
    (hc : x.Enabled c) :
    p ∈ (x.step c).held ∧ (x.step c).queue.heap p = .live t ∨
      ∃ r rest stack, c = .returned r ∧ x.stack = .run p rest :: stack := by
  refine or_iff_not_imp_right.mpr fun hnot => ⟨(mem_held_step hp c hc).resolve_right hnot, ?_⟩
  have hchange := x.change_step p hc
  generalize (x.step c).queue.heap p = cell at hchange ⊢
  cases hchange with
  | same => exact hlive
  | created r ts interval => cases hc.2.symm.trans hlive
  | removed r hlookup => exact absurd hp (h.not_out hlookup).1
  | reset r ts hlookup => exact absurd hp (h.not_out hlookup).1
  | restarted r hstack _ => exact absurd ⟨_, _, _, rfl, hstack⟩ hnot
  | done r hstack _ => exact absurd ⟨_, _, _, rfl, hstack⟩ hnot

/-- After its callback a repeating timer is queued again and a one-shot timer is freed. -/
theorem returned_self {r : Reads P} {rest : List P} {stack : List (Frame P)}
    (hstack : x.stack = .run p rest :: stack) (hlive : x.queue.heap p = .live t) :
    if t.mRepeatable then (x.step (.returned r)).Queued p (t.restart r.now)
    else (x.step (.returned r)).queue.heap p = .freed := by
  have htimer := TimerQueue.timer_eq hlive
  rw [step_returned hstack]
  split
  · rename_i hrepeat
    have hself : (x.queue.setTimer p (.live (t.restart r.now))).heap p = .live (t.restart r.now) :=
      TimerQueue.heap_setTimer_self ..
    unfold Queued
    rw [TimerQueue.afterRun_repeating (by rw [htimer, hrepeat]), htimer, TimerQueue.link,
      TimerQueue.timer_eq hself]
    exact ⟨hself, Finmap.lookup_insert _⟩
  · rename_i hrepeat
    rw [TimerQueue.afterRun_oneShot (by rwa [htimer])]
    exact TimerQueue.heap_setTimer_self ..

/-- What is not live stays as it is, unless it is a new timer. -/
theorem not_live_step (h : x.Inv pending) (hp : ∀ t, x.queue.heap p ≠ .live t) (c : TimerCall P)
    (hc : x.Enabled c) :
    (x.step c).queue.heap p = x.queue.heap p ∨ ∃ r ts interval, c = .AddTimer r p ts interval := by
  have hmapped : ∀ {id}, x.queue.mTimerIdMap.lookup id ≠ some (some p) := by
    intro id hlookup
    obtain ⟨t, hlive, _⟩ := h.indexed.owned id p hlookup
    exact hp t hlive
  have hheld : ∀ {rest stack}, x.stack ≠ .run p rest :: stack := by
    intro rest stack hstack
    obtain ⟨t, hlive⟩ := h.live_of_held (held_eq hstack ▸ List.mem_cons_self)
    exact hp t hlive
  have hchange := x.change_step p hc
  generalize (x.step c).queue.heap p = cell at hchange ⊢
  cases hchange with
  | same => exact Or.inl rfl
  | created r ts interval => exact Or.inr ⟨r, ts, interval, rfl⟩
  | removed r hlookup => exact absurd hlookup hmapped
  | reset r ts hlookup => exact absurd hlookup hmapped
  | restarted r hstack _ => exact absurd hstack hheld
  | done r hstack _ => exact absurd hstack hheld

theorem freed_step (h : x.Inv pending) (hp : x.queue.heap p = .freed) (c : TimerCall P) (hc : x.Enabled c) :
    (x.step c).queue.heap p = .freed := by
  rcases not_live_step h (fun t hlive => by cases hp.symm.trans hlive) c hc with hsame | ⟨_, _, _, rfl⟩
  · exact hsame.trans hp
  · cases hp.symm.trans hc.2

theorem AddTimer_self (x : TimerLoop P) (r : Reads P) (p : P) (ts : Timestamp) (interval : Interval) :
    (x.step (.AddTimer r p ts interval)).Queued p (.new ts interval x.queue.TimerCount) := by
  have hself : (x.queue.newTimer p ts interval).heap p = .live (.new ts interval x.queue.TimerCount) :=
    TimerQueue.heap_setTimer_self ..
  constructor
  · rw [step, TimerQueue.heap_insert]
    exact hself
  · rw [step, TimerQueue.mTimerIdMap_insert, TimerQueue.timer_eq hself]
    exact Finmap.lookup_insert _

/-- No live timer is lost. -/
def Kept (x : TimerLoop P) : Prop := ∀ p t, x.queue.heap p = .live t → x.Queued p t ∨ p ∈ x.held

theorem kept_new : Kept (new : TimerLoop P) := fun p t hlive => by cases hlive

theorem kept_step (hkept : x.Kept) (h : x.Inv pending) (c : TimerCall P) (hc : x.Enabled c) :
    (x.step c).Kept := by
  intro p t' hlive'
  cases hp : x.queue.heap p with
  | unallocated =>
    have hdead : ∀ t, x.queue.heap p ≠ .live t := fun t hlive => by cases hp.symm.trans hlive
    rcases not_live_step h hdead c hc with hsame | ⟨r, ts, interval, rfl⟩
    · cases (hsame.trans hp).symm.trans hlive'
    · have hnew := AddTimer_self x r p ts interval
      exact Or.inl (hnew.eq_of_live hlive' ▸ hnew)
  | freed => cases (freed_step h hp c hc).symm.trans hlive'
  | live t =>
    rcases hkept p t hp with hq | hheld
    · rcases hq.step h c hc with hstays | ⟨_, hfreed⟩ | ⟨r, rfl, _, hdue⟩
      · exact Or.inl (hstays.eq_of_live hlive' ▸ hstays)
      · cases hfreed.symm.trans hlive'
      · exact Or.inr (List.mem_append_left _ hdue)
    · rcases held_step h hheld hp c hc with ⟨hheld', _⟩ | ⟨r, rest, stack, rfl, hstack⟩
      · exact Or.inr hheld'
      · have hself := returned_self (r := r) hstack hp
        split at hself
        · exact Or.inl (hself.eq_of_live hlive' ▸ hself)
        · cases hself.symm.trans hlive'

end TimerLoop
end Knpnl.Event
