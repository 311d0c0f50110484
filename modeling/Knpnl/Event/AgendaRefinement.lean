import Knpnl.Lib.Simulation
import Knpnl.Event.Agenda

/-!
# A timer queue keeps an agenda

Every run of the loop's thread is a run of the agenda: the two indexes, the heap and the timerfd do
what one table of waiting timers does. So what holds of every agenda holds of the queue.
-/
namespace Knpnl.Event

open Lib

variable {P : Type*} [LinearOrder P]

def Frame.map {P Q : Type*} (f : P → Q) : Frame P → Frame Q
  | .next rest => .next (rest.map f)
  | .run p rest => .run (f p) (rest.map f)

omit [LinearOrder P] in
theorem Frame.map_congr {Q : Type*} {g g' : P → Q} {f : Frame P} (h : ∀ p ∈ f.held, g p = g' p) :
    f.map g = f.map g' := by
  cases f with
  | next rest => exact congrArg Frame.next (List.map_congr_left h)
  | run p rest =>
    have hrest : rest.map g = rest.map g' := List.map_congr_left fun p' hp' => h p' (List.mem_cons_of_mem p hp')
    rw [Frame.map, Frame.map, hrest, h p List.mem_cons_self]

namespace TimerQueue

variable {q q' : TimerQueue P} {out : Set P} {p : P} {t : Timer} {id : Timer_t}

/-- The timer that the map leads to. -/
def waiting (q : TimerQueue P) (id : Timer_t) : Option Timer := (q.mTimerIdMap.lookup id).join.map q.timer

theorem waiting_of_lookup (h : q.mTimerIdMap.lookup id = some (some p)) : q.waiting id = some (q.timer p) := by
  rw [waiting, h]
  rfl

theorem waiting_of_missing (h : ∀ p, q.mTimerIdMap.lookup id ≠ some (some p)) : q.waiting id = none := by
  rw [waiting]
  rcases hlookup : q.mTimerIdMap.lookup id with _ | _ | p
  · rfl
  · rfl
  · exact absurd hlookup (h p)

theorem waiting_congr (hlookup : q'.mTimerIdMap.lookup id = q.mTimerIdMap.lookup id)
    (htimer : ∀ p, q.mTimerIdMap.lookup id = some (some p) → q'.heap p = q.heap p) :
    q'.waiting id = q.waiting id := by
  by_cases hmapped : ∃ p, q.mTimerIdMap.lookup id = some (some p)
  · obtain ⟨p, hp⟩ := hmapped
    rw [waiting_of_lookup hp, waiting_of_lookup (hlookup.trans hp), timer, timer, htimer p hp]
  · rw [waiting_of_missing (not_exists.mp hmapped),
      waiting_of_missing fun p hp => not_exists.mp hmapped p (hlookup.symm.trans hp)]

namespace Indexed

/-- Another id leads to another timer. -/
theorem lookup_ne (h : Indexed q out) {id' : Timer_t} {p' : P} (hid : id' ≠ id)
    (hp : q.mTimerIdMap.lookup id = some (some p)) (hp' : q.mTimerIdMap.lookup id' = some (some p')) :
    p' ≠ p := by
  rintro rfl
  obtain ⟨t, hlive, rfl⟩ := h.owned id p' hp
  obtain ⟨t', hlive', rfl⟩ := h.owned id' p' hp'
  exact hid (by rw [Cell.live.inj (hlive'.symm.trans hlive)])

theorem waiting_eq_some (h : Indexed q out) :
    q.waiting id = some t ↔ ∃ p, q.heap p = .live t ∧ t.mTimerId = id ∧
      q.mTimerIdMap.lookup id = some (some p) := by
  constructor
  · intro hwaits
    by_cases hmapped : ∃ p, q.mTimerIdMap.lookup id = some (some p)
    · obtain ⟨p, hp⟩ := hmapped
      obtain ⟨t', hlive, hid⟩ := h.owned id p hp
      rw [waiting_of_lookup hp, timer_eq hlive] at hwaits
      obtain rfl := Option.some.inj hwaits
      exact ⟨p, hlive, hid, hp⟩
    · rw [waiting_of_missing (not_exists.mp hmapped)] at hwaits
      cases hwaits
  · intro ⟨p, hlive, _, hp⟩
    rw [waiting_of_lookup hp, timer_eq hlive]

theorem waiting_insert (h : Indexed q out) (r : Reads P) (ts : Timestamp) (interval : Interval)
    (hp : q.heap p = .unallocated) :
    ((q.newTimer p ts interval).insert r p).waiting =
      Function.update q.waiting q.TimerCount (some (.new ts interval q.TimerCount)) := by
  have hself : (q.newTimer p ts interval).heap p = .live (.new ts interval q.TimerCount) :=
    heap_setTimer_self ..
  funext id
  by_cases hid : id = q.TimerCount
  · subst hid
    have hlookup : ((q.newTimer p ts interval).insert r p).mTimerIdMap.lookup q.TimerCount = some (some p) := by
      rw [mTimerIdMap_insert, timer_eq hself]
      exact Finmap.lookup_insert _
    rw [Function.update_self, waiting_of_lookup hlookup, timer_eq (by rwa [heap_insert])]
  · rw [Function.update_of_ne hid]
    refine waiting_congr ?_ fun p' hp' => ?_
    · rw [mTimerIdMap_insert, timer_eq hself]
      exact Finmap.lookup_insert_of_ne _ hid
    · rw [heap_insert]
      refine heap_setTimer_of_ne (fun heq => ?_) _
      obtain ⟨t, hlive, _⟩ := h.owned id p' hp'
      cases hlive.symm.trans (heq ▸ hp)

theorem waiting_deleteTimer (h : Indexed q out) (r : Reads P)
    (hp : q.mTimerIdMap.lookup id = some (some p)) :
    (q.deleteTimer r (some p)).waiting = Function.update q.waiting id none := by
  obtain ⟨t, hlive, rfl⟩ := h.owned id p hp
  funext id
  by_cases hid : id = t.mTimerId
  · subst hid
    rw [Function.update_self]
    refine waiting_of_missing fun p' hp' => ?_
    rw [mTimerIdMap_deleteTimer, timer_eq hlive, Finmap.lookup_erase] at hp'
    cases hp'
  · rw [Function.update_of_ne hid]
    refine waiting_congr ?_ fun p' hp' => ?_
    · rw [mTimerIdMap_deleteTimer, timer_eq hlive, Finmap.lookup_erase_ne hid]
    · rw [heap_deleteTimer, heap_setTimer_of_ne (h.lookup_ne hid hp hp')]

theorem waiting_resetTimer (h : Indexed q out) (r : Reads P) (id : Timer_t) (ts : Timestamp) :
    (q.resetTimer r id ts).1.waiting = Function.update q.waiting id ((q.waiting id).map (·.reset ts)) := by
  by_cases hmapped : ∃ p, q.mTimerIdMap.lookup id = some (some p)
  · obtain ⟨p, hp⟩ := hmapped
    obtain ⟨t, hlive, _⟩ := h.owned id p hp
    have hheap : (q.resetTimer r id ts).1.heap = (q.setTimer p (.live (t.reset ts))).heap :=
      heap_resetTimer_found hp hlive
    funext id'
    by_cases hid : id' = id
    · subst hid
      rw [Function.update_self, waiting_of_lookup hp, timer_eq hlive,
        waiting_of_lookup ((congrArg _ (mTimerIdMap_resetTimer ..)).trans hp), timer, hheap, heap_setTimer_self]
      rfl
    · rw [Function.update_of_ne hid]
      refine waiting_congr (congrArg _ (mTimerIdMap_resetTimer ..)) fun p' hp' => ?_
      rw [hheap, heap_setTimer_of_ne (h.lookup_ne hid hp hp')]
  · have hmissing := not_exists.mp hmapped
    rw [resetTimer_missing hmissing, waiting_of_missing hmissing]
    exact (Function.update_eq_self_iff.mpr (waiting_of_missing hmissing).symm).symm

theorem waiting_findExpiredTimer (h : Indexed q out) (when : Timestamp) :
    (q.findExpiredTimer when).waiting = fun id => (q.waiting id).filter fun t => when < t.mExpired := by
  funext id
  by_cases hmapped : ∃ p, q.mTimerIdMap.lookup id = some (some p)
  · obtain ⟨p, hp⟩ := hmapped
    obtain ⟨t, hlive, rfl⟩ := h.owned id p hp
    rw [waiting_of_lookup hp, timer_eq hlive, Option.filter_some]
    by_cases hle : t.mExpired ≤ when
    · rw [if_neg (by simpa using hle)]
      refine waiting_of_missing fun p' hp' => ?_
      have hdue : p ∈ q.expired when :=
        mem_expired_iff.mpr ⟨_, hle, (h.agree _ p).mpr ⟨t, hlive, rfl, hp⟩⟩
      exact (lookup_findExpiredTimer.mp hp').2 p hdue (by rw [timer_eq hlive])
    · have hlookup : (q.findExpiredTimer when).mTimerIdMap.lookup t.mTimerId = some (some p) := by
        refine lookup_findExpiredTimer.mpr ⟨hp, fun p' hp' hid => ?_⟩
        obtain ⟨t', hlive', _, hbelow⟩ := h.live_of_expired hp'
        rw [timer_eq hlive'] at hid
        obtain rfl := h.ids p' p t' t hlive' hlive hid
        obtain rfl := Cell.live.inj (hlive'.symm.trans hlive)
        exact hle (of_decide_eq_true (SortedSet.mem_of_mem_below hbelow).2)
      rw [if_pos (by simpa using hle), waiting_of_lookup hlookup]
      exact congrArg some (timer_eq hlive)
  · rw [waiting_of_missing (not_exists.mp hmapped)]
    exact waiting_of_missing fun p hp => not_exists.mp hmapped p (lookup_findExpiredTimer.mp hp).1

/-- A timer that is out is put back if it repeats. -/
theorem waiting_afterRun (h : Indexed q out) (r : Reads P) (hp : p ∈ out) (hlive : q.heap p = .live t) :
    (q.afterRun r p).waiting =
      if t.mRepeatable then Function.update q.waiting t.mTimerId (some (t.restart r.now)) else q.waiting := by
  have hother : ∀ {id p'}, q.mTimerIdMap.lookup id = some (some p') → p' ≠ p := by
    rintro id p' hp' rfl
    obtain ⟨t', hlive', rfl⟩ := h.owned id p' hp'
    exact h.not_lookup hp hlive' hp'
  have htimer := timer_eq hlive
  split
  · rename_i hrepeat
    have hself : (q.setTimer p (.live (t.restart r.now))).heap p = .live (t.restart r.now) :=
      heap_setTimer_self ..
    rw [afterRun_repeating (by rwa [htimer]), htimer, TimerQueue.link, timer_eq hself]
    funext id
    by_cases hid : id = t.mTimerId
    · subst hid
      rw [Function.update_self, waiting_of_lookup (Finmap.lookup_insert _)]
      exact congrArg some (timer_eq hself)
    · rw [Function.update_of_ne hid]
      exact waiting_congr (Finmap.lookup_insert_of_ne _ hid) fun p' hp' => heap_setTimer_of_ne (hother hp') _
  · rename_i hrepeat
    rw [afterRun_oneShot (by rwa [htimer])]
    exact funext fun id => waiting_congr rfl fun p' hp' => heap_setTimer_of_ne (hother hp') _

/-- The timers that have expired are those that the agenda has due. -/
theorem due (h : Indexed q out) (when : Timestamp) {passes : List (Frame Timer)} {log : List TimerEvent} :
    Agenda.Due ⟨q.waiting, passes, q.TimerCount, log⟩ when ((q.expired when).map q.timer) where
  once := by
    refine (h.expired_nodup when).map_on fun p hp p' hp' heq => ?_
    obtain ⟨t, hlive, _⟩ := h.live_of_expired hp
    obtain ⟨t', hlive', _⟩ := h.live_of_expired hp'
    rw [timer_eq hlive, timer_eq hlive'] at heq
    exact h.ids p p' t t' hlive hlive' (by rw [heq])
  all t := by
    rw [List.mem_map, show Agenda.waiting _ = q.waiting from rfl, h.waiting_eq_some]
    constructor
    · intro ⟨p, hp, heq⟩
      obtain ⟨t', hlive, hlookup, hbelow⟩ := h.live_of_expired hp
      obtain rfl : t' = t := (timer_eq hlive).symm.trans heq
      exact ⟨⟨p, hlive, rfl, hlookup⟩, of_decide_eq_true (SortedSet.mem_of_mem_below hbelow).2⟩
    · intro ⟨⟨p, hlive, _, hlookup⟩, hle⟩
      exact ⟨p, mem_expired_iff.mpr ⟨_, hle, (h.agree _ p).mpr ⟨t, hlive, rfl, hlookup⟩⟩, timer_eq hlive⟩
  ordered := List.pairwise_map.mpr (expired_ordered h when)

end Indexed
end TimerQueue

namespace TimerLoop

variable {x : TimerLoop P} {pending : Set P} {c : TimerCall P} {calls : List (TimerCall P)}

/-- What the agenda sees of a queue. -/
def agenda (x : TimerLoop P) : Agenda where
  waiting := x.queue.waiting
  passes := x.stack.map (Frame.map x.queue.timer)
  count := x.queue.TimerCount
  log := x.log

/-- What a call is to the agenda. -/
def agendaStep (x : TimerLoop P) : TimerCall P → AgendaStep
  | .AddTimer _ _ ts interval => .add ts interval
  | .Remove _ id => .remove id
  | .ResetTimer _ id ts => .reset id ts
  | .handleRead r => .begin r.now ((x.queue.expired r.now).map x.queue.timer)
  | .run => .start
  | .returned r => .ended r.now
  | .finish _ => .finish
  | .elsewhere => .skip

theorem calling_agenda (x : TimerLoop P) : x.agenda.Calling ↔ x.Calling := by
  unfold Agenda.Calling Calling agenda
  cases x.stack with
  | nil => exact Iff.rfl
  | cons f stack => cases f <;> exact Iff.rfl

theorem enabled_agendaStep (h : x.Inv pending) (hc : x.Enabled c) : x.agenda.Enabled (x.agendaStep c) := by
  cases c with
  | AddTimer r p ts interval => exact x.calling_agenda.mpr hc.1
  | Remove r id => exact x.calling_agenda.mpr hc
  | ResetTimer r id ts => exact x.calling_agenda.mpr hc
  | handleRead r => exact ⟨x.calling_agenda.mpr hc, h.indexed.due r.now⟩
  | run =>
    obtain ⟨p, rest, stack, hstack⟩ := stack_of_run hc
    exact ⟨_, _, _, by rw [agenda, hstack]; rfl⟩
  | returned r =>
    obtain ⟨p, rest, stack, hstack⟩ := stack_of_returned hc
    exact ⟨_, _, _, by rw [agenda, hstack]; rfl⟩
  | finish r =>
    obtain ⟨stack, hstack⟩ := stack_of_finish hc
    exact ⟨_, by rw [agenda, hstack]; rfl⟩
  | elsewhere => trivial

/-- The timers that passes hold are left alone. -/
theorem map_frames (h : x.Inv pending) (hc : x.Enabled c) (frames : List (Frame P))
    (hheld : ∀ f ∈ frames, ∀ p ∈ f.held, p ∈ x.held)
    (htop : ∀ r p rest stack, c = .returned r → x.stack = .run p rest :: stack → ∀ f ∈ frames, p ∉ f.held) :
    frames.map (Frame.map (x.step c).queue.timer) = frames.map (Frame.map x.queue.timer) := by
  refine List.map_congr_left fun f hf => Frame.map_congr fun p hp => ?_
  obtain ⟨t, hlive⟩ := h.live_of_held (hheld f hf p hp)
  rcases held_step h (hheld f hf p hp) hlive c hc with ⟨_, hlive'⟩ | ⟨r, rest, stack, hret, hstack⟩
  · rw [TimerQueue.timer_eq hlive, TimerQueue.timer_eq hlive']
  · exact absurd hp (htop r p rest stack hret hstack f hf)

/-- Frames of the stack hold what the loop holds. -/
theorem mem_held {f : Frame P} {p : P} (hf : f ∈ x.stack) (hp : p ∈ f.held) : p ∈ x.held :=
  List.mem_flatMap.mpr ⟨f, hf, hp⟩

theorem map_stack (h : x.Inv pending) (hc : x.Enabled c) (hret : ∀ r, c ≠ .returned r) :
    x.stack.map (Frame.map (x.step c).queue.timer) = x.stack.map (Frame.map x.queue.timer) :=
  map_frames h hc _ (fun _ hf _ hp => mem_held hf hp) fun r _ _ _ heq => absurd heq (hret r)

theorem agenda_returned (h : x.Inv pending) {r : Reads P} (hc : x.Enabled (.returned r)) :
    (x.step (.returned r)).agenda = x.agenda.step (.ended r.now) := by
  obtain ⟨p, rest, stack, hstack⟩ := stack_of_returned hc
  have hheld := held_eq hstack
  obtain ⟨hp, _⟩ := List.nodup_cons.mp (hheld ▸ h.nodup)
  have hmem : p ∈ x.held := hheld ▸ List.mem_cons_self
  obtain ⟨t, hlive⟩ := h.live_of_held hmem
  have hframes : ∀ f ∈ Frame.next rest :: stack, ∀ p' ∈ f.held, p' ∈ rest ++ stack.flatMap Frame.held :=
    fun f hf p' hp' => by
      rcases List.mem_cons.mp hf with rfl | hf
      · exact List.mem_append_left _ hp'
      · exact List.mem_append_right _ (List.mem_flatMap.mpr ⟨f, hf, hp'⟩)
  have hmap := map_frames h hc (.next rest :: stack)
    (fun f hf p' hp' => hheld ▸ List.mem_cons_of_mem p (hframes f hf p' hp'))
    fun r' p' rest' stack' _ hstack' f hf hp' => by
      obtain ⟨heq, _⟩ := List.cons.inj (hstack.symm.trans hstack')
      obtain ⟨rfl, _⟩ := Frame.run.inj heq
      exact hp (hframes f hf p hp')
  have hwaiting := h.indexed.waiting_afterRun r (Or.inl hmem) hlive
  have htop : x.agenda.passes = .run t (rest.map x.queue.timer) :: stack.map (Frame.map x.queue.timer) := by
    rw [agenda, hstack, ← TimerQueue.timer_eq hlive]
    rfl
  rw [step_returned hstack] at hmap ⊢
  simp only [Agenda.step, htop]
  exact Agenda.ext hwaiting hmap (TimerQueue.TimerCount_afterRun ..) rfl

/-- A call does to the queue what the agenda's step does to the agenda. -/
theorem agenda_step (h : x.Inv pending) (hc : x.Enabled c) :
    (x.step c).agenda = x.agenda.step (x.agendaStep c) := by
  cases c with
  | AddTimer r p ts interval =>
    refine Agenda.ext (h.indexed.waiting_insert r ts interval hc.2) (map_stack h hc (by simp)) ?_ rfl
    exact TimerQueue.TimerCount_insert ..
  | Remove r id =>
    refine Agenda.ext ?_ (map_stack h hc (by simp)) ?_ rfl
    · rcases queue_Remove x r id with ⟨p, hlookup, hqueue⟩ | ⟨hmissing, hqueue⟩
      · rw [agenda, hqueue, h.indexed.waiting_deleteTimer r hlookup]
        rfl
      · rw [agenda, hqueue]
        exact (Function.update_eq_self_iff.mpr (TimerQueue.waiting_of_missing hmissing).symm).symm
    · rcases queue_Remove x r id with ⟨p, _, hqueue⟩ | ⟨_, hqueue⟩
      · rw [agenda, hqueue]
        exact TimerQueue.TimerCount_deleteTimer ..
      · rw [agenda, hqueue]
        rfl
  | ResetTimer r id ts =>
    refine Agenda.ext (h.indexed.waiting_resetTimer r id ts) (map_stack h hc (by simp)) ?_ rfl
    exact TimerQueue.TimerCount_resetTimer ..
  | handleRead r => exact Agenda.ext (h.indexed.waiting_findExpiredTimer r.now) rfl rfl rfl
  | run =>
    obtain ⟨p, rest, stack, hstack⟩ := stack_of_run hc
    rw [step_run hstack]
    simp only [agendaStep, Agenda.step, agenda, hstack]
    rfl
  | returned r => exact agenda_returned h hc
  | finish r =>
    obtain ⟨stack, hstack⟩ := stack_of_finish hc
    rw [step_finish hstack]
    simp only [agendaStep, Agenda.step, agenda, hstack]
    rfl
  | elsewhere => rfl

def simulation : Simulation (step (P := P)) Enabled Agenda.step Agenda.Enabled where
  I := Inv ∅
  abs := agenda
  act x c := [x.agendaStep c]
  kept _ c h hc := h.step c hc
  admits _ _ h hc := ⟨enabled_agendaStep h hc, trivial⟩
  commutes _ _ h hc := agenda_step h hc

/-- Every run of calls is a run of the agenda with the same timers waiting, the same passes under way
and the same events, in the same order. -/
theorem agenda_run (hcalls : Along step Enabled (new : TimerLoop P) calls) :
    Along Agenda.step Agenda.Enabled .new (outputs step (fun x c => [x.agendaStep c]) (new : TimerLoop P) calls) ∧
      ((new : TimerLoop P).run calls).agenda =
        (outputs step (fun x c => [x.agendaStep c]) (new : TimerLoop P) calls).foldl Agenda.step .new := by
  have hnew : (new : TimerLoop P).agenda = .new := rfl
  have halong := simulation.along (inv_new (P := P)) hcalls
  have hfinal := simulation.final (inv_new (P := P)) hcalls
  exact ⟨hnew ▸ halong, hnew ▸ hfinal⟩

/-- Two timers are due in one pass, and the callback of the first removes itself, resets the other and
adds a third. -/
theorem agenda_run_two :
    let calls : List (TimerCall Nat) :=
      [.AddTimer ⟨1, 0, none⟩ 10 5 ⟨true, 3⟩, .AddTimer ⟨1, 0, none⟩ 11 5 ⟨false, 0⟩,
        .handleRead ⟨6, 0, none⟩, .run, .Remove ⟨6, 0, none⟩ 0, .ResetTimer ⟨6, 0, none⟩ 1 9,
        .AddTimer ⟨6, 0, none⟩ 12 4 ⟨false, 0⟩, .returned ⟨7, 0, none⟩, .run, .returned ⟨7, 0, none⟩,
        .finish ⟨7, 0, none⟩]
    Along Agenda.step Agenda.Enabled .new (outputs step (fun x c => [x.agendaStep c]) new calls) ∧
      ((new : TimerLoop Nat).run calls).agenda =
        (outputs step (fun x c => [x.agendaStep c]) new calls).foldl Agenda.step .new :=
  agenda_run (by decide +kernel)

/-- The timer is in both indexes. -/
def Waits (x : TimerLoop P) (id : Timer_t) : Prop := ∃ p t, x.queue.InBoth p t ∧ t.mTimerId = id

/-- A pass that is under way has the timer ahead. -/
def Ahead (x : TimerLoop P) (id : Timer_t) : Prop :=
  ∃ p ∈ x.stack.flatMap Frame.ahead, (x.queue.timer p).mTimerId = id

/-- The timer has been run, waits or is ahead in a pass, and only one of these. It is one of them
unless it was removed. -/
structure RunsOnce (x : TimerLoop P) (id : Timer_t) : Prop where
  once : x.log.count (.started id) ≤ 1
  gone : .started id ∈ x.log → ¬ x.Waits id ∧ ¬ x.Ahead id
  onePlace : ¬ (x.Waits id ∧ x.Ahead id)
  kept : .removed id ∉ x.log → .started id ∈ x.log ∨ x.Waits id ∨ x.Ahead id

theorem ahead_agenda (x : TimerLoop P) :
    x.agenda.ahead = (x.stack.flatMap Frame.ahead).map fun p => (x.queue.timer p).mTimerId := by
  have hframe : ∀ f : Frame P, (f.map x.queue.timer).ahead = f.ahead.map x.queue.timer := fun f => by
    cases f <;> rfl
  rw [Agenda.ahead, agenda, List.flatMap_map]
  simp only [hframe, List.map_flatMap, List.map_map]
  rfl

theorem Inv.waits_iff (h : x.Inv pending) {id : Timer_t} : x.Waits id ↔ (x.agenda.waiting id).isSome := by
  rw [Option.isSome_iff_exists]
  constructor
  · intro ⟨p, t, hboth, hid⟩
    exact ⟨t, h.indexed.waiting_eq_some.mpr ⟨p, hboth.live, hid, (hboth.map id).mpr hid.symm⟩⟩
  · intro ⟨t, ht⟩
    obtain ⟨p, hlive, rfl, hlookup⟩ := h.indexed.waiting_eq_some.mp ht
    exact ⟨p, t, h.indexed.inBoth hlive hlookup, rfl⟩

theorem ahead_iff {id : Timer_t} : x.Ahead id ↔ 0 < x.agenda.ahead.count id := by
  rw [List.count_pos_iff, ahead_agenda, List.mem_map, Ahead]

theorem runsOnce_of_oneShot (h : x.Inv pending) {id : Timer_t} (hshot : x.agenda.OneShot id) :
    x.RunsOnce id := by
  have honce : x.log.count (.started id) + x.agenda.owed id = 1 ∨
      x.log.count (.started id) + x.agenda.owed id = 0 ∧ .removed id ∈ x.log := hshot.once
  have howed : x.agenda.owed id =
      (if (x.agenda.waiting id).isSome then 1 else 0) + x.agenda.ahead.count id := rfl
  rw [howed] at honce
  constructor
  · omega
  · intro hmem
    have hpos := List.count_pos_iff.mpr hmem
    rw [h.waits_iff, ahead_iff]
    split at honce
    · omega
    · exact ⟨‹_›, by omega⟩
  · rw [h.waits_iff, ahead_iff]
    rintro ⟨hsome, hpos⟩
    rw [if_pos hsome] at honce
    omega
  · intro hkept
    have hsum := honce.resolve_right fun hnot => hkept hnot.2
    rw [h.waits_iff, ahead_iff, ← List.count_pos_iff]
    split at hsum
    · exact Or.inr (Or.inl ‹_›)
    · omega

/-- A timer that is added without an interval runs once, whatever is called before and after: it is
never run again, and until it runs it is in the queue or in a pass, and not in both, unless it is
removed. -/
theorem runsOnce_run (pre post : List (TimerCall P)) (r : Reads P) (p : P) (ts : Timestamp) (interval : Interval)
    (hcalls : Along step Enabled (new : TimerLoop P) (pre ++ .AddTimer r p ts interval :: post))
    (hinterval : interval.positive = false) :
    ((new : TimerLoop P).run (pre ++ .AddTimer r p ts interval :: post)).RunsOnce
      ((new : TimerLoop P).run pre).queue.TimerCount := by
  obtain ⟨hpre, hadd, hpost⟩ := along_append.mp hcalls
  have hinv := inv_run hpre
  have horderly : ((new : TimerLoop P).run pre).agenda.Orderly :=
    simulation.invariant (fun _ s h hs => h.step s hs) (inv_new (P := P)) Agenda.orderly_new hpre
  have hinv' := hinv.step (.AddTimer r p ts interval) hadd
  have hstart := agenda_step hinv hadd
  have hend := simulation.invariant
    (Q := fun a => a.Orderly ∧ a.OneShot ((new : TimerLoop P).run pre).queue.TimerCount)
    (fun a s h hs => ⟨h.1.step s hs, h.2.step h.1 s hs⟩) hinv'
    (by
      show Agenda.Orderly (agenda _) ∧ Agenda.OneShot _ (agenda _)
      rw [hstart]
      have henabled := enabled_agendaStep hinv hadd
      exact ⟨horderly.step _ henabled, horderly.oneShot_add hinterval⟩) hpost
  rw [run_split]
  exact runsOnce_of_oneShot (inv_of_along hinv' hpost) hend.2

/-- The timer is due, and put off by the callback of another one. -/
theorem runsOnce_run_put_off :
    ((new : TimerLoop Nat).run
      ([.AddTimer ⟨1, 0, none⟩ 10 5 ⟨true, 3⟩] ++ .AddTimer ⟨1, 0, none⟩ 11 7 ⟨false, 0⟩ ::
        [.handleRead ⟨6, 0, none⟩, .run, .ResetTimer ⟨6, 0, none⟩ 1 9, .returned ⟨7, 0, none⟩,
          .finish ⟨7, 0, none⟩, .handleRead ⟨9, 0, none⟩, .run, .returned ⟨9, 0, none⟩])).RunsOnce
      ((new : TimerLoop Nat).run [.AddTimer ⟨1, 0, none⟩ 10 5 ⟨true, 3⟩]).queue.TimerCount :=
  runsOnce_run [.AddTimer ⟨1, 0, none⟩ 10 5 ⟨true, 3⟩]
    [.handleRead ⟨6, 0, none⟩, .run, .ResetTimer ⟨6, 0, none⟩ 1 9, .returned ⟨7, 0, none⟩,
      .finish ⟨7, 0, none⟩, .handleRead ⟨9, 0, none⟩, .run, .returned ⟨9, 0, none⟩]
    ⟨1, 0, none⟩ 11 7 ⟨false, 0⟩ (by decide +kernel) rfl

end TimerLoop
end Knpnl.Event
