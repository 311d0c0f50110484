import Knpnl.Event.TimerPass

/-!
# The agenda that a timer queue keeps

What a timer queue is for, without pointers and without indexes: timers wait under their ids until a
pass takes out those that are due, in the order of their times, and runs them one after the other.
What is due at one time may be run in any order.
-/
namespace Knpnl.Event

open Lib (Along)

/-- The timers that wait, the passes that are under way, the innermost first, the next id, and what
has happened. -/
@[ext] structure Agenda where
  waiting : Timer_t → Option Timer
  passes : List (Frame Timer)
  count : Timer_t
  log : List TimerEvent

inductive AgendaStep where
  | add (ts : Timestamp) (interval : Interval)
  | remove (id : Timer_t)
  | reset (id : Timer_t) (ts : Timestamp)
  | begin (now : Timestamp) (due : List Timer)
  | start
  | ended (now : Timestamp)
  | finish
  | skip

namespace Agenda

def new : Agenda := ⟨fun _ => none, [], 0, []⟩

/-- No pass is between two timers. -/
def Calling (a : Agenda) : Prop :=
  match a.passes with
  | .next _ :: _ => False
  | .run _ _ :: _ | [] => True

/-- What is due, once each and in the order of the times. -/
structure Due (a : Agenda) (now : Timestamp) (due : List Timer) : Prop where
  once : due.Nodup
  all : ∀ t, t ∈ due ↔ a.waiting t.mTimerId = some t ∧ t.mExpired ≤ now
  ordered : due.Pairwise fun t t' => t.mExpired ≤ t'.mExpired

def Enabled (a : Agenda) : AgendaStep → Prop
  | .add _ _ | .remove _ | .reset _ _ => a.Calling
  | .begin now due => a.Calling ∧ a.Due now due
  | .start => ∃ t rest passes, a.passes = .next (t :: rest) :: passes
  | .ended _ => ∃ t rest passes, a.passes = .run t rest :: passes
  | .finish => ∃ passes, a.passes = .next [] :: passes
  | .skip => True

def step (a : Agenda) : AgendaStep → Agenda
  | .add ts interval =>
      { a with
        waiting := Function.update a.waiting a.count (some (.new ts interval a.count))
        count := a.count + 1
        log := a.log ++ [.added a.count] }
  | .remove id => { a with waiting := Function.update a.waiting id none, log := a.log ++ [.removed id] }
  | .reset id ts => { a with waiting := Function.update a.waiting id ((a.waiting id).map (·.reset ts)) }
  | .begin now due =>
      { a with
        waiting := fun id => (a.waiting id).filter fun t => now < t.mExpired
        passes := .next due :: a.passes }
  | .start =>
      match a.passes with
      | .next (t :: rest) :: passes =>
          { a with passes := .run t rest :: passes, log := a.log ++ [.started t.mTimerId] }
      | _ => a
  | .ended now =>
      match a.passes with
      | .run t rest :: passes =>
          { a with
            waiting :=
              if t.mRepeatable then Function.update a.waiting t.mTimerId (some (t.restart now)) else a.waiting
            passes := .next rest :: passes }
      | _ => a
  | .finish =>
      match a.passes with
      | .next [] :: passes => { a with passes := passes }
      | _ => a
  | .skip => { a with count := a.count + 1 }

/-- The timers that the passes hold. -/
def held (a : Agenda) : List Timer := a.passes.flatMap Frame.held

/-- The ids of the timers that the passes have still to run. -/
def ahead (a : Agenda) : List Timer_t := (a.passes.flatMap Frame.ahead).map Timer.mTimerId

variable {a : Agenda} {s : AgendaStep} {id id' : Timer_t} {t : Timer} {ts now : Timestamp} {interval : Interval}
  {due : List Timer} {l : List TimerEvent}

@[simp] theorem waiting_add_self :
    (a.step (.add ts interval)).waiting a.count = some (.new ts interval a.count) := Function.update_self ..

theorem waiting_add_of_ne (h : id ≠ a.count) : (a.step (.add ts interval)).waiting id = a.waiting id :=
  Function.update_of_ne h ..

@[simp] theorem waiting_remove_self : (a.step (.remove id)).waiting id = none := Function.update_self ..

theorem waiting_remove_of_ne (h : id' ≠ id) : (a.step (.remove id)).waiting id' = a.waiting id' :=
  Function.update_of_ne h ..

@[simp] theorem waiting_reset_self : (a.step (.reset id ts)).waiting id = (a.waiting id).map (·.reset ts) :=
  Function.update_self ..

theorem waiting_reset_of_ne (h : id' ≠ id) : (a.step (.reset id ts)).waiting id' = a.waiting id' :=
  Function.update_of_ne h ..

theorem waiting_begin :
    (a.step (.begin now due)).waiting id = (a.waiting id).filter fun t => now < t.mExpired := rfl

/-- A timer waits under its own id, and an id that waits is held by no pass. What has been run has
an id that was given out. -/
structure Orderly (a : Agenda) : Prop where
  named : ∀ id t, a.waiting id = some t → t.mTimerId = id ∧ id < a.count
  apart : ∀ t ∈ a.held, a.waiting t.mTimerId = none ∧ t.mTimerId < a.count
  nodup : (a.held.map Timer.mTimerId).Nodup
  logged : ∀ id, .started id ∈ a.log → id < a.count

theorem orderly_new : Orderly new where
  named _ _ h := by cases h
  apart _ h := by cases h
  nodup := List.nodup_nil
  logged _ h := by cases h

/-- What is due has an id each. -/
theorem Due.ids_nodup (h : a.Due now due) :
    (due.map Timer.mTimerId).Nodup := by
  refine h.once.map_on fun t ht t' ht' hid => ?_
  have hwaits := ((h.all t).mp ht).1
  rw [hid, ((h.all t').mp ht').1] at hwaits
  exact (Option.some.inj hwaits).symm

namespace Orderly

theorem add (h : a.Orderly) (ts : Timestamp) (interval : Interval) : (a.step (.add ts interval)).Orderly where
  named id t ht := by
    by_cases hid : id = a.count
    · subst hid
      rw [waiting_add_self] at ht
      rw [← Option.some.inj ht]
      exact ⟨rfl, Nat.lt_succ_self _⟩
    · rw [waiting_add_of_ne hid] at ht
      exact ⟨(h.named id t ht).1, Nat.lt_succ_of_lt (h.named id t ht).2⟩
  apart t ht := by
    obtain ⟨hnone, hlt⟩ := h.apart t ht
    rw [waiting_add_of_ne hlt.ne]
    exact ⟨hnone, Nat.lt_succ_of_lt hlt⟩
  nodup := h.nodup
  logged id hid := Nat.lt_succ_of_lt (h.logged id (by simpa [step] using hid))

theorem remove (h : a.Orderly) (id : Timer_t) : (a.step (.remove id)).Orderly where
  named id' t ht := by
    by_cases hid : id' = id
    · subst hid
      rw [waiting_remove_self] at ht
      cases ht
    · rw [waiting_remove_of_ne hid] at ht
      exact h.named id' t ht
  apart t ht := by
    refine ⟨?_, (h.apart t ht).2⟩
    by_cases hid : t.mTimerId = id
    · rw [hid, waiting_remove_self]
    · rw [waiting_remove_of_ne hid]
      exact (h.apart t ht).1
  nodup := h.nodup
  logged id hid := h.logged id (by simpa [step] using hid)

theorem reset (h : a.Orderly) (id : Timer_t) (ts : Timestamp) : (a.step (.reset id ts)).Orderly where
  named id' t ht := by
    by_cases hid : id' = id
    · subst hid
      rw [waiting_reset_self] at ht
      obtain ⟨t', ht', rfl⟩ := Option.map_eq_some_iff.mp ht
      exact h.named id' t' ht'
    · rw [waiting_reset_of_ne hid] at ht
      exact h.named id' t ht
  apart t ht := by
    refine ⟨?_, (h.apart t ht).2⟩
    by_cases hid : t.mTimerId = id
    · rw [hid, waiting_reset_self, ← hid, (h.apart t ht).1]
      rfl
    · rw [waiting_reset_of_ne hid]
      exact (h.apart t ht).1
  nodup := h.nodup
  logged := h.logged

theorem begin (h : a.Orderly) (hdue : a.Due now due) :
    (a.step (.begin now due)).Orderly where
  named id t ht := h.named id t (Option.filter_eq_some_iff.mp ht).1
  apart t ht := by
    rcases List.mem_append.mp ht with ht | ht
    · obtain ⟨hwaits, hle⟩ := (hdue.all t).mp ht
      refine ⟨?_, (h.named _ t hwaits).2⟩
      rw [waiting_begin, hwaits, Option.filter_some, if_neg (by simpa using hle)]
    · refine ⟨?_, (h.apart t ht).2⟩
      rw [waiting_begin, (h.apart t ht).1]
      rfl
  nodup := by
    have hheld : (a.step (.begin now due)).held = due ++ a.held := rfl
    rw [hheld, List.map_append]
    refine hdue.ids_nodup.append h.nodup fun id hid hid' => ?_
    obtain ⟨t, ht, rfl⟩ := List.mem_map.mp hid
    obtain ⟨t', ht', heq⟩ := List.mem_map.mp hid'
    have hnone := (h.apart t' ht').1
    rw [heq, ((hdue.all t).mp ht).1] at hnone
    cases hnone
  logged := h.logged

theorem ended (h : a.Orderly) (now : Timestamp) (hs : a.Enabled (.ended now)) :
    (a.step (.ended now)).Orderly := by
  obtain ⟨t, rest, passes, hpasses⟩ := hs
  have hheld : a.held = t :: (rest ++ passes.flatMap Frame.held) := by rw [held, hpasses]; rfl
  obtain ⟨hnone, hlt⟩ := h.apart t (hheld ▸ List.mem_cons_self)
  have hnodup := h.nodup
  rw [hheld, List.map_cons, List.nodup_cons] at hnodup
  -- nothing else that is held has the id
  have hother : ∀ t' ∈ rest ++ passes.flatMap Frame.held, t'.mTimerId ≠ t.mTimerId := fun t' ht' hid =>
    hnodup.1 (hid ▸ List.mem_map_of_mem ht')
  have hmem : ∀ t' ∈ rest ++ passes.flatMap Frame.held, t' ∈ a.held := fun t' ht' =>
    hheld ▸ List.mem_cons_of_mem t ht'
  simp only [step, hpasses]
  refine ⟨fun id t' ht' => ?_, fun t' ht' => ?_, hnodup.2, h.logged⟩
  · dsimp only at ht'
    split at ht'
    · by_cases hid : id = t.mTimerId
      · rw [hid, Function.update_self] at ht'
        rw [← Option.some.inj ht', hid]
        exact ⟨rfl, hlt⟩
      · rw [Function.update_of_ne hid] at ht'
        exact h.named id t' ht'
    · exact h.named id t' ht'
  · obtain ⟨hnone', hlt'⟩ := h.apart t' (hmem t' ht')
    refine ⟨?_, hlt'⟩
    dsimp only
    split
    · rw [Function.update_of_ne (hother t' ht')]
      exact hnone'
    · exact hnone'

theorem step (h : a.Orderly) (s : AgendaStep) (hs : a.Enabled s) : (a.step s).Orderly := by
  cases s with
  | add ts interval => exact h.add ts interval
  | remove id => exact h.remove id
  | reset id ts => exact h.reset id ts
  | begin now due => exact h.begin hs.2
  | start =>
    obtain ⟨t, rest, passes, hpasses⟩ := hs
    have hheld : (a.step .start).held = a.held := by simp only [Agenda.step, held, hpasses]; rfl
    have ht := (h.apart t (by rw [held, hpasses]; exact List.mem_cons_self)).2
    simp only [Agenda.step, hpasses] at hheld ⊢
    refine ⟨h.named, fun t' ht' => h.apart t' (hheld ▸ ht'), hheld ▸ h.nodup, fun id hid => ?_⟩
    rcases List.mem_append.mp hid with hid | hid
    · exact h.logged id hid
    · rw [TimerEvent.started.inj (List.mem_singleton.mp hid)]
      exact ht
  | ended now => exact h.ended now hs
  | finish =>
    obtain ⟨passes, hpasses⟩ := hs
    have hheld : (a.step .finish).held = a.held := by simp only [Agenda.step, held, hpasses]; rfl
    simp only [Agenda.step, hpasses] at hheld ⊢
    exact ⟨h.named, fun t' ht' => h.apart t' (hheld ▸ ht'), hheld ▸ h.nodup, h.logged⟩
  | skip =>
    exact ⟨fun id t ht => (h.named id t ht).imp_right Nat.lt_succ_of_lt,
      fun t ht => (h.apart t ht).imp_right Nat.lt_succ_of_lt, h.nodup,
      fun id hid => Nat.lt_succ_of_lt (h.logged id hid)⟩

end Orderly
/-- How often a timer has been run. -/
def starts (a : Agenda) (id : Timer_t) : Nat := a.log.count (.started id)

/-- How often a timer is still to be run: it waits, or it is ahead in a pass. -/
def owed (a : Agenda) (id : Timer_t) : Nat := (if (a.waiting id).isSome then 1 else 0) + a.ahead.count id

theorem starts_append (h : ∀ e ∈ l, e ≠ TimerEvent.started id) :
    (a.log ++ l).count (.started id) = a.starts id := by
  rw [List.count_append, List.count_eq_zero.mpr fun hmem => h _ hmem rfl]
  rfl

theorem owed_congr {b : Agenda} (hwaiting : a.waiting id = b.waiting id) (hahead : a.ahead = b.ahead) :
    a.owed id = b.owed id := by rw [owed, owed, hwaiting, hahead]

/-- A pass that begins takes out the timers that it is to run. -/
theorem Orderly.owed_begin (h : a.Orderly) (hdue : a.Due now due) :
    (a.step (.begin now due)).owed id = a.owed id := by
  have hahead : (a.step (.begin now due)).ahead = due.map Timer.mTimerId ++ a.ahead := List.map_append
  rw [owed, owed, hahead, List.count_append, waiting_begin, ← Nat.add_assoc]
  refine congrArg (· + a.ahead.count id) ?_
  have hmem : id ∈ due.map Timer.mTimerId ↔ ∃ t, a.waiting id = some t ∧ t.mExpired ≤ now := by
    rw [List.mem_map]
    constructor
    · intro ⟨t, ht, hid⟩
      exact ⟨t, hid ▸ (hdue.all t).mp ht⟩
    · intro ⟨t, ht, hle⟩
      have hid := (h.named id t ht).1
      exact ⟨t, (hdue.all t).mpr ⟨hid.symm ▸ ht, hle⟩, hid⟩
  cases hwaits : a.waiting id with
  | none =>
    have hnot : id ∉ due.map Timer.mTimerId := fun hid => by
      obtain ⟨t, ht, _⟩ := hmem.mp hid
      cases hwaits.symm.trans ht
    rw [List.count_eq_zero.mpr hnot]
    rfl
  | some t =>
    rw [Option.filter_some]
    by_cases hle : t.mExpired ≤ now
    · rw [List.count_eq_one_of_mem hdue.ids_nodup (hmem.mpr ⟨t, hwaits, hle⟩),
        if_neg (by simpa using hle)]
      rfl
    · have hnot : id ∉ due.map Timer.mTimerId := fun hid => by
        obtain ⟨t', ht', hle'⟩ := hmem.mp hid
        exact hle (Option.some.inj (hwaits.symm.trans ht') ▸ hle')
      rw [List.count_eq_zero.mpr hnot, if_pos (by simpa using hle)]
      rfl

/-- A one-shot timer that is known has been run or is to be run, once, or it has been removed. -/
structure OneShot (id : Timer_t) (a : Agenda) : Prop where
  known : id < a.count
  waits : ∀ t, a.waiting id = some t → t.mRepeatable = false
  held : ∀ t ∈ a.held, t.mTimerId = id → t.mRepeatable = false
  once : a.starts id + a.owed id = 1 ∨ a.starts id + a.owed id = 0 ∧ .removed id ∈ a.log

namespace OneShot

/-- Its timer is where it was, and the log has grown by something else. -/
theorem same {b : Agenda} (h : a.OneShot id) (hcount : a.count ≤ b.count)
    (hwaiting : b.waiting id = a.waiting id) (hpasses : b.passes = a.passes)
    (hlog : ∃ l, b.log = a.log ++ l ∧ ∀ e ∈ l, e ≠ TimerEvent.started id) : b.OneShot id := by
  obtain ⟨l, hlog, hl⟩ := hlog
  have hheld : b.held = a.held := by rw [Agenda.held, Agenda.held, hpasses]
  have howed : b.owed id = a.owed id := owed_congr hwaiting (by rw [ahead, ahead, hpasses])
  have hstarts : b.starts id = a.starts id := by rw [starts, hlog, starts_append hl]
  refine ⟨h.known.trans_le hcount, hwaiting ▸ h.waits, hheld ▸ h.held, ?_⟩
  rw [howed, hstarts, hlog]
  exact h.once.imp_right fun hnot => ⟨hnot.1, List.mem_append_left l hnot.2⟩

theorem remove (h : a.OneShot id) : (a.step (.remove id)).OneShot id where
  known := h.known
  waits t ht := by
    rw [waiting_remove_self] at ht
    cases ht
  held := h.held
  once := by
    have hlog : .removed id ∈ (a.step (.remove id)).log := List.mem_append_right _ (List.mem_singleton_self _)
    have hstarts : (a.step (.remove id)).starts id = a.starts id := starts_append (by simp)
    have howed : (a.step (.remove id)).owed id = a.ahead.count id := by
      rw [owed, waiting_remove_self]
      exact Nat.zero_add _
    have honce := h.once
    rw [hstarts, howed]
    rw [owed] at honce
    rcases honce with honce | ⟨hnone, _⟩
    · by_cases hzero : a.starts id + a.ahead.count id = 0
      · exact Or.inr ⟨hzero, hlog⟩
      · exact Or.inl (by omega)
    · exact Or.inr ⟨by omega, hlog⟩

theorem reset (h : a.OneShot id) : (a.step (.reset id ts)).OneShot id where
  known := h.known
  waits t ht := by
    rw [waiting_reset_self] at ht
    obtain ⟨t', ht', rfl⟩ := Option.map_eq_some_iff.mp ht
    exact h.waits t' ht'
  held := h.held
  once := by
    have howed : (a.step (.reset id ts)).owed id = a.owed id := by
      rw [owed, owed, waiting_reset_self, Option.isSome_map]
      rfl
    rw [howed]
    exact h.once

theorem begin (h : a.OneShot id) (horderly : a.Orderly) (hdue : a.Due now due) :
    (a.step (.begin now due)).OneShot id where
  known := h.known
  waits t ht := h.waits t (Option.filter_eq_some_iff.mp ht).1
  held t ht hid := by
    rcases List.mem_append.mp ht with ht | ht
    · exact h.waits t (hid ▸ ((hdue.all t).mp ht).1)
    · exact h.held t ht hid
  once := by
    rw [horderly.owed_begin hdue]
    exact h.once

theorem start (h : a.OneShot id) (hs : a.Enabled .start) : (a.step .start).OneShot id := by
  obtain ⟨t, rest, passes, hpasses⟩ := hs
  have hahead : a.ahead = t.mTimerId :: (a.step .start).ahead := by
    simp only [ahead, step, hpasses]
    rfl
  have hheld : (a.step .start).held = a.held := by
    simp only [step, Agenda.held, hpasses]
    rfl
  have hlog : (a.step .start).log = a.log ++ [.started t.mTimerId] := by simp only [step, hpasses]
  have hwaiting : (a.step .start).waiting = a.waiting := by simp only [step, hpasses]
  have hcount : (a.step .start).count = a.count := by simp only [step, hpasses]
  have htotal : (a.step .start).starts id + (a.step .start).owed id = a.starts id + a.owed id := by
    rw [starts, owed, hlog, hwaiting, owed, hahead, List.count_append, List.count_cons, ← starts]
    by_cases hid : t.mTimerId = id
    · simp [hid]
      omega
    · simp [hid]
  refine ⟨hcount ▸ h.known, hwaiting ▸ h.waits, hheld ▸ h.held, ?_⟩
  rw [htotal, hlog]
  exact h.once.imp_right fun hnot => ⟨hnot.1, List.mem_append_left _ hnot.2⟩

theorem ended (h : a.OneShot id) (hs : a.Enabled (.ended now)) : (a.step (.ended now)).OneShot id := by
  obtain ⟨t, rest, passes, hpasses⟩ := hs
  have hheld : a.held = t :: (a.step (.ended now)).held := by
    simp only [step, Agenda.held, hpasses]
    rfl
  have hahead : (a.step (.ended now)).ahead = a.ahead := by
    simp only [step, ahead, hpasses]
    rfl
  have hlog : (a.step (.ended now)).log = a.log := by simp only [step, hpasses]
  have hcount : (a.step (.ended now)).count = a.count := by simp only [step, hpasses]
  -- what is put back is another timer
  have hwaiting : (a.step (.ended now)).waiting id = a.waiting id := by
    simp only [step, hpasses]
    split
    · rename_i hrepeat
      refine Function.update_of_ne (fun hid => ?_) ..
      rw [h.held t (hheld ▸ List.mem_cons_self) hid.symm] at hrepeat
      cases hrepeat
    · rfl
  have howed : (a.step (.ended now)).owed id = a.owed id := owed_congr hwaiting hahead
  refine ⟨hcount ▸ h.known, hwaiting ▸ h.waits, fun t' ht' => h.held t' (hheld ▸ List.mem_cons_of_mem t ht'), ?_⟩
  rw [howed, starts, hlog]
  exact h.once

theorem finish (h : a.OneShot id) (hs : a.Enabled .finish) : (a.step .finish).OneShot id := by
  obtain ⟨passes, hpasses⟩ := hs
  have hheld : (a.step .finish).held = a.held := by
    simp only [step, Agenda.held, hpasses]
    rfl
  have hahead : (a.step .finish).ahead = a.ahead := by
    simp only [step, ahead, hpasses]
    rfl
  have hfields : (a.step .finish).waiting = a.waiting ∧ (a.step .finish).count = a.count ∧
      (a.step .finish).log = a.log := by
    simp only [step, hpasses, and_self]
  obtain ⟨hwaiting, hcount, hlog⟩ := hfields
  refine ⟨hcount ▸ h.known, hwaiting ▸ h.waits, hheld ▸ h.held, ?_⟩
  rw [owed_congr (congrFun hwaiting id) hahead, starts, hlog]
  exact h.once

theorem step (h : a.OneShot id) (horderly : a.Orderly) (s : AgendaStep) (hs : a.Enabled s) :
    (a.step s).OneShot id := by
  cases s with
  | add ts interval =>
    exact h.same (Nat.le_succ _) (waiting_add_of_ne h.known.ne) rfl ⟨[.added a.count], rfl, by simp⟩
  | remove id' =>
    by_cases hid : id = id'
    · exact hid ▸ h.remove
    · exact h.same le_rfl (waiting_remove_of_ne hid) rfl ⟨[.removed id'], rfl, by simp⟩
  | reset id' ts =>
    by_cases hid : id = id'
    · exact hid ▸ h.reset
    · exact h.same le_rfl (waiting_reset_of_ne hid) rfl ⟨[], (List.append_nil _).symm, by simp⟩
  | begin now due => exact h.begin horderly hs.2
  | start => exact h.start hs
  | ended now => exact h.ended hs
  | finish => exact h.finish hs
  | skip => exact h.same (Nat.le_succ _) rfl rfl ⟨[], (List.append_nil _).symm, by simp⟩

end OneShot

/-- A timer that was just added without an interval. -/
theorem Orderly.oneShot_add (h : a.Orderly) (hinterval : interval.positive = false) :
    (a.step (.add ts interval)).OneShot a.count where
  known := Nat.lt_succ_self _
  waits t ht := by
    rw [waiting_add_self] at ht
    rw [← Option.some.inj ht]
    exact hinterval
  held t ht hid := absurd hid (h.apart t ht).2.ne
  once := by
    have hahead : a.count ∉ a.ahead := by
      intro hmem
      obtain ⟨t, ht, hid⟩ := List.mem_map.mp hmem
      obtain ⟨f, hf, htf⟩ := List.mem_flatMap.mp ht
      exact (h.apart t (List.mem_flatMap.mpr ⟨f, hf, f.held_of_ahead htf⟩)).2.ne hid
    have hstarts : (a.step (.add ts interval)).starts a.count = 0 :=
      (starts_append (by simp)).trans (List.count_eq_zero.mpr fun hid => (h.logged _ hid).false)
    have howed : (a.step (.add ts interval)).owed a.count = 1 := by
      rw [owed, waiting_add_self]
      exact congrArg (1 + ·) (List.count_eq_zero.mpr hahead)
    rw [hstarts, howed]
    exact Or.inl rfl

end Agenda
end Knpnl.Event
