import Knpnl.Event.TimerIndex

/-!
# When the timerfd expires

A call of a function of the queue sets the timerfd, if it does, for the first timer in the set, and
leaves it alone where no timer has come before the one that was first. So while timers wait, the
timerfd has expired or is about to, in time for the first of them.
-/
namespace Knpnl.Event

open Lib
open Base (signed)

variable {P : Type*} [LinearOrder P]

def kMicroSecondsPerSecond : Nat := 1000 * 1000

namespace Armed

/-- `it_value`, in seconds and nanoseconds. -/
def it_value (a : Armed) : Nat × Nat :=
  (a.micros / kMicroSecondsPerSecond, a.micros % kMicroSecondsPerSecond * 1000)

/-- When the timerfd expires. -/
def moment (a : Armed) : Timestamp :=
  a.setAt + (a.it_value.1 * kMicroSecondsPerSecond + a.it_value.2 / 1000)

theorem moment_eq (a : Armed) : a.moment = a.setAt + a.micros := by
  unfold moment it_value
  rw [Nat.mul_div_cancel _ (by decide), Nat.mul_comm, Nat.div_add_mod]

end Armed

/-- Times whose difference is one of a signed 64 bit integer. -/
theorem howMuchTimeFromNow_eq {now expiration : Nat} (hnow : now < 2 ^ 63) (hexp : expiration < 2 ^ 63) :
    howMuchTimeFromNow now expiration = max 100 (expiration - now) := by
  have hsigned : signed 64 ((expiration : Int) - now) = (expiration : Int) - now := by
    unfold signed
    exact Int.bmod_eq_of_le (by omega) (by omega)
  rw [howMuchTimeFromNow, hsigned]
  omega

theorem moment_howMuchTimeFromNow {now expiration : Nat} (hnow : now < 2 ^ 63)
    (hexp : expiration < 2 ^ 63) :
    (Armed.mk now (howMuchTimeFromNow now expiration)).moment = max expiration (now + 100) := by
  have hsum : now + max 100 (expiration - now) = max expiration (now + 100) := by omega
  rw [Armed.moment_eq, howMuchTimeFromNow_eq hnow hexp]
  exact hsum

namespace TimerQueue

variable {q q' : TimerQueue P} {r : Reads P} {p : P} {t : Timer} {ts : Timestamp} {out : Set P}

/-- The timerfd was set for whatever is first in the set. -/
def SetForFirst (q : TimerQueue P) (now : Timestamp) : Prop :=
  ∀ e, q.mTimerSet.first = some e → q.mTimerfd = some ⟨now, howMuchTimeFromNow now (ofLex e).1⟩

/-- The timerfd is as before, and nothing has come before what was first. -/
def LeftForFirst (q q' : TimerQueue P) : Prop :=
  q'.mTimerfd = q.mTimerfd ∧
    ∀ e', q'.mTimerSet.first = some e' → ∃ e, q.mTimerSet.first = some e ∧ (ofLex e).1 ≤ (ofLex e').1

theorem begin_of_first {e : Timestamp ×ₗ P} (h : q.mTimerSet.first = some e) (r : Reads P) :
    q.begin r = ((ofLex e).1, some (ofLex e).2) := by rw [begin, h]

theorem setForFirst_begin (q : TimerQueue P) (r : Reads P) :
    (q.resetTimerfd r (q.begin r).1).SetForFirst r.now := by
  intro e he
  have hbegin := begin_of_first (q := q) he r
  rw [hbegin, resetTimerfd]

theorem leftForFirst_of_subset (hfd : q'.mTimerfd = q.mTimerfd)
    (hsub : ∀ e, q'.mTimerSet.first = some e → e ∈ q.mTimerSet) : LeftForFirst q q' := by
  refine ⟨hfd, fun e' he' => ?_⟩
  obtain ⟨e, he, hle⟩ := SortedSet.exists_first_le (hsub e' he')
  exact ⟨e, he, Prod.Lex.monotone_fst e e' hle⟩

theorem leftForFirst_refl (q : TimerQueue P) : LeftForFirst q q := ⟨rfl, fun e he => ⟨e, he, le_rfl⟩⟩

/-- A timer was put in with the others, and the timerfd is set if it is first. -/
theorem first_put {others : SortedSet (Timestamp ×ₗ P)} (hfd : q'.mTimerfd = q.mTimerfd)
    (hset : q'.mTimerSet = others.insert (toLex (ts, p)))
    (hothers : ∀ e ∈ others, (ofLex e).2 ≠ p ∧ e ∈ q.mTimerSet) :
    SetForFirst (if (q'.begin r).2 = some p then q'.resetTimerfd r ts else q') r.now ∨
      LeftForFirst q (if (q'.begin r).2 = some p then q'.resetTimerfd r ts else q') := by
  have hmem : ∀ e, q'.mTimerSet.first = some e → e = toLex (ts, p) ∨ e ∈ others := fun e he =>
    SortedSet.mem_insert.mp (hset ▸ SortedSet.mem_of_first he)
  by_cases hhead : (q'.begin r).2 = some p
  · rw [if_pos hhead]
    refine .inl fun e he => ?_
    rcases hmem e he with rfl | hother
    · rfl
    · rw [begin_of_first (q := q') he] at hhead
      exact absurd (Option.some.inj hhead) (hothers e hother).1
  · rw [if_neg hhead]
    refine .inr (leftForFirst_of_subset hfd fun e he => ?_)
    rcases hmem e he with rfl | hother
    · exact absurd (congrArg Prod.snd (begin_of_first he r)) hhead
    · exact (hothers e hother).2

theorem first_insert (hlive : q.heap p = .live t) (hnew : ∀ ts, toLex (ts, p) ∉ q.mTimerSet) :
    SetForFirst (q.insert r p) r.now ∨ LeftForFirst q (q.insert r p) := by
  rw [insert, timer_eq hlive]
  refine first_put rfl (by rw [link, timer_eq hlive]) fun e hmem => ⟨fun hp => ?_, hmem⟩
  exact hnew (ofLex e).1 (hp ▸ hmem)

theorem first_deleteTimer (q : TimerQueue P) (r : Reads P) (p : P) :
    SetForFirst (q.deleteTimer r (some p)) r.now ∨ LeftForFirst q (q.deleteTimer r (some p)) := by
  unfold deleteTimer
  dsimp only
  split
  · exact .inl (setForFirst_begin _ r)
  · exact .inr (leftForFirst_of_subset rfl fun e he => (SortedSet.mem_erase.mp (SortedSet.mem_of_first he)).2)

theorem Indexed.first_resetTimer (h : Indexed q out) (r : Reads P) (id : Timer_t) (ts : Timestamp) :
    SetForFirst (q.resetTimer r id ts).1 r.now ∨ LeftForFirst q (q.resetTimer r id ts).1 := by
  unfold TimerQueue.resetTimer
  split
  · exact .inr (leftForFirst_refl q)
  · exact .inr (leftForFirst_refl q)
  · rename_i p hlookup
    obtain ⟨t, hlive, rfl⟩ := h.owned id p hlookup
    have hold : toLex (t.mExpired, p) ∈ q.mTimerSet := (h.agree _ _).mpr ⟨t, hlive, rfl, hlookup⟩
    dsimp only
    rw [timer_eq hlive]
    refine first_put rfl rfl fun e hmem => ?_
    obtain ⟨hne, hmem⟩ := SortedSet.mem_erase.mp hmem
    exact ⟨fun hp => hne (h.one_entry hmem hold hp), hmem⟩

end TimerQueue

/-- The times that a call reads are all `now`. -/
def TimerCall.ReadsAt (now : Timestamp) : TimerCall P → Prop
  | .AddTimer r _ _ _ | .Remove r _ | .ResetTimer r _ _ | .handleRead r | .returned r | .finish r => r.now = now
  | .run | .elsewhere => True

instance (now : Timestamp) : (c : TimerCall P) → Decidable (c.ReadsAt now)
  | .AddTimer r _ _ _ | .Remove r _ | .ResetTimer r _ _ | .handleRead r | .returned r | .finish r =>
      Nat.decEq r.now now
  | .run | .elsewhere => isTrue trivial

namespace TimerLoop

open TimerQueue (SetForFirst LeftForFirst)

variable {x : TimerLoop P} {pending : Set P} {c : TimerCall P} {now : Timestamp}

/-- Outside `handleRead` a call has set the timerfd for the first timer, or has left both as they
were. -/
theorem first_step (h : x.Inv pending) (hc : x.Enabled c) (hat : c.ReadsAt now)
    (hstack : (x.step c).stack = []) :
    SetForFirst (x.step c).queue now ∨ x.stack = [] ∧ LeftForFirst x.queue (x.step c).queue := by
  cases c with
  | AddTimer r p ts interval =>
    obtain rfl : r.now = now := hat
    have hself : (x.queue.newTimer p ts interval).heap p = .live (.new ts interval x.queue.TimerCount) :=
      TimerQueue.heap_setTimer_self ..
    have hnew : ∀ ts', toLex (ts', p) ∉ x.queue.mTimerSet := by
      intro ts' hmem
      obtain ⟨t, hlive, _⟩ := (h.indexed.agree ts' p).mp hmem
      cases hlive.symm.trans hc.2
    exact (TimerQueue.first_insert hself hnew).imp_right fun hleft => ⟨hstack, hleft⟩
  | Remove r id =>
    obtain rfl : r.now = now := hat
    rcases queue_Remove x r id with ⟨p, _, hqueue⟩ | ⟨_, hqueue⟩
    · rw [hqueue]
      exact (TimerQueue.first_deleteTimer x.queue r p).imp_right fun hleft => ⟨hstack, hleft⟩
    · rw [hqueue]
      exact .inr ⟨hstack, TimerQueue.leftForFirst_refl _⟩
  | ResetTimer r id ts =>
    obtain rfl : r.now = now := hat
    exact (h.indexed.first_resetTimer r id ts).imp_right fun hleft => ⟨hstack, hleft⟩
  | handleRead r => cases hstack
  | run =>
    obtain ⟨p, rest, stack, hrun⟩ := stack_of_run hc
    rw [step_run hrun] at hstack
    cases hstack
  | returned r =>
    obtain ⟨p, rest, stack, hrun⟩ := stack_of_returned hc
    rw [step_returned hrun] at hstack
    cases hstack
  | finish r =>
    obtain rfl : r.now = now := hat
    obtain ⟨stack, hnext⟩ := stack_of_finish hc
    rw [step_finish hnext]
    exact .inl (TimerQueue.setForFirst_begin x.queue r)
  | elsewhere => exact .inr ⟨hstack, TimerQueue.leftForFirst_refl x.queue⟩

end TimerLoop

/-- The clock that the queue reads and the clock of the timerfd advance alike. `handled` is the last
setting of the timerfd that had expired when a `handleRead` began. -/
structure ClockedLoop (P : Type*) [LinearOrder P] where
  loop : TimerLoop P
  now : Timestamp
  handled : Option Armed

/-- Time passes up to `now`, or the loop's thread makes a step. -/
inductive ClockedStep (P : Type*) where
  | wait (now : Timestamp)
  | call (c : TimerCall P)

namespace ClockedLoop

def new : ClockedLoop P := ⟨.new, 0, none⟩

/-- What the timerfd was last set to, if it has expired since. -/
def expired (s : ClockedLoop P) : Option Armed := s.loop.queue.mTimerfd.filter fun a => a.moment ≤ s.now

def step (s : ClockedLoop P) : ClockedStep P → ClockedLoop P
  | .wait now => { s with now := now }
  | .call c =>
      { s with
        loop := s.loop.step c
        handled :=
          match c with
          | .handleRead _ => s.expired.or s.handled
          | _ => s.handled }

/-- Times increase, a call reads the time at which it is made, and all times are below `2 ^ 63`. -/
def Enabled (s : ClockedLoop P) : ClockedStep P → Prop
  | .wait now => s.now ≤ now ∧ now < 2 ^ 63
  | .call c =>
      s.loop.Enabled c ∧ c.ReadsAt s.now ∧ ∀ e ∈ (s.loop.step c).queue.mTimerSet.items, (ofLex e).1 < 2 ^ 63

instance (s : ClockedLoop P) (c : ClockedStep P) : Decidable (s.Enabled c) := by
  cases c <;> unfold Enabled <;> infer_instance

/-- The timerfd has expired since it was set, and its `handleRead` is still to come. -/
def Due (s : ClockedLoop P) : Prop := ∃ a, s.expired = some a ∧ s.handled ≠ some a

/-- Outside `handleRead` and while the set is not empty, the timerfd has expired, or it will by the
first time in the set or by 100 microseconds after it was set. -/
def NotLate (s : ClockedLoop P) : Prop :=
  s.loop.stack = [] → ∀ e, s.loop.queue.mTimerSet.first = some e →
    s.Due ∨ ∃ a, s.loop.queue.mTimerfd = some a ∧ s.now < a.moment ∧ a.moment ≤ max (ofLex e).1 (a.setAt + 100)

variable {s : ClockedLoop P}

/-- Every setting expires in time for the first timer, and what was handled is another one. -/
structure InTime (s : ClockedLoop P) : Prop where
  inv : s.loop.Inv ∅
  now_lt : s.now < 2 ^ 63
  handled : ∀ a, s.handled = some a → a.moment ≤ s.now
  first : s.loop.stack = [] → ∀ e, s.loop.queue.mTimerSet.first = some e →
    ∃ a, s.loop.queue.mTimerfd = some a ∧ a.moment ≤ max (ofLex e).1 (a.setAt + 100) ∧ s.handled ≠ some a

theorem inTime_new : InTime (new : ClockedLoop P) where
  inv := TimerLoop.inv_new
  now_lt := Nat.two_pow_pos 63
  handled _ h := by cases h
  first _ _ h := by cases h

theorem InTime.notLate (h : s.InTime) : s.NotLate := by
  intro hstack e he
  obtain ⟨a, hfd, hmoment, hhandled⟩ := h.first hstack e he
  by_cases hexpired : a.moment ≤ s.now
  · refine .inl ⟨a, ?_, hhandled⟩
    rw [expired, hfd, Option.filter_some, if_pos (decide_eq_true hexpired)]
  · exact .inr ⟨a, hfd, not_le.mp hexpired, hmoment⟩

theorem moment_of_expired {a : Armed} (h : s.expired = some a) : a.moment ≤ s.now :=
  of_decide_eq_true (Option.filter_eq_some_iff.mp h).2

/-- Only a `handleRead` changes what was handled, and it is not at its end at once. -/
theorem handled_call {c : TimerCall P} (h : (s.loop.step c).stack = []) :
    (s.step (.call c)).handled = s.handled := by
  cases c with
  | handleRead r => cases h
  | _ => rfl

theorem InTime.wait (h : s.InTime) {now : Timestamp} (hle : s.now ≤ now) (hlt : now < 2 ^ 63) :
    (s.step (.wait now)).InTime where
  inv := h.inv
  now_lt := hlt
  handled a ha := (h.handled a ha).trans hle
  first := h.first

theorem InTime.call (h : s.InTime) {c : TimerCall P} (hc : s.Enabled (.call c)) :
    (s.step (.call c)).InTime where
  inv := h.inv.step c hc.1
  now_lt := h.now_lt
  handled a ha := by
    cases c with
    | handleRead r =>
      rcases Option.or_eq_some_iff.mp ha with hexpired | ⟨_, hbefore⟩
      · exact moment_of_expired hexpired
      · exact h.handled a hbefore
    | _ => exact h.handled a ha
  first hstack e he := by
    obtain ⟨henabled, hat, hsmall⟩ := hc
    rw [handled_call hstack]
    rcases TimerLoop.first_step h.inv henabled hat hstack with hset | ⟨hbefore, hfd, hleft⟩
    · have hexp : (ofLex e).1 < 2 ^ 63 := hsmall e (SortedSet.mem_of_first he)
      have hmoment := moment_howMuchTimeFromNow h.now_lt hexp
      refine ⟨_, hset e he, hmoment.le, fun heq => ?_⟩
      -- what was handled has expired, and this setting has not
      have hle := h.handled _ heq
      rw [hmoment] at hle
      have hlater : s.now + 100 ≤ s.now := (le_max_right _ _).trans hle
      exact absurd hlater (Nat.not_le.mpr (Nat.lt_add_of_pos_right (by decide)))
    · obtain ⟨e', he', hle⟩ := hleft e he
      obtain ⟨a, ha, hmoment, hhandled⟩ := h.first hbefore e' he'
      exact ⟨a, hfd.trans ha, hmoment.trans (max_le_max_right _ hle), hhandled⟩

/-- In every run of calls at increasing times the timerfd is not late. -/
theorem notLate_run {steps : List (ClockedStep P)} (hsteps : Along step Enabled (new : ClockedLoop P) steps) :
    (steps.foldl step (new : ClockedLoop P)).NotLate := by
  refine InTime.notLate (hsteps.invariant (fun s c hs hc => ?_) inTime_new)
  cases c with
  | wait now => exact hs.wait hc.1 hc.2
  | call c => exact hs.call hc

/-- A timer is due, and another is put off in its callback. -/
theorem notLate_run_two :
    ([.wait 3, .call (.AddTimer ⟨3, 0, none⟩ 10 5 ⟨false, 0⟩), .call (.AddTimer ⟨3, 0, none⟩ 11 400 ⟨true, 50⟩),
      .wait 103, .call (.handleRead ⟨103, 0, none⟩), .call .run, .wait 104,
      .call (.ResetTimer ⟨104, 0, none⟩ 1 900), .call (.returned ⟨104, 0, none⟩),
      .call (.finish ⟨104, 0, none⟩), .wait 2000].foldl step (new : ClockedLoop Nat)).NotLate :=
  notLate_run (by decide +kernel)

end ClockedLoop
end Knpnl.Event
