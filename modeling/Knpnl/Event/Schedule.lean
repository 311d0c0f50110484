import Knpnl.Event.TimerArming
import Knpnl.Event.TimerPass

/-!
# When timers start

`RunAt`, `RunAfter` and `RunEvery` of an event loop. A pass takes out what is due, and the clock does
not go back, so no callback is called before its time. A repeating timer gets its next time when its
callback has returned, so its starts are an interval apart or more.
-/
namespace Knpnl.Event

open Lib
open Base (sizeT)

variable {P : Type*} [LinearOrder P]

section
variable (r : Reads P) (p : P)

/-- No interval. -/
def Interval.zero : Interval := ⟨false, 0⟩

def RunAt (when : Timestamp) : TimerCall P := .AddTimer r p when .zero

def RunAfter (when : Interval) : TimerCall P := .AddTimer r p (addTime r.now when.micros) .zero

def RunEvery (when : Interval) : TimerCall P := .AddTimer r p (addTime r.now when.micros) when

end

theorem addTime_eq {now n : Nat} (hnow : now < 2 ^ 63) (hn : n < 2 ^ 63) : addTime now n = now + n := by
  have hsum : ((now : Int) + n).toNat = now + n := by omega
  unfold addTime sizeT
  rw [Int.emod_eq_of_lt (by omega) (by omega)]
  exact hsum

/-- Each of the times is allowed by the one before it, and the first one by `B`. -/
def Follows (R : Timestamp → Timestamp → Prop) (B : Timestamp → Prop) : List Timestamp → Prop
  | [] => True
  | ts :: times => B ts ∧ Follows R (R ts) times

namespace Follows

variable {R : Timestamp → Timestamp → Prop} {B : Timestamp → Prop} {times : List Timestamp}

/-- Where a time comes `n` after the one before it or later, the times fall behind no schedule. -/
theorem le_getElem {n : Nat} (hR : ∀ a b, R a b → a + n ≤ b) (first : Nat) (hB : ∀ ts, B ts → first ≤ ts)
    (h : Follows R B times) (k : Nat) (ts : Timestamp) (hk : times[k]? = some ts) : first + k * n ≤ ts := by
  induction times generalizing first B k with
  | nil => cases hk
  | cons a times ih =>
    cases k with
    | zero =>
      obtain rfl : a = ts := Option.some.inj hk
      have hfirst := hB a h.1
      rwa [Nat.zero_mul, Nat.add_zero]
    | succ k =>
      have hrest := ih (a + n) (fun ts hts => hR a ts hts) h.2 k hk
      calc first + (k + 1) * n = first + n + k * n := by rw [Nat.add_mul, Nat.one_mul, add_right_comm, add_assoc]
        _ ≤ a + n + k * n := Nat.add_le_add_right (Nat.add_le_add_right (hB a h.1) n) _
        _ ≤ ts := hrest

theorem rel_getElem (h : Follows R B times) (k : Nat) {a b : Timestamp} (ha : times[k]? = some a)
    (hb : times[k + 1]? = some b) : R a b := by
  induction times generalizing B k with
  | nil => cases ha
  | cons c times ih =>
    cases k with
    | zero =>
      obtain rfl : c = a := Option.some.inj ha
      cases times with
      | nil => cases hb
      | cons d times =>
        obtain rfl : d = b := Option.some.inj hb
        exact h.2.1
    | succ k => exact ih h.2 k ha hb

/-- Where no time may follow another one, there is at most one. -/
theorem length_le_one (hR : ∀ a b, ¬ R a b) (h : Follows R B times) : times.length ≤ 1 := by
  match times, h with
  | [], _ => exact Nat.zero_le 1
  | [_], _ => exact le_rfl
  | _ :: _ :: _, h => exact absurd h.2.1 (hR _ _)

end Follows

namespace TimerLoop

variable {x : TimerLoop P} {pending : Set P} {p : P} {rest : List P} {c : TimerCall P}

theorem mem_held_of_ahead (h : p ∈ x.stack.flatMap Frame.ahead) : p ∈ x.held := by
  obtain ⟨f, hf, hp⟩ := List.mem_flatMap.mp h
  exact List.mem_flatMap.mpr ⟨f, hf, f.held_of_ahead hp⟩

theorem mem_held_of_running (h : .run p rest ∈ x.stack) : p ∈ x.held :=
  List.mem_flatMap.mpr ⟨_, h, List.mem_cons_self⟩

omit [LinearOrder P] in
/-- A timer whose callback is running is not ahead. -/
theorem not_ahead {frames : List (Frame P)} (hnodup : (frames.flatMap Frame.held).Nodup)
    (h : .run p rest ∈ frames) : p ∉ frames.flatMap Frame.ahead := by
  induction frames with
  | nil => exact List.not_mem_nil
  | cons f frames ih =>
    rw [List.flatMap_cons, List.nodup_append] at hnodup
    obtain ⟨hf, hframes, hapart⟩ := hnodup
    rw [List.flatMap_cons, List.mem_append, not_or]
    rcases List.mem_cons.mp h with rfl | h
    · refine ⟨(List.nodup_cons.mp hf).1, fun hp => ?_⟩
      obtain ⟨f', hf', hp⟩ := List.mem_flatMap.mp hp
      exact hapart p List.mem_cons_self p (List.mem_flatMap.mpr ⟨f', hf', f'.held_of_ahead hp⟩) rfl
    · have hp : p ∈ frames.flatMap Frame.held := List.mem_flatMap.mpr ⟨_, h, List.mem_cons_self⟩
      exact ⟨fun hahead => hapart p (f.held_of_ahead hahead) p hp rfl, ih hframes h⟩

/-- What is started was ahead. -/
theorem ahead_of_starts (h : p ∈ x.starts c) : p ∈ x.stack.flatMap Frame.ahead := by
  cases c with
  | run =>
    simp only [starts] at h
    split at h
    · rename_i hstack
      rw [List.mem_singleton.mp h, hstack]
      exact List.mem_append_left _ List.mem_cons_self
    · cases h
  | _ => cases h

theorem running_of_starts (h : p ∈ x.starts c) :
    ∃ rest, x.starts c = [p] ∧ .run p rest ∈ (x.step c).stack := by
  cases c with
  | run =>
    simp only [starts] at h ⊢
    split at h
    · rename_i p' rest stack hstack
      obtain rfl := List.mem_singleton.mp h
      exact ⟨rest, rfl, by rw [step_run hstack]; exact List.mem_cons_self⟩
    · cases h
  | _ => cases h

/-- What is ahead stays so until it is started. -/
theorem mem_ahead_step (h : p ∈ x.stack.flatMap Frame.ahead) (hc : x.Enabled c) (hnot : p ∉ x.starts c) :
    p ∈ (x.step c).stack.flatMap Frame.ahead := by
  cases c with
  | handleRead r => exact List.mem_append_right _ h
  | run =>
    obtain ⟨p', rest, stack, hstack⟩ := stack_of_run hc
    simp only [starts, hstack] at hnot
    rw [step_run hstack]
    rw [hstack] at h
    exact (List.mem_cons.mp h).resolve_left fun heq => hnot (List.mem_singleton.mpr heq)
  | returned r =>
    obtain ⟨p', rest, stack, hstack⟩ := stack_of_returned hc
    rw [step_returned hstack]
    rw [hstack] at h
    exact h
  | finish r =>
    obtain ⟨stack, hstack⟩ := stack_of_finish hc
    rw [step_finish hstack]
    rw [hstack] at h
    exact h
  | _ => exact h

/-- A callback runs until it returns. -/
theorem running_step (h : .run p rest ∈ x.stack) (hc : x.Enabled c) :
    .run p rest ∈ (x.step c).stack ∨ ∃ r stack, c = .returned r ∧ x.stack = .run p rest :: stack := by
  cases c with
  | handleRead r => exact .inl (List.mem_cons_of_mem _ h)
  | run =>
    obtain ⟨p', rest', stack, hstack⟩ := stack_of_run hc
    rw [step_run hstack]
    rw [hstack] at h
    exact .inl (List.mem_cons_of_mem _ ((List.mem_cons.mp h).resolve_left (by simp)))
  | returned r =>
    obtain ⟨p', rest', stack, hstack⟩ := stack_of_returned hc
    rw [hstack] at h
    rcases List.mem_cons.mp h with heq | h
    · exact .inr ⟨r, stack, rfl, heq ▸ hstack⟩
    · rw [step_returned hstack]
      exact .inl (List.mem_cons_of_mem _ h)
  | finish r =>
    obtain ⟨stack, hstack⟩ := stack_of_finish hc
    rw [step_finish hstack]
    rw [hstack] at h
    exact .inl ((List.mem_cons.mp h).resolve_left (by simp))
  | _ => exact .inl h

end TimerLoop

namespace ClockedLoop

variable {s : ClockedLoop P} {p : P} {interval : Interval} {id : Timer_t} {t : Timer} {c : ClockedStep P}

/-- The starts of a step, with the time. -/
def fires (s : ClockedLoop P) : ClockedStep P → List (P × Timestamp)
  | .wait _ => []
  | .call c => (s.loop.starts c).map fun p => (p, s.now)

/-- When the callback of a timer is called. -/
def startTimes (s : ClockedLoop P) (p : P) (steps : List (ClockedStep P)) : List Timestamp :=
  ((outputs step fires s steps).filter fun e => e.1 = p).map Prod.snd

/-- What a timer keeps when it gets another time. -/
structure Of (t : Timer) (id : Timer_t) (interval : Interval) : Prop where
  named : t.mTimerId = id
  every : t.mInterval = interval
  repeats : t.mRepeatable = interval.positive

/-- What a `double` of seconds can be as microseconds, if it is not negative. -/
def Span (interval : Interval) : Prop := 0 ≤ interval.micros ∧ interval.micros < 2 ^ 63

/-- A start at `a` may be followed by one at `b`. -/
def After (interval : Interval) (a b : Timestamp) : Prop :=
  interval.positive = true ∧ a + interval.micros.toNat ≤ b

/-- Where a timer is whose next start may be at the times `B`. -/
inductive Stage (s : ClockedLoop P) (p : P) (id : Timer_t) (interval : Interval) (B : Timestamp → Prop) : Prop
  | queued (t : Timer) (hq : s.loop.Queued p t) (hof : Of t id interval) (hB : ∀ ts, t.mExpired ≤ ts → B ts)
  | ahead (t : Timer) (hahead : p ∈ s.loop.stack.flatMap Frame.ahead) (hlive : s.loop.queue.heap p = .live t)
      (hof : Of t id interval) (hB : ∀ ts, s.now ≤ ts → B ts)
  | running (t : Timer) (rest : List P) (hrun : .run p rest ∈ s.loop.stack)
      (hlive : s.loop.queue.heap p = .live t) (hof : Of t id interval)
      (hB : ∀ a ts, s.now ≤ a → After interval a ts → B ts)
  | freed (hfreed : s.loop.queue.heap p = .freed)

variable {B : Timestamp → Prop}

theorem Stage.wait (h : s.Stage p id interval B) {now : Timestamp} (hle : s.now ≤ now) :
    (s.step (.wait now)).Stage p id interval B := by
  cases h with
  | queued t hq hof hB => exact .queued t hq hof hB
  | ahead t hahead hlive hof hB => exact .ahead t hahead hlive hof fun ts hts => hB ts (hle.trans hts)
  | running t rest hrun hlive hof hB =>
    exact .running t rest hrun hlive hof fun a ts ha hts => hB a ts (hle.trans ha) hts
  | freed hfreed => exact .freed hfreed

/-- A timer that is not ahead is not started. -/
theorem fires_of_not_ahead {c : TimerCall P} (h : p ∉ s.loop.stack.flatMap Frame.ahead) :
    ∀ e ∈ s.fires (.call c), e.1 ≠ p := by
  intro e he hp
  obtain ⟨p', hp', rfl⟩ := List.mem_map.mp he
  exact h (hp ▸ TimerLoop.ahead_of_starts hp')

theorem restart_of {now : Timestamp} (hof : Of t id interval) (hrepeat : t.mRepeatable = true)
    (hspan : Span interval) (hnow : now < 2 ^ 63) :
    (t.restart now).mExpired = now + interval.micros.toNat := by
  have hpositive : t.mInterval.positive = true := by rw [hof.every, ← hof.repeats, hrepeat]
  have hmicros : (interval.micros.toNat : Int) = interval.micros := Int.toNat_of_nonneg hspan.1
  show (if t.mInterval.positive then addTime now t.mInterval.micros else now) = _
  rw [if_pos hpositive, hof.every, ← hmicros, addTime_eq hnow (by have h := hspan.2; omega)]
  rw [Int.toNat_natCast]

/-- A repeating timer is queued for its next time, and a one-shot timer is freed. -/
theorem Stage.returned {r : Reads P} {rest : List P} {stack : List (Frame P)}
    (hstack : s.loop.stack = .run p rest :: stack) (hlive : s.loop.queue.heap p = .live t)
    (hof : Of t id interval)
    (hB : ∀ a ts, s.now ≤ a → After interval a ts → B ts) (htime : s.InTime) (hspan : Span interval)
    (hat : r.now = s.now) : (s.step (.call (.returned r))).Stage p id interval B := by
  have hself := TimerLoop.returned_self (r := r) hstack hlive
  split at hself
  · rename_i hrepeat
    refine .queued _ hself ⟨hof.named, hof.every, hof.repeats⟩ fun ts hts => ?_
    rw [hat, restart_of hof hrepeat hspan htime.now_lt] at hts
    exact hB _ ts le_rfl ⟨hof.repeats ▸ hrepeat, hts⟩
  · exact .freed hself

/-- A call starts the timer at an allowed time, or it does not start it. -/
theorem Stage.call (h : s.Stage p id interval B) (htime : s.InTime) (hspan : Span interval)
    {c : TimerCall P} (hc : s.Enabled (.call c)) (hkept : ∀ r ts, c ≠ .ResetTimer r id ts) :
    (s.fires (.call c) = [(p, s.now)] ∧ B s.now ∧
        (s.step (.call c)).Stage p id interval (After interval s.now)) ∨
      (∀ e ∈ s.fires (.call c), e.1 ≠ p) ∧ (s.step (.call c)).Stage p id interval B := by
  obtain ⟨henabled, hat, _⟩ := hc
  have hinv := htime.inv
  cases h with
  | queued t hq hof hB =>
    refine .inr ⟨fires_of_not_ahead fun hp => hq.not_held hinv (TimerLoop.mem_held_of_ahead hp), ?_⟩
    have hafter : t.after c = t := by
      cases c with
      | ResetTimer r id' ts => exact if_neg fun hid => hkept r ts (by rw [hid, hof.named])
      | _ => rfl
    rcases hq.step hinv c henabled with hstays | ⟨_, hfreed⟩ | ⟨r, rfl, hdue, hexpired⟩
    · exact .queued t (hafter ▸ hstays) hof hB
    · exact .freed hfreed
    · have hnow : r.now = s.now := hat
      exact .ahead t (List.mem_append_left _ hexpired) hq.1 hof fun ts hts => hB ts ((hnow ▸ hdue).trans hts)
  | ahead t hahead hlive hof hB =>
    have hheld := TimerLoop.mem_held_of_ahead hahead
    have hlive' : (s.loop.step c).queue.heap p = .live t := by
      rcases TimerLoop.held_step hinv hheld hlive c henabled with ⟨_, hlive'⟩ | ⟨r, rest, stack, rfl, hstack⟩
      · exact hlive'
      · exact absurd hahead (TimerLoop.not_ahead hinv.nodup (hstack ▸ List.mem_cons_self))
    by_cases hstarts : p ∈ s.loop.starts c
    · obtain ⟨rest, hstart, hrun⟩ := TimerLoop.running_of_starts hstarts
      refine .inl ⟨by rw [fires, hstart]; rfl, hB _ le_rfl, .running t rest hrun hlive' hof fun a ts ha hts => ?_⟩
      exact ⟨hts.1, (Nat.add_le_add_right ha _).trans hts.2⟩
    · refine .inr ⟨fun e he hp => ?_, .ahead t (TimerLoop.mem_ahead_step hahead henabled hstarts) hlive' hof hB⟩
      obtain ⟨p', hp', rfl⟩ := List.mem_map.mp he
      exact hstarts (hp ▸ hp')
  | running t rest hrun hlive hof hB =>
    refine .inr ⟨fires_of_not_ahead (TimerLoop.not_ahead hinv.nodup hrun), ?_⟩
    rcases TimerLoop.held_step hinv (TimerLoop.mem_held_of_running hrun) hlive c henabled with
      ⟨_, hlive'⟩ | ⟨r, rest', stack, rfl, hstack⟩
    · rcases TimerLoop.running_step hrun henabled with hrun' | ⟨r, stack, rfl, hstack⟩
      · exact .running t rest hrun' hlive' hof hB
      · exact .returned hstack hlive hof hB htime hspan hat
    · exact .returned hstack hlive hof hB htime hspan hat
  | freed hfreed =>
    refine .inr ⟨fires_of_not_ahead fun hp => ?_, .freed (TimerLoop.freed_step hinv hfreed c henabled)⟩
    obtain ⟨t, hlive⟩ := hinv.live_of_held (TimerLoop.mem_held_of_ahead hp)
    cases hfreed.symm.trans hlive

theorem InTime.step (h : s.InTime) (hc : s.Enabled c) : (s.step c).InTime := by
  cases c with
  | wait now => exact h.wait hc.1 hc.2
  | call c => exact h.call hc

/-- The starts of a timer follow each other as its interval allows. -/
theorem follows_startTimes {steps : List (ClockedStep P)} (h : s.Stage p id interval B) (htime : s.InTime)
    (hspan : Span interval) (hsteps : Along step Enabled s steps)
    (hkept : ∀ r ts, .call (.ResetTimer r id ts) ∉ steps) :
    Follows (After interval) B (s.startTimes p steps) := by
  induction steps generalizing s B with
  | nil => trivial
  | cons c steps ih =>
    have hkept' : ∀ r ts, .call (.ResetTimer r id ts) ∉ steps := fun r ts hmem =>
      hkept r ts (List.mem_cons_of_mem c hmem)
    have hrest := fun {B} (hstage : (s.step c).Stage p id interval B) =>
      ih hstage (htime.step hsteps.1) hsteps.2 hkept'
    have hcons : s.startTimes p (c :: steps) =
        ((s.fires c).filter fun e => e.1 = p).map Prod.snd ++ (s.step c).startTimes p steps := by
      rw [startTimes, outputs, List.filter_append, List.map_append]
      rfl
    rw [hcons]
    cases c with
    | wait now => exact hrest (h.wait hsteps.1.1)
    | call c =>
      have hreset : ∀ r ts, c ≠ .ResetTimer r id ts := fun r ts heq =>
        hkept r ts (heq ▸ List.mem_cons_self)
      rcases h.call htime hspan hsteps.1 hreset with ⟨hfires, hnow, hnext⟩ | ⟨hfires, hnext⟩
      · rw [hfires]
        simp only [List.filter_cons, decide_true, if_true, List.filter_nil, List.map_cons, List.map_nil,
          List.singleton_append]
        exact ⟨hnow, hrest hnext⟩
      · rw [List.filter_eq_nil_iff.mpr (by simpa using hfires)]
        exact hrest hnext

theorem inTime_run {steps : List (ClockedStep P)} (hsteps : Along step Enabled (new : ClockedLoop P) steps) :
    (steps.foldl step (new : ClockedLoop P)).InTime :=
  hsteps.invariant (fun _ _ hs hc => hs.step hc) inTime_new

/-- The timer that was just added. -/
theorem stage_AddTimer (s : ClockedLoop P) (r : Reads P) (p : P) (ts : Timestamp) (interval : Interval) :
    (s.step (.call (.AddTimer r p ts interval))).Stage p s.loop.queue.TimerCount interval (ts ≤ ·) :=
  .queued _ (TimerLoop.AddTimer_self s.loop r p ts interval) ⟨rfl, rfl, rfl⟩ fun _ hle => hle

theorem follows_AddTimer {pre post : List (ClockedStep P)} {r : Reads P} {ts : Timestamp} (hspan : Span interval)
    (hsteps : Along step Enabled (new : ClockedLoop P) (pre ++ .call (.AddTimer r p ts interval) :: post))
    (hkept : ∀ r' ts', .call (.ResetTimer r' (pre.foldl step new).loop.queue.TimerCount ts') ∉ post) :
    Follows (After interval) (ts ≤ ·)
      (((pre.foldl step new).step (.call (.AddTimer r p ts interval))).startTimes p post) := by
  obtain ⟨hpre, hadd, hpost⟩ := along_append.mp hsteps
  exact follows_startTimes (stage_AddTimer _ r p ts interval) ((inTime_run hpre).step hadd) hspan hpost hkept

/-- A call reads a time that the clock can have. -/
theorem addTime_of_along {interval' : Interval} {pre : List (ClockedStep P)} {r : Reads P} {ts : Timestamp}
    (hspan : Span interval)
    (hpre : Along step Enabled (new : ClockedLoop P) pre)
    (hcall : (pre.foldl step (new : ClockedLoop P)).Enabled (.call (.AddTimer r p ts interval'))) :
    addTime r.now interval.micros = r.now + interval.micros.toNat := by
  have hat : r.now = (pre.foldl step (new : ClockedLoop P)).now := hcall.2.1
  have hmicros : (interval.micros.toNat : Int) = interval.micros := Int.toNat_of_nonneg hspan.1
  have hlt : interval.micros.toNat < 2 ^ 63 := by
    have h := hspan.2
    omega
  rw [← hmicros, addTime_eq (hat ▸ (inTime_run hpre).now_lt) hlt, Int.toNat_natCast]

/-- What `RunEvery` was given is called for the first time when the interval has passed, and then not
again before the interval has passed since the last call: the call with the number `k` has not come
before `k + 1` intervals have passed. -/
theorem startTimes_runEvery (pre post : List (ClockedStep P)) (r : Reads P) (p : P) (when : Interval)
    (hspan : Span when)
    (hsteps : Along step Enabled (new : ClockedLoop P) (pre ++ .call (RunEvery r p when) :: post))
    (hkept : ∀ r' ts, .call (.ResetTimer r' (pre.foldl step new).loop.queue.TimerCount ts) ∉ post)
    (k : Nat) (ts : Timestamp)
    (hk : (((pre.foldl step new).step (.call (RunEvery r p when))).startTimes p post)[k]? = some ts) :
    r.now + (k + 1) * when.micros.toNat ≤ ts ∧
      ∀ ts', (((pre.foldl step new).step (.call (RunEvery r p when))).startTimes p post)[k + 1]? = some ts' →
        ts + when.micros.toNat ≤ ts' := by
  have hfollows := follows_AddTimer hspan hsteps hkept
  obtain ⟨hpre, hcall, _⟩ := along_append.mp hsteps
  constructor
  · have hle := hfollows.le_getElem (fun a b h => h.2) _ (fun _ hts => hts) k ts hk
    rw [addTime_of_along hspan hpre hcall] at hle
    calc r.now + (k + 1) * when.micros.toNat = r.now + when.micros.toNat + k * when.micros.toNat := by
          rw [Nat.add_mul, Nat.one_mul, Nat.add_right_comm, Nat.add_assoc]
      _ ≤ ts := hle
  · exact fun ts' hk' => (hfollows.rel_getElem k hk hk').2

/-- A timer is called twice, the second time late, and its callback takes its time. -/
theorem startTimes_runEvery_twice :
    3 + (1 + 1) * 100 ≤ 350 ∧ ∀ ts',
      (((([.wait 3] : List (ClockedStep Nat)).foldl step new).step
        (.call (RunEvery ⟨3, 0, none⟩ 10 ⟨true, 100⟩))).startTimes 10
          [.wait 110, .call (.handleRead ⟨110, 0, none⟩), .call .run, .wait 120,
            .call (.returned ⟨120, 0, none⟩), .call (.finish ⟨120, 0, none⟩), .wait 350,
            .call (.handleRead ⟨350, 0, none⟩), .call .run])[1 + 1]? = some ts' → 350 + 100 ≤ ts' :=
  startTimes_runEvery [.wait 3] _ ⟨3, 0, none⟩ 10 ⟨true, 100⟩ ⟨by decide, by decide⟩ (by decide +kernel)
    (by simp) 1 350 (by decide +kernel)

/-- What `RunAt` or `RunAfter` was given is called once at most, and not before its time. -/
theorem startTimes_runAt (pre post : List (ClockedStep P)) (r : Reads P) (p : P) (c : TimerCall P)
    (due : Timestamp)
    (hc : c = RunAt r p due ∨ ∃ when, Span when ∧ c = RunAfter r p when ∧ due = r.now + when.micros.toNat)
    (hsteps : Along step Enabled (new : ClockedLoop P) (pre ++ .call c :: post))
    (hkept : ∀ r' ts, .call (.ResetTimer r' (pre.foldl step new).loop.queue.TimerCount ts) ∉ post) :
    (((pre.foldl step new).step (.call c)).startTimes p post).length ≤ 1 ∧
      ∀ ts ∈ ((pre.foldl step new).step (.call c)).startTimes p post, due ≤ ts := by
  have hadd : c = .AddTimer r p due .zero := by
    rcases hc with rfl | ⟨when, hspan, rfl, rfl⟩
    · rfl
    · obtain ⟨hpre, hcall, _⟩ := along_append.mp hsteps
      rw [RunAfter, addTime_of_along hspan hpre hcall]
  subst hadd
  have hfollows := follows_AddTimer ⟨le_rfl, by decide⟩ hsteps hkept
  refine ⟨hfollows.length_le_one fun a b h => Bool.false_ne_true h.1, fun ts hts => ?_⟩
  obtain ⟨k, hk⟩ := List.mem_iff_getElem?.mp hts
  have hle := hfollows.le_getElem (n := 0) (fun a b h => absurd h.1 Bool.false_ne_true) _ (fun _ hts => hts) k
    ts hk
  rwa [Nat.mul_zero, Nat.add_zero] at hle

/-- The callback is called late. -/
theorem startTimes_runAt_late :
    (((([.wait 3] : List (ClockedStep Nat)).foldl step new).step
        (.call (RunAfter ⟨3, 0, none⟩ 10 ⟨true, 100⟩))).startTimes 10
          [.wait 110, .call (.handleRead ⟨110, 0, none⟩), .call .run]).length ≤ 1 ∧
      ∀ ts ∈ (((([.wait 3] : List (ClockedStep Nat)).foldl step new).step
        (.call (RunAfter ⟨3, 0, none⟩ 10 ⟨true, 100⟩))).startTimes 10
          [.wait 110, .call (.handleRead ⟨110, 0, none⟩), .call .run]), 103 ≤ ts :=
  startTimes_runAt [.wait 3] _ ⟨3, 0, none⟩ 10 _ 103 (.inr ⟨⟨true, 100⟩, ⟨by decide, by decide⟩, rfl, rfl⟩)
    (by decide +kernel) (by simp)

end ClockedLoop
end Knpnl.Event
