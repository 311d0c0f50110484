import Knpnl.Event.TimerLifetime
import Knpnl.Event.TimerSteps

/-!
# One pass of `handleRead`

A pass takes the due timers out, runs their callbacks in turn and puts the repeating ones back.
The callbacks change the indexes meanwhile, but not the timers that the pass holds.
-/
namespace Knpnl.Event

open Lib

variable {P : Type*} [LinearOrder P]

namespace TimerQueue

variable {q : TimerQueue P} {out : Set P} {p : P} {t : Timer} {when : Timestamp}

/-- What has expired is everything with a time up to `when`. -/
theorem mem_expired_iff : p ∈ q.expired when ↔ ∃ ts ≤ when, toLex (ts, p) ∈ q.mTimerSet := by
  have hbound : ∀ e e' : Timestamp ×ₗ P, e < e' → isExpired when e' = true → isExpired when e = true := by
    intro e e' hlt he'
    have hle : (ofLex e).1 ≤ (ofLex e').1 := Prod.Lex.monotone_fst e e' hlt.le
    exact decide_eq_true (hle.trans (of_decide_eq_true he'))
  rw [Indexed.mem_expired]
  constructor
  · rintro ⟨ts, hts⟩
    obtain ⟨hmem, hle⟩ := (SortedSet.mem_below hbound).mp hts
    exact ⟨ts, of_decide_eq_true hle, hmem⟩
  · rintro ⟨ts, hle, hmem⟩
    exact ⟨ts, (SortedSet.mem_below hbound).mpr ⟨hmem, decide_eq_true hle⟩⟩

/-- Expired timers are taken in the order of their times. -/
theorem expired_ordered (h : Indexed q out) (when : Timestamp) :
    (q.expired when).Pairwise fun p p' => (q.timer p).mExpired ≤ (q.timer p').mExpired := by
  refine List.pairwise_map.mpr ((q.mTimerSet.below_sorted (isExpired when)).imp_of_mem ?_)
  intro e e' he he' hlt
  have hexpiry : ∀ e ∈ q.mTimerSet.below (isExpired when), (q.timer (ofLex e).2).mExpired = (ofLex e).1 := by
    intro e he
    obtain ⟨t, hlive, hts, _⟩ := (h.agree (ofLex e).1 (ofLex e).2).mp (SortedSet.mem_of_mem_below he).1
    rw [timer_eq hlive, hts]
  rw [hexpiry e he, hexpiry e' he']
  exact Prod.Lex.monotone_fst e e' hlt.le

/-- In both indexes, once: in the set under the time it expires, and in the map under its id. -/
structure InBoth (q : TimerQueue P) (p : P) (t : Timer) : Prop where
  live : q.heap p = .live t
  set : ∀ ts, toLex (ts, p) ∈ q.mTimerSet ↔ ts = t.mExpired
  map : ∀ id, q.mTimerIdMap.lookup id = some (some p) ↔ id = t.mTimerId

def InNeither (q : TimerQueue P) (p : P) : Prop :=
  (∀ ts, toLex (ts, p) ∉ q.mTimerSet) ∧ ∀ id, q.mTimerIdMap.lookup id ≠ some (some p)

theorem Indexed.inBoth (h : Indexed q out) (hlive : q.heap p = .live t)
    (hlookup : q.mTimerIdMap.lookup t.mTimerId = some (some p)) : q.InBoth p t := by
  refine ⟨hlive, fun ts => ⟨fun hmem => (h.expiry hmem hlive).1.symm, fun hts => ?_⟩,
    fun id => ⟨fun hid => ?_, fun hid => hid ▸ hlookup⟩⟩
  · exact (h.agree ts p).mpr ⟨t, hlive, hts.symm, hlookup⟩
  · obtain ⟨t', hlive', rfl⟩ := h.owned id p hid
    rw [Cell.live.inj (hlive'.symm.trans hlive)]

/-- What is not live is not in the indexes. -/
theorem Indexed.inNeither (h : Indexed q out) (hp : ∀ t, q.heap p ≠ .live t) : q.InNeither p := by
  refine ⟨fun ts hmem => ?_, fun id hlookup => ?_⟩
  · obtain ⟨t, hlive, _⟩ := (h.agree ts p).mp hmem
    exact hp t hlive
  · obtain ⟨t, hlive, _⟩ := h.owned id p hlookup
    exact hp t hlive

end TimerQueue

/-- A call that a callback makes during a pass, or a step of the pass itself. -/
def TimerCall.Inside : TimerCall P → Prop
  | .handleRead _ | .finish _ => False
  | .AddTimer _ _ _ _ | .Remove _ _ | .ResetTimer _ _ _ | .run | .returned _ | .elsewhere => True

instance : (c : TimerCall P) → Decidable c.Inside
  | .handleRead _ | .finish _ => isFalse id
  | .AddTimer _ _ _ _ | .Remove _ _ | .ResetTimer _ _ _ | .run | .returned _ | .elsewhere => isTrue trivial

/-- The timers whose callbacks are still to be called. -/
def Frame.ahead : Frame P → List P
  | .next rest | .run _ rest => rest

omit [LinearOrder P] in
theorem Frame.held_of_ahead {p : P} (f : Frame P) (h : p ∈ f.ahead) : p ∈ f.held := by
  cases f with
  | next rest => exact h
  | run p' rest => exact List.mem_cons_of_mem p' h

/-- The time that was given to a timer last. -/
def lastTime (times : List (P × Timestamp)) (p : P) : Option Timestamp := times.reverse.lookup p

theorem lastTime_append (times times' : List (P × Timestamp)) (p : P) :
    lastTime (times ++ times') p = (lastTime times' p).or (lastTime times p) := by
  rw [lastTime, List.reverse_append, List.lookup_append]
  rfl

theorem lastTime_eq_none {times : List (P × Timestamp)} {p : P} (h : ∀ ts, (p, ts) ∉ times) :
    lastTime times p = none := by
  rw [lastTime, List.lookup_eq_none_iff]
  intro e he
  have hne : e.1 ≠ p := by
    rintro rfl
    exact h e.2 (List.mem_reverse.mp he)
  simpa using hne.symm

namespace TimerLoop

variable {x : TimerLoop P} {pending : Set P} {p : P} {t : Timer} {c : TimerCall P} {calls : List (TimerCall P)}

/-- The timer whose callback a step calls. -/
def starts (x : TimerLoop P) : TimerCall P → List P
  | .run =>
      match x.stack with
      | .next (p :: _) :: _ => [p]
      | _ => []
  | _ => []

/-- The timer that a step gives another time, with the time. -/
def retimes (x : TimerLoop P) : TimerCall P → List (P × Timestamp)
  | .ResetTimer _ id ts => (x.queue.mapped id).map fun p => (p, ts)
  | .returned r =>
      match x.stack with
      | .run p _ :: _ =>
          if (x.queue.timer p).mRepeatable then [(p, ((x.queue.timer p).restart r.now).mExpired)] else []
      | _ => []
  | _ => []

def ran (x : TimerLoop P) (calls : List (TimerCall P)) : List P := outputs step starts x calls

def freed (x : TimerLoop P) (calls : List (TimerCall P)) : List P := outputs step frees x calls

def retimed (x : TimerLoop P) (calls : List (TimerCall P)) : List (P × Timestamp) :=
  outputs step retimes x calls

theorem run_cons (x : TimerLoop P) (c : TimerCall P) (calls : List (TimerCall P)) :
    x.run (c :: calls) = (x.step c).run calls := rfl

theorem run_split (x : TimerLoop P) (pre post : List (TimerCall P)) (c : TimerCall P) :
    x.run (pre ++ c :: post) = ((x.run pre).step c).run post := List.foldl_append

theorem freed_split (x : TimerLoop P) (pre post : List (TimerCall P)) (c : TimerCall P) :
    x.freed (pre ++ c :: post) = x.freed pre ++ ((x.run pre).frees c ++ ((x.run pre).step c).freed post) :=
  outputs_append ..

theorem retimed_split (x : TimerLoop P) (pre post : List (TimerCall P)) (c : TimerCall P) :
    x.retimed (pre ++ c :: post) =
      x.retimed pre ++ ((x.run pre).retimes c ++ ((x.run pre).step c).retimed post) :=
  outputs_append ..

theorem inv_of_along (h : x.Inv pending) (hcalls : Along step Enabled x calls) : (x.run calls).Inv pending :=
  hcalls.invariant (P := Inv pending) (fun _ c hx hc => hx.step c hc) h

/-- A queued timer gets the times that it is given. -/
theorem Queued.retimes (hq : x.Queued p t) (h : x.Inv pending) (c : TimerCall P) :
    (t.after c).mExpired = (lastTime (x.retimes c) p).getD t.mExpired := by
  cases c with
  | ResetTimer r id ts =>
    by_cases hid : id = t.mTimerId
    · subst hid
      simp [Timer.after, Timer.reset, TimerLoop.retimes, TimerQueue.mapped, hq.2, lastTime]
    · have hnone : lastTime (x.retimes (.ResetTimer r id ts)) p = none := by
        refine lastTime_eq_none fun ts' hmem => hid ?_
        obtain ⟨p', hp', heq⟩ := List.mem_map.mp hmem
        obtain ⟨t', hlive, hid'⟩ := h.indexed.owned id p' (mem_mapped hp')
        obtain rfl : p' = p := congrArg Prod.fst heq
        rw [← hid', hq.eq_of_live hlive]
      rw [hnone, Timer.after, if_neg hid]
      rfl
  | returned r =>
    have hnone : lastTime (x.retimes (.returned r)) p = none := by
      refine lastTime_eq_none fun ts' hmem => ?_
      simp only [TimerLoop.retimes] at hmem
      split at hmem
      · rename_i p' rest stack hstack
        split at hmem
        · obtain ⟨rfl, _⟩ := Prod.mk.inj (List.mem_singleton.mp hmem)
          exact hq.not_held h (held_eq hstack ▸ List.mem_cons_self)
        · cases hmem
      · cases hmem
    rw [hnone]
    rfl
  | _ => rfl

/-- A queued timer stays so through calls that neither look for due timers nor remove it. -/
theorem queued_run (h : x.Inv pending) (hq : x.Queued p t) (hcalls : Along step Enabled x calls)
    (hread : ∀ r, .handleRead r ∉ calls) (hkept : ∀ r, .Remove r t.mTimerId ∉ calls) :
    ∃ t', (x.run calls).Queued p t' ∧ t'.mExpired = (lastTime (x.retimed calls) p).getD t.mExpired := by
  induction calls generalizing x t with
  | nil => exact ⟨t, hq, rfl⟩
  | cons c calls ih =>
    rcases hq.step h c hcalls.1 with hstays | ⟨⟨r, rfl⟩, _⟩ | ⟨r, rfl, _⟩
    · obtain ⟨t', hq', hexpired⟩ := ih (h.step c hcalls.1) hstays hcalls.2
        (fun r hr => hread r (List.mem_cons_of_mem c hr))
        (fun r hr => hkept r (List.mem_cons_of_mem c (by rwa [Timer.mTimerId_after] at hr)))
      refine ⟨t', hq', ?_⟩
      rw [hexpired, hq.retimes h c, retimed, retimed, outputs, lastTime_append]
      cases lastTime (outputs TimerLoop.step TimerLoop.retimes (x.step c) calls) p <;> rfl
    · exact absurd List.mem_cons_self (hkept r)
    · exact absurd List.mem_cons_self (hread r)

/-- Nothing is done to a held timer before its callback has returned. -/
theorem untouched_of_held (h : x.Inv pending) (hp : p ∈ x.held)
    (hreturned : ¬ ∃ r rest stack, c = .returned r ∧ x.stack = .run p rest :: stack) :
    p ∉ x.frees c ∧ ∀ ts, (p, ts) ∉ x.retimes c := by
  have hmapped : ∀ id, p ∉ x.queue.mapped id := fun id hmem => (h.not_out (mem_mapped hmem)).1 hp
  cases c with
  | Remove r id => exact ⟨hmapped id, fun ts hts => absurd hts List.not_mem_nil⟩
  | ResetTimer r id ts =>
    refine ⟨List.not_mem_nil, fun ts' hts => ?_⟩
    obtain ⟨p', hp', heq⟩ := List.mem_map.mp hts
    obtain rfl : p' = p := congrArg Prod.fst heq
    exact hmapped id hp'
  | returned r =>
    have htop : ∀ {p' rest stack}, x.stack = .run p' rest :: stack → p ≠ p' := by
      rintro p' rest stack hstack rfl
      exact hreturned ⟨r, rest, stack, rfl, hstack⟩
    constructor
    · intro hmem
      simp only [frees] at hmem
      split at hmem
      · rename_i hstack
        split at hmem
        · cases hmem
        · exact htop hstack (List.mem_singleton.mp hmem)
      · cases hmem
    · intro ts hmem
      simp only [retimes] at hmem
      split at hmem
      · rename_i hstack
        split at hmem
        · exact htop hstack (Prod.mk.inj (List.mem_singleton.mp hmem)).1
        · cases hmem
      · cases hmem
  | _ => exact ⟨List.not_mem_nil, fun ts hts => absurd hts List.not_mem_nil⟩

/-- The callback of a timer returns in the run, and nothing is done to the timer before. -/
structure Returns (x : TimerLoop P) (p : P) (t : Timer) (calls pre : List (TimerCall P)) (r : Reads P)
    (post : List (TimerCall P)) : Prop where
  split : calls = pre ++ .returned r :: post
  top : ∃ rest stack, (x.run pre).stack = .run p rest :: stack
  live : (x.run pre).queue.heap p = .live t
  unfreed : p ∉ x.freed pre
  untimed : ∀ ts, (p, ts) ∉ x.retimed pre

theorem Returns.cons {pre post : List (TimerCall P)} {r : Reads P} (c : TimerCall P)
    (hret : (x.step c).Returns p t calls pre r post) (hfrees : p ∉ x.frees c)
    (hretimes : ∀ ts, (p, ts) ∉ x.retimes c) : x.Returns p t (c :: calls) (c :: pre) r post where
  split := by rw [hret.split, List.cons_append]
  top := hret.top
  live := hret.live
  unfreed hmem := (List.mem_append.mp hmem).elim hfrees hret.unfreed
  untimed ts hmem := (List.mem_append.mp hmem).elim (hretimes ts) (hret.untimed ts)

/-- A timer that is held is so at the end of the run, or its callback returns in it. -/
theorem held_run (h : x.Inv pending) (hp : p ∈ x.held) (hlive : x.queue.heap p = .live t)
    (hcalls : Along step Enabled x calls) :
    p ∈ (x.run calls).held ∨ ∃ pre r post, x.Returns p t calls pre r post := by
  induction calls generalizing x with
  | nil => exact Or.inl hp
  | cons c calls ih =>
    by_cases hreturned : ∃ r rest stack, c = .returned r ∧ x.stack = .run p rest :: stack
    · obtain ⟨r, rest, stack, rfl, hstack⟩ := hreturned
      exact Or.inr ⟨[], r, calls, rfl, ⟨rest, stack, hstack⟩, hlive, List.not_mem_nil,
        fun ts => List.not_mem_nil⟩
    · obtain ⟨hfrees, hretimes⟩ := untouched_of_held h hp hreturned
      obtain ⟨hp', hlive'⟩ := (held_step h hp hlive c hcalls.1).resolve_right hreturned
      rcases ih (h.step c hcalls.1) hp' hlive' hcalls.2 with hheld | ⟨pre, r, post, hret⟩
      · exact Or.inl hheld
      · exact Or.inr ⟨c :: pre, r, post, hret.cons c hfrees hretimes⟩

theorem freed_run (h : x.Inv pending) (hp : x.queue.heap p = .freed) (hcalls : Along step Enabled x calls) :
    (x.run calls).queue.heap p = .freed ∧ p ∉ x.freed calls := by
  induction calls generalizing x with
  | nil => exact ⟨hp, List.not_mem_nil⟩
  | cons c calls ih =>
    obtain ⟨hfreed, hnot⟩ := ih (h.step c hcalls.1) (freed_step h hp c hcalls.1) hcalls.2
    refine ⟨hfreed, fun hmem => (List.mem_append.mp hmem).elim (fun hfrees => ?_) hnot⟩
    -- only live timers are freed
    obtain ⟨t, hlive⟩ := h.live_of_frees hfrees
    cases hp.symm.trans hlive

theorem frame_step {f : Frame P} {stack : List (Frame P)} (hstack : x.stack = f :: stack) (hc : x.Enabled c)
    (hinside : c.Inside) : ∃ f', (x.step c).stack = f' :: stack ∧ x.starts c ++ f'.ahead = f.ahead := by
  cases c with
  | handleRead r => exact hinside.elim
  | finish r => exact hinside.elim
  | run =>
    obtain ⟨p, rest, stack', hrun⟩ := stack_of_run hc
    obtain ⟨rfl, rfl⟩ := List.cons.inj (hstack.symm.trans hrun)
    exact ⟨.run p rest, by rw [step_run hrun], by simp only [starts, hrun]; rfl⟩
  | returned r =>
    obtain ⟨p, rest, stack', hrun⟩ := stack_of_returned hc
    obtain ⟨rfl, rfl⟩ := List.cons.inj (hstack.symm.trans hrun)
    exact ⟨.next rest, by rw [step_returned hrun], rfl⟩
  | _ => exact ⟨f, hstack, rfl⟩

/-- The callbacks that are called and those still to be called are those of the pass, in order. -/
theorem frame_run {f : Frame P} {stack : List (Frame P)} (hstack : x.stack = f :: stack)
    (hcalls : Along step Enabled x calls) (hinside : ∀ c ∈ calls, c.Inside) :
    ∃ f', (x.run calls).stack = f' :: stack ∧ x.ran calls ++ f'.ahead = f.ahead := by
  induction calls generalizing x f with
  | nil => exact ⟨f, hstack, rfl⟩
  | cons c calls ih =>
    obtain ⟨g, hg, hstarts⟩ := frame_step hstack hcalls.1 (hinside c List.mem_cons_self)
    obtain ⟨f', hf', hran⟩ := ih hg hcalls.2 fun c' hc' => hinside c' (List.mem_cons_of_mem c hc')
    refine ⟨f', hf', ?_⟩
    rw [← hstarts, ← hran, ran, outputs, List.append_assoc]
    rfl

/-- `handleRead`, with what it does between its beginning and its end. -/
def pass (r : Reads P) (body : List (TimerCall P)) (r' : Reads P) : List (TimerCall P) :=
  .handleRead r :: (body ++ [.finish r'])

/-- What is due at `now` is run, once and in order. In the end the one-shot timers that ran are
freed, and the others that ran and those that were not due are queued unless they were removed. -/
structure FiresDue (x : TimerLoop P) (now : Timestamp) (calls : List (TimerCall P)) : Prop where
  due : ∀ p, p ∈ x.ran calls ↔ ∃ ts ≤ now, toLex (ts, p) ∈ x.queue.mTimerSet
  once : (x.ran calls).Nodup
  ordered : (x.ran calls).Pairwise fun p p' => (x.queue.timer p).mExpired ≤ (x.queue.timer p').mExpired
  oneShot : ∀ p ∈ x.ran calls, (x.queue.timer p).mRepeatable = false →
    (x.freed calls).count p = 1 ∧ (x.run calls).queue.heap p = .freed ∧ (x.run calls).queue.InNeither p
  repeating : ∀ p ∈ x.ran calls, (x.queue.timer p).mRepeatable = true →
    (∀ r, .Remove r (x.queue.timer p).mTimerId ∉ calls) →
      ∃ t, (x.run calls).queue.InBoth p t ∧ lastTime (x.retimed calls) p = some t.mExpired
  notDue : ∀ ts p, toLex (ts, p) ∈ x.queue.mTimerSet → now < ts →
    (∀ r, .Remove r (x.queue.timer p).mTimerId ∉ calls) →
      ∃ t, (x.run calls).queue.InBoth p t ∧ t.mExpired = (lastTime (x.retimed calls) p).getD ts

variable {r r' : Reads P} {body : List (TimerCall P)}

/-- The callbacks of a pass are those of the expired timers, and no pass is left over. -/
theorem ran_pass (hcalls : Along step Enabled x (pass r body r')) (hinside : ∀ c ∈ body, c.Inside) :
    x.ran (pass r body r') = x.queue.expired r.now ∧ (x.run (pass r body r')).stack = x.stack := by
  obtain ⟨hbody, hfinish⟩ := along_append.mp hcalls.2
  obtain ⟨f', hf', hran⟩ := frame_run (x := x.step (.handleRead r)) rfl hbody hinside
  obtain ⟨stack, hstack⟩ := stack_of_finish hfinish.1
  obtain ⟨rfl, rfl⟩ := List.cons.inj (hf'.symm.trans hstack)
  have hlast : x.run (pass r body r') = ((x.step (.handleRead r)).run body).step (.finish r') := by
    rw [pass, run_cons, run, List.foldl_append]
    rfl
  constructor
  · rw [← show (Frame.next (x.queue.expired r.now)).ahead = x.queue.expired r.now from rfl, ← hran, pass, ran,
      outputs, outputs_append]
    rfl
  · rw [hlast, step_finish hf']

omit [LinearOrder P] in
theorem not_handleRead (hinside : ∀ c ∈ body, c.Inside) (r₀ : Reads P) :
    .handleRead r₀ ∉ body ++ [.finish r'] := by
  intro hmem
  rcases List.mem_append.mp hmem with hmem | hmem
  · exact hinside _ hmem
  · cases List.mem_singleton.mp hmem

/-- The callback of a due timer returns in the pass. -/
theorem returns_of_due (h : x.Inv ∅) (hcalls : Along step Enabled x (pass r body r'))
    (hinside : ∀ c ∈ body, c.Inside) (hq : x.Queued p t) (hdue : p ∈ x.queue.expired r.now) :
    ∃ pre r₀ post, x.Returns p t (pass r body r') pre r₀ post ∧ ∀ r₁, .handleRead r₁ ∉ post := by
  have hheld : p ∈ (x.step (.handleRead r)).held := List.mem_append_left _ hdue
  rcases held_run (h.step (.handleRead r) hcalls.1) hheld hq.1 hcalls.2 with hend | ⟨pre, r₀, post, hret⟩
  · -- when the pass is over, only the timers of outer passes are held
    have hend' : p ∈ (x.run (pass r body r')).held := hend
    rw [held, (ran_pass hcalls hinside).2] at hend'
    exact absurd hend' (hq.not_held h)
  · have hpass := hret.cons (.handleRead r) List.not_mem_nil fun ts => List.not_mem_nil
    refine ⟨.handleRead r :: pre, r₀, post, hpass, fun r₁ hmem => ?_⟩
    have hnot : .handleRead r₁ ∉ body ++ [.finish r'] := not_handleRead hinside r₁
    refine hnot ?_
    rw [hret.split]
    exact List.mem_append_right _ (List.mem_cons_of_mem _ hmem)

section
variable {pre post : List (TimerCall P)} {r₀ : Reads P}

theorem Returns.inv (hret : x.Returns p t calls pre r₀ post) (h : x.Inv ∅)
    (hcalls : Along step Enabled x calls) :
    (x.run pre).Inv ∅ ∧ Along step Enabled (x.run pre) (.returned r₀ :: post) := by
  obtain ⟨hpre, hpost⟩ := along_append.mp (hret.split ▸ hcalls)
  exact ⟨inv_of_along h hpre, hpost⟩

theorem Returns.oneShot (hret : x.Returns p t calls pre r₀ post) (h : x.Inv ∅)
    (hcalls : Along step Enabled x calls) (hrepeat : t.mRepeatable = false) :
    (x.freed calls).count p = 1 ∧ (x.run calls).queue.heap p = .freed := by
  obtain ⟨hinv, hpost⟩ := hret.inv h hcalls
  obtain ⟨rest, stack, hstack⟩ := hret.top
  have hself := returned_self (r := r₀) hstack hret.live
  rw [if_neg (by simp [hrepeat])] at hself
  obtain ⟨hfreed, hnot⟩ := freed_run (hinv.step (.returned r₀) hpost.1) hself hpost.2
  have hfrees : (x.run pre).frees (.returned r₀) = [p] := by
    simp [frees, hstack, TimerQueue.timer_eq hret.live, hrepeat]
  constructor
  · rw [hret.split, freed_split, hfrees, List.count_append, List.count_eq_zero.mpr hret.unfreed,
      List.count_append, List.count_eq_zero.mpr hnot, List.count_singleton_self]
  · rw [hret.split, run_split]
    exact hfreed

theorem Returns.repeating (hret : x.Returns p t calls pre r₀ post) (h : x.Inv ∅)
    (hcalls : Along step Enabled x calls) (hrepeat : t.mRepeatable = true)
    (hread : ∀ r₁, .handleRead r₁ ∉ post) (hkept : ∀ r₁, .Remove r₁ t.mTimerId ∉ calls) :
    ∃ t', (x.run calls).Queued p t' ∧ lastTime (x.retimed calls) p = some t'.mExpired := by
  obtain ⟨hinv, hpost⟩ := hret.inv h hcalls
  obtain ⟨rest, stack, hstack⟩ := hret.top
  have hself := returned_self (r := r₀) hstack hret.live
  rw [if_pos hrepeat] at hself
  have hkept' : ∀ r₁, .Remove r₁ (t.restart r₀.now).mTimerId ∉ post := fun r₁ hmem => by
    refine hkept r₁ ?_
    rw [hret.split]
    exact List.mem_append_right _ (List.mem_cons_of_mem _ hmem)
  obtain ⟨t', hq', hexpired⟩ := queued_run (hinv.step (.returned r₀) hpost.1) hself hpost.2 hread hkept'
  have hretimes : (x.run pre).retimes (.returned r₀) = [(p, (t.restart r₀.now).mExpired)] := by
    simp [retimes, hstack, TimerQueue.timer_eq hret.live, hrepeat]
  refine ⟨t', by rwa [hret.split, run_split], ?_⟩
  rw [hret.split, retimed_split, hretimes, lastTime_append, lastTime_append, lastTime_eq_none hret.untimed,
    hexpired]
  cases lastTime (((x.run pre).step (.returned r₀)).retimed post) p <;> simp [lastTime]

end

theorem firesDue (h : x.Inv ∅) (hcalls : Along step Enabled x (pass r body r'))
    (hinside : ∀ c ∈ body, c.Inside) : x.FiresDue r.now (pass r body r') := by
  obtain ⟨hran, _⟩ := ran_pass hcalls hinside
  have hinv := inv_of_along h hcalls
  have hqueued : ∀ p ∈ x.ran (pass r body r'), x.Queued p (x.queue.timer p) := by
    intro p hp
    obtain ⟨t, hlive, hlookup, _⟩ := h.indexed.live_of_expired (hran ▸ hp)
    rw [TimerQueue.timer_eq hlive]
    exact ⟨hlive, hlookup⟩
  have hreturns := fun p (hp : p ∈ x.ran (pass r body r')) =>
    returns_of_due h hcalls hinside (hqueued p hp) (hran ▸ hp)
  constructor
  · intro p
    rw [hran]
    exact TimerQueue.mem_expired_iff
  · rw [hran]
    exact h.indexed.expired_nodup r.now
  · rw [hran]
    exact TimerQueue.expired_ordered h.indexed r.now
  · intro p hp hrepeat
    obtain ⟨pre, r₀, post, hret, _⟩ := hreturns p hp
    obtain ⟨hcount, hfreed⟩ := hret.oneShot h hcalls hrepeat
    exact ⟨hcount, hfreed, hinv.indexed.inNeither fun t hlive => by cases hfreed.symm.trans hlive⟩
  · intro p hp hrepeat hkept
    obtain ⟨pre, r₀, post, hret, hread⟩ := hreturns p hp
    obtain ⟨t, hq, hlast⟩ := hret.repeating h hcalls hrepeat hread hkept
    exact ⟨t, hinv.indexed.inBoth hq.1 hq.2, hlast⟩
  · intro ts p hmem hlater hkept
    obtain ⟨t, hq, rfl⟩ := h.mem_set.mp hmem
    rw [TimerQueue.timer_eq hq.1] at hkept
    -- the pass does not take it out
    have hstays := (hq.handleRead h r).resolve_right fun hdue => absurd hdue.1 hlater.not_ge
    obtain ⟨t', hq', hexpired⟩ := queued_run (h.step (.handleRead r) hcalls.1) hstays hcalls.2
      (not_handleRead hinside) fun r₁ hmem => hkept r₁ (List.mem_cons_of_mem _ hmem)
    exact ⟨t', hinv.indexed.inBoth hq'.1 hq'.2, hexpired⟩

/-- Whatever was called before, a pass whose callbacks add, remove and reset timers runs what is due. -/
theorem firesDue_run (before : List (TimerCall P)) (r : Reads P) (body : List (TimerCall P)) (r' : Reads P)
    (hcalls : Along step Enabled (new : TimerLoop P) (before ++ pass r body r'))
    (hinside : ∀ c ∈ body, c.Inside) : ((new : TimerLoop P).run before).FiresDue r.now (pass r body r') := by
  obtain ⟨hbefore, hpass⟩ := along_append.mp hcalls
  exact firesDue (inv_run hbefore) hpass hinside

/-- A one-shot and a repeating timer are due at the same time. The callback of the first resets a
timer that is not due, removes the second, which is already taken out, and adds one that is late. -/
theorem firesDue_run_both :
    ((new : TimerLoop Nat).run
        [.AddTimer ⟨1, 0, none⟩ 10 5 ⟨false, 0⟩, .AddTimer ⟨1, 0, none⟩ 11 5 ⟨true, 3⟩,
          .AddTimer ⟨1, 0, none⟩ 12 9 ⟨false, 0⟩]).FiresDue 6
      (pass ⟨6, 0, none⟩
        [.run, .ResetTimer ⟨6, 0, none⟩ 2 8, .Remove ⟨6, 0, none⟩ 1, .AddTimer ⟨6, 0, none⟩ 13 4 ⟨false, 0⟩,
          .returned ⟨6, 0, none⟩, .run, .returned ⟨7, 0, none⟩] ⟨7, 0, none⟩) :=
  firesDue_run
    [.AddTimer ⟨1, 0, none⟩ 10 5 ⟨false, 0⟩, .AddTimer ⟨1, 0, none⟩ 11 5 ⟨true, 3⟩,
      .AddTimer ⟨1, 0, none⟩ 12 9 ⟨false, 0⟩] ⟨6, 0, none⟩
    [.run, .ResetTimer ⟨6, 0, none⟩ 2 8, .Remove ⟨6, 0, none⟩ 1, .AddTimer ⟨6, 0, none⟩ 13 4 ⟨false, 0⟩,
      .returned ⟨6, 0, none⟩, .run, .returned ⟨7, 0, none⟩] ⟨7, 0, none⟩ (by decide +kernel) (by decide)

end TimerLoop
end Knpnl.Event
