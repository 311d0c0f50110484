import Knpnl.Event.TimerSteps

/-!
# The head of the set of timers

`insert` and `resetTimer` look at the head after they have put a timer into the set. `deleteTimer`
looks a second time after it has taken one out, and `handleRead` when it is done, and by then
there may be no timer left.
-/
namespace Knpnl.Event

open Lib

variable {P : Type*} [LinearOrder P]

namespace TimerQueue

def insertLooks (q : TimerQueue P) (p : P) : List (SortedSet (Timestamp ×ₗ P)) := [(q.link p).mTimerSet]

def deleteTimerLooks (q : TimerQueue P) (r : Reads P) : Option P → List (SortedSet (Timestamp ×ₗ P))
  | none => []
  | some p => q.mTimerSet :: if (q.begin r).2 = some p then [(q.unlink p).mTimerSet] else []

def resetTimerLooks (q : TimerQueue P) (id : Timer_t) (ts : Timestamp) : List (SortedSet (Timestamp ×ₗ P)) :=
  match q.mTimerIdMap.lookup id with
  | some (some p) => [(q.mTimerSet.erase (toLex ((q.timer p).mExpired, p))).insert (toLex (ts, p))]
  | some none | none => []

variable {q : TimerQueue P} {r : Reads P} {p : P} {v : Option P} {id : Timer_t} {ts : Timestamp}

theorem begin_of_pos (h : 0 < q.mTimerSet.size) (r r' : Reads P) : q.begin r = q.begin r' := by
  obtain ⟨e, _, he⟩ := SortedSet.first_of_pos h
  rw [begin, begin, he]

theorem insert_withEmpty (h : ∀ s ∈ q.insertLooks p, 0 < s.size) (e : Timestamp × Option P) :
    q.insert { r with empty := e } p = q.insert r p := by
  have hpos : 0 < (q.link p).mTimerSet.size := h _ List.mem_cons_self
  unfold insert
  dsimp only
  rw [begin_of_pos hpos { r with empty := e } r]
  rfl

theorem deleteTimer_withEmpty (h : ∀ s ∈ q.deleteTimerLooks r v, 0 < s.size) (e : Timestamp × Option P) :
    q.deleteTimer { r with empty := e } v = q.deleteTimer r v := by
  cases v with
  | none => rfl
  | some p =>
    have hpos : 0 < q.mTimerSet.size := h _ List.mem_cons_self
    unfold deleteTimer
    dsimp only
    rw [begin_of_pos hpos { r with empty := e } r]
    split
    · rename_i hhead
      have hrest : 0 < ((q.unlink p).setTimer p .freed).mTimerSet.size := by
        refine h (q.unlink p).mTimerSet (List.mem_cons_of_mem _ ?_)
        rw [if_pos hhead]
        exact List.mem_cons_self
      rw [begin_of_pos hrest { r with empty := e } r]
      rfl
    · rfl

theorem resetTimer_withEmpty (h : ∀ s ∈ q.resetTimerLooks id ts, 0 < s.size) (e : Timestamp × Option P) :
    q.resetTimer { r with empty := e } id ts = q.resetTimer r id ts := by
  unfold resetTimer
  unfold resetTimerLooks at h
  split
  · rfl
  · rfl
  · rename_i p hlookup
    rw [hlookup] at h
    have hbegin : ∀ q' : TimerQueue P,
        q'.mTimerSet = (q.mTimerSet.erase (toLex ((q.timer p).mExpired, p))).insert (toLex (ts, p)) →
          q'.begin { r with empty := e } = q'.begin r :=
      fun q' hset => begin_of_pos (hset ▸ h _ List.mem_cons_self) _ _
    dsimp only
    rw [hbegin]
    · rfl
    · rfl

end TimerQueue

/-- The same call, with another value to be read where the set is empty. -/
def TimerCall.withEmpty (e : Timestamp × Option P) : TimerCall P → TimerCall P
  | .AddTimer r p ts interval => .AddTimer { r with empty := e } p ts interval
  | .Remove r id => .Remove { r with empty := e } id
  | .ResetTimer r id ts => .ResetTimer { r with empty := e } id ts
  | .handleRead r => .handleRead { r with empty := e }
  | .run => .run
  | .returned r => .returned { r with empty := e }
  | .finish r => .finish { r with empty := e }
  | .elsewhere => .elsewhere

namespace TimerLoop

variable {x : TimerLoop P} {pending : Set P} {p : P} {t : Timer} {c : TimerCall P}

/-- What is in the set at each use of its head in a step. -/
def looks (x : TimerLoop P) : TimerCall P → List (SortedSet (Timestamp ×ₗ P))
  | .AddTimer _ p ts interval => (x.queue.newTimer p ts interval).insertLooks p
  | .Remove r id =>
      match x.queue.mTimerIdMap.lookup id with
      | some p => x.queue.deleteTimerLooks r p
      | none => []
  | .ResetTimer _ id ts => x.queue.resetTimerLooks id ts
  | .finish _ =>
      match x.stack with
      | .next [] :: _ => [x.queue.mTimerSet]
      | _ => []
  | .handleRead _ | .run | .returned _ | .elsewhere => []

/-- The set is not empty at any use of its head. -/
def HeadThere (x : TimerLoop P) (c : TimerCall P) : Prop := ∀ s ∈ x.looks c, 0 < s.size

instance (x : TimerLoop P) (c : TimerCall P) : Decidable (x.HeadThere c) :=
  inferInstanceAs (Decidable (∀ s ∈ x.looks c, 0 < s.size))

/-- Where the head is there, what is read of an empty set does not matter. -/
theorem step_withEmpty (h : x.HeadThere c) (e : Timestamp × Option P) :
    x.step (c.withEmpty e) = x.step c := by
  cases c with
  | AddTimer r p ts interval =>
    rw [TimerCall.withEmpty, step, step, TimerQueue.insert_withEmpty h e]
  | Remove r id =>
    rw [TimerCall.withEmpty, step, step]
    cases hlookup : x.queue.mTimerIdMap.lookup id with
    | none => rfl
    | some v =>
      simp only [HeadThere, looks, hlookup] at h
      dsimp only
      rw [TimerQueue.deleteTimer_withEmpty h e]
  | ResetTimer r id ts => rw [TimerCall.withEmpty, step, step, TimerQueue.resetTimer_withEmpty h e]
  | finish r =>
    rw [TimerCall.withEmpty, step, step]
    split
    · rename_i hstack
      simp only [HeadThere, looks, hstack] at h
      have hpos : 0 < x.queue.mTimerSet.size := h _ List.mem_cons_self
      rw [TimerQueue.begin_of_pos hpos { r with empty := e } r]
      rfl
    · rfl
  | _ => rfl

/-- Live, and not held by a `handleRead`. -/
def Waiting (x : TimerLoop P) (p : P) : Prop := (∃ t, x.queue.heap p = .live t) ∧ p ∉ x.held

/-- A timer that waits is removed only while another one waits, and a `handleRead` ends only while
a timer waits. -/
def LeavesWaiting (x : TimerLoop P) : TimerCall P → Prop
  | .Remove _ id =>
      ∀ p, x.Waiting p → (x.queue.timer p).mTimerId = id → ∃ p', p' ≠ p ∧ x.Waiting p'
  | .finish _ => ∃ p, x.Waiting p
  | .AddTimer _ _ _ _ | .ResetTimer _ _ _ | .handleRead _ | .run | .returned _ | .elsewhere => True

theorem waiting_iff (hkept : x.Kept) (h : x.Inv pending) : x.Waiting p ↔ ∃ t, x.Queued p t := by
  constructor
  · rintro ⟨⟨t, hlive⟩, hheld⟩
    exact ⟨t, (hkept p t hlive).resolve_right hheld⟩
  · rintro ⟨t, hq⟩
    exact ⟨⟨t, hq.1⟩, hq.not_held h⟩

/-- The timers in the set are those that wait. -/
theorem waiting_iff_mem (hkept : x.Kept) (h : x.Inv pending) :
    x.Waiting p ↔ ∃ ts, toLex (ts, p) ∈ x.queue.mTimerSet := by
  rw [waiting_iff hkept h]
  constructor
  · rintro ⟨t, hq⟩
    exact ⟨t.mExpired, h.mem_set.mpr ⟨t, hq, rfl⟩⟩
  · rintro ⟨ts, hts⟩
    obtain ⟨t, hq, _⟩ := h.mem_set.mp hts
    exact ⟨t, hq⟩

theorem size_pos_iff (hkept : x.Kept) (h : x.Inv pending) :
    0 < x.queue.mTimerSet.size ↔ ∃ p, x.Waiting p := by
  rw [SortedSet.size_pos]
  constructor
  · rintro ⟨e, he⟩
    exact ⟨(ofLex e).2, (waiting_iff_mem hkept h).mpr ⟨(ofLex e).1, he⟩⟩
  · rintro ⟨p, hp⟩
    obtain ⟨ts, hts⟩ := (waiting_iff_mem hkept h).mp hp
    exact ⟨_, hts⟩

theorem insert_pos (s : SortedSet (Timestamp ×ₗ P)) (e : Timestamp ×ₗ P) : 0 < (s.insert e).size :=
  SortedSet.size_pos.mpr ⟨e, SortedSet.mem_insert.mpr (Or.inl rfl)⟩

/-- Both looks of `deleteTimer` find a timer exactly if another timer waits. -/
theorem deleteTimer_there (hkept : x.Kept) (h : x.Inv pending) (hq : x.Queued p t) (r : Reads P) :
    (∀ s ∈ x.queue.deleteTimerLooks r (some p), 0 < s.size) ↔ ∃ p', p' ≠ p ∧ x.Waiting p' := by
  have hmem : toLex (t.mExpired, p) ∈ x.queue.mTimerSet := h.mem_set.mpr ⟨t, hq, rfl⟩
  have hpos : 0 < x.queue.mTimerSet.size := SortedSet.size_pos.mpr ⟨_, hmem⟩
  have hother : ∀ e ∈ x.queue.mTimerSet, (ofLex e).2 ≠ p → ∃ p', p' ≠ p ∧ x.Waiting p' := fun e he hne =>
    ⟨(ofLex e).2, hne, (waiting_iff_mem hkept h).mpr ⟨(ofLex e).1, he⟩⟩
  unfold TimerQueue.deleteTimerLooks
  rw [List.forall_mem_cons, and_iff_right hpos]
  by_cases hhead : (x.queue.begin r).2 = some p
  · rw [if_pos hhead, List.forall_mem_singleton, TimerQueue.unlink, TimerQueue.timer_eq hq.1,
      SortedSet.size_pos]
    constructor
    · rintro ⟨e, he⟩
      obtain ⟨hne, he⟩ := SortedSet.mem_erase.mp he
      exact hother e he fun heq => hne (h.indexed.one_entry he hmem heq)
    · rintro ⟨p', hne, hwaits⟩
      obtain ⟨ts, hts⟩ := (waiting_iff_mem hkept h).mp hwaits
      exact ⟨_, SortedSet.mem_erase.mpr ⟨fun heq => hne (congrArg Prod.snd (toLex.injective heq)), hts⟩⟩
  · rw [if_neg hhead]
    refine ⟨fun _ => ?_, fun _ s hs => absurd hs List.not_mem_nil⟩
    obtain ⟨e, he, hfirst⟩ := SortedSet.first_of_pos hpos
    refine hother e he fun heq => hhead ?_
    rw [TimerQueue.begin, hfirst, ← heq]

theorem removed_there (hkept : x.Kept) (h : x.Inv pending) (r : Reads P) (id : Timer_t) :
    x.HeadThere (.Remove r id) ↔ x.LeavesWaiting (.Remove r id) := by
  unfold HeadThere LeavesWaiting looks
  dsimp only
  -- a timer that waits with this id is the one that the map leads to
  have hfound : ∀ p, x.Waiting p → (x.queue.timer p).mTimerId = id →
      x.queue.mTimerIdMap.lookup id = some (some p) := by
    intro p hwaits hid
    obtain ⟨t, hq⟩ := (waiting_iff hkept h).mp hwaits
    rw [TimerQueue.timer_eq hq.1] at hid
    exact hid ▸ hq.2
  cases hlookup : x.queue.mTimerIdMap.lookup id with
  | none =>
    refine iff_of_true (fun s hs => absurd hs List.not_mem_nil) fun p hwaits hid => ?_
    cases hlookup.symm.trans (hfound p hwaits hid)
  | some v =>
    cases v with
    | none =>
      refine iff_of_true (fun s hs => absurd hs List.not_mem_nil) fun p hwaits hid => ?_
      cases hlookup.symm.trans (hfound p hwaits hid)
    | some p =>
      obtain ⟨t, hlive, hid⟩ := h.indexed.owned id p hlookup
      have hq : x.Queued p t := ⟨hlive, hid ▸ hlookup⟩
      rw [deleteTimer_there hkept h hq]
      constructor
      · intro hother p' hwaits hid'
        obtain rfl : p' = p := by simpa [hlookup] using (hfound p' hwaits hid').symm
        exact hother
      · exact fun hall => hall p ((waiting_iff hkept h).mpr ⟨t, hq⟩) (by rw [TimerQueue.timer_eq hlive, hid])

theorem headThere_iff (hkept : x.Kept) (h : x.Inv pending) (c : TimerCall P) (hc : x.Enabled c) :
    x.HeadThere c ↔ x.LeavesWaiting c := by
  cases c with
  | AddTimer r p ts interval =>
    refine iff_of_true (fun s hs => ?_) trivial
    rw [List.mem_singleton.mp hs]
    exact insert_pos _ _
  | Remove r id => exact removed_there hkept h r id
  | ResetTimer r id ts =>
    refine iff_of_true (fun s hs => ?_) trivial
    unfold looks TimerQueue.resetTimerLooks at hs
    dsimp only at hs
    split at hs
    · rw [List.mem_singleton.mp hs]
      exact insert_pos _ _
    · cases hs
    · cases hs
  | finish r =>
    obtain ⟨_, hstack⟩ := stack_of_finish hc
    unfold HeadThere LeavesWaiting looks
    rw [hstack, ← size_pos_iff hkept h]
    exact List.forall_mem_singleton
  | _ => exact iff_of_true (fun s hs => absurd hs List.not_mem_nil) trivial

/-- In a run the head is looked at while it is there only, if and only if no timer is removed while
it alone waits and no `handleRead` ends while none waits. What is read of an empty set does then not
matter. -/
theorem headThere_run {calls : List (TimerCall P)} (hcalls : Along step Enabled (new : TimerLoop P) calls) :
    (Along step HeadThere (new : TimerLoop P) calls ↔ Along step LeavesWaiting (new : TimerLoop P) calls) ∧
      (Along step HeadThere (new : TimerLoop P) calls →
        ∀ e, (calls.map (TimerCall.withEmpty e)).foldl step (new : TimerLoop P) = calls.foldl step new) := by
  refine ⟨?_, fun hthere e => hthere.foldl_map fun _ _ h => step_withEmpty h e⟩
  exact along_iff_along (I := fun x => x.Kept ∧ x.Inv ∅) (fun _ c h hc => headThere_iff h.1 h.2 c hc)
    (fun _ c h hc _ => ⟨kept_step h.1 h.2 c hc, h.2.step c hc⟩)
    ⟨kept_new, inv_new⟩ hcalls

/-- A repeating timer and a one-shot timer, which is removed in the callback of the other. -/
def twoTimers : List (TimerCall Nat) :=
  [.AddTimer ⟨1, 0, none⟩ 10 5 ⟨true, 3⟩, .AddTimer ⟨1, 0, none⟩ 11 7 ⟨false, 0⟩, .handleRead ⟨6, 0, none⟩,
    .run, .AddTimer ⟨6, 0, none⟩ 12 9 ⟨false, 0⟩, .Remove ⟨6, 0, none⟩ 1, .returned ⟨6, 0, none⟩,
    .finish ⟨6, 0, none⟩]

theorem headThere_run_two : Along step LeavesWaiting new twoTimers ∧
    (twoTimers.map (.withEmpty (9, some 11))).foldl step new = twoTimers.foldl step new := by
  obtain ⟨hiff, hsame⟩ := headThere_run (show Along step Enabled new twoTimers by decide +kernel)
  have hthere : Along step HeadThere new twoTimers := by decide +kernel
  exact ⟨hiff.mp hthere, hsame hthere _⟩

/-- The head is looked at while it is there only. -/
def AlwaysHeadThere (P : Type*) [LinearOrder P] : Prop :=
  ∀ calls : List (TimerCall P), Along step Enabled (new : TimerLoop P) calls →
    Along step HeadThere (new : TimerLoop P) calls

/-- The only timer runs once. -/
theorem alwaysHeadThere_oneShot : ¬ AlwaysHeadThere Nat := by
  intro hclaim
  have hthere := hclaim [.AddTimer ⟨1, 0, none⟩ 10 5 ⟨false, 0⟩, .handleRead ⟨6, 0, none⟩, .run,
    .returned ⟨6, 0, none⟩, .finish ⟨6, 0, none⟩] (by decide +kernel)
  revert hthere
  decide +kernel

end TimerLoop
end Knpnl.Event
