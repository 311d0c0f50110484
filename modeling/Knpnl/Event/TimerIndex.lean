import Knpnl.Event.TimerQueue

/-!
# The two indexes of a timer queue

Whatever is called, from callbacks too, the set and the map describe the same timers: those
that are live, and neither created just now nor taken out by a `handleRead`.
-/
namespace Knpnl.Event

open Lib

variable {P : Type*} [LinearOrder P]

namespace TimerQueue

variable {q : TimerQueue P} {out : Set P} {p : P} {t : Timer}

/-- The map and the set agree, no two timers have one id, and the timers `out` are live and in
neither. -/
structure Indexed (q : TimerQueue P) (out : Set P) : Prop where
  agree : ∀ ts p, toLex (ts, p) ∈ q.mTimerSet ↔
    ∃ t, q.heap p = .live t ∧ t.mExpired = ts ∧ q.mTimerIdMap.lookup t.mTimerId = some (some p)
  owned : ∀ id p, q.mTimerIdMap.lookup id = some (some p) → ∃ t, q.heap p = .live t ∧ t.mTimerId = id
  ids : ∀ p p' t t', q.heap p = .live t → q.heap p' = .live t' → t.mTimerId = t'.mTimerId → p = p'
  count : ∀ p t, q.heap p = .live t → t.mTimerId < q.TimerCount
  out : ∀ p ∈ out, ∃ t, q.heap p = .live t ∧ q.mTimerIdMap.lookup t.mTimerId ≠ some (some p)

theorem indexed_new : Indexed (new : TimerQueue P) ∅ where
  agree ts p := by
    refine ⟨fun h => absurd h (SortedSet.not_mem_empty _), fun ⟨t, hlive, _⟩ => ?_⟩
    cases hlive
  owned id p h := by
    rw [show (new : TimerQueue P).mTimerIdMap = ∅ from rfl, Finmap.lookup_empty] at h
    cases h
  ids p p' t t' h := by cases h
  count p t h := by cases h
  out p h := absurd h (Set.notMem_empty p)

namespace Indexed

theorem mono {out' : Set P} (h : Indexed q out) (hsub : out' ⊆ out) : Indexed q out' :=
  { h with out := fun p hp => h.out p (hsub hp) }

/-- The timerfd is not an index. -/
theorem resetTimerfd (h : Indexed q out) (r : Reads P) (expiration : Timestamp) :
    Indexed (q.resetTimerfd r expiration) out :=
  ⟨h.agree, h.owned, h.ids, h.count, h.out⟩

/-- A timer in the set is there under the time it expires. -/
theorem expiry (h : Indexed q out) {ts : Timestamp} (hmem : toLex (ts, p) ∈ q.mTimerSet)
    (hlive : q.heap p = .live t) : t.mExpired = ts ∧ q.mTimerIdMap.lookup t.mTimerId = some (some p) := by
  obtain ⟨t', hlive', hts, hlookup⟩ := (h.agree ts p).mp hmem
  obtain rfl : t' = t := Cell.live.inj (hlive'.symm.trans hlive)
  exact ⟨hts, hlookup⟩

/-- A timer has one entry in the set. -/
theorem one_entry (h : Indexed q out) {e e' : Timestamp ×ₗ P} (he : e ∈ q.mTimerSet) (he' : e' ∈ q.mTimerSet)
    (hp : (ofLex e).2 = (ofLex e').2) : e = e' := by
  obtain ⟨t, hlive, hts, _⟩ := (h.agree (ofLex e).1 (ofLex e).2).mp he
  have hmem : toLex ((ofLex e').1, (ofLex e').2) ∈ q.mTimerSet := he'
  obtain ⟨hts', _⟩ := h.expiry hmem (hp ▸ hlive)
  exact ofLex.injective (Prod.ext (hts.symm.trans hts') hp)

/-- What is out is in neither index. -/
theorem not_lookup (h : Indexed q out) (hp : p ∈ out) (hlive : q.heap p = .live t) :
    q.mTimerIdMap.lookup t.mTimerId ≠ some (some p) := by
  obtain ⟨t', hlive', hlookup⟩ := h.out p hp
  rwa [show t' = t from Cell.live.inj (hlive'.symm.trans hlive)] at hlookup

theorem id_ne (h : Indexed q out) {p' : P} {t' : Timer} (hne : p' ≠ p) (hlive : q.heap p = .live t)
    (hlive' : q.heap p' = .live t') : t'.mTimerId ≠ t.mTimerId :=
  fun hid => hne (h.ids p' p t' t hlive' hlive hid)

theorem link (h : Indexed q out) (hlive : q.heap p = .live t)
    (hnot : q.mTimerIdMap.lookup t.mTimerId ≠ some (some p)) : Indexed (q.link p) (out \ {p}) := by
  have hmap : (q.link p).mTimerIdMap = q.mTimerIdMap.insert t.mTimerId (some p) := by
    rw [TimerQueue.link, timer_eq hlive]
  have hset : (q.link p).mTimerSet = q.mTimerSet.insert (toLex (t.mExpired, p)) := by
    rw [TimerQueue.link, timer_eq hlive]
  refine ⟨fun ts x => ?_, fun id x hx => ?_, h.ids, h.count, fun x hx => ?_⟩
  · rw [hset, hmap, SortedSet.mem_insert, h.agree ts x]
    show _ ↔ ∃ t', q.heap x = .live t' ∧ _
    by_cases hx : x = p
    · subst hx
      constructor
      · rintro (heq | ⟨t', hlive', hts, hlookup⟩)
        · exact ⟨t, hlive, (congrArg Prod.fst (toLex.injective heq)).symm, Finmap.lookup_insert _⟩
        · obtain rfl : t' = t := Cell.live.inj (hlive'.symm.trans hlive)
          exact absurd hlookup hnot
      · rintro ⟨t', hlive', hts, _⟩
        obtain rfl : t' = t := Cell.live.inj (hlive'.symm.trans hlive)
        exact Or.inl (by rw [hts])
    · constructor
      · rintro (heq | ⟨t', hlive', hts, hlookup⟩)
        · exact absurd (congrArg Prod.snd (toLex.injective heq)) hx
        · refine ⟨t', hlive', hts, ?_⟩
          rwa [Finmap.lookup_insert_of_ne _ (h.id_ne hx hlive hlive')]
      · rintro ⟨t', hlive', hts, hlookup⟩
        rw [Finmap.lookup_insert_of_ne _ (h.id_ne hx hlive hlive')] at hlookup
        exact Or.inr ⟨t', hlive', hts, hlookup⟩
  · rw [hmap] at hx
    by_cases hid : id = t.mTimerId
    · subst hid
      rw [Finmap.lookup_insert] at hx
      obtain rfl : p = x := by simpa using hx
      exact ⟨t, hlive, rfl⟩
    · rw [Finmap.lookup_insert_of_ne _ hid] at hx
      exact h.owned id x hx
  · obtain ⟨t', hlive', hlookup⟩ := h.out x hx.1
    refine ⟨t', hlive', ?_⟩
    rwa [hmap, Finmap.lookup_insert_of_ne _ (h.id_ne hx.2 hlive hlive')]

/-- A timer that is taken out of both is out. -/
theorem unlink (h : Indexed q out) (hlive : q.heap p = .live t) : Indexed (q.unlink p) (out ∪ {p}) := by
  have hmap : (q.unlink p).mTimerIdMap = q.mTimerIdMap.erase t.mTimerId := by
    rw [TimerQueue.unlink, timer_eq hlive]
  have hset : (q.unlink p).mTimerSet = q.mTimerSet.erase (toLex (t.mExpired, p)) := by
    rw [TimerQueue.unlink, timer_eq hlive]
  refine ⟨fun ts x => ?_, fun id x hx => ?_, h.ids, h.count, fun x hx => ?_⟩
  · rw [hset, hmap, SortedSet.mem_erase]
    show _ ↔ ∃ t', q.heap x = .live t' ∧ _
    by_cases hx : x = p
    · subst hx
      constructor
      · rintro ⟨hne, hmem⟩
        exact absurd (by rw [(h.expiry hmem hlive).1]) hne
      · rintro ⟨t', hlive', _, hlookup⟩
        obtain rfl : t' = t := Cell.live.inj (hlive'.symm.trans hlive)
        rw [Finmap.lookup_erase] at hlookup
        cases hlookup
    · rw [h.agree ts x]
      constructor
      · rintro ⟨_, t', hlive', hts, hlookup⟩
        refine ⟨t', hlive', hts, ?_⟩
        rwa [Finmap.lookup_erase_ne (h.id_ne hx hlive hlive')]
      · rintro ⟨t', hlive', hts, hlookup⟩
        rw [Finmap.lookup_erase_ne (h.id_ne hx hlive hlive')] at hlookup
        exact ⟨fun heq => hx (congrArg Prod.snd (toLex.injective heq)), t', hlive', hts, hlookup⟩
  · rw [hmap] at hx
    by_cases hid : id = t.mTimerId
    · rw [hid, Finmap.lookup_erase] at hx
      cases hx
    · rw [Finmap.lookup_erase_ne hid] at hx
      exact h.owned id x hx
  · rw [hmap]
    rcases hx with hx | hx
    · obtain ⟨t', hlive', hlookup⟩ := h.out x hx
      refine ⟨t', hlive', fun hlookup' => ?_⟩
      by_cases hid : t'.mTimerId = t.mTimerId
      · rw [hid, Finmap.lookup_erase] at hlookup'
        cases hlookup'
      · rw [Finmap.lookup_erase_ne hid] at hlookup'
        exact hlookup hlookup'
    · obtain rfl : x = p := hx
      refine ⟨t, hlive, ?_⟩
      rw [Finmap.lookup_erase]
      simp

/-- The heap has changed, but not for the timers in the map. -/
theorem reheap {q' : TimerQueue P} {out' : Set P} (h : Indexed q out) (hset : q'.mTimerSet = q.mTimerSet)
    (hmap : q'.mTimerIdMap = q.mTimerIdMap)
    (hmapped : ∀ {x t}, q.mTimerIdMap.lookup t.mTimerId = some (some x) →
      (q'.heap x = .live t ↔ q.heap x = .live t))
    (hids : ∀ x x' t t', q'.heap x = .live t → q'.heap x' = .live t' → t.mTimerId = t'.mTimerId → x = x')
    (hcount : ∀ x t, q'.heap x = .live t → t.mTimerId < q'.TimerCount)
    (hout : ∀ x ∈ out', ∃ t, q'.heap x = .live t ∧ q.mTimerIdMap.lookup t.mTimerId ≠ some (some x)) :
    Indexed q' out' := by
  refine ⟨fun ts x => ?_, fun id x hx => ?_, hids, hcount, fun x hx => ?_⟩
  · rw [hset, hmap, h.agree ts x]
    exact ⟨fun ⟨t, hlive, hts, hlookup⟩ => ⟨t, (hmapped hlookup).mpr hlive, hts, hlookup⟩,
      fun ⟨t, hlive, hts, hlookup⟩ => ⟨t, (hmapped hlookup).mp hlive, hts, hlookup⟩⟩
  · rw [hmap] at hx
    obtain ⟨t, hlive, rfl⟩ := h.owned id x hx
    exact ⟨t, (hmapped hx).mpr hlive, rfl⟩
  · rw [hmap]
    exact hout x hx

theorem free (h : Indexed q out) (hlive : q.heap p = .live t)
    (hnot : q.mTimerIdMap.lookup t.mTimerId ≠ some (some p)) : Indexed (q.setTimer p .freed) (out \ {p}) := by
  have hother : ∀ {x t'}, (q.setTimer p .freed).heap x = .live t' → x ≠ p ∧ q.heap x = .live t' := by
    intro x t' hx
    by_cases hxp : x = p
    · rw [hxp, heap_setTimer_self] at hx
      cases hx
    · exact ⟨hxp, by rwa [heap_setTimer_of_ne hxp] at hx⟩
  refine h.reheap rfl rfl (fun {x t'} hlookup => ⟨fun hx => (hother hx).2, fun hx => ?_⟩)
    (fun x x' t t' hx hx' => ?_) (fun x t' hx => ?_) (fun x hx => ?_)
  · have hne : x ≠ p := by
      intro hxp
      subst hxp
      obtain rfl : t' = t := Cell.live.inj (hx.symm.trans hlive)
      exact hnot hlookup
    rwa [heap_setTimer_of_ne hne]
  · exact h.ids x x' t t' (hother hx).2 (hother hx').2
  · exact h.count x t' (hother hx).2
  · obtain ⟨t', hlive', hlookup⟩ := h.out x hx.1
    exact ⟨t', by rwa [heap_setTimer_of_ne hx.2], hlookup⟩

/-- A timer that is out may be given another time. -/
theorem retime (h : Indexed q out) (hlive : q.heap p = .live t)
    (hnot : q.mTimerIdMap.lookup t.mTimerId ≠ some (some p)) {u : Timer} (hid : u.mTimerId = t.mTimerId) :
    Indexed (q.setTimer p (.live u)) out := by
  have hback : ∀ {x t'}, (q.setTimer p (.live u)).heap x = .live t' →
      ∃ t'', q.heap x = .live t'' ∧ t''.mTimerId = t'.mTimerId := by
    intro x t' hx
    by_cases hxp : x = p
    · subst hxp
      rw [heap_setTimer_self] at hx
      obtain rfl : u = t' := Cell.live.inj hx
      exact ⟨t, hlive, hid.symm⟩
    · rw [heap_setTimer_of_ne hxp] at hx
      exact ⟨t', hx, rfl⟩
  refine h.reheap rfl rfl (fun {x t'} hlookup => ?_) (fun x x' t t' hx hx' heq => ?_) (fun x t' hx => ?_)
    (fun x hx => ?_)
  · by_cases hxp : x = p
    · -- the timer is not in the map, before or after
      subst hxp
      constructor
      · intro hx
        obtain rfl : u = t' := Cell.live.inj ((heap_setTimer_self ..).symm.trans hx)
        exact absurd (hid ▸ hlookup) hnot
      · intro hx
        obtain rfl : t' = t := Cell.live.inj (hx.symm.trans hlive)
        exact absurd hlookup hnot
    · rw [heap_setTimer_of_ne hxp]
  · obtain ⟨u, hu, hidu⟩ := hback hx
    obtain ⟨u', hu', hidu'⟩ := hback hx'
    exact h.ids x x' u u' hu hu' (by rw [hidu, heq, hidu'])
  · obtain ⟨u, hu, hidu⟩ := hback hx
    exact hidu ▸ h.count x u hu
  · obtain ⟨t', hlive', hlookup⟩ := h.out x hx
    by_cases hxp : x = p
    · subst hxp
      exact ⟨u, heap_setTimer_self .., hid ▸ hnot⟩
    · exact ⟨t', by rwa [heap_setTimer_of_ne hxp], hlookup⟩

theorem newTimer (h : Indexed q out) (hp : q.heap p = .unallocated) (ts : Timestamp) (interval : Interval) :
    Indexed (q.newTimer p ts interval) (out ∪ {p}) ∧
      (q.newTimer p ts interval).heap p = .live (.new ts interval q.TimerCount) := by
  have hself : (q.newTimer p ts interval).heap p = .live (.new ts interval q.TimerCount) :=
    heap_setTimer_self ..
  have hkept : ∀ {x t'}, q.heap x = .live t' → (q.newTimer p ts interval).heap x = .live t' := by
    intro x t' hx
    have hne : x ≠ p := by
      intro hxp
      rw [hxp, hp] at hx
      cases hx
    exact (heap_setTimer_of_ne hne _).trans hx
  have hback : ∀ {x t'}, (q.newTimer p ts interval).heap x = .live t' →
      (x = p ∧ t' = .new ts interval q.TimerCount) ∨ q.heap x = .live t' := by
    intro x t' hx
    by_cases hxp : x = p
    · rw [hxp, hself] at hx
      exact Or.inl ⟨hxp, (Cell.live.inj hx).symm⟩
    · exact Or.inr ((heap_setTimer_of_ne hxp _).symm.trans hx)
  -- no timer had the id before
  have hfresh : ∀ x, q.mTimerIdMap.lookup q.TimerCount ≠ some (some x) := by
    intro x hx
    obtain ⟨t', hlive', hid⟩ := h.owned _ x hx
    exact absurd hid (h.count x t' hlive').ne
  refine ⟨h.reheap rfl rfl (fun {x t'} hlookup => ⟨fun hx => ?_, hkept⟩) (fun x x' t t' hx hx' hid => ?_)
    (fun x t' hx => ?_) (fun x hx => ?_), hself⟩
  · rcases hback hx with ⟨_, rfl⟩ | hx
    · exact absurd hlookup (hfresh x)
    · exact hx
  · rcases hback hx with ⟨rfl, rfl⟩ | hold <;> rcases hback hx' with ⟨rfl, rfl⟩ | hold'
    · rfl
    · exact absurd hid (h.count x' t' hold').ne'
    · exact absurd hid (h.count x t hold).ne
    · exact h.ids x x' t t' hold hold' hid
  · show t'.mTimerId < q.TimerCount + 1
    rcases hback hx with ⟨_, rfl⟩ | hx
    · exact Nat.lt_succ_self _
    · exact Nat.lt_succ_of_lt (h.count x t' hx)
  · rcases hx with hx | rfl
    · obtain ⟨t', hlive', hlookup⟩ := h.out x hx
      exact ⟨t', hkept hlive', hlookup⟩
    · exact ⟨_, hself, hfresh x⟩

theorem insert (h : Indexed q out) (r : Reads P) (hlive : q.heap p = .live t)
    (hnot : q.mTimerIdMap.lookup t.mTimerId ≠ some (some p)) : Indexed (q.insert r p) (out \ {p}) := by
  have hlink := h.link hlive hnot
  unfold TimerQueue.insert
  dsimp only
  split
  · exact hlink.resetTimerfd r _
  · exact hlink

theorem deleteTimer (h : Indexed q out) (r : Reads P) (hlive : q.heap p = .live t) :
    Indexed (q.deleteTimer r (some p)) (out \ {p}) := by
  have hunlink := h.unlink hlive
  obtain hnot := hunlink.not_lookup (Or.inr rfl) (show (q.unlink p).heap p = .live t from hlive)
  have hfree := hunlink.free (show (q.unlink p).heap p = .live t from hlive) hnot
  have hout := hfree.mono (Set.sdiff_subset_sdiff_left (Set.subset_union_left (t := {p})))
  unfold TimerQueue.deleteTimer
  dsimp only
  split
  · exact hout.resetTimerfd r _
  · exact hout

theorem afterRun (h : Indexed q out) (r : Reads P) (hp : p ∈ out) (hlive : q.heap p = .live t) :
    Indexed (q.afterRun r p) (out \ {p}) := by
  have hnot := h.not_lookup hp hlive
  unfold TimerQueue.afterRun
  dsimp only
  rw [timer_eq hlive]
  split
  · have hretimed := h.retime hlive hnot (u := t.restart r.now) rfl
    exact hretimed.link (heap_setTimer_self ..) hnot
  · exact h.free hlive hnot

omit [LinearOrder P] in
theorem insert_erase_self {m : Finmap fun _ : Timer_t => Option P} {id : Timer_t} {v : Option P}
    (hlookup : m.lookup id = some v) : (m.erase id).insert id v = m := by
  refine Finmap.ext_lookup fun id' => ?_
  by_cases hid : id' = id
  · rw [hid, Finmap.lookup_insert, hlookup]
  · rw [Finmap.lookup_insert_of_ne _ hid, Finmap.lookup_erase_ne hid]

/-- In the set a new time takes the place of the old one, which is as good as taking the timer
out of both indexes and putting it back. -/
theorem move (h : Indexed q out) (hlive : q.heap p = .live t)
    (hlookup : q.mTimerIdMap.lookup t.mTimerId = some (some p)) (ts : Timestamp) :
    Indexed { q.setTimer p (.live (t.reset ts)) with
      mTimerSet := (q.mTimerSet.erase (toLex (t.mExpired, p))).insert (toLex (ts, p)) } out := by
  have hunlink := h.unlink hlive
  have hlive' : (q.unlink p).heap p = .live t := hlive
  have hnot := hunlink.not_lookup (Or.inr rfl) hlive'
  have hretimed := hunlink.retime hlive' hnot (u := t.reset ts) rfl
  have hlink := hretimed.link (heap_setTimer_self ..) hnot
  have hsame : ((q.unlink p).setTimer p (.live (t.reset ts))).link p =
      { q.setTimer p (.live (t.reset ts)) with
        mTimerSet := (q.mTimerSet.erase (toLex (t.mExpired, p))).insert (toLex (ts, p)) } := by
    rw [TimerQueue.link, timer_eq (heap_setTimer_self ..), TimerQueue.unlink, timer_eq hlive]
    exact congrArg (fun m => { q.setTimer p (.live (t.reset ts)) with
      mTimerSet := (q.mTimerSet.erase (toLex (t.mExpired, p))).insert (toLex (ts, p))
      mTimerIdMap := m }) (insert_erase_self hlookup)
  rw [hsame] at hlink
  refine hlink.mono fun x hx => ⟨Or.inl hx, fun hxp => ?_⟩
  obtain rfl : x = p := hxp
  exact h.not_lookup hx hlive hlookup

theorem resetTimer (h : Indexed q out) (r : Reads P) (id : Timer_t) (ts : Timestamp) :
    Indexed (q.resetTimer r id ts).1 out := by
  unfold TimerQueue.resetTimer
  split
  · exact h
  · exact h
  · rename_i p hlookup
    obtain ⟨t, hlive, rfl⟩ := h.owned id p hlookup
    have hmoved := h.move hlive hlookup ts
    dsimp only
    rw [timer_eq hlive]
    split
    · exact hmoved.resetTimerfd r _
    · exact hmoved

theorem mem_expired {when : Timestamp} :
    p ∈ q.expired when ↔ ∃ ts, toLex (ts, p) ∈ q.mTimerSet.below (isExpired when) := by
  rw [expired, List.mem_map]
  constructor
  · intro ⟨e, he, hp⟩
    exact ⟨(ofLex e).1, by rw [← hp]; exact he⟩
  · intro ⟨ts, hts⟩
    exact ⟨_, hts, rfl⟩

/-- Expired timers are live, and in the map. -/
theorem live_of_expired (h : Indexed q out) {when : Timestamp} (hp : p ∈ q.expired when) :
    ∃ t, q.heap p = .live t ∧ q.mTimerIdMap.lookup t.mTimerId = some (some p) ∧
      toLex (t.mExpired, p) ∈ q.mTimerSet.below (isExpired when) := by
  obtain ⟨ts, hts⟩ := mem_expired.mp hp
  obtain ⟨t, hlive, rfl, hlookup⟩ := (h.agree ts p).mp (SortedSet.mem_of_mem_below hts).1
  exact ⟨t, hlive, hlookup, hts⟩

theorem expired_nodup (h : Indexed q out) (when : Timestamp) : (q.expired when).Nodup := by
  refine (q.mTimerSet.below_nodup (isExpired when)).map_on fun e he e' he' heq => ?_
  exact h.one_entry (SortedSet.mem_of_mem_below he).1 (SortedSet.mem_of_mem_below he').1 heq

omit [LinearOrder P] in
theorem lookup_foldl_erase (f : P → Timer_t) (l : List P) (m : Finmap fun _ : Timer_t => Option P)
    (id : Timer_t) (v : Option P) :
    (l.foldl (fun m p => m.erase (f p)) m).lookup id = some v ↔ m.lookup id = some v ∧ ∀ p ∈ l, f p ≠ id := by
  induction l generalizing m with
  | nil => simp
  | cons p l ih =>
    rw [List.foldl_cons, ih, List.forall_mem_cons, ← and_assoc, and_congr_left_iff]
    intro _
    by_cases hid : id = f p
    · subst hid
      simp [Finmap.lookup_erase]
    · simp [Finmap.lookup_erase_ne hid, Ne.symm hid]

theorem lookup_findExpiredTimer {when : Timestamp} {id : Timer_t} {v : Option P} :
    (q.findExpiredTimer when).mTimerIdMap.lookup id = some v ↔
      q.mTimerIdMap.lookup id = some v ∧ ∀ p ∈ q.expired when, (q.timer p).mTimerId ≠ id :=
  lookup_foldl_erase ..

theorem findExpiredTimer (h : Indexed q out) (when : Timestamp) :
    Indexed (q.findExpiredTimer when) (out ∪ {p | p ∈ q.expired when}) := by
  refine ⟨fun ts x => ?_, fun id x hx => h.owned id x (lookup_findExpiredTimer.mp hx).1, h.ids, h.count,
    fun x hx => ?_⟩
  · show toLex (ts, x) ∈ q.mTimerSet.dropBelow (isExpired when) ↔ ∃ t, q.heap x = .live t ∧ _
    constructor
    · intro hmem
      obtain ⟨t, hlive, hts, hlookup⟩ :=
        (h.agree ts x).mp ((SortedSet.mem_below_or (isExpired when)).mpr (Or.inr hmem))
      refine ⟨t, hlive, hts, lookup_findExpiredTimer.mpr ⟨hlookup, fun p hp hid => ?_⟩⟩
      obtain ⟨t', hlive', _, hbelow⟩ := h.live_of_expired hp
      rw [timer_eq hlive'] at hid
      obtain rfl : p = x := h.ids p x t' t hlive' hlive hid
      obtain rfl : t' = t := Cell.live.inj (hlive'.symm.trans hlive)
      exact SortedSet.not_mem_dropBelow_of_below hbelow (hts ▸ hmem)
    · intro ⟨t, hlive, hts, hlookup⟩
      obtain ⟨hlookup', hnot⟩ := lookup_findExpiredTimer.mp hlookup
      have hmem := (h.agree ts x).mpr ⟨t, hlive, hts, hlookup'⟩
      refine ((SortedSet.mem_below_or (isExpired when)).mp hmem).resolve_left fun hbelow => ?_
      exact hnot x (mem_expired.mpr ⟨ts, hbelow⟩) (by rw [timer_eq hlive])
  · rcases hx with hx | hx
    · obtain ⟨t, hlive, hlookup⟩ := h.out x hx
      exact ⟨t, hlive, fun hlookup' => hlookup (lookup_findExpiredTimer.mp hlookup').1⟩
    · obtain ⟨t, hlive, _⟩ := h.live_of_expired hx
      refine ⟨t, hlive, fun hlookup => ?_⟩
      exact (lookup_findExpiredTimer.mp hlookup).2 x hx (by rw [timer_eq hlive])

end Indexed

/-- No id is mapped to a null pointer. -/
def NoNull (q : TimerQueue P) : Prop := ∀ id, q.mTimerIdMap.lookup id ≠ some none

namespace NoNull

theorem link (h : NoNull q) (p : P) : NoNull (q.link p) := by
  intro id hnull
  by_cases hid : id = (q.timer p).mTimerId
  · rw [TimerQueue.link, hid, Finmap.lookup_insert] at hnull
    cases hnull
  · rw [TimerQueue.link, Finmap.lookup_insert_of_ne _ hid] at hnull
    exact h id hnull

theorem insert (h : NoNull q) (r : Reads P) (p : P) : NoNull (q.insert r p) := by
  unfold TimerQueue.insert
  dsimp only
  split <;> exact h.link p

theorem deleteTimer (h : NoNull q) (r : Reads P) (p : P) : NoNull (q.deleteTimer r (some p)) := by
  have hunlink : NoNull (q.unlink p) := by
    intro id hnull
    by_cases hid : id = (q.timer p).mTimerId
    · rw [TimerQueue.unlink, hid, Finmap.lookup_erase] at hnull
      cases hnull
    · rw [TimerQueue.unlink, Finmap.lookup_erase_ne hid] at hnull
      exact h id hnull
  unfold TimerQueue.deleteTimer
  dsimp only
  split <;> exact hunlink

theorem resetTimer (h : NoNull q) (r : Reads P) (id : Timer_t) (ts : Timestamp) :
    NoNull (q.resetTimer r id ts).1 := by
  unfold TimerQueue.resetTimer
  split
  · exact h
  · exact h
  · dsimp only
    split <;> exact h

theorem findExpiredTimer (h : NoNull q) (when : Timestamp) : NoNull (q.findExpiredTimer when) :=
  fun id hnull => h id (Indexed.lookup_findExpiredTimer.mp hnull).1

theorem afterRun (h : NoNull q) (r : Reads P) (p : P) : NoNull (q.afterRun r p) := by
  unfold TimerQueue.afterRun
  dsimp only
  split
  · have hset : NoNull (q.setTimer p (.live ((q.timer p).restart r.now))) := h
    exact hset.link p
  · exact h

end NoNull

/-- The two indexes describe the same timers, each once, and all of them live. -/
structure SameTimers (q : TimerQueue P) : Prop where
  agree : ∀ ts p, toLex (ts, p) ∈ q.mTimerSet ↔
    ∃ t, q.heap p = .live t ∧ t.mExpired = ts ∧ q.mTimerIdMap.lookup t.mTimerId = some (some p)
  mapped : ∀ id v, q.mTimerIdMap.lookup id = some v → ∃ p t, v = some p ∧ q.heap p = .live t ∧ t.mTimerId = id
  once : ∀ ts ts' p, toLex (ts, p) ∈ q.mTimerSet → toLex (ts', p) ∈ q.mTimerSet → ts = ts'
  sizes : q.mTimerSet.size = q.mTimerIdMap.keys.card

theorem Indexed.sameTimers (h : Indexed q out) (hnull : NoNull q) : SameTimers q := by
  have hmapped : ∀ id v, q.mTimerIdMap.lookup id = some v →
      ∃ p t, v = some p ∧ q.heap p = .live t ∧ t.mTimerId = id := by
    intro id v hv
    cases v with
    | none => exact absurd hv (hnull id)
    | some p =>
      obtain ⟨t, hlive, hid⟩ := h.owned id p hv
      exact ⟨p, t, rfl, hlive, hid⟩
  refine ⟨h.agree, hmapped, fun ts ts' p hts hts' => ?_, ?_⟩
  · exact congrArg Prod.fst (toLex.injective (h.one_entry hts hts' rfl))
  · -- the id of the timer is a bijection from the set to the keys of the map
    have hcard : q.mTimerSet.size = q.mTimerSet.items.toFinset.card :=
      (List.toFinset_card_of_nodup q.mTimerSet.nodup).symm
    rw [hcard]
    refine Finset.card_bij (fun e _ => (q.timer (ofLex e).2).mTimerId) ?_ ?_ ?_
    · intro e he
      obtain ⟨t, hlive, _, hlookup⟩ := (h.agree (ofLex e).1 (ofLex e).2).mp (List.mem_toFinset.mp he)
      rw [Finmap.mem_keys, ← Finmap.lookup_isSome, timer_eq hlive, hlookup]
      rfl
    · intro e he e' he' hid
      rw [List.mem_toFinset] at he he'
      obtain ⟨t, hlive, _⟩ := (h.agree (ofLex e).1 (ofLex e).2).mp he
      obtain ⟨t', hlive', _⟩ := (h.agree (ofLex e').1 (ofLex e').2).mp he'
      rw [timer_eq hlive, timer_eq hlive'] at hid
      exact h.one_entry he he' (h.ids _ _ t t' hlive hlive' hid)
    · intro id hid
      rw [Finmap.mem_keys, ← Finmap.lookup_isSome] at hid
      obtain ⟨v, hv⟩ := Option.isSome_iff_exists.mp hid
      obtain ⟨p, t, rfl, hlive, rfl⟩ := hmapped id v hv
      refine ⟨toLex (t.mExpired, p), List.mem_toFinset.mpr ((h.agree _ _).mpr ⟨t, hlive, rfl, hv⟩), ?_⟩
      exact congrArg Timer.mTimerId (timer_eq hlive)

end TimerQueue

/-- The timers that a `handleRead` has taken out and not yet dealt with. -/
def Frame.held : Frame P → List P
  | .next rest => rest
  | .run p rest => p :: rest

namespace TimerLoop

variable {x : TimerLoop P} {pending : Set P} {p : P} {rest : List P} {stack : List (Frame P)}

/-- The timers that are held by any `handleRead`. -/
def held (x : TimerLoop P) : List P := x.stack.flatMap Frame.held

theorem held_eq (h : x.stack = .run p rest :: stack) : x.held = p :: (rest ++ stack.flatMap Frame.held) := by
  rw [held, h]
  rfl

/-- The indexes agree, and a timer that is in neither of them is held once or still to be
inserted. -/
structure Inv (pending : Set P) (x : TimerLoop P) : Prop where
  indexed : x.queue.Indexed ({p | p ∈ x.held} ∪ pending)
  nodup : x.held.Nodup
  apart : ∀ p ∈ pending, p ∉ x.held

theorem inv_new : Inv ∅ (new : TimerLoop P) where
  indexed := TimerQueue.indexed_new.mono fun p hp => by rcases hp with hp | hp <;> cases hp
  nodup := List.nodup_nil
  apart p hp := absurd hp (Set.notMem_empty p)

namespace Inv

theorem live_of_held (h : x.Inv pending) (hp : p ∈ x.held) : ∃ t, x.queue.heap p = .live t := by
  obtain ⟨t, hlive, _⟩ := h.indexed.out p (Or.inl hp)
  exact ⟨t, hlive⟩

/-- A timer that the map leads to is neither held nor still to be inserted. -/
theorem not_out (h : x.Inv pending) {id : Timer_t} (hlookup : x.queue.mTimerIdMap.lookup id = some (some p)) :
    p ∉ x.held ∧ p ∉ pending := by
  obtain ⟨t, hlive, rfl⟩ := h.indexed.owned id p hlookup
  exact ⟨fun hp => h.indexed.not_lookup (Or.inl hp) hlive hlookup,
    fun hp => h.indexed.not_lookup (Or.inr hp) hlive hlookup⟩

theorem AddTimer (h : x.Inv pending) {r : Reads P} (ts : Timestamp) (interval : Interval)
    (hp : x.queue.heap p = .unallocated) : (x.step (.AddTimer r p ts interval)).Inv pending := by
  obtain ⟨hnew, hlive⟩ := h.indexed.newTimer hp ts interval
  have hinsert := hnew.insert r hlive (hnew.not_lookup (Or.inr rfl) hlive)
  refine ⟨hinsert.mono fun p' hp' => ⟨Or.inl hp', fun heq => ?_⟩, h.nodup, h.apart⟩
  -- what is out has been allocated
  obtain ⟨t, hlive', _⟩ := h.indexed.out p' hp'
  rw [show p' = p from heq, hp] at hlive'
  cases hlive'

theorem Remove (h : x.Inv pending) (r : Reads P) (id : Timer_t) : (x.step (.Remove r id)).Inv pending := by
  rcases queue_Remove x r id with ⟨p, hlookup, hqueue⟩ | ⟨_, hqueue⟩
  · obtain ⟨t, hlive, _⟩ := h.indexed.owned id p hlookup
    obtain ⟨hheld, hpending⟩ := h.not_out hlookup
    refine ⟨?_, h.nodup, h.apart⟩
    rw [hqueue]
    refine (h.indexed.deleteTimer r hlive).mono fun p' hp' => ⟨hp', fun heq => ?_⟩
    obtain rfl : p' = p := heq
    exact hp'.elim hheld hpending
  · refine ⟨?_, h.nodup, h.apart⟩
    rw [hqueue]
    exact h.indexed

theorem handleRead (h : x.Inv pending) (r : Reads P) : (x.step (.handleRead r)).Inv pending := by
  have hheld : (x.step (.handleRead r)).held = x.queue.expired r.now ++ x.held := rfl
  -- what has expired was in the map
  have hexpired : ∀ p ∈ x.queue.expired r.now, p ∉ x.held ∧ p ∉ pending := by
    intro p hp
    obtain ⟨t, _, hlookup, _⟩ := h.indexed.live_of_expired hp
    exact h.not_out hlookup
  refine ⟨?_, ?_, fun p hp hp' => ?_⟩
  · rw [hheld]
    refine (h.indexed.findExpiredTimer r.now).mono fun p hp => ?_
    rcases hp with hp | hp
    · exact (List.mem_append.mp hp).elim Or.inr (fun hp => Or.inl (Or.inl hp))
    · exact Or.inl (Or.inr hp)
  · rw [hheld]
    exact (h.indexed.expired_nodup r.now).append h.nodup fun p hp => (hexpired p hp).1
  · rw [hheld] at hp'
    rcases List.mem_append.mp hp' with hp' | hp'
    · exact (hexpired p hp').2 hp
    · exact h.apart p hp hp'

theorem returned (h : x.Inv pending) (r : Reads P) (hstack : x.stack = .run p rest :: stack) :
    (x.step (.returned r)).Inv pending := by
  have hheld := held_eq hstack
  obtain ⟨hp, hnodup⟩ := List.nodup_cons.mp (hheld ▸ h.nodup)
  have hmem : p ∈ x.held := hheld ▸ List.mem_cons_self
  obtain ⟨t, hlive⟩ := h.live_of_held hmem
  rw [step_returned hstack]
  refine ⟨(h.indexed.afterRun r (Or.inl hmem) hlive).mono fun p' hp' => ⟨?_, fun heq => ?_⟩, hnodup,
    fun p' hp' hrest => ?_⟩
  · exact hp'.imp_left fun hrest => hheld ▸ List.mem_cons_of_mem _ hrest
  · obtain rfl : p' = p := heq
    exact hp'.elim hp fun hpending => h.apart p' hpending hmem
  · exact h.apart p' hp' (hheld ▸ List.mem_cons_of_mem _ hrest)

theorem step (h : x.Inv pending) (c : TimerCall P) (hc : x.Enabled c) : (x.step c).Inv pending := by
  cases c with
  | AddTimer r p ts interval => exact h.AddTimer ts interval hc.2
  | Remove r id => exact h.Remove r id
  | ResetTimer r id ts => exact ⟨h.indexed.resetTimer r id ts, h.nodup, h.apart⟩
  | handleRead r => exact h.handleRead r
  | run =>
    obtain ⟨p, rest, stack, hstack⟩ := stack_of_run hc
    have hheld : (x.step .run).held = x.held := by
      rw [held, held, step_run hstack, hstack]
      rfl
    rw [step_run hstack] at hheld ⊢
    exact ⟨hheld ▸ h.indexed, hheld ▸ h.nodup, hheld ▸ h.apart⟩
  | returned r =>
    obtain ⟨p, rest, stack, hstack⟩ := stack_of_returned hc
    exact h.returned r hstack
  | finish r =>
    obtain ⟨stack, hstack⟩ := stack_of_finish hc
    have hheld : (x.step (.finish r)).held = x.held := by
      rw [held, held, step_finish hstack, hstack]
      rfl
    rw [step_finish hstack] at hheld ⊢
    exact ⟨hheld ▸ h.indexed.resetTimerfd r _, hheld ▸ h.nodup, hheld ▸ h.apart⟩
  | elsewhere =>
    obtain ⟨hagree, howned, hids, hcount, hout⟩ := h.indexed
    exact ⟨⟨hagree, howned, hids, fun p t hlive => Nat.lt_succ_of_lt (hcount p t hlive), hout⟩,
      h.nodup, h.apart⟩

end Inv

theorem inv_run {calls : List (TimerCall P)} (hcalls : Along step Enabled (new : TimerLoop P) calls) :
    ((new : TimerLoop P).run calls).Inv ∅ :=
  hcalls.invariant (P := Inv ∅) (fun _ c hx hc => hx.step c hc) inv_new

/-- In the loop's thread a timer is looked up and deleted at once. -/
theorem noNull_step (h : x.queue.NoNull) (c : TimerCall P) (hc : x.Enabled c) : (x.step c).queue.NoNull := by
  cases c with
  | AddTimer r p ts interval =>
    have hnew : (x.queue.newTimer p ts interval).NoNull := h
    exact hnew.insert r p
  | Remove r id =>
    rcases queue_Remove x r id with ⟨p, _, hqueue⟩ | ⟨_, hqueue⟩
    · rw [hqueue]
      exact h.deleteTimer r p
    · rw [hqueue]
      exact h
  | ResetTimer r id ts => exact h.resetTimer r id ts
  | handleRead r => exact h.findExpiredTimer r.now
  | run =>
    obtain ⟨p, rest, stack, hstack⟩ := stack_of_run hc
    rw [step_run hstack]
    exact h
  | returned r =>
    obtain ⟨p, rest, stack, hstack⟩ := stack_of_returned hc
    rw [step_returned hstack]
    exact h.afterRun r p
  | finish r =>
    obtain ⟨stack, hstack⟩ := stack_of_finish hc
    rw [step_finish hstack]
    exact h
  | elsewhere => exact h

theorem noNull_run {calls : List (TimerCall P)} (hcalls : Along step Enabled (new : TimerLoop P) calls) :
    ((new : TimerLoop P).run calls).queue.NoNull := by
  refine hcalls.invariant (P := fun x => x.queue.NoNull) (fun _ c hx hc => noNull_step hx c hc) fun id h => ?_
  rw [show (new : TimerLoop P).queue.mTimerIdMap = ∅ from rfl, Finmap.lookup_empty] at h
  cases h

/-- After any calls, made outside `handleRead` or in callbacks, the set and the map describe
the same timers. -/
theorem sameTimers_run {calls : List (TimerCall P)} (hcalls : Along step Enabled (new : TimerLoop P) calls) :
    ((new : TimerLoop P).run calls).queue.SameTimers :=
  (inv_run hcalls).indexed.sameTimers (noNull_run hcalls)

/-- One timer is repeating and resets the other from its callback, in which it also removes
itself. -/
theorem sameTimers_run_two :
    ((new : TimerLoop Nat).run
      [.AddTimer ⟨1, 0, none⟩ 10 5 ⟨true, 3⟩, .AddTimer ⟨1, 0, none⟩ 11 7 ⟨false, 0⟩,
        .handleRead ⟨6, 0, none⟩, .run, .ResetTimer ⟨6, 0, none⟩ 1 9, .Remove ⟨6, 0, none⟩ 0,
        .returned ⟨6, 0, none⟩, .finish ⟨6, 0, none⟩]).queue.SameTimers :=
  sameTimers_run (by decide +kernel)

end TimerLoop
end Knpnl.Event
