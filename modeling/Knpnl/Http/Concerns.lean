import Knpnl.Http.Stages

/-!
# The invariant of the server

Descriptors are used again, so the maps speak of connections only together with the tasks in
flight. A step of a loop concerns one connection at most, and leaves the stages of all others
where they are.
-/
namespace Knpnl.Http

open Event
open Net (TcpConnection)
open Function (update)

namespace TcpServer

variable {ι : Type*}

/-- The descriptor and the loop of a connection. -/
def ident (s : TcpServer ι) (c : Nat) : Option (Nat × ι) := (s.conns c).map fun x => (x.fd, x.mLoop)

theorem ident_of_conn {s : TcpServer ι} {c : Nat} {x : Conn ι} (h : s.conns c = some x) :
    s.ident c = some (x.fd, x.mLoop) := by
  rw [ident, h]
  rfl

theorem conn_of_ident {s : TcpServer ι} {c fd : Nat} {i : ι} (h : s.ident c = some (fd, i)) :
    ∃ x, s.conns c = some x ∧ x.fd = fd ∧ x.mLoop = i := by
  obtain ⟨x, hx, heq⟩ := Option.map_eq_some_iff.mp h
  exact ⟨x, hx, Prod.mk.inj heq⟩

theorem ident_eq {s : TcpServer ι} {c fd : Nat} {i : ι} {x : Conn ι} (hx : s.conns c = some x)
    (h : s.ident c = some (fd, i)) : x.fd = fd ∧ x.mLoop = i := by
  obtain ⟨x', hx', hid⟩ := conn_of_ident h
  rwa [Option.some.inj (hx.symm.trans hx')]

/-- An active channel is in the poller, and if its connection has been closed then it was not
reported for input or output. -/
def Reported (s : TcpServer ι) (i : ι) (a : Nat × UInt32) : Prop :=
  ∃ x, s.conns a.1 = some x ∧ s.channelMap i x.fd = some (.conn a.1) ∧
    (¬ x.tcp.isOpen → HttpServer.Failure a.2)

variable [DecidableEq ι]

/-- How many of a task are queued or about to be. -/
def flight (s : TcpServer ι) (t : ConnTask ι) : Nat :=
  (s.loops t.runsIn).pending.count t + (s.loops t.queuedBy).queueing.count t

def view (s : TcpServer ι) (c : Nat) (x : Conn ι) : View where
  tcp := x.tcp
  entry := s.connMap x.fd
  channel := s.channelMap x.mLoop x.fd
  tasks func := s.flight (x.bind c func)

/-- No two connections have one descriptor, the maps and the queues refer to connections that
exist, and each connection is in one of the stages. -/
structure Inv (own : ι → List Nat) (s : TcpServer ι) : Prop where
  fresh : ∀ c, s.next ≤ c → s.conns c = none
  unique : ∀ {c c' fd i i'}, s.ident c = some (fd, i) → s.ident c' = some (fd, i') → c = c'
  unowned : ∀ {c fd i}, s.ident c = some (fd, i) → ∀ j, fd ∉ own j
  connMap : ∀ {fd c}, s.connMap fd = some c → ∃ i, s.ident c = some (fd, i)
  channelMap : ∀ {i fd c}, s.channelMap i fd = some (.conn c) → s.ident c = some (fd, i)
  owned : ∀ {i fd}, s.channelMap i fd = some .own → fd ∈ own i
  pending : ∀ {l t}, t ∈ (s.loops l).pending → t.runsIn = l ∧ ∃ fd, s.ident t.conn = some (fd, t.ioLoop)
  queueing : ∀ {l t}, t ∈ (s.loops l).queueing →
    t.queuedBy = l ∧ ∃ fd, s.ident t.conn = some (fd, t.ioLoop)
  distinct : ∀ i, ((s.loops (some i)).activeChannel.map Prod.fst).Nodup
  reported : ∀ {i a}, a ∈ (s.loops (some i)).activeChannel → s.Reported i a
  unfailed : s.faults = []
  stage : ∀ {c x}, s.conns c = some x → (s.view c x).Stage c

variable {own : ι → List Nat} {s s' : TcpServer ι}

/-- Only the loops have changed, and no task has been lost or added. -/
theorem Inv.with_loops (h : Inv own s) (hs' : s' = { s with loops := s'.loops })
    (hflight : ∀ t, s'.flight t = s.flight t)
    (hpending : ∀ {l t}, t ∈ (s'.loops l).pending → t.runsIn = l ∧ ∃ fd, s.ident t.conn = some (fd, t.ioLoop))
    (hqueueing : ∀ {l t}, t ∈ (s'.loops l).queueing →
      t.queuedBy = l ∧ ∃ fd, s.ident t.conn = some (fd, t.ioLoop))
    (hdistinct : ∀ i, ((s'.loops (some i)).activeChannel.map Prod.fst).Nodup)
    (hreported : ∀ {i a}, a ∈ (s'.loops (some i)).activeChannel → s.Reported i a) : Inv own s' := by
  obtain ⟨conns, next, connMap, channelMap, loops, faults⟩ := s'
  cases hs'
  refine ⟨h.fresh, h.unique, h.unowned, h.connMap, h.channelMap, h.owned, hpending, hqueueing, hdistinct,
    hreported, h.unfailed, fun {c x} hx => ?_⟩
  have hview : view { s with loops := loops } c x = s.view c x := by
    simp only [view, hflight]
  rw [hview]
  exact h.stage hx

/-- The thread of `l` goes on without running or queueing a task. -/
theorem Inv.with_loop (h : Inv own s) {l : Option ι} {L : ConnLoop ι}
    (hpending : L.pending = (s.loops l).pending) (hqueueing : L.queueing = (s.loops l).queueing)
    (hdistinct : (L.activeChannel.map Prod.fst).Nodup)
    (hreported : ∀ i, l = some i → ∀ a ∈ L.activeChannel, s.Reported i a) :
    Inv own { s with loops := update s.loops l L } := by
  have hsame : ∀ l', (update s.loops l L l').pending = (s.loops l').pending ∧
      (update s.loops l L l').queueing = (s.loops l').queueing := by
    intro l'
    by_cases hl : l' = l
    · subst hl
      simp only [Function.update_self]
      exact ⟨hpending, hqueueing⟩
    · rw [Function.update_of_ne hl]
      exact ⟨rfl, rfl⟩
  apply h.with_loops rfl
  · intro t
    simp only [flight, hsame]
  · intro l' t ht
    rw [(hsame l').1] at ht
    exact h.pending ht
  · intro l' t ht
    rw [(hsame l').2] at ht
    exact h.queueing ht
  · intro i
    by_cases hi : some i = l
    · simpa only [← hi, Function.update_self] using hdistinct
    · simpa only [Function.update_of_ne hi] using h.distinct i
  · intro i a ha
    dsimp only at ha
    by_cases hi : some i = l
    · rw [← hi, Function.update_self] at ha
      exact hreported i hi.symm a ha
    · rw [Function.update_of_ne hi] at ha
      exact h.reported ha

theorem Inv.poll (h : Inv own s) {l : Option ι} {activeChannel : List (Nat × UInt32)} (hat : s.At l .poll)
    (hcan : s.CanReport l activeChannel) : Inv own (s.proceed l (.events activeChannel) []) := by
  obtain ⟨hphase, hidle⟩ := hat
  apply h.with_loop
  · simp only [ConnLoop.pending, hphase]
  · exact hidle.symm
  · cases l with
    | none =>
      obtain rfl : activeChannel = [] := hcan
      exact List.nodup_nil
    | some i => exact hcan.1
  · rintro i rfl a ha
    obtain ⟨x, hx, hchannel, hevents⟩ := hcan.2 a ha
    refine ⟨x, hx, hchannel, fun hclosed => ?_⟩
    -- the mask of a connection that has been closed is empty
    have hview : (s.view a.1 x).channel = some (.conn a.1) := by
      rw [view, (ident_eq hx (h.channelMap hchannel)).2]
      exact hchannel
    have hregistered : x.tcp.mChannel.registered = 0 := by
      have hclosing : View.Closing x.tcp := by
        cases h.stage hx with
        | connecting isOpen | connected isOpen => exact absurd isOpen hclosed
        | closing closing | removing closing => exact closing
        | closed _ _ _ channel => exact absurd (hview.symm.trans channel) (by simp)
      exact hclosing.synced.trans (of_decide_eq_true hclosing.idle)
    rw [hregistered, UInt32.zero_or] at hevents
    exact hevents

theorem Inv.swap (h : Inv own s) {l : Option ι} (hat : s.At l (.events [])) : Inv own (s.swap l) := by
  obtain ⟨hphase, hidle⟩ := hat
  apply h.with_loop
  · simp only [ConnLoop.pending, hphase, List.append_nil]
  · exact hidle.symm
  · exact List.nodup_nil
  · rintro i rfl a ha
    cases ha

theorem Inv.ranAll (h : Inv own s) {l : Option ι} {ran : List (ConnTask ι)} (hat : s.At l (.tasks ran [])) :
    Inv own (s.proceed l .poll []) := by
  obtain ⟨hphase, hidle⟩ := hat
  apply h.with_loop
  · simp only [ConnLoop.pending, hphase, List.nil_append]
  · exact hidle.symm
  · exact List.nodup_nil
  · rintro i rfl a ha
    cases ha

omit [DecidableEq ι] in
theorem pending_append (L : ConnLoop ι) (ts queueing : List (ConnTask ι)) :
    ConnLoop.pending ⟨L.mTasks ++ ts, L.phase, queueing⟩ = L.pending ++ ts := by
  obtain ⟨mTasks, phase, _⟩ := L
  cases phase with
  | tasks ran rest => exact (List.append_assoc ..).symm
  | _ => rfl

/-- The task is behind the others in the queue of the loop that runs it. -/
theorem loops_QueueInLoop (s : TcpServer ι) (l : Option ι) (t : ConnTask ι) (rest : List (ConnTask ι))
    (l' : Option ι) : (s.QueueInLoop l t rest).loops l' =
      ⟨(s.loops l').mTasks ++ (if l' = t.runsIn then [t] else []), (s.loops l').phase,
        if l' = l then rest else (s.loops l').queueing⟩ := by
  have hloop : update s.loops l { s.loops l with queueing := rest } l' =
      ⟨(s.loops l').mTasks, (s.loops l').phase, if l' = l then rest else (s.loops l').queueing⟩ := by
    by_cases hl : l' = l
    · rw [hl, Function.update_self, if_pos rfl]
    · rw [Function.update_of_ne hl, if_neg hl]
  unfold QueueInLoop
  dsimp only
  by_cases hr : l' = t.runsIn
  · rw [if_pos hr, ← hr, Function.update_self, hloop]
  · rw [if_neg hr, Function.update_of_ne hr, hloop, List.append_nil]

/-- A task that is pushed was in flight before. -/
theorem Inv.QueueInLoop (h : Inv own s) {l : Option ι} {t : ConnTask ι} {rest : List (ConnTask ι)}
    (hat : (s.loops l).queueing = t :: rest) : Inv own (s.QueueInLoop l t rest) := by
  have hmem : t ∈ (s.loops l).queueing := by rw [hat]; exact List.mem_cons_self
  obtain ⟨hby, hident⟩ := h.queueing hmem
  apply h.with_loops rfl
  · intro t'
    rw [flight, loops_QueueInLoop, loops_QueueInLoop, pending_append, List.count_append, flight]
    dsimp only
    by_cases ht : t' = t
    · subst ht
      rw [if_pos rfl, if_pos hby, hby, hat, List.count_singleton_self, List.count_cons_self]
      omega
    · have hne : ¬ t = t' := fun heq => ht heq.symm
      have hzero : (if t'.runsIn = t.runsIn then [t] else []).count t' = 0 := by
        split
        · exact List.count_eq_zero.mpr (by simpa using ht)
        · rfl
      rw [hzero]
      split
      · rename_i hl
        rw [hl, hat, List.count_cons_of_ne hne]
        omega
      · omega
  · intro l' t' ht'
    rw [loops_QueueInLoop, pending_append, List.mem_append] at ht'
    rcases ht' with hold | hnew
    · exact h.pending hold
    · split at hnew
      · rename_i hl
        obtain rfl := List.mem_singleton.mp hnew
        exact ⟨hl.symm, hident⟩
      · cases hnew
  · intro l' t' ht'
    rw [loops_QueueInLoop] at ht'
    dsimp only at ht'
    split at ht'
    · rename_i hl
      refine h.queueing (l := l') ?_
      rw [hl, hat]
      exact List.mem_cons_of_mem t ht'
    · exact h.queueing ht'
  · intro i
    rw [loops_QueueInLoop]
    exact h.distinct i
  · intro i a ha
    rw [loops_QueueInLoop] at ha
    exact h.reported ha

/-- Of what the server knows, only `c` has changed, which is now `x`. -/
structure Touches (s s' : TcpServer ι) (c : Nat) (x : Conn ι) : Prop where
  conns : s'.conns = update s.conns c (some x)
  next : s.next ≤ s'.next ∧ c < s'.next
  connMap : ∀ fd, fd ≠ x.fd → s'.connMap fd = s.connMap fd
  channelMap : ∀ i fd, (i, fd) ≠ (x.mLoop, x.fd) → s'.channelMap i fd = s.channelMap i fd
  faults : s'.faults = s.faults

/-- `s'` is `s` after a step of the thread of `l` that concerned `c` alone: the thread has run
`ran` and is to queue `queued`. -/
structure Concerns (own : ι → List Nat) (s s' : TcpServer ι) (l : Option ι) (c : Nat) (x : Conn ι)
    (ran queued : List (ConnTask ι)) : Prop extends Touches s s' c x where
  kept : ∀ {p}, s.ident c = some p → p = (x.fd, x.mLoop)
  unique : ∀ {c' i}, s.ident c' = some (x.fd, i) → c' = c
  unowned : ∀ i, x.fd ∉ own i
  others : ∀ l', l' ≠ l → s'.loops l' = s.loops l'
  pending : (s.loops l).pending = ran ++ (s'.loops l).pending
  idle : (s.loops l).queueing = []
  queueing : (s'.loops l).queueing = queued
  ran : ∀ t ∈ ran, t.conn = c
  queued : ∀ t ∈ queued, t.conn = c ∧ t.ioLoop = x.mLoop ∧ t.queuedBy = l
  active : (s'.loops l).activeChannel <:+ (s.loops l).activeChannel
  seen : ∀ {i a}, a ∈ (s'.loops (some i)).activeChannel → a.1 = c →
    s.conns c = some x ∧ s'.channelMap = s.channelMap

namespace Concerns

variable {l : Option ι} {c : Nat} {x : Conn ι} {ran queued : List (ConnTask ι)}

/-- The tasks in flight, before and after. -/
theorem flight (hc : Concerns own s s' l c x ran queued) (h : Inv own s) (t : ConnTask ι) :
    s'.flight t + ran.count t = s.flight t + queued.count t := by
  have hpending : (s'.loops t.runsIn).pending.count t + ran.count t = (s.loops t.runsIn).pending.count t := by
    by_cases hl : t.runsIn = l
    · rw [hl, hc.pending, List.count_append]
      omega
    · have hnot : t ∉ ran := by
        intro ht
        have hmem : t ∈ (s.loops l).pending := by
          rw [hc.pending]
          exact List.mem_append_left _ ht
        exact hl (h.pending hmem).1
      rw [hc.others _ hl, List.count_eq_zero.mpr hnot, Nat.add_zero]
  have hqueueing : (s'.loops t.queuedBy).queueing.count t =
      (s.loops t.queuedBy).queueing.count t + queued.count t := by
    by_cases hl : t.queuedBy = l
    · rw [hl, hc.queueing, hc.idle, List.count_nil, Nat.zero_add]
    · have hnot : t ∉ queued := fun ht => hl (hc.queued t ht).2.2
      rw [hc.others _ hl, List.count_eq_zero.mpr hnot, Nat.add_zero]
  rw [TcpServer.flight, TcpServer.flight, hqueueing, ← hpending]
  omega

omit [DecidableEq ι] in
theorem conns_of_ne (hc : Concerns own s s' l c x ran queued) {c' : Nat} (hne : c' ≠ c) :
    s'.conns c' = s.conns c' := by
  rw [hc.conns, Function.update_of_ne hne]

omit [DecidableEq ι] in
theorem conns_self (hc : Concerns own s s' l c x ran queued) : s'.conns c = some x := by
  rw [hc.conns, Function.update_self]

omit [DecidableEq ι] in
theorem ident_of_ne (hc : Concerns own s s' l c x ran queued) {c' : Nat} (hne : c' ≠ c) :
    s'.ident c' = s.ident c' := by
  rw [ident, ident, hc.conns_of_ne hne]

omit [DecidableEq ι] in
theorem ident_cases (hc : Concerns own s s' l c x ran queued) {c' fd : Nat} {i : ι}
    (h : s'.ident c' = some (fd, i)) : c' = c ∧ x.fd = fd ∨ c' ≠ c ∧ s.ident c' = some (fd, i) := by
  by_cases hne : c' = c
  · subst hne
    exact Or.inl ⟨rfl, (ident_eq hc.conns_self h).1⟩
  · rw [hc.ident_of_ne hne] at h
    exact Or.inr ⟨hne, h⟩

omit [DecidableEq ι] in
theorem ident_kept (hc : Concerns own s s' l c x ran queued) {c' : Nat} {p : Nat × ι}
    (hp : s.ident c' = some p) : s'.ident c' = some p := by
  by_cases hne : c' = c
  · subst hne
    rw [ident_of_conn hc.conns_self, hc.kept hp]
  · rwa [hc.ident_of_ne hne]

/-- The view of another connection stays as it is. -/
theorem view_of_ne (hc : Concerns own s s' l c x ran queued) (h : Inv own s) {c' : Nat} {x' : Conn ι}
    (hne : c' ≠ c) (hx' : s.conns c' = some x') : s'.view c' x' = s.view c' x' := by
  have hfd : x'.fd ≠ x.fd := by
    intro hfd
    apply hne
    apply hc.unique (i := x'.mLoop)
    rw [ident_of_conn hx', hfd]
  have htasks : ∀ func, s'.flight (x'.bind c' func) = s.flight (x'.bind c' func) := by
    intro func
    have hran : x'.bind c' func ∉ ran := fun ht => hne (hc.ran _ ht)
    have hqueued : x'.bind c' func ∉ queued := fun ht => hne (hc.queued _ ht).1
    have hflight := hc.flight h (x'.bind c' func)
    rwa [List.count_eq_zero.mpr hran, List.count_eq_zero.mpr hqueued] at hflight
  have hchannel := hc.channelMap x'.mLoop x'.fd fun heq => hfd (Prod.mk.inj heq).2
  simp only [view, htasks, hc.connMap _ hfd, hchannel]

/-- A channel in a poller is the connection's own, or was there before. -/
theorem channelMap_cases (hc : Concerns own s s' l c x ran queued) (hstage : (s'.view c x).Stage c) {i : ι}
    {fd : Nat} {e : Entry} (h' : s'.channelMap i fd = some e) :
    (i, fd) = (x.mLoop, x.fd) ∧ e = .conn c ∨ s.channelMap i fd = some e := by
  by_cases hself : (i, fd) = (x.mLoop, x.fd)
  · left
    refine ⟨hself, ?_⟩
    obtain ⟨rfl, rfl⟩ := Prod.mk.inj hself
    rcases hstage.channel_cases with hchannel | hchannel
    · exact Option.some.inj (h'.symm.trans hchannel)
    · cases h'.symm.trans hchannel
  · right
    rwa [← hc.channelMap i fd hself]

/-- A step that concerns one connection keeps the invariant if it leaves that connection in one
of the stages. -/
theorem inv (hc : Concerns own s s' l c x ran queued) (h : Inv own s) (hstage : (s'.view c x).Stage c) :
    Inv own s' where
  fresh c' hc' := by
    have hnext := hc.next
    rw [hc.conns_of_ne (by omega)]
    exact h.fresh c' (by omega)
  unique {c₁ c₂ fd i₁ i₂} h₁ h₂ := by
    rcases hc.ident_cases h₁ with ⟨rfl, rfl⟩ | ⟨_, h₁⟩
    · rcases hc.ident_cases h₂ with ⟨rfl, _⟩ | ⟨_, h₂⟩
      · rfl
      · exact (hc.unique h₂).symm
    · rcases hc.ident_cases h₂ with ⟨rfl, rfl⟩ | ⟨_, h₂⟩
      · exact hc.unique h₁
      · exact h.unique h₁ h₂
  unowned {c' fd i} h' := by
    rcases hc.ident_cases h' with ⟨_, rfl⟩ | ⟨_, h'⟩
    · exact hc.unowned
    · exact h.unowned h'
  connMap {fd c'} h' := by
    by_cases hfd : fd = x.fd
    · subst hfd
      rcases hstage.entry_cases with hentry | hentry
      · obtain rfl := Option.some.inj (h'.symm.trans hentry)
        exact ⟨x.mLoop, ident_of_conn hc.conns_self⟩
      · exact absurd (h'.symm.trans hentry) (by simp)
    · rw [hc.connMap fd hfd] at h'
      obtain ⟨i, hi⟩ := h.connMap h'
      exact ⟨i, hc.ident_kept hi⟩
  channelMap {i fd c'} h' := by
    rcases hc.channelMap_cases hstage h' with ⟨hself, hentry⟩ | h'
    · obtain ⟨rfl, rfl⟩ := Prod.mk.inj hself
      cases hentry
      exact ident_of_conn hc.conns_self
    · exact hc.ident_kept (h.channelMap h')
  owned {i fd} h' := by
    rcases hc.channelMap_cases hstage h' with ⟨_, hentry⟩ | h'
    · cases hentry
    · exact h.owned h'
  pending {l' t} ht := by
    have hmem : t ∈ (s.loops l').pending := by
      by_cases hl : l' = l
      · subst hl
        rw [hc.pending]
        exact List.mem_append_right _ ht
      · rwa [hc.others l' hl] at ht
    obtain ⟨hruns, fd, hident⟩ := h.pending hmem
    exact ⟨hruns, fd, hc.ident_kept hident⟩
  queueing {l' t} ht := by
    by_cases hl : l' = l
    · subst hl
      rw [hc.queueing] at ht
      obtain ⟨rfl, hloop, hby⟩ := hc.queued t ht
      exact ⟨hby, x.fd, by rw [hloop, ident_of_conn hc.conns_self]⟩
    · rw [hc.others l' hl] at ht
      obtain ⟨hby, fd, hident⟩ := h.queueing ht
      exact ⟨hby, fd, hc.ident_kept hident⟩
  distinct i := by
    by_cases hl : some i = l
    · subst hl
      exact (h.distinct i).sublist (hc.active.sublist.map _)
    · rw [hc.others _ hl]
      exact h.distinct i
  reported {i a} ha := by
    have hmem : a ∈ (s.loops (some i)).activeChannel := by
      by_cases hl : some i = l
      · subst hl
        exact hc.active.mem ha
      · rwa [hc.others _ hl] at ha
    obtain ⟨x', hx', hchannel, hclosed⟩ := h.reported hmem
    by_cases hne : a.1 = c
    · obtain ⟨hx, hsame⟩ := hc.seen ha hne
      rw [hne, hx] at hx'
      obtain rfl := Option.some.inj hx'
      exact ⟨x, by rw [hne, hc.conns_self], by rw [hsame, hchannel], hclosed⟩
    · have hfd : (i, x'.fd) ≠ (x.mLoop, x.fd) := by
        intro heq
        obtain ⟨-, hfd⟩ := Prod.mk.inj heq
        apply hne
        apply hc.unique (i := x'.mLoop)
        rw [ident_of_conn hx', hfd]
      exact ⟨x', by rw [hc.conns_of_ne hne, hx'], by rw [hc.channelMap _ _ hfd, hchannel], hclosed⟩
  unfailed := hc.faults.trans h.unfailed
  stage {c' x'} hx' := by
    by_cases hne : c' = c
    · subst hne
      obtain rfl := Option.some.inj (hc.conns_self.symm.trans hx')
      exact hstage
    · rw [hc.conns_of_ne hne] at hx'
      rw [hc.view_of_ne h hne hx']
      exact h.stage hx'

end Concerns

omit [DecidableEq ι] in
theorem assert_true (s : TcpServer ι) (fault : Fault) : s.assert true fault = s := rfl

theorem Mod_self {i : ι} {fd c : Nat} (h : s.channelMap i fd = some (.conn c)) : s.Mod i fd c = s := by
  rw [Mod, h, Option.isSome_some, assert_true, setChannel, ← h, Function.update_eq_self,
    Function.update_eq_self]

/-- The poller may be asked for a mask of a channel that it has. -/
theorem handled_eq {c : Nat} {x : Conn ι} {mods : List UInt32} (tcp : TcpConnection HttpContext)
    (h : s.channelMap x.mLoop x.fd = some (.conn c)) :
    s.handled c x tcp mods = s.setConn c { x with tcp := tcp } := by
  have hmods : mods.foldl (fun s _ => s.Mod x.mLoop x.fd c) s = s := by
    induction mods with
    | nil => rfl
    | cons op mods ih =>
      rw [List.foldl_cons, Mod_self h]
      exact ih
  rw [handled, hmods]

theorem channelMap_setChannel (s : TcpServer ι) (i : ι) (fd : Nat) (e : Option Entry) :
    (s.setChannel i fd e).channelMap i fd = e := by
  simp only [setChannel, Function.update_self]

theorem channelMap_setChannel_of_ne (s : TcpServer ι) (e : Option Entry) {i j : ι} {fd fd' : Nat}
    (hne : (j, fd') ≠ (i, fd)) : (s.setChannel i fd e).channelMap j fd' = s.channelMap j fd' := by
  unfold setChannel
  dsimp only
  by_cases hj : j = i
  · subst hj
    rw [Function.update_self, Function.update_of_ne]
    rintro rfl
    exact hne rfl
  · rw [Function.update_of_ne hj]

theorem Established_eq {c : Nat} {x : Conn ι} (h : s.channelMap x.mLoop x.fd = none) :
    s.Established c x = (s.setChannel x.mLoop x.fd (some (.conn c))).setConn c
      { x with tcp := x.tcp.Established HttpServer.connectedCb } := by
  have hadd : s.Add x.mLoop x.fd c = s.setChannel x.mLoop x.fd (some (.conn c)) := by
    rw [Add, h, Option.isNone_none, assert_true]
  rw [Established, hadd, Mod_self (channelMap_setChannel ..)]

theorem Destroy_eq {c : Nat} {x : Conn ι} (hx : s.conns c = some x)
    (hchannel : s.channelMap x.mLoop x.fd = some (.conn c)) (hidle : x.tcp.mChannel.isIdle = true) :
    s.Destroy c x = (s.setChannel x.mLoop x.fd none).setConn c
      { x with tcp := { x.tcp with mState := .CLOSED } } := by
  have hentry : (s.channelMap x.mLoop x.fd).any s.isIdle = true := by
    rw [hchannel, Option.any_some, isIdle, hx, Option.any_some, hidle]
  rw [Destroy, hidle, assert_true, Delete, hentry, hchannel, Option.isSome_some, assert_true, assert_true]

omit [DecidableEq ι] in
theorem removeInLoop_eq {x : Conn ι} {c : Nat} (h : s.connMap x.fd = some c) :
    s.removeInLoop x = { s with connMap := update s.connMap x.fd none } := by
  rw [removeInLoop, h, Option.isSome_some, assert_true]

omit [DecidableEq ι] in
theorem newConnection_eq {connfd : Nat} (ioLoop : ι) (tcp : TcpConnection HttpContext)
    (h : s.connMap connfd = none) :
    s.newConnection connfd ioLoop tcp = { s with
      conns := update s.conns s.next (some ⟨tcp, connfd, ioLoop⟩)
      next := s.next + 1
      connMap := update s.connMap connfd (some s.next) } := by
  rw [newConnection, h, Option.isNone_none, assert_true]

omit [DecidableEq ι] in
theorem touches_setConn {c : Nat} {x : Conn ι} (hlt : c < s.next) : Touches s (s.setConn c x) c x where
  conns := rfl
  next := ⟨le_rfl, hlt⟩
  connMap _ _ := rfl
  channelMap _ _ _ := rfl
  faults := rfl

theorem touches_setChannel {c : Nat} {x : Conn ι} (hlt : c < s.next) (e : Option Entry) :
    Touches s ((s.setChannel x.mLoop x.fd e).setConn c x) c x where
  conns := rfl
  next := ⟨le_rfl, hlt⟩
  connMap _ _ := rfl
  channelMap _ _ hne := channelMap_setChannel_of_ne s e hne
  faults := rfl

end TcpServer
end Knpnl.Http
