import Knpnl.Http.Concerns

/-!
# The bookkeeping of connections

Each task and each event takes its connection to the next stage, `accept` begins with the
first stage and `~TcpConnection` comes after the last. So in every run the maps are exact and
no assertion fails.
-/
namespace Knpnl.Http

open Base (Recv)
open Event
open Net (TcpConnection Writev)
open Net.TcpConnection (Moves)
open Function (update)

namespace TcpServer

variable {ι : Type*} [DecidableEq ι] {own : ι → List Nat} {s s' : TcpServer ι}

theorem loops_proceed (s : TcpServer ι) (l : Option ι) (phase : LoopPhase ι) (queued : List (ConnTask ι)) :
    (s.proceed l phase queued).loops l = ⟨(s.loops l).mTasks, phase, queued⟩ :=
  Function.update_self ..

theorem Inv.lt_next (h : Inv own s) {c : Nat} {x : Conn ι} (hx : s.conns c = some x) : c < s.next := by
  by_contra hle
  rw [h.fresh c (not_lt.mp hle)] at hx
  cases hx

/-- An active connection belongs to the loop. -/
theorem Inv.active_loop (h : Inv own s) {i : ι} {a : Nat × UInt32} {x : Conn ι}
    (ha : a ∈ (s.loops (some i)).activeChannel) (hx : s.conns a.1 = some x) :
    i = x.mLoop ∧ s.channelMap x.mLoop x.fd = some (.conn a.1) ∧
      (¬ x.tcp.isOpen → HttpServer.Failure a.2) := by
  obtain ⟨x', hx', hchannel, hclosed⟩ := h.reported ha
  obtain rfl := Option.some.inj (hx.symm.trans hx')
  obtain ⟨-, rfl⟩ := ident_eq hx (h.channelMap hchannel)
  exact ⟨rfl, hchannel, hclosed⟩

section
variable {s₁ : TcpServer ι} {l : Option ι} {c : Nat} {x x₁ : Conn ι} {queued : List (ConnTask ι)}

/-- A step of the thread of `l` that concerned a connection which stays on its loop, with its
descriptor. -/
theorem Touches.proceed (ht : Touches s s₁ c x₁) (hloops : s₁.loops = s.loops) (h : Inv own s)
    (hx : s.conns c = some x) (hid : (x₁.fd, x₁.mLoop) = (x.fd, x.mLoop)) {phase : LoopPhase ι}
    {ran : List (ConnTask ι)} (hidle : (s.loops l).queueing = [])
    (hpending : (s.loops l).pending = ran ++ ((s₁.proceed l phase queued).loops l).pending)
    (hran : ∀ t ∈ ran, t.conn = c)
    (hqueued : ∀ t ∈ queued, t.conn = c ∧ t.ioLoop = x.mLoop ∧ t.queuedBy = l)
    (hactive : ((s₁.proceed l phase queued).loops l).activeChannel <:+ (s.loops l).activeChannel)
    (hseen : x₁ = x ∧ s₁.channelMap = s.channelMap ∨
      l = some x.mLoop ∧ ∀ a ∈ ((s₁.proceed l phase queued).loops l).activeChannel, a.1 ≠ c) :
    Concerns own s (s₁.proceed l phase queued) l c x₁ ran queued := by
  obtain ⟨hfd, hloop⟩ := Prod.mk.inj hid
  have hident := ident_of_conn hx
  have hothers : ∀ l', l' ≠ l → (s₁.proceed l phase queued).loops l' = s.loops l' := by
    intro l' hl
    rw [TcpServer.proceed, hloops]
    exact Function.update_of_ne hl ..
  refine ⟨⟨ht.conns, ht.next, ht.connMap, ht.channelMap, ht.faults⟩, ?_, ?_, ?_, hothers, hpending, hidle, ?_,
    hran, ?_, hactive, ?_⟩
  · intro p hp
    rw [hident] at hp
    rw [hid, Option.some.inj hp]
  · intro c' i hc'
    rw [hfd] at hc'
    exact h.unique hc' hident
  · rw [hfd]
    exact h.unowned hident
  · rw [loops_proceed]
  · rw [hloop]
    exact hqueued
  · intro i a ha hac
    rcases hseen with ⟨rfl, hsame⟩ | ⟨hl, hnot⟩
    · exact ⟨hx, hsame⟩
    · by_cases hi : some i = l
      · rw [hi] at ha
        exact absurd hac (hnot a ha)
      · rw [hothers _ hi] at ha
        have hloop := (h.active_loop ha (hac ▸ hx)).1
        exact absurd (by rw [hloop, hl]) hi

theorem Touches.task (ht : Touches s s₁ c x₁) (hloops : s₁.loops = s.loops) (h : Inv own s)
    (hx : s.conns c = some x) (hid : (x₁.fd, x₁.mLoop) = (x.fd, x.mLoop)) {t : ConnTask ι}
    {ran rest : List (ConnTask ι)} (hat : s.At l (.tasks ran (t :: rest))) (hconn : t.conn = c)
    (hqueued : ∀ t ∈ queued, t.conn = c ∧ t.ioLoop = x.mLoop ∧ t.queuedBy = l)
    (hseen : x₁ = x ∧ s₁.channelMap = s.channelMap ∨ l = some x.mLoop) :
    Concerns own s (s₁.proceed l (.tasks (ran ++ [t]) rest) queued) l c x₁ [t] queued := by
  obtain ⟨hphase, hidle⟩ := hat
  have hloop : (s₁.proceed l (.tasks (ran ++ [t]) rest) queued).loops l =
      ⟨(s.loops l).mTasks, .tasks (ran ++ [t]) rest, queued⟩ := by
    rw [loops_proceed, hloops]
  refine ht.proceed hloops h hx hid hidle ?_ ?_ hqueued ?_ (hseen.imp_right fun hl => ⟨hl, ?_⟩)
  · rw [hloop]
    simp only [ConnLoop.pending, hphase, List.cons_append, List.nil_append]
  · intro t' ht'
    rw [List.mem_singleton.mp ht', hconn]
  · rw [hloop]
    exact List.nil_suffix
  · intro a ha
    rw [hloop] at ha
    cases ha

theorem Touches.event (ht : Touches s s₁ c x₁) (hloops : s₁.loops = s.loops) (h : Inv own s)
    (hx : s.conns c = some x) (hid : (x₁.fd, x₁.mLoop) = (x.fd, x.mLoop)) {rEvent : UInt32}
    {rest : List (Nat × UInt32)} (hat : s.At (some x.mLoop) (.events ((c, rEvent) :: rest)))
    (hqueued : ∀ t ∈ queued, t.conn = c ∧ t.ioLoop = x.mLoop ∧ t.queuedBy = some x.mLoop) :
    Concerns own s (s₁.proceed (some x.mLoop) (.events rest) queued) (some x.mLoop) c x₁ [] queued := by
  obtain ⟨hphase, hidle⟩ := hat
  have hloop : (s₁.proceed (some x.mLoop) (.events rest) queued).loops (some x.mLoop) =
      ⟨(s.loops (some x.mLoop)).mTasks, .events rest, queued⟩ := by
    rw [loops_proceed, hloops]
  have hactive : (s.loops (some x.mLoop)).activeChannel = (c, rEvent) :: rest := by
    simp only [ConnLoop.activeChannel, hphase]
  refine ht.proceed hloops h hx hid hidle ?_ (fun t ht => by cases ht) hqueued ?_ (Or.inr ⟨rfl, ?_⟩)
  · rw [hloop]
    simp only [ConnLoop.pending, hphase, List.nil_append]
  · rw [hloop, hactive]
    exact List.suffix_cons ..
  · intro a ha hac
    rw [hloop] at ha
    have hdistinct := h.distinct x.mLoop
    rw [hactive, List.map_cons, List.nodup_cons] at hdistinct
    exact hdistinct.1 (List.mem_map.mpr ⟨a, ha, hac⟩)

end

theorem Concerns.tasks {l : Option ι} {c : Nat} {x : Conn ι} {tcp : TcpConnection HttpContext}
    {ran queued : List (ConnTask ι)} (hc : Concerns own s s' l c { x with tcp := tcp } ran queued)
    (h : Inv own s) (func : TaskFunc) :
    (s'.view c { x with tcp := tcp }).tasks func + ran.count (x.bind c func) =
      (s.view c x).tasks func + queued.count (x.bind c func) :=
  hc.flight h (x.bind c func)

theorem count_bind (x : Conn ι) (c : Nat) (func func' : TaskFunc) :
    [x.bind c func].count (x.bind c func') = if func = func' then 1 else 0 := by
  by_cases heq : func = func'
  · rw [if_pos heq, heq, List.count_singleton_self]
  · rw [if_neg heq, List.count_eq_zero, List.mem_singleton]
    exact fun hbind => heq (congrArg ConnTask.func hbind).symm

section
variable {l : Option ι} {c : Nat} {x : Conn ι} {ran rest : List (ConnTask ι)}

/-- A task that is next is in flight. -/
theorem Inv.flight_pos (h : Inv own s) {t : ConnTask ι} (hat : s.At l (.tasks ran (t :: rest))) :
    0 < s.flight t := by
  have hmem : t ∈ (s.loops l).pending := by
    simp only [ConnLoop.pending, hat.1, List.cons_append, List.mem_cons_self]
  rw [flight, (h.pending hmem).1]
  exact Nat.add_pos_left (List.count_pos_iff.mpr hmem) _

theorem Inv.Established (h : Inv own s) (hx : s.conns c = some x)
    (hat : s.At (some x.mLoop) (.tasks ran (x.bind c .Established :: rest))) :
    Inv own ((s.Established c x).proceed (some x.mLoop)
      (.tasks (ran ++ [x.bind c .Established]) rest) []) := by
  obtain ⟨_, closes, entry, channel, tasks, _⟩ := (h.stage hx).of_established (h.flight_pos hat)
  rw [Established_eq channel]
  have ht := touches_setChannel (x := { x with tcp := x.tcp.Established HttpServer.connectedCb })
    (h.lt_next hx) (some (.conn c))
  have hc : Concerns own s _ _ c _ _ [] := ht.task rfl h hx rfl hat rfl (fun t ht => by cases ht) (Or.inr rfl)
  have hflight := tasks.change 0 0 0 (hc.tasks h)
  simp only [count_bind] at hflight
  exact hc.inv h (.connected (Or.inr rfl) rfl closes entry (channelMap_setChannel ..) (hflight rfl rfl rfl))

theorem Inv.removeInLoop (h : Inv own s) (hx : s.conns c = some x)
    (hat : s.At none (.tasks ran (x.bind c .removeInLoop :: rest))) :
    Inv own ((s.removeInLoop x).proceed none (.tasks (ran ++ [x.bind c .removeInLoop]) rest)
      [x.bind c .Destroy]) := by
  obtain ⟨closing, entry, channel, tasks⟩ := (h.stage hx).of_removeInLoop (h.flight_pos hat)
  rw [removeInLoop_eq entry]
  have ht : Touches s { s with connMap := update s.connMap x.fd none } c x := by
    refine ⟨?_, ⟨le_rfl, h.lt_next hx⟩, fun fd hfd => Function.update_of_ne hfd .., fun _ _ _ => rfl, rfl⟩
    exact (Function.update_eq_self_iff.mpr hx.symm).symm
  have hqueued : ∀ t ∈ [x.bind c .Destroy], t.conn = c ∧ t.ioLoop = x.mLoop ∧ t.queuedBy = none := by
    intro t ht
    rw [List.mem_singleton.mp ht]
    exact ⟨rfl, rfl, rfl⟩
  have hc : Concerns own s _ _ c x _ _ := ht.task rfl h hx rfl hat rfl hqueued (Or.inl ⟨rfl, rfl⟩)
  have hflight := tasks.change 0 0 1 (hc.tasks h)
  simp only [count_bind] at hflight
  exact hc.inv h (.removing closing (Function.update_self ..) channel (hflight rfl rfl rfl))

theorem Inv.Destroy (h : Inv own s) (hx : s.conns c = some x)
    (hat : s.At (some x.mLoop) (.tasks ran (x.bind c .Destroy :: rest))) :
    Inv own ((s.Destroy c x).proceed (some x.mLoop) (.tasks (ran ++ [x.bind c .Destroy]) rest) []) := by
  obtain ⟨closing, entry, channel, tasks⟩ := (h.stage hx).of_destroy (h.flight_pos hat)
  rw [Destroy_eq hx channel closing.idle]
  have ht := touches_setChannel (x := { x with tcp := { x.tcp with mState := .CLOSED } }) (h.lt_next hx) none
  have hc : Concerns own s _ _ c _ _ [] := ht.task rfl h hx rfl hat rfl (fun t ht => by cases ht) (Or.inr rfl)
  have hflight := tasks.change 0 0 0 (hc.tasks h)
  simp only [count_bind] at hflight
  exact hc.inv h (.closed rfl closing.closes entry (channelMap_setChannel ..) (hflight rfl rfl rfl))

/-- The task may find its connection closed. -/
theorem Inv.WriteCompleteCallback (h : Inv own s) (hx : s.conns c = some x)
    (hat : s.At (some x.mLoop) (.tasks ran (x.bind c .WriteCompleteCallback :: rest))) :
    Inv own (s.proceed (some x.mLoop) (.tasks (ran ++ [x.bind c .WriteCompleteCallback]) rest)
      (s.WriteCompleteCallback c x)) := by
  have hqueued : ∀ t ∈ s.WriteCompleteCallback c x, t = x.bind c .handleClose := by
    intro t ht
    unfold TcpServer.WriteCompleteCallback TcpServer.Close at ht
    split at ht
    · cases ht
    · split at ht
      · exact List.mem_singleton.mp ht
      · cases ht
  have ht : Touches s s c x := by
    refine ⟨?_, ⟨le_rfl, h.lt_next hx⟩, fun _ _ => rfl, fun _ _ _ => rfl, rfl⟩
    exact (Function.update_eq_self_iff.mpr hx.symm).symm
  have hbound : ∀ t ∈ s.WriteCompleteCallback c x,
      t.conn = c ∧ t.ioLoop = x.mLoop ∧ t.queuedBy = some x.mLoop := by
    intro t ht
    rw [hqueued t ht]
    exact ⟨rfl, rfl, rfl⟩
  have hc : Concerns own s _ _ c x _ _ := ht.task rfl h hx rfl hat rfl hbound (Or.inl ⟨rfl, rfl⟩)
  have hzero : ∀ func, func ≠ .handleClose → (s.WriteCompleteCallback c x).count (x.bind c func) = 0 := by
    intro func hne
    rw [List.count_eq_zero]
    exact fun hmem => hne (congrArg ConnTask.func (hqueued _ hmem))
  apply hc.inv h
  have hnone := (h.stage hx).established_of_late (Or.inl (h.flight_pos hat))
  refine (h.stage hx).same hnone rfl rfl rfl rfl rfl fun e r d tasks => ?_
  have hflight := tasks.change e r d (hc.tasks h)
  simp only [count_bind] at hflight
  apply hflight
  · rw [hzero _ (by decide)]
    rfl
  · rw [hzero _ (by decide)]
    rfl
  · rw [hzero _ (by decide)]
    rfl

omit [DecidableEq ι] in
theorem mem_queued (x : Conn ι) (c : Nat) (tcp : TcpConnection HttpContext) :
    ∀ t ∈ x.queued c tcp, t.conn = c ∧ t.ioLoop = x.mLoop ∧ t.queuedBy = some x.mLoop := by
  intro t ht
  rcases List.mem_append.mp ht with hclose | hcomplete
  · rw [List.eq_of_mem_replicate hclose]
    exact ⟨rfl, rfl, rfl⟩
  · rw [List.eq_of_mem_replicate hcomplete]
    exact ⟨rfl, rfl, rfl⟩

theorem count_queued (x : Conn ι) (c : Nat) (tcp : TcpConnection HttpContext) (func : TaskFunc) :
    (x.queued c tcp).count (x.bind c func) =
      (if func = .removeInLoop then tcp.closes - x.tcp.closes else 0) +
        if func = .WriteCompleteCallback then tcp.writeCompletes - x.tcp.writeCompletes else 0 := by
  unfold Conn.queued
  rw [List.count_append, List.count_replicate, List.count_replicate]
  cases func <;> simp [Conn.bind]

/-- A handler, which is an event or `handleClose`, of a connection that has been established. -/
theorem Concerns.handled {l : Option ι} {tcp : TcpConnection HttpContext} {mods : List UInt32}
    {done : List (ConnTask ι)} (hc : Concerns own s s' l c { x with tcp := tcp } done (x.queued c tcp))
    (h : Inv own s) (hx : s.conns c = some x) (hnone : (s.view c x).tasks .Established = 0)
    (hentry : s'.connMap = s.connMap) (hchannel : s'.channelMap = s.channelMap)
    (hdone : ∀ func, func ≠ .handleClose → done.count (x.bind c func) = 0)
    (hopened : x.tcp.isOpen →
      Moves x.tcp mods tcp ∧ tcp.mChannel = mods.foldl Channel.ModChannel x.tcp.mChannel)
    (hclosed : ¬ x.tcp.isOpen →
      tcp.mState = x.tcp.mState ∧ tcp.mChannel = x.tcp.mChannel ∧ tcp.closes = x.tcp.closes) :
    Inv own s' := by
  have hentry' : s'.connMap x.fd = s.connMap x.fd := by rw [hentry]
  have hchannel' : s'.channelMap x.mLoop x.fd = s.channelMap x.mLoop x.fd := by rw [hchannel]
  have htasks : ∀ e r d, (s.view c x).InFlight e r d →
      (s'.view c { x with tcp := tcp }).InFlight e (r + (tcp.closes - x.tcp.closes)) d := by
    intro e r d tasks
    refine tasks.change e _ d (hc.tasks h) ?_ ?_ ?_
    · rw [hdone _ (by decide), count_queued, if_neg (by decide), if_neg (by decide)]
    · rw [hdone _ (by decide), count_queued, if_pos rfl, if_neg (by decide)]
      omega
    · rw [hdone _ (by decide), count_queued, if_neg (by decide), if_neg (by decide)]
  apply hc.inv h
  by_cases hopen : x.tcp.isOpen
  · obtain ⟨hmoves, hmods⟩ := hopened hopen
    refine (h.stage hx).moved hnone hopen hmoves hmods hentry' hchannel' fun tasks => ?_
    have hflight := htasks 0 0 0 tasks
    rwa [Nat.zero_add] at hflight
  · obtain ⟨hstate, hmask, hcloses⟩ := hclosed hopen
    refine (h.stage hx).same hnone hstate hmask hcloses hentry' hchannel' fun e r d tasks => ?_
    have hflight := htasks e r d tasks
    rwa [hcloses, Nat.sub_self, Nat.add_zero] at hflight

theorem Inv.handleClose (h : Inv own s) (hx : s.conns c = some x)
    (hat : s.At (some x.mLoop) (.tasks ran (x.bind c .handleClose :: rest))) :
    Inv own ((s.handled c x x.tcp.handleClose x.tcp.closeMods).proceed (some x.mLoop)
      (.tasks (ran ++ [x.bind c .handleClose]) rest) (x.queued c x.tcp.handleClose)) := by
  have hnone := (h.stage hx).established_of_late (Or.inr (h.flight_pos hat))
  have heq : s.handled c x x.tcp.handleClose x.tcp.closeMods =
      s.setConn c { x with tcp := x.tcp.handleClose } := by
    by_cases hopen : x.tcp.isOpen
    · exact handled_eq _ ((h.stage hx).of_open hnone hopen).2.2.2.1
    · rw [TcpConnection.closeMods, if_neg hopen]
      rfl
  rw [heq]
  have ht := touches_setConn (x := { x with tcp := x.tcp.handleClose }) (h.lt_next hx)
  have hc := ht.task rfl h hx rfl hat rfl (mem_queued x c x.tcp.handleClose) (Or.inr rfl)
  apply hc.handled h hx hnone rfl rfl
  · intro func hne
    rw [count_bind, if_neg hne.symm]
  · exact fun _ => ⟨.handleClose _, TcpConnection.mChannel_handleClose _⟩
  · intro hclosed
    rw [TcpConnection.handleClose, if_neg hclosed]
    exact ⟨rfl, rfl, rfl⟩

theorem Inv.event (h : Inv own s) (hx : s.conns c = some x) {i : ι} {rEvent : UInt32}
    {rest : List (Nat × UInt32)} (hat : s.At (some i) (.events ((c, rEvent) :: rest)))
    (HttpCallback : HttpServeFunc) (recvs : List Recv) (writevs : List Writev) :
    Inv own ((s.HandleEvent HttpCallback recvs writevs rEvent c x).1.proceed (some i) (.events rest)
      (s.HandleEvent HttpCallback recvs writevs rEvent c x).2) := by
  have hmem : (c, rEvent) ∈ (s.loops (some i)).activeChannel := by
    simp only [ConnLoop.activeChannel, hat.1, List.mem_cons_self]
  obtain ⟨rfl, hchannel, hfailure⟩ := h.active_loop hmem hx
  rw [TcpServer.HandleEvent, handled_eq _ hchannel]
  generalize htcp :
    HttpServer.HandleEvent HttpCallback rEvent ((x.tcp.withRecvs recvs).withWritevs writevs) = tcp
  have ht := touches_setConn (x := { x with tcp := tcp }) (h.lt_next hx)
  have hc := ht.event rfl h hx rfl hat (mem_queued x c tcp)
  apply hc.handled h hx ((h.stage hx).established_of_channel hchannel) rfl rfl
  · exact fun _ _ => rfl
  · intro hopen
    have hanswered : Moves x.tcp [] ((x.tcp.withRecvs recvs).withWritevs writevs) := .of_same rfl rfl rfl
    subst htcp
    exact ⟨hanswered.trans (HttpServer.moves_HandleEvent hopen), HttpServer.mChannel_HandleEvent ..⟩
  · intro hclosed
    have hsame := HttpServer.HandleEvent_closed (f := HttpCallback)
      (c := (x.tcp.withRecvs recvs).withWritevs writevs) (hfailure hclosed) hclosed
    obtain rfl := htcp.symm.trans hsame
    exact ⟨rfl, rfl, rfl⟩

theorem Inv.task (h : Inv own s) {l : Option ι} {t : ConnTask ι} (hx : s.conns t.conn = some x)
    (hat : s.At l (.tasks ran (t :: rest))) :
    Inv own ((s.runTask t x).1.proceed l (.tasks (ran ++ [t]) rest) (s.runTask t x).2) := by
  have hmem : t ∈ (s.loops l).pending := by
    simp only [ConnLoop.pending, hat.1, List.cons_append, List.mem_cons_self]
  obtain ⟨rfl, fd, hident⟩ := h.pending hmem
  obtain ⟨func, c, ioLoop⟩ := t
  obtain ⟨-, rfl⟩ := ident_eq hx hident
  cases func with
  | Established => exact h.Established hx hat
  | removeInLoop => exact h.removeInLoop hx hat
  | Destroy => exact h.Destroy hx hat
  | WriteCompleteCallback => exact h.WriteCompleteCallback hx hat
  | handleClose => exact h.handleClose hx hat

end

section
variable {connfd : Nat} {tcp : TcpConnection HttpContext}

omit [DecidableEq ι] in
theorem NotOpen.ident_ne (hfree : s.NotOpen own connfd) {c : Nat} {i : ι} :
    s.ident c ≠ some (connfd, i) := by
  intro hident
  obtain ⟨x, hx, hfd, _⟩ := conn_of_ident hident
  exact hfree.2 c x hx hfd

/-- No map has an entry for a descriptor that is not open. -/
theorem Inv.connMap_none (h : Inv own s) (hfree : s.NotOpen own connfd) : s.connMap connfd = none := by
  cases hentry : s.connMap connfd with
  | none => rfl
  | some c =>
    obtain ⟨i, hident⟩ := h.connMap hentry
    exact absurd hident hfree.ident_ne

theorem Inv.channelMap_none (h : Inv own s) (hfree : s.NotOpen own connfd) (i : ι) :
    s.channelMap i connfd = none := by
  cases hentry : s.channelMap i connfd with
  | none => rfl
  | some e =>
    cases e with
    | own => exact absurd (h.owned hentry) (hfree.1 i)
    | conn c => exact absurd (h.channelMap hentry) hfree.ident_ne

/-- No task of a connection that does not exist is in flight. -/
theorem Inv.flight_next (h : Inv own s) {t : ConnTask ι} (ht : t.conn = s.next) : s.flight t = 0 := by
  have hnone : ∀ p, s.ident t.conn ≠ some p := by
    intro p
    rw [ht, ident, h.fresh s.next le_rfl]
    simp
  rw [flight, List.count_eq_zero.mpr, List.count_eq_zero.mpr]
  · exact fun hmem => (h.queueing hmem).2.elim fun _ => hnone _
  · exact fun hmem => (h.pending hmem).2.elim fun _ => hnone _

theorem Inv.concerns_accept (h : Inv own s) (i : ι) (tcp : TcpConnection HttpContext)
    (hat : s.At none (.events [])) (hfree : s.NotOpen own connfd) :
    Concerns own s ((s.newConnection connfd i tcp).proceed none (.events []) [⟨.Established, s.next, i⟩])
      none s.next ⟨tcp, connfd, i⟩ [] [⟨.Established, s.next, i⟩] := by
  have hnew : s.conns s.next = none := h.fresh s.next le_rfl
  rw [newConnection_eq i tcp (h.connMap_none hfree)]
  exact {
    conns := rfl
    next := ⟨Nat.le_succ _, Nat.lt_succ_self _⟩
    connMap := fun fd hfd => Function.update_of_ne hfd ..
    channelMap := fun _ _ _ => rfl
    faults := rfl
    kept := fun hident => by
      rw [ident, hnew] at hident
      cases hident
    unique := fun hident => absurd hident hfree.ident_ne
    unowned := hfree.1
    others := fun l' hl => Function.update_of_ne hl ..
    pending := by
      rw [loops_proceed]
      simp only [ConnLoop.pending, hat.1, List.nil_append]
    idle := hat.2
    queueing := by rw [loops_proceed]
    ran := fun t ht => by cases ht
    queued := fun t ht => by
      rw [List.mem_singleton.mp ht]
      exact ⟨rfl, rfl, rfl⟩
    active := by
      rw [loops_proceed]
      exact List.nil_suffix
    seen := fun {j a} ha hac => by
      obtain ⟨x, hx, -⟩ := h.reported (i := j) (a := a) ha
      rw [hac, hnew] at hx
      cases hx }

theorem Inv.accept (h : Inv own s) (i : ι) (hat : s.At none (.events [])) (hfree : s.NotOpen own connfd)
    (hstate : tcp.mState = .CONNECTING) (hcloses : tcp.closes = 0) :
    Inv own ((s.newConnection connfd i tcp).proceed none (.events []) [⟨.Established, s.next, i⟩]) := by
  have hc := h.concerns_accept i tcp hat hfree
  have hflight : ∀ func,
      ((s.newConnection connfd i tcp).proceed none (.events []) [⟨.Established, s.next, i⟩]).flight
        ⟨func, s.next, i⟩ = if .Established = func then 1 else 0 := by
    intro func
    have hcount := hc.flight h ⟨func, s.next, i⟩
    rw [h.flight_next rfl, List.count_nil, Nat.zero_add, Nat.add_zero] at hcount
    exact hcount.trans (count_bind ⟨tcp, connfd, i⟩ s.next .Established func)
  apply hc.inv h
  rw [newConnection_eq i tcp (h.connMap_none hfree)] at hflight ⊢
  exact .connecting (Or.inl hstate) hcloses (Function.update_self ..) (h.channelMap_none hfree i)
    ⟨hflight .Established, hflight .removeInLoop, hflight .Destroy⟩
    ⟨hflight .WriteCompleteCallback, hflight .handleClose⟩

end

omit [DecidableEq ι] in
theorem held_of_pending {l : Option ι} {t : ConnTask ι} (ht : t ∈ (s.loops l).pending) : s.Held t.conn := by
  refine Or.inr ⟨l, t, ?_, rfl⟩
  unfold ConnLoop.held
  unfold ConnLoop.pending at ht
  cases hphase : (s.loops l).phase with
  | tasks ran rest =>
    rw [hphase] at ht
    apply List.mem_append_left
    rw [List.append_assoc]
    exact List.mem_append_right _ ht
  | _ =>
    rw [hphase] at ht
    exact List.mem_append_left _ ht

omit [DecidableEq ι] in
theorem held_of_queueing {l : Option ι} {t : ConnTask ι} (ht : t ∈ (s.loops l).queueing) : s.Held t.conn := by
  refine Or.inr ⟨l, t, ?_, rfl⟩
  unfold ConnLoop.held
  split <;> exact List.mem_append_right _ ht

/-- What is in flight is held. -/
theorem held_of_flight {t : ConnTask ι} (h : 0 < s.flight t) : s.Held t.conn := by
  rcases Nat.eq_zero_or_pos ((s.loops t.runsIn).pending.count t) with hzero | hpos
  · rw [flight, hzero, Nat.zero_add] at h
    exact held_of_queueing (List.count_pos_iff.mp h)
  · exact held_of_pending (List.count_pos_iff.mp hpos)

/-- A connection is destructed after `Destroy`, when no map has it. -/
theorem Inv.closed_of_free (h : Inv own s) {c : Nat} {x : Conn ι} (hx : s.conns c = some x)
    (hfree : ¬ s.Held c) : s.channelMap x.mLoop x.fd = none := by
  have hentry : ∀ {P : Prop}, (s.view c x).entry = some c → P :=
    fun hentry => absurd (Or.inl ⟨x.fd, hentry⟩) hfree
  cases h.stage hx with
  | connecting _ _ entry | connected _ _ _ entry | closing _ entry => exact hentry entry
  | removing _ _ _ tasks =>
    have hpos : 0 < s.flight (x.bind c .Destroy) := by
      rw [show s.flight (x.bind c .Destroy) = 1 from tasks.destroy]
      exact Nat.one_pos
    exact absurd (held_of_flight hpos) hfree
  | closed _ _ _ channel => exact channel

omit [DecidableEq ι] in
theorem conns_destruct (s : TcpServer ι) (c : Nat) : (s.destruct c).conns c = none :=
  Function.update_self ..

omit [DecidableEq ι] in
theorem conns_destruct_of_ne (s : TcpServer ι) {c c' : Nat} (hne : c' ≠ c) :
    (s.destruct c).conns c' = s.conns c' :=
  Function.update_of_ne hne ..

omit [DecidableEq ι] in
theorem ident_destruct_of_ne (s : TcpServer ι) {c c' : Nat} (hne : c' ≠ c) :
    (s.destruct c).ident c' = s.ident c' := by
  rw [ident, ident, conns_destruct_of_ne s hne]

omit [DecidableEq ι] in
theorem ident_of_destruct {c c' : Nat} {p : Nat × ι} (h : (s.destruct c).ident c' = some p) :
    s.ident c' = some p := by
  by_cases hne : c' = c
  · rw [hne, ident, conns_destruct] at h
    cases h
  · rwa [ident_destruct_of_ne s hne] at h

theorem Inv.destruct (h : Inv own s) {c : Nat} (hfree : ¬ s.Held c) : Inv own (s.destruct c) := by
  have hgone : ∀ {i fd c'}, s.channelMap i fd = some (.conn c') → c' ≠ c := by
    rintro i fd c' hchannel rfl
    obtain ⟨x, hx, rfl, rfl⟩ := conn_of_ident (h.channelMap hchannel)
    exact absurd (hchannel.symm.trans (h.closed_of_free hx hfree)) (by simp)
  exact {
    fresh := fun c' hc' => by
      by_cases hne : c' = c
      · rw [hne, conns_destruct]
      · rw [conns_destruct_of_ne s hne, h.fresh c' hc']
    unique := fun h₁ h₂ => h.unique (ident_of_destruct h₁) (ident_of_destruct h₂)
    unowned := fun h' => h.unowned (ident_of_destruct h')
    connMap := fun {fd c'} hentry => by
      have hne : c' ≠ c := fun heq => hfree (Or.inl ⟨fd, heq ▸ hentry⟩)
      rw [ident_destruct_of_ne s hne]
      exact h.connMap hentry
    channelMap := fun hchannel => by
      rw [ident_destruct_of_ne s (hgone hchannel)]
      exact h.channelMap hchannel
    owned := h.owned
    pending := fun {l t} ht => by
      have hne : t.conn ≠ c := fun heq => hfree (heq ▸ held_of_pending ht)
      rw [ident_destruct_of_ne s hne]
      exact h.pending ht
    queueing := fun {l t} ht => by
      have hne : t.conn ≠ c := fun heq => hfree (heq ▸ held_of_queueing ht)
      rw [ident_destruct_of_ne s hne]
      exact h.queueing ht
    distinct := h.distinct
    reported := fun ha => by
      obtain ⟨x, hx, hchannel, hclosed⟩ := h.reported ha
      exact ⟨x, by rwa [conns_destruct_of_ne s (hgone hchannel)], hchannel, hclosed⟩
    unfailed := h.unfailed
    stage := fun {c' x} hx => by
      by_cases hne : c' = c
      · rw [hne, conns_destruct] at hx
        cases hx
      · rw [conns_destruct_of_ne s hne] at hx
        exact h.stage hx }

theorem inv_start (own : ι → List Nat) : Inv own (start own) where
  fresh _ _ := rfl
  unique h _ := by cases h
  unowned h := by cases h
  connMap h := by cases h
  channelMap {i fd c} h := by
    unfold start at h
    dsimp only at h
    split at h <;> cases h
  owned {i fd} h := by
    unfold start at h
    dsimp only at h
    split at h
    · assumption
    · cases h
  pending h := by cases h
  queueing h := by cases h
  distinct _ := List.nodup_nil
  reported h := by cases h
  unfailed := rfl
  stage h := by cases h

theorem Inv.step (h : Inv own s) (hstep : Step own s s') : Inv own s' := by
  cases hstep with
  | accept connfd i rbuf wbuf socket garbage alive at_ free => exact h.accept i at_ free rfl rfl
  | push l t rest at_ => exact h.QueueInLoop at_
  | poll l activeChannel at_ can => exact h.poll at_ can
  | event i c rEvent rest x HttpCallback recvs writevs at_ alive =>
    exact h.event alive at_ HttpCallback recvs writevs
  | doTask l at_ => exact h.swap at_
  | task l t ran rest x at_ alive => exact h.task alive at_
  | ranAll l ran at_ => exact h.ranAll at_
  | destruct c alive free => exact h.destruct free

theorem Reachable.inv (h : Reachable own s) : Inv own s := by
  apply Lib.Reachable.invariant _ _ h
  · rintro s rfl
    exact inv_start own
  · exact fun s s' hinv hstep => hinv.step hstep

/-- `connMap` has for each key the one connection with that descriptor, and has all that are
open. No close callback is called twice, and no assertion has failed. -/
structure Exact (s : TcpServer ι) : Prop where
  connMap : ∀ fd c, s.connMap fd = some c → ∃ x, s.conns c = some x ∧ x.fd = fd ∧
    ∀ c' x', s.conns c' = some x' → x'.fd = fd → c' = c
  openMapped : ∀ c x, s.conns c = some x → x.tcp.isOpen → s.connMap x.fd = some c
  closes : ∀ c x, s.conns c = some x → x.tcp.closes ≤ 1
  unfailed : s.faults = []

/-- In every state of every run the bookkeeping is exact. -/
theorem bookkeeping_exact (h : Reachable own s) : s.Exact := by
  have hinv := h.inv
  refine ⟨fun fd c hentry => ?_, fun c x hx hopen => ?_, fun c x hx => ?_, hinv.unfailed⟩
  · obtain ⟨i, hident⟩ := hinv.connMap hentry
    obtain ⟨x, hx, heq, _⟩ := conn_of_ident hident
    refine ⟨x, hx, heq, fun c' x' hx' hfd => ?_⟩
    have hident' := ident_of_conn hx'
    rw [hfd] at hident'
    exact hinv.unique hident' hident
  · exact (hinv.stage hx).entry_of_open hopen
  · exact (hinv.stage hx).closes_le

def newTcp : TcpConnection HttpContext := .new [] [] {} ⟨[], [], []⟩ ⟨0, 0⟩ true

/-- The connection with descriptor 5, after `Established`. -/
def connected : Conn Unit := ⟨newTcp.Established HttpServer.connectedCb, 5, ()⟩

def accepted : TcpServer Unit :=
  (((start fun _ => []).proceed none (.events []) []).newConnection 5 () newTcp).proceed none (.events [])
    [⟨.Established, 0, ()⟩]

def established : TcpServer Unit :=
  let s := (accepted.QueueInLoop none ⟨.Established, 0, ()⟩ []).proceed (some ()) (.events []) []
  ((s.swap (some ())).Established 0 ⟨newTcp, 5, ()⟩).proceed (some ()) (.tasks [⟨.Established, 0, ()⟩] []) []

def hungUp : TcpServer Unit :=
  let s := (established.proceed (some ()) .poll []).proceed (some ()) (.events [(0, EPOLLHUP)]) []
  let r := s.HandleEvent (fun _ resp => resp) [] [] EPOLLHUP 0 connected
  r.1.proceed (some ()) (.events []) r.2

theorem reachable_accepted : Reachable (fun _ => []) accepted := by
  have hstart : Reachable (fun _ : Unit => []) (start fun _ => []) := .start rfl
  have hpolled := hstart.tail (.poll none [] ⟨rfl, rfl⟩ rfl)
  exact hpolled.tail (.accept 5 () [] [] ⟨[], [], []⟩ ⟨0, 0⟩ true ⟨rfl, rfl⟩
    ⟨fun _ => List.not_mem_nil, fun _ _ hx => by cases hx⟩)

theorem reachable_established : Reachable (fun _ => []) established := by
  have hpushed := reachable_accepted.tail (.push none ⟨.Established, 0, ()⟩ [] rfl)
  have hpolled := hpushed.tail (.poll (some ()) [] ⟨rfl, rfl⟩ ⟨List.nodup_nil, by simp⟩)
  have hswapped := hpolled.tail (.doTask (some ()) ⟨rfl, rfl⟩)
  exact hswapped.tail (.task (some ()) ⟨.Established, 0, ()⟩ [] [] ⟨newTcp, 5, ()⟩ ⟨rfl, rfl⟩ rfl)

theorem reachable_hungUp : Reachable (fun _ => []) hungUp := by
  have hran := reachable_established.tail (.ranAll (some ()) [⟨.Established, 0, ()⟩] ⟨rfl, rfl⟩)
  have hpolled := hran.tail (.poll (some ()) [(0, EPOLLHUP)] ⟨rfl, rfl⟩ ⟨by decide, by
    intro a ha
    rw [List.mem_singleton.mp ha]
    exact ⟨connected, rfl, rfl, by decide⟩⟩)
  exact hpolled.tail (.event () 0 EPOLLHUP [] connected (fun _ resp => resp) [] [] ⟨rfl, rfl⟩ rfl)

/-- The close is on its way to the accepting loop. -/
theorem bookkeeping_exact_hungUp : hungUp.Exact := bookkeeping_exact reachable_hungUp

end TcpServer
end Knpnl.Http
