import Knpnl.Http.Draining
import Knpnl.Http.Exchange

/-!
# A server and its clients

Each connection of a server goes through an exchange of its own, whatever the other connections and the
threads do meanwhile. So what holds of every exchange holds of each connection in every run of the server.
-/
namespace Knpnl.Http

open Lib
open Lib.CString (Bytes)
open Base (Recv)
open Event
open Net (TcpConnection Writev Socket)
open Function (update)

/-- What an exchange has in the queue of its loop. -/
def TaskFunc.loopTask : TaskFunc → Option LoopTask
  | .WriteCompleteCallback => some .WriteCompleteCallback
  | .handleClose => some .handleClose
  | .Established | .removeInLoop | .Destroy => none

section
variable {ι : Type*}

def ConnTask.taskOf (t : ConnTask ι) (c : Nat) : Option LoopTask := if t.conn = c then t.func.loopTask else none

/-- The tasks of one connection, those that are still to be pushed last. -/
def ConnLoop.tasksOf (L : ConnLoop ι) (c : Nat) : List LoopTask :=
  (L.pending ++ L.queueing).filterMap (·.taskOf c)

/-- How a connection began, and what has happened to it since. -/
structure Life where
  first : Exchange
  events : List ExchangeEvent

namespace Life

def now (handler : HttpServeFunc) (L : Life) : Exchange := L.first.run handler L.events

def see (L : Life) (e : ExchangeEvent) : Life := { L with events := L.events ++ [e] }

theorem now_see (handler : HttpServeFunc) (L : Life) (e : ExchangeEvent) :
    (L.see e).now handler = (L.now handler).step handler e := List.foldl_concat ..

/-- A connection of `HttpServer`, to which nothing has happened that cannot happen. -/
structure Lawful (handler : HttpServeFunc) (L : Life) : Prop where
  first : ∃ rbuf wbuf socket garbage alive, L.first = .start rbuf wbuf socket garbage alive
  enabled : Along (Exchange.step handler) Exchange.Enabled L.first L.events

theorem Lawful.see {handler : HttpServeFunc} {L : Life} {e : ExchangeEvent} (h : L.Lawful handler)
    (he : (L.now handler).Enabled e) : (L.see e).Lawful handler :=
  ⟨h.first, along_append.mpr ⟨h.enabled, he, trivial⟩⟩

end Life

/-- A server, and what has been seen of its connections. -/
structure Watched (ι : Type*) where
  server : TcpServer ι
  lives : Nat → Option Life

end

namespace Watched

variable {ι : Type*} [DecidableEq ι]

def start (own : ι → List Nat) : Watched ι := ⟨.start own, fun _ => none⟩

def see (lives : Nat → Option Life) (c : Nat) (e : ExchangeEvent) : Nat → Option Life :=
  update lives c ((lives c).map (·.see e))

/-- What a task is to the exchange of its connection. -/
def seeTask (lives : Nat → Option Life) (s : TcpServer ι) (t : ConnTask ι) (x : Conn ι) : Nat → Option Life :=
  match t.func with
  | .WriteCompleteCallback | .handleClose => see lives t.conn (.task (s.connMap x.fd).isSome)
  | .Destroy => see lives t.conn .Destroy
  | .Established | .removeInLoop => lives

/-- A step of one thread of a server whose `HttpCallback` is `handler`, and what is seen of it. -/
inductive Step (own : ι → List Nat) (handler : HttpServeFunc) (w : Watched ι) : Watched ι → Prop where
  | accept (connfd : Nat) (i : ι) (rbuf wbuf : Bytes) (socket : Socket) (garbage : Channel) (alive : Bool)
      (at_ : w.server.At none (.events [])) (free : w.server.NotOpen own connfd) :
      Step own handler w
        ⟨(w.server.newConnection connfd i (.new rbuf wbuf {} socket garbage alive)).proceed none (.events [])
          [⟨.Established, w.server.next, i⟩],
        update w.lives w.server.next (some ⟨.start rbuf wbuf socket garbage alive, []⟩)⟩
  | push (l : Option ι) (t : ConnTask ι) (rest : List (ConnTask ι))
      (at_ : (w.server.loops l).queueing = t :: rest) :
      Step own handler w ⟨w.server.QueueInLoop l t rest, w.lives⟩
  | poll (l : Option ι) (activeChannel : List (Nat × UInt32)) (at_ : w.server.At l .poll)
      (can : w.server.CanReport l activeChannel) :
      Step own handler w ⟨w.server.proceed l (.events activeChannel) [], w.lives⟩
  | event (i : ι) (c : Nat) (rEvent : UInt32) (rest : List (Nat × UInt32)) (x : Conn ι) (recvs : List Recv)
      (writevs : List Writev) (at_ : w.server.At (some i) (.events ((c, rEvent) :: rest)))
      (alive : w.server.conns c = some x) :
      Step own handler w
        ⟨(w.server.HandleEvent handler recvs writevs rEvent c x).1.proceed (some i) (.events rest)
          (w.server.HandleEvent handler recvs writevs rEvent c x).2,
        see w.lives c (.event rEvent recvs writevs)⟩
  | doTask (l : Option ι) (at_ : w.server.At l (.events [])) :
      Step own handler w ⟨w.server.swap l, w.lives⟩
  | task (l : Option ι) (t : ConnTask ι) (ran rest : List (ConnTask ι)) (x : Conn ι)
      (at_ : w.server.At l (.tasks ran (t :: rest))) (alive : w.server.conns t.conn = some x) :
      Step own handler w
        ⟨(w.server.runTask t x).1.proceed l (.tasks (ran ++ [t]) rest) (w.server.runTask t x).2,
        seeTask w.lives w.server t x⟩
  | ranAll (l : Option ι) (ran : List (ConnTask ι)) (at_ : w.server.At l (.tasks ran [])) :
      Step own handler w ⟨w.server.proceed l .poll [], w.lives⟩
  | destruct (c : Nat) (alive : (w.server.conns c).isSome) (free : ¬ w.server.Held c) :
      Step own handler w ⟨w.server.destruct c, w.lives⟩

variable {own : ι → List Nat} {handler : HttpServeFunc} {w w' : Watched ι}

/-- To be watched changes nothing for a server. -/
theorem Step.server (h : Step own handler w w') : TcpServer.Step own w.server w'.server := by
  cases h with
  | accept connfd i rbuf wbuf socket garbage alive at_ free =>
    exact .accept connfd i rbuf wbuf socket garbage alive at_ free
  | push l t rest at_ => exact .push l t rest at_
  | poll l activeChannel at_ can => exact .poll l activeChannel at_ can
  | event i c rEvent rest x recvs writevs at_ alive =>
    exact .event i c rEvent rest x handler recvs writevs at_ alive
  | doTask l at_ => exact .doTask l at_
  | task l t ran rest x at_ alive => exact .task l t ran rest x at_ alive
  | ranAll l ran at_ => exact .ranAll l ran at_
  | destruct c alive free => exact .destruct c alive free

/-- Every step of a server can be watched. -/
theorem exists_step {s s' : TcpServer ι} (h : TcpServer.Step own s s') :
    ∃ handler, ∀ lives, ∃ lives', Step own handler ⟨s, lives⟩ ⟨s', lives'⟩ := by
  cases h with
  | accept connfd i rbuf wbuf socket garbage alive at_ free =>
    exact ⟨fun _ resp => resp, fun lives => ⟨_, .accept connfd i rbuf wbuf socket garbage alive at_ free⟩⟩
  | push l t rest at_ => exact ⟨fun _ resp => resp, fun lives => ⟨_, .push l t rest at_⟩⟩
  | poll l activeChannel at_ can => exact ⟨fun _ resp => resp, fun lives => ⟨_, .poll l activeChannel at_ can⟩⟩
  | event i c rEvent rest x HttpCallback recvs writevs at_ alive =>
    exact ⟨HttpCallback, fun lives => ⟨_, .event i c rEvent rest x recvs writevs at_ alive⟩⟩
  | doTask l at_ => exact ⟨fun _ resp => resp, fun lives => ⟨_, .doTask l at_⟩⟩
  | task l t ran rest x at_ alive => exact ⟨fun _ resp => resp, fun lives => ⟨_, .task l t ran rest x at_ alive⟩⟩
  | ranAll l ran at_ => exact ⟨fun _ resp => resp, fun lives => ⟨_, .ranAll l ran at_⟩⟩
  | destruct c alive free => exact ⟨fun _ resp => resp, fun lives => ⟨_, .destruct c alive free⟩⟩

end Watched

namespace TcpServer

variable {ι : Type*} [DecidableEq ι] {own : ι → List Nat} {s s₁ s' : TcpServer ι} {l : Option ι} {c : Nat}
  {x : Conn ι} {ran queued : List (ConnTask ι)}

/-- The thread of `l` has run `ran`, and is to queue `queued`. -/
structure Ran (s s' : TcpServer ι) (l : Option ι) (ran queued : List (ConnTask ι)) : Prop where
  others : ∀ l', l' ≠ l → s'.loops l' = s.loops l'
  pending : (s.loops l).pending = ran ++ (s'.loops l).pending
  idle : (s.loops l).queueing = []
  queueing : (s'.loops l).queueing = queued

theorem At.goesOn {phase : LoopPhase ι} (hat : s.At l phase) (hloops : s₁.loops = s.loops)
    (phase' : LoopPhase ι) (queued : List (ConnTask ι))
    (hpending : ∀ mTasks,
      ConnLoop.pending ⟨mTasks, phase, []⟩ = ran ++ ConnLoop.pending ⟨mTasks, phase', queued⟩) :
    Ran s (s₁.proceed l phase' queued) l ran queued where
  others l' hl' := (loops_of_ne _ _ hl').trans (congrFun hloops l')
  pending := by
    rw [loops_proceed, hloops, hat.loops]
    exact hpending _
  idle := hat.2
  queueing := by rw [loops_proceed]

omit [DecidableEq ι] in
theorem Concerns.goesOn (h : Concerns own s s' l c x ran queued) : Ran s s' l ran queued :=
  ⟨h.others, h.pending, h.idle, h.queueing⟩

omit [DecidableEq ι] in
theorem Ran.tasksOf (h : Ran s s' l ran queued) (c : Nat) : ∃ left,
    (s.loops l).tasksOf c = ran.filterMap (·.taskOf c) ++ left ∧
      (s'.loops l).tasksOf c = left ++ queued.filterMap (·.taskOf c) := by
  refine ⟨(s'.loops l).pending.filterMap (·.taskOf c), ?_, ?_⟩
  · rw [ConnLoop.tasksOf, h.idle, h.pending, List.append_nil, List.filterMap_append]
  · rw [ConnLoop.tasksOf, h.queueing, List.filterMap_append]

omit [DecidableEq ι] in
/-- A thread that runs and queues none of them. -/
theorem Ran.tasksOf_eq (h : Ran s s' l ran queued) (hran : ∀ t ∈ ran, t.taskOf c = none)
    (hqueued : ∀ t ∈ queued, t.taskOf c = none) (l' : Option ι) :
    (s'.loops l').tasksOf c = (s.loops l').tasksOf c := by
  by_cases hl : l' = l
  · obtain ⟨left, hbefore, hafter⟩ := h.tasksOf c
    rw [hl, hbefore, hafter, List.filterMap_eq_nil_iff.mpr hran, List.filterMap_eq_nil_iff.mpr hqueued,
      List.append_nil, List.nil_append]
  · rw [h.others l' hl]

theorem ran_swap (hat : s.At l (.events [])) : Ran s (s.swap l) l [] [] := by
  have hloop : (s.swap l).loops l = ⟨[], .tasks [] (s.loops l).mTasks, []⟩ := Function.update_self ..
  refine ⟨fun l' hl' => Function.update_of_ne hl' .., ?_, hat.2, ?_⟩
  · rw [hloop, hat.loops]
    simp [ConnLoop.pending]
  · rw [hloop]

omit [DecidableEq ι] in
/-- A task of an exchange is run by the thread that queued it. -/
theorem taskOf_eq_none {t : ConnTask ι} (hne : t.runsIn ≠ t.queuedBy) (c : Nat) : t.taskOf c = none := by
  obtain ⟨func, conn, ioLoop⟩ := t
  unfold ConnTask.taskOf
  cases func with
  | WriteCompleteCallback | handleClose => exact absurd rfl hne
  | Established | removeInLoop | Destroy => exact ite_self _

/-- A push leaves them in their order. -/
theorem Inv.tasksOf_QueueInLoop (h : Inv own s) {t : ConnTask ι} {rest : List (ConnTask ι)}
    (hat : (s.loops l).queueing = t :: rest) (c : Nat) (l' : Option ι) :
    ((s.QueueInLoop l t rest).loops l').tasksOf c = (s.loops l').tasksOf c := by
  have hmem : t ∈ (s.loops l).queueing := by rw [hat]; exact List.mem_cons_self
  obtain rfl := (h.queueing hmem).1
  rw [loops_QueueInLoop, ConnLoop.tasksOf, ConnLoop.tasksOf, pending_append]
  dsimp only
  by_cases hsame : t.runsIn = t.queuedBy
  · rw [hsame]
    by_cases hl : l' = t.queuedBy
    · rw [if_pos hl, if_pos hl, hl, hat, List.append_assoc, List.singleton_append]
    · rw [if_neg hl, if_neg hl, List.append_nil]
  · have hnone : t.taskOf c = none := taskOf_eq_none hsame c
    have hpushed : (if l' = t.runsIn then [t] else []).filterMap (·.taskOf c) = [] := by
      split
      · exact List.filterMap_cons_none hnone
      · rfl
    rw [List.filterMap_append, List.filterMap_append, List.filterMap_append, hpushed, List.append_nil]
    by_cases hl : l' = t.queuedBy
    · have hdrop : (t :: rest).filterMap (·.taskOf c) = rest.filterMap (·.taskOf c) :=
        List.filterMap_cons_none hnone
      rw [if_pos hl, hl, hat, hdrop]
    · rw [if_neg hl]

omit [DecidableEq ι] in
theorem channelMap_assert (s : TcpServer ι) (cond : Bool) (fault : Fault) :
    (s.assert cond fault).channelMap = s.channelMap := by
  unfold TcpServer.assert
  split <;> rfl

omit [DecidableEq ι] in
theorem conns_assert (s : TcpServer ι) (cond : Bool) (fault : Fault) : (s.assert cond fault).conns = s.conns := by
  unfold TcpServer.assert
  split <;> rfl

theorem conns_handled_of_ne (s : TcpServer ι) (c : Nat) (x : Conn ι) (tcp : TcpConnection HttpContext)
    (mods : List UInt32) {c' : Nat} (hne : c' ≠ c) : (s.handled c x tcp mods).conns c' = s.conns c' := by
  have hmods : (mods.foldl (fun s _ => s.Mod x.mLoop x.fd c) s).conns = s.conns := by
    induction mods generalizing s with
    | nil => rfl
    | cons op mods ih => exact (ih (s.Mod x.mLoop x.fd c)).trans (conns_assert s _ _)
  exact (Function.update_of_ne hne ..).trans (congrFun hmods c')

theorem channelMap_handled_of_ne (s : TcpServer ι) (c : Nat) (x : Conn ι) (tcp : TcpConnection HttpContext)
    (mods : List UInt32) {i : ι} {fd : Nat} (hne : (i, fd) ≠ (x.mLoop, x.fd)) :
    (s.handled c x tcp mods).channelMap i fd = s.channelMap i fd := by
  have hmods : (mods.foldl (fun s _ => s.Mod x.mLoop x.fd c) s).channelMap i fd = s.channelMap i fd := by
    induction mods generalizing s with
    | nil => rfl
    | cons op mods ih =>
      refine (ih (s.Mod x.mLoop x.fd c)).trans ((channelMap_setChannel_of_ne _ _ hne).trans ?_)
      rw [channelMap_assert]
  exact hmods

section
variable (s : TcpServer ι) (HttpCallback : HttpServeFunc) (recvs : List Recv) (writevs : List Writev)
  (rEvent : UInt32) (c : Nat) (x : Conn ι)

theorem loops_HandleEvent : (s.HandleEvent HttpCallback recvs writevs rEvent c x).1.loops = s.loops :=
  loops_handled s c x _ _

theorem conns_HandleEvent_of_ne (c' : Nat) (hne : c' ≠ c) :
    (s.HandleEvent HttpCallback recvs writevs rEvent c x).1.conns c' = s.conns c' :=
  conns_handled_of_ne s c x _ _ hne

variable {x} in
theorem channelMap_HandleEvent_of_ne {i : ι} {fd : Nat} (hne : (i, fd) ≠ (x.mLoop, x.fd)) :
    (s.HandleEvent HttpCallback recvs writevs rEvent c x).1.channelMap i fd = s.channelMap i fd :=
  channelMap_handled_of_ne s c x _ _ hne

end

/-- What concerns `c` is as it was. -/
structure Spared (s s' : TcpServer ι) (c : Nat) (x : Conn ι) : Prop where
  conn : s.conns c = some x
  channel : s'.channelMap x.mLoop x.fd = s.channelMap x.mLoop x.fd
  tasks : (s'.loops (some x.mLoop)).tasksOf c = (s.loops (some x.mLoop)).tasksOf c

variable {handler : HttpServeFunc} {L : Life}

/-- `Established` has not been run. -/
def Early (s : TcpServer ι) (x : Conn ι) : Prop := x.tcp.isOpen ∧ s.channelMap x.mLoop x.fd = none

/-- The connection, once established, and its tasks are those of its exchange. -/
structure Follows (handler : HttpServeFunc) (s : TcpServer ι) (c : Nat) (x : Conn ι) (L : Life) : Prop where
  tasks : (s.loops (some x.mLoop)).tasksOf c = (L.now handler).mTasks
  early : s.Early x → x.tcp.Established HttpServer.connectedCb = L.first.conn ∧ L.events = []
  late : ¬ s.Early x → x.tcp = (L.now handler).conn

omit [DecidableEq ι] in
theorem Follows.spared (h : s.Follows handler c x L) (hs : Spared s s' c x) : s'.Follows handler c x L := by
  have hearly : s'.Early x ↔ s.Early x := by rw [Early, Early, hs.channel]
  exact ⟨hs.tasks.trans h.tasks, fun he => h.early (hearly.mp he), fun hl => h.late (mt hearly.mpr hl)⟩

omit [DecidableEq ι] in
/-- `Established` sends nothing. -/
theorem Follows.output (h : s.Follows handler c x L) : x.tcp.output = (L.now handler).conn.output := by
  by_cases hearly : s.Early x
  · obtain ⟨hfirst, hnone⟩ := h.early hearly
    have hsame : x.tcp.output = (x.tcp.Established HttpServer.connectedCb).output := rfl
    rw [Life.now, hnone, hsame, hfirst]
    rfl
  · rw [h.late hearly]

omit [DecidableEq ι] in
theorem not_early_of_channel {e : Entry} (h : s.channelMap x.mLoop x.fd = some e) : ¬ s.Early x := by
  rintro ⟨_, hnone⟩
  cases h.symm.trans hnone

theorem not_early_of_stage (h : (s.view c x).Stage c) (hnone : (s.view c x).tasks .Established = 0) :
    ¬ s.Early x := by
  rintro ⟨hopen, hchannel⟩
  cases hchannel.symm.trans (h.of_open hnone hopen).2.2.2.1

omit [DecidableEq ι] in
theorem filterMap_queued (x : Conn ι) (c : Nat) (tcp : TcpConnection HttpContext) :
    (x.queued c tcp).filterMap (·.taskOf c) =
      List.replicate (tcp.writeCompletes - x.tcp.writeCompletes) .WriteCompleteCallback := by
  simp [Conn.queued, ConnTask.taskOf, Conn.bind, TaskFunc.loopTask]

/-- An event of the connection is one of its exchange. -/
theorem Follows.event (h : s.Follows handler c x L) (hchannel : s.channelMap x.mLoop x.fd = some (.conn c))
    {rEvent : UInt32} {rest : List (Nat × UInt32)} (hat : s.At (some x.mLoop) (.events ((c, rEvent) :: rest)))
    (recvs : List Recv) (writevs : List Writev) :
    ((s.HandleEvent handler recvs writevs rEvent c x).1.proceed (some x.mLoop) (.events rest)
      (s.HandleEvent handler recvs writevs rEvent c x).2).Follows handler c
      { x with tcp := HttpServer.HandleEvent handler rEvent ((x.tcp.withRecvs recvs).withWritevs writevs) }
      (L.see (.event rEvent recvs writevs)) := by
  have hlate := h.late (not_early_of_channel hchannel)
  have hran : Ran s _ _ [] _ := hat.goesOn (loops_HandleEvent s handler recvs writevs rEvent c x) (.events rest)
    (s.HandleEvent handler recvs writevs rEvent c x).2 fun _ => rfl
  obtain ⟨left, hbefore, hafter⟩ := hran.tasksOf c
  refine ⟨hafter.trans ?_, fun he => absurd he ?_, fun _ => ?_⟩
  · have hleft : left = (L.now handler).mTasks := hbefore.symm.trans h.tasks
    rw [HandleEvent, filterMap_queued, Life.now_see, hleft, hlate]
    rfl
  · rw [HandleEvent, handled_eq _ hchannel]
    exact not_early_of_channel hchannel
  · rw [Life.now_see, hlate]
    rfl

section
variable {done rest : List (ConnTask ι)} {func : TaskFunc}

theorem At.task_ran {t : ConnTask ι} (hat : s.At l (.tasks done (t :: rest))) (hloops : s₁.loops = s.loops)
    (queued : List (ConnTask ι)) :
    Ran s (s₁.proceed l (.tasks (done ++ [t]) rest) queued) l [t] queued :=
  hat.goesOn hloops _ _ fun _ => rfl

/-- The task is the first one of the exchange. -/
theorem Follows.next {a : LoopTask} (h : s.Follows handler c x L)
    (hat : s.At (some x.mLoop) (.tasks done (x.bind c func :: rest))) (ha : func.loopTask = some a)
    (hloops : s₁.loops = s.loops) (queued : List (ConnTask ι)) : ∃ left,
      (L.now handler).mTasks = a :: left ∧
        ((s₁.proceed (some x.mLoop) (.tasks (done ++ [x.bind c func]) rest) queued).loops
          (some x.mLoop)).tasksOf c = left ++ queued.filterMap (·.taskOf c) := by
  obtain ⟨left, hbefore, hafter⟩ := (hat.task_ran hloops queued).tasksOf c
  have hfirst : [x.bind c func].filterMap (·.taskOf c) = [a] := List.filterMap_cons_some ((if_pos rfl).trans ha)
  rw [hfirst] at hbefore
  exact ⟨left, h.tasks.symm.trans hbefore, hafter⟩

/-- The tasks of the exchange stay when a task of the server's is run. -/
theorem At.tasks_stay (hat : s.At (some x.mLoop) (.tasks done (x.bind c func :: rest)))
    (ha : func.loopTask = none) (hloops : s₁.loops = s.loops) :
    ((s₁.proceed (some x.mLoop) (.tasks (done ++ [x.bind c func]) rest) []).loops (some x.mLoop)).tasksOf c =
      (s.loops (some x.mLoop)).tasksOf c := by
  refine (hat.task_ran hloops []).tasksOf_eq (fun t ht => ?_) (fun t ht => absurd ht List.not_mem_nil) _
  rw [List.mem_singleton.mp ht]
  exact (if_pos rfl).trans ha

theorem Follows.Established (h : s.Follows handler c x L) (hinv : Inv own s) (hx : s.conns c = some x)
    (hat : s.At (some x.mLoop) (.tasks done (x.bind c .Established :: rest))) :
    ((s.Established c x).proceed (some x.mLoop) (.tasks (done ++ [x.bind c .Established]) rest) []).Follows
      handler c { x with tcp := x.tcp.Established HttpServer.connectedCb } L := by
  obtain ⟨isOpen, _, _, channel, _⟩ := (hinv.stage hx).of_established (hinv.flight_pos hat)
  obtain ⟨hfirst, hevents⟩ := h.early ⟨isOpen, channel⟩
  have hloops := loops_runTask s (x.bind c .Established) x
  refine ⟨(hat.tasks_stay rfl hloops).trans h.tasks, fun he => absurd he ?_, fun _ => ?_⟩
  · rw [Established_eq channel]
    exact not_early_of_channel (channelMap_setChannel ..)
  · rw [Life.now, hevents]
    exact hfirst

theorem Follows.Destroy (h : s.Follows handler c x L) (hinv : Inv own s) (hx : s.conns c = some x)
    (hat : s.At (some x.mLoop) (.tasks done (x.bind c .Destroy :: rest))) :
    (L.now handler).Enabled .Destroy ∧
      ((s.Destroy c x).proceed (some x.mLoop) (.tasks (done ++ [x.bind c .Destroy]) rest) []).Follows
        handler c { x with tcp := { x.tcp with mState := .CLOSED } } (L.see .Destroy) := by
  obtain ⟨closing, _, channel, _⟩ := (hinv.stage hx).of_destroy (hinv.flight_pos hat)
  have hlate := h.late (not_early_of_channel channel)
  have hloops := loops_runTask s (x.bind c .Destroy) x
  have hclosed : ¬ (L.now handler).conn.isOpen := by
    rw [← hlate]
    exact TcpConnection.not_isOpen_of_closing closing.state
  refine ⟨hclosed, ?_, fun he => absurd he.1 ?_, fun _ => ?_⟩
  · rw [Life.now_see]
    exact (hat.tasks_stay rfl hloops).trans h.tasks
  · exact TcpConnection.not_isOpen_of_closed rfl
  · rw [Life.now_see, hlate]
    rfl

/-- A task that the connection has queued itself may be run. -/
theorem Follows.task_enabled {a : LoopTask} {left : List LoopTask} (hinv : Inv own s) (hx : s.conns c = some x)
    (hconn : x.tcp = (L.now handler).conn) (htasks : (L.now handler).mTasks = a :: left) :
    (L.now handler).Enabled (.task (s.connMap x.fd).isSome) := by
  refine ⟨fun hnil => ?_, fun hopen => ?_⟩
  · rw [htasks] at hnil
    cases hnil
  · rw [← hconn] at hopen
    have hentry : s.connMap x.fd = some c := (hinv.stage hx).entry_of_open hopen
    rw [hentry]
    rfl

theorem Follows.WriteCompleteCallback (h : s.Follows handler c x L) (hinv : Inv own s) (hx : s.conns c = some x)
    (hat : s.At (some x.mLoop) (.tasks done (x.bind c .WriteCompleteCallback :: rest))) :
    (L.now handler).Enabled (.task (s.connMap x.fd).isSome) ∧
      (s.proceed (some x.mLoop) (.tasks (done ++ [x.bind c .WriteCompleteCallback]) rest)
        (s.WriteCompleteCallback c x)).Follows handler c x (L.see (.task (s.connMap x.fd).isSome)) := by
  have hstage := hinv.stage hx
  have hnot := not_early_of_stage hstage (hstage.established_of_late (Or.inl (hinv.flight_pos hat)))
  have hlate := h.late hnot
  obtain ⟨left, htasks, hafter⟩ := h.next hat rfl rfl (s.WriteCompleteCallback c x)
  refine ⟨task_enabled hinv hx hlate htasks, hafter.trans ?_, fun he => absurd he hnot, fun _ => ?_⟩
  · have hqueued : (s.WriteCompleteCallback c x).filterMap (·.taskOf c) =
        (L.now handler).WriteCompleteCallback (s.connMap x.fd).isSome := by
      unfold TcpServer.WriteCompleteCallback Close Exchange.WriteCompleteCallback
      rw [hlate]
      repeat' split
      all_goals simp [ConnTask.taskOf, Conn.bind, TaskFunc.loopTask]
    rw [Life.now_see, Exchange.step, htasks, hqueued]
  · rw [Life.now_see, Exchange.step, htasks]
    exact hlate

theorem Follows.handleClose (h : s.Follows handler c x L) (hinv : Inv own s) (hx : s.conns c = some x)
    (hat : s.At (some x.mLoop) (.tasks done (x.bind c .handleClose :: rest))) :
    (L.now handler).Enabled (.task (s.connMap x.fd).isSome) ∧
      ((s.handled c x x.tcp.handleClose x.tcp.closeMods).proceed (some x.mLoop)
        (.tasks (done ++ [x.bind c .handleClose]) rest) (x.queued c x.tcp.handleClose)).Follows handler c
          { x with tcp := x.tcp.handleClose } (L.see (.task (s.connMap x.fd).isSome)) := by
  have hstage := hinv.stage hx
  have hnot := not_early_of_stage hstage (hstage.established_of_late (Or.inr (hinv.flight_pos hat)))
  have hlate := h.late hnot
  obtain ⟨left, htasks, hafter⟩ := h.next hat rfl (loops_handled s c x x.tcp.handleClose x.tcp.closeMods)
    (x.queued c x.tcp.handleClose)
  refine ⟨task_enabled hinv hx hlate htasks, hafter.trans ?_, fun he => ?_, fun _ => ?_⟩
  · have hcount : x.tcp.handleClose.writeCompletes = x.tcp.writeCompletes := by
      unfold TcpConnection.handleClose
      split <;> rfl
    rw [filterMap_queued, hcount, Nat.sub_self, Life.now_see, Exchange.step, htasks]
    exact List.append_nil left
  · exact absurd he.1 (TcpConnection.not_isOpen_handleClose x.tcp)
  · rw [Life.now_see, Exchange.step, htasks, hlate]

end

omit [DecidableEq ι] in
theorem spared_of_ran (hran : Ran s s' l ran queued) (htasks : ∀ t ∈ ran, t.taskOf c = none)
    (hqueued : ∀ t ∈ queued, t.taskOf c = none) (hx : s.conns c = some x)
    (hchannel : s'.channelMap x.mLoop x.fd = s.channelMap x.mLoop x.fd) : Spared s s' c x :=
  ⟨hx, hchannel, hran.tasksOf_eq htasks hqueued _⟩

omit [DecidableEq ι] in
theorem spared_of_nothing (hran : Ran s s' l [] []) (hx : s.conns c = some x)
    (hchannel : s'.channelMap x.mLoop x.fd = s.channelMap x.mLoop x.fd) : Spared s s' c x :=
  spared_of_ran hran (fun _ ht => absurd ht List.not_mem_nil) (fun _ ht => absurd ht List.not_mem_nil) hx hchannel

omit [DecidableEq ι] in
theorem taskOf_of_ne {t : ConnTask ι} (hne : c ≠ t.conn) : t.taskOf c = none := if_neg hne.symm

/-- Two connections have two descriptors. -/
theorem Inv.place_ne (h : Inv own s) {c' : Nat} {x' : Conn ι} (hx : s.conns c = some x)
    (hx' : s.conns c' = some x') (hne : c' ≠ c) : (x'.mLoop, x'.fd) ≠ (x.mLoop, x.fd) := by
  intro heq
  have hident := ident_of_conn hx'
  rw [(Prod.mk.inj heq).2] at hident
  exact hne (h.unique hident (ident_of_conn hx))

theorem conns_runTask_of_ne (s : TcpServer ι) {t : ConnTask ι} (x : Conn ι) {c' : Nat} (hne : c' ≠ t.conn) :
    (s.runTask t x).1.conns c' = s.conns c' := by
  unfold runTask
  cases t.func with
  | Established =>
    refine (Function.update_of_ne hne ..).trans (congrFun ?_ c')
    exact (conns_assert _ _ _).trans (conns_assert s _ _)
  | removeInLoop => exact congrFun (conns_assert s _ _) c'
  | Destroy =>
    refine (Function.update_of_ne hne ..).trans (congrFun ?_ c')
    exact (conns_assert _ _ _).trans ((conns_assert _ _ _).trans (conns_assert s _ _))
  | WriteCompleteCallback => rfl
  | handleClose => exact conns_handled_of_ne s _ x _ _ hne

theorem channelMap_runTask_of_ne (s : TcpServer ι) (t : ConnTask ι) {x : Conn ι} {i : ι} {fd : Nat}
    (hne : (i, fd) ≠ (x.mLoop, x.fd)) : (s.runTask t x).1.channelMap i fd = s.channelMap i fd := by
  unfold runTask
  cases t.func with
  | Established =>
    refine (channelMap_setChannel_of_ne _ _ hne).trans ?_
    rw [channelMap_assert]
    refine (channelMap_setChannel_of_ne _ _ hne).trans ?_
    rw [channelMap_assert]
  | removeInLoop => exact congrFun (congrFun (channelMap_assert s _ _) i) fd
  | Destroy =>
    refine (channelMap_setChannel_of_ne _ _ hne).trans ?_
    rw [channelMap_assert, channelMap_assert, channelMap_assert]
  | WriteCompleteCallback => rfl
  | handleClose => exact channelMap_handled_of_ne s _ x _ _ hne

/-- What a task queues is for its own connection. -/
theorem conn_runTask (s : TcpServer ι) (t : ConnTask ι) (x : Conn ι) :
    ∀ t' ∈ (s.runTask t x).2, t'.conn = t.conn := by
  unfold runTask
  cases t.func with
  | Established | Destroy => exact fun t' ht' => absurd ht' List.not_mem_nil
  | removeInLoop =>
    intro t' ht'
    obtain rfl : t' = x.bind t.conn .Destroy := List.mem_singleton.mp ht'
    rfl
  | WriteCompleteCallback =>
    intro t' ht'
    dsimp only [WriteCompleteCallback, Close] at ht'
    split at ht'
    · cases ht'
    · split at ht'
      · obtain rfl : t' = x.bind t.conn .handleClose := List.mem_singleton.mp ht'
        rfl
      · cases ht'
  | handleClose => exact fun t' ht' => (mem_queued x t.conn _ t' ht').1

/-- What the poller of a connection reports as long as its mask is the same. -/
def Masked (s : TcpServer ι) : Prop :=
  ∀ (i : ι) (a : Nat × UInt32) (x : Conn ι), a ∈ (s.loops (some i)).activeChannel → s.conns a.1 = some x →
    a.2 &&& (x.tcp.mChannel.registered ||| EPOLLERR ||| EPOLLHUP) = a.2

theorem Masked.event (h : s.Masked) (hinv : Inv own s) {rEvent : UInt32} {rest : List (Nat × UInt32)}
    (hx : s.conns c = some x) (hat : s.At (some x.mLoop) (.events ((c, rEvent) :: rest)))
    (hloops : s₁.loops = s.loops) (hconns : ∀ c', c' ≠ c → s₁.conns c' = s.conns c')
    (queued : List (ConnTask ι)) : (s₁.proceed (some x.mLoop) (.events rest) queued).Masked := by
  intro i a x' ha hx'
  have hactive : (s.loops (some x.mLoop)).activeChannel = (c, rEvent) :: rest := by rw [hat.loops]; rfl
  have hne : a.1 ≠ c ∧ a ∈ (s.loops (some i)).activeChannel := by
    by_cases hi : i = x.mLoop
    · rw [hi, loops_proceed] at ha
      have hdistinct := hinv.distinct x.mLoop
      rw [hactive, List.map_cons, List.nodup_cons] at hdistinct
      refine ⟨fun hac => hdistinct.1 (List.mem_map.mpr ⟨a, ha, hac⟩), ?_⟩
      rw [hi, hactive]
      exact List.mem_cons_of_mem _ ha
    · have hsame : (s₁.proceed (some x.mLoop) (.events rest) queued).loops (some i) = s.loops (some i) :=
        (loops_of_ne _ _ (by simpa using hi)).trans (congrFun hloops _)
      rw [hsame] at ha
      exact ⟨fun hac => hi (hinv.active_loop ha (hac ▸ hx)).1, ha⟩
  exact h i a x' hne.2 ((hconns _ hne.1).symm.trans hx')

theorem Masked.task (h : s.Masked) (hinv : Inv own s) {t : ConnTask ι} {done rest : List (ConnTask ι)}
    (hx : s.conns t.conn = some x) (hat : s.At l (.tasks done (t :: rest))) :
    ((s.runTask t x).1.proceed l (.tasks (done ++ [t]) rest) (s.runTask t x).2).Masked := by
  intro i a x' ha hx'
  have hmem : t ∈ (s.loops l).pending := by rw [hat.loops]; exact List.mem_cons_self
  obtain ⟨hruns, fd, hident⟩ := hinv.pending hmem
  have hne : some i ≠ l := by
    intro hl
    rw [hl, loops_proceed] at ha
    cases ha
  rw [loops_of_ne _ _ hne, loops_runTask] at ha
  by_cases hac : a.1 = t.conn
  · -- a thread that runs a task has handled its events, so the task is one of the accepting loop's
    have hfunc : t.func = .removeInLoop := by
      obtain ⟨func, conn, ioLoop⟩ := t
      obtain ⟨-, rfl⟩ := ident_eq hx hident
      cases func with
      | removeInLoop => rfl
      | _ => exact absurd ((congrArg some (hinv.active_loop ha (hac ▸ hx)).1).trans hruns) hne
    have hconns : (s.runTask t x).1.conns = s.conns := by
      unfold runTask
      rw [hfunc]
      exact conns_assert s _ _
    exact h i a x' ha ((congrFun hconns _).symm.trans hx')
  · exact h i a x' ha ((conns_runTask_of_ne s x hac).symm.trans hx')

/-- The thread of `l` has no events to handle. -/
theorem Masked.of_loop (h : s.Masked) {L : ConnLoop ι} (hnone : L.activeChannel = []) :
    Masked { s with loops := update s.loops l L } := by
  intro i a x' ha hx'
  dsimp only at ha
  by_cases hi : some i = l
  · rw [hi, Function.update_self, hnone] at ha
    cases ha
  · exact h i a x' (by rwa [Function.update_of_ne hi] at ha) hx'

end TcpServer

namespace Watched

variable {ι : Type*} [DecidableEq ι] {own : ι → List Nat} {handler : HttpServeFunc} {w w' : Watched ι}
  {s' : TcpServer ι} {lives' : Nat → Option Life} {c : Nat} {x : Conn ι}

/-- Every connection follows its exchange. -/
structure Inv (own : ι → List Nat) (handler : HttpServeFunc) (w : Watched ι) : Prop where
  server : TcpServer.Inv own w.server
  masked : w.server.Masked
  follows : ∀ {c x}, w.server.conns c = some x → ∃ L, w.lives c = some L ∧ w.server.Follows handler c x L
  lawful : ∀ {c L}, w.lives c = some L → L.Lawful handler

/-- A step that spares all connections that are left. -/
theorem Inv.quiet (h : Inv own handler w) (hserver : TcpServer.Inv own s') (hmasked : s'.Masked)
    (hspared : ∀ {c x}, s'.conns c = some x → TcpServer.Spared w.server s' c x) :
    Inv own handler ⟨s', w.lives⟩ where
  server := hserver
  masked := hmasked
  follows hx := by
    obtain ⟨L, hL, hfollows⟩ := h.follows (hspared hx).conn
    exact ⟨L, hL, hfollows.spared (hspared hx)⟩
  lawful := h.lawful

/-- A step that spares all connections but `c`. -/
theorem Inv.change (h : Inv own handler w) (hserver : TcpServer.Inv own s') (hmasked : s'.Masked)
    (hlives : ∀ c', c' ≠ c → lives' c' = w.lives c')
    (hspared : ∀ {c' x}, c' ≠ c → s'.conns c' = some x → TcpServer.Spared w.server s' c' x)
    (hx : s'.conns c = some x)
    (hself : ∃ L, lives' c = some L ∧ s'.Follows handler c x L ∧ L.Lawful handler) :
    Inv own handler ⟨s', lives'⟩ := by
  obtain ⟨L, hL, hfollows, hlawful⟩ := hself
  refine ⟨hserver, hmasked, fun {c' x'} hx' => ?_, fun {c' L'} hL' => ?_⟩
  · by_cases hne : c' = c
    · subst hne
      obtain rfl := Option.some.inj (hx.symm.trans hx')
      exact ⟨L, hL, hfollows⟩
    · have hs := hspared hne hx'
      obtain ⟨L', hL', hfollows'⟩ := h.follows hs.conn
      exact ⟨L', (hlives c' hne).trans hL', hfollows'.spared hs⟩
  · by_cases hne : c' = c
    · subst hne
      obtain rfl := Option.some.inj (hL.symm.trans hL')
      exact hlawful
    · exact h.lawful ((hlives c' hne).symm.trans hL')

/-- A step that is an event of the exchange of `c`. -/
theorem Inv.see (h : Inv own handler w) (hserver : TcpServer.Inv own s') (hmasked : s'.Masked)
    (hspared : ∀ {c' x}, c' ≠ c → s'.conns c' = some x → TcpServer.Spared w.server s' c' x)
    (hx : w.server.conns c = some x) {x' : Conn ι} (hx' : s'.conns c = some x') {e : ExchangeEvent}
    (hevent : ∀ L, w.server.Follows handler c x L →
      (L.now handler).Enabled e ∧ s'.Follows handler c x' (L.see e)) :
    Inv own handler ⟨s', Watched.see w.lives c e⟩ := by
  obtain ⟨L, hL, hfollows⟩ := h.follows hx
  obtain ⟨henabled, hfollows'⟩ := hevent L hfollows
  refine h.change hserver hmasked (fun c' hne => Function.update_of_ne hne ..) hspared hx'
    ⟨L.see e, ?_, hfollows', (h.lawful hL).see henabled⟩
  rw [Watched.see, Function.update_self, hL]
  rfl

end Watched
namespace TcpServer

variable {ι : Type*} [DecidableEq ι] {own : ι → List Nat} {s : TcpServer ι}

/-- Nothing is queued for a connection that is not there yet. -/
theorem Inv.tasksOf_next (h : Inv own s) (l : Option ι) : (s.loops l).tasksOf s.next = [] := by
  rw [ConnLoop.tasksOf, List.filterMap_eq_nil_iff]
  intro t ht
  have hident : ∃ fd, s.ident t.conn = some (fd, t.ioLoop) :=
    (List.mem_append.mp ht).elim (fun hmem => (h.pending hmem).2) fun hmem => (h.queueing hmem).2
  obtain ⟨fd, hfd⟩ := hident
  obtain ⟨x, hx, _⟩ := conn_of_ident hfd
  exact taskOf_of_ne (h.lt_next hx).ne'

end TcpServer

namespace Watched

variable {ι : Type*} [DecidableEq ι] {own : ι → List Nat} {handler : HttpServeFunc} {w w' : Watched ι}

theorem Inv.accept (h : Inv own handler w) {connfd : Nat} {i : ι} {rbuf wbuf : Bytes} {socket : Socket}
    {garbage : Channel} {alive : Bool} (hat : w.server.At none (.events []))
    (hfree : w.server.NotOpen own connfd) :
    Inv own handler
      ⟨(w.server.newConnection connfd i (.new rbuf wbuf {} socket garbage alive)).proceed none (.events [])
        [⟨.Established, w.server.next, i⟩],
      update w.lives w.server.next (some ⟨.start rbuf wbuf socket garbage alive, []⟩)⟩ := by
  have hserver := h.server.step (.accept connfd i rbuf wbuf socket garbage alive hat hfree)
  have hc := h.server.concerns_accept i (.new rbuf wbuf {} socket garbage alive) hat hfree
  have hchannels : ((w.server.newConnection connfd i (.new rbuf wbuf {} socket garbage alive)).proceed none
      (.events []) [⟨.Established, w.server.next, i⟩]).channelMap = w.server.channelMap :=
    TcpServer.channelMap_assert ..
  generalize ((w.server.newConnection connfd i (.new rbuf wbuf {} socket garbage alive)).proceed none
    (.events []) [⟨.Established, w.server.next, i⟩]) = s' at hserver hc hchannels ⊢
  have hnone : ∀ c', ∀ t ∈ [(⟨.Established, w.server.next, i⟩ : ConnTask ι)], t.taskOf c' = none := by
    intro c' t ht
    rw [List.mem_singleton.mp ht]
    exact ite_self _
  have htasks : ∀ c' l', (s'.loops l').tasksOf c' = (w.server.loops l').tasksOf c' := fun c' =>
    hc.goesOn.tasksOf_eq (fun t ht => absurd ht List.not_mem_nil) (hnone c')
  refine h.change hserver ?_ (fun c' hne => Function.update_of_ne hne ..) ?_ hc.conns_self
    ⟨_, Function.update_self .., ?_, ⟨⟨rbuf, wbuf, socket, garbage, alive, rfl⟩, trivial⟩⟩
  · intro j a x ha hx
    rw [hc.others _ (by simp)] at ha
    refine h.masked _ _ _ ha ((hc.conns_of_ne fun heq => ?_).symm.trans hx)
    obtain ⟨x', hx', _⟩ := h.server.reported ha
    rw [heq, h.server.fresh _ le_rfl] at hx'
    cases hx'
  · intro c' x hne hx
    exact ⟨(hc.conns_of_ne hne).symm.trans hx, congrFun (congrFun hchannels _) _, htasks c' _⟩
  · have hchannel : s'.channelMap i connfd = none := by
      rw [hchannels]
      exact h.server.channelMap_none hfree i
    refine ⟨(htasks _ _).trans (h.server.tasksOf_next _), fun _ => ⟨rfl, rfl⟩, fun hlate => ?_⟩
    exact absurd ⟨Or.inl rfl, hchannel⟩ hlate

theorem Inv.event (h : Inv own handler w) {i : ι} {c : Nat} {rEvent : UInt32} {rest : List (Nat × UInt32)}
    {x : Conn ι} (hat : w.server.At (some i) (.events ((c, rEvent) :: rest))) (hx : w.server.conns c = some x)
    (recvs : List Recv) (writevs : List Writev) :
    Inv own handler
      ⟨(w.server.HandleEvent handler recvs writevs rEvent c x).1.proceed (some i) (.events rest)
        (w.server.HandleEvent handler recvs writevs rEvent c x).2,
      Watched.see w.lives c (.event rEvent recvs writevs)⟩ := by
  have hserver := h.server.step (.event i c rEvent rest x handler recvs writevs hat hx)
  have hmem : (c, rEvent) ∈ (w.server.loops (some i)).activeChannel := by
    rw [hat.loops]
    exact List.mem_cons_self
  obtain ⟨rfl, hchannel, _⟩ := h.server.active_loop hmem hx
  have hmask := h.masked _ _ _ hmem hx
  have hloops := TcpServer.loops_HandleEvent w.server handler recvs writevs rEvent c x
  refine h.see hserver ?_ (fun {c' x'} hne hx' => ?_) hx (Function.update_self ..) fun L hfollows =>
    ⟨?_, hfollows.event hchannel hat recvs writevs⟩
  · exact h.masked.event h.server hx hat hloops (TcpServer.conns_HandleEvent_of_ne _ _ _ _ _ c x) _
  · have hconn := (TcpServer.conns_HandleEvent_of_ne _ handler recvs writevs rEvent c x c' hne).symm.trans hx'
    have hran : TcpServer.Ran w.server _ _ [] _ := hat.goesOn hloops (.events rest)
      (w.server.HandleEvent handler recvs writevs rEvent c x).2 fun _ => rfl
    refine TcpServer.spared_of_ran hran (fun t ht => absurd ht List.not_mem_nil) (fun t ht => ?_) hconn ?_
    · obtain ⟨rfl, _⟩ := TcpServer.mem_queued _ _ _ t ht
      exact TcpServer.taskOf_of_ne hne
    · exact TcpServer.channelMap_HandleEvent_of_ne _ _ _ _ _ c (h.server.place_ne hx hconn hne)
  · have hlate := hfollows.late (TcpServer.not_early_of_channel hchannel)
    rw [hlate] at hmask
    exact hmask

theorem Inv.task (h : Inv own handler w) {l : Option ι} {t : ConnTask ι} {done rest : List (ConnTask ι)}
    {x : Conn ι} (hat : w.server.At l (.tasks done (t :: rest))) (hx : w.server.conns t.conn = some x) :
    Inv own handler
      ⟨(w.server.runTask t x).1.proceed l (.tasks (done ++ [t]) rest) (w.server.runTask t x).2,
      seeTask w.lives w.server t x⟩ := by
  have hserver := h.server.step (.task l t done rest x hat hx)
  have hmasked := h.masked.task h.server hx hat
  have hran := hat.task_ran (TcpServer.loops_runTask w.server t x) (w.server.runTask t x).2
  have hspared : ∀ {c' x'}, c' ≠ t.conn → (w.server.runTask t x).1.conns c' = some x' →
      TcpServer.Spared w.server ((w.server.runTask t x).1.proceed l (.tasks (done ++ [t]) rest)
        (w.server.runTask t x).2) c' x' := by
    intro c' x' hne hx'
    have hconn := (TcpServer.conns_runTask_of_ne _ x hne).symm.trans hx'
    refine TcpServer.spared_of_ran hran (fun t' ht' => ?_) (fun t' ht' => ?_) hconn ?_
    · exact TcpServer.taskOf_of_ne (List.mem_singleton.mp ht' ▸ hne)
    · exact TcpServer.taskOf_of_ne ((TcpServer.conn_runTask _ _ _ t' ht').symm ▸ hne)
    · exact TcpServer.channelMap_runTask_of_ne _ _ (h.server.place_ne hx hconn hne)
  have hmem : t ∈ (w.server.loops l).pending := by
    rw [hat.loops]
    exact List.mem_cons_self
  obtain ⟨rfl, fd, hident⟩ := h.server.pending hmem
  obtain ⟨func, c, ioLoop⟩ := t
  obtain ⟨-, rfl⟩ := TcpServer.ident_eq hx hident
  cases func with
  | Established =>
    obtain ⟨L, hL, hfollows⟩ := h.follows hx
    exact h.change hserver hmasked (fun _ _ => rfl) hspared (Function.update_self ..)
      ⟨L, hL, hfollows.Established h.server hx hat, h.lawful hL⟩
  | removeInLoop =>
    refine h.quiet hserver hmasked fun {c' x'} hx' => ?_
    have hconn := (congrFun (TcpServer.conns_assert _ _ _) c').symm.trans hx'
    refine TcpServer.spared_of_ran hran (fun t ht => ?_) (fun t ht => ?_) hconn ?_
    · rw [List.mem_singleton.mp ht]
      exact ite_self _
    · obtain rfl : t = x.bind c .Destroy := List.mem_singleton.mp ht
      exact ite_self _
    · exact congrFun (congrFun (TcpServer.channelMap_assert _ _ _) _) _
  | Destroy =>
    exact h.see hserver hmasked hspared hx (Function.update_self ..) fun L hfollows =>
      hfollows.Destroy h.server hx hat
  | WriteCompleteCallback =>
    exact h.see hserver hmasked hspared hx hx fun L hfollows =>
      hfollows.WriteCompleteCallback h.server hx hat
  | handleClose =>
    exact h.see hserver hmasked hspared hx (Function.update_self ..) fun L hfollows =>
      hfollows.handleClose h.server hx hat

theorem inv_start (own : ι → List Nat) (handler : HttpServeFunc) : Inv own handler (start own) where
  server := TcpServer.inv_start own
  masked _ _ _ ha := by cases ha
  follows hx := by cases hx
  lawful hL := by cases hL

theorem Inv.step (h : Inv own handler w) (hstep : Step own handler w w') : Inv own handler w' := by
  have hserver := h.server.step hstep.server
  cases hstep with
  | accept connfd i rbuf wbuf socket garbage alive at_ free => exact h.accept at_ free
  | push l t rest at_ =>
    refine h.quiet hserver (fun i a x ha hx => ?_) fun hx =>
      ⟨hx, rfl, h.server.tasksOf_QueueInLoop at_ _ _⟩
    rw [TcpServer.loops_QueueInLoop] at ha
    exact h.masked i a x ha hx
  | poll l activeChannel at_ can =>
    refine h.quiet hserver (fun i a x ha hx => ?_) fun hx =>
      TcpServer.spared_of_nothing (at_.goesOn rfl (.events activeChannel) [] fun _ => rfl) hx rfl
    by_cases hl : some i = l
    · subst hl
      rw [TcpServer.loops_proceed] at ha
      obtain ⟨x', hx', _, hmask⟩ := can.2 a ha
      obtain rfl := Option.some.inj (hx'.symm.trans hx)
      exact hmask
    · rw [TcpServer.loops_of_ne _ _ hl] at ha
      exact h.masked i a x ha hx
  | event i c rEvent rest x recvs writevs at_ alive => exact h.event at_ alive recvs writevs
  | doTask l at_ =>
    exact h.quiet hserver (h.masked.of_loop rfl) fun hx =>
      TcpServer.spared_of_nothing (TcpServer.ran_swap at_) hx rfl
  | task l t done rest x at_ alive => exact h.task at_ alive
  | ranAll l done at_ =>
    exact h.quiet hserver (h.masked.of_loop rfl) fun hx =>
      TcpServer.spared_of_nothing (at_.goesOn rfl .poll [] fun _ => rfl) hx rfl
  | destruct c alive free =>
    have hconn : ∀ {c' x}, (w.server.destruct c).conns c' = some x → w.server.conns c' = some x := by
      intro c' x hx
      by_cases hne : c' = c
      · rw [hne, TcpServer.conns_destruct] at hx
        cases hx
      · rwa [TcpServer.conns_destruct_of_ne _ hne] at hx
    exact h.quiet hserver (fun _ _ _ ha hx => h.masked _ _ _ ha (hconn hx)) fun hx => ⟨hconn hx, rfl, rfl⟩

theorem Reachable.inv (h : Lib.Reachable (· = start own) (Step own handler) w) : Inv own handler w := by
  refine Lib.Reachable.invariant (P := Inv own handler) ?_ (fun w w' hinv hstep => hinv.step hstep) h
  rintro w rfl
  exact inv_start own handler

/-- Whatever the threads and the other connections do, a connection goes through an exchange. -/
theorem lives_run (h : Lib.Reachable (· = start own) (Step own handler) w) {c : Nat} {x : Conn ι}
    (hx : w.server.conns c = some x) :
    ∃ L, w.lives c = some L ∧ L.Lawful handler ∧ w.server.Follows handler c x L := by
  have hinv := Reachable.inv h
  obtain ⟨L, hL, hfollows⟩ := hinv.follows hx
  exact ⟨L, hL, hinv.lawful hL, hfollows⟩

def visitor : Conn Unit :=
  ⟨.new (List.replicate 128 0) (List.replicate 256 0) {} ⟨[], [], []⟩ ⟨0, 0⟩ true, 5, ()⟩

def arrival : Watched Unit where
  server := (((TcpServer.start fun _ => []).proceed none (.events []) []).newConnection 5 () visitor.tcp).proceed
    none (.events []) [⟨.Established, 0, ()⟩]
  lives := update (fun _ => none) 0 (some ⟨Exchange.visited, []⟩)

def entered : Watched Unit where
  server := (((arrival.server.QueueInLoop none ⟨.Established, 0, ()⟩ []).proceed (some ()) (.events []) []).swap
    (some ())).Established 0 visitor |>.proceed (some ()) (.tasks [⟨.Established, 0, ()⟩] []) []
  lives := arrival.lives

/-- The form has come. -/
def reported : Watched Unit where
  server := (entered.server.proceed (some ()) .poll []).proceed (some ()) (.events [(0, EPOLLIN)]) []
  lives := entered.lives

/-- The form has been read at once, and its response has been written. -/
def answered : Watched Unit :=
  let s := (entered.server.proceed (some ()) .poll []).proceed (some ()) (.events [(0, EPOLLIN)]) []
  let r := s.HandleEvent Exchange.sendReport [.data form.bytes] [] EPOLLIN 0
    { visitor with tcp := visitor.tcp.Established HttpServer.connectedCb }
  ⟨r.1.proceed (some ()) (.events []) r.2, see entered.lives 0 (.event EPOLLIN [.data form.bytes] [])⟩

theorem reachable_reported :
    Lib.Reachable (· = start fun _ => []) (Step (fun _ => []) Exchange.sendReport) reported := by
  have hstart : Lib.Reachable (· = start fun _ : Unit => []) (Step (fun _ => []) Exchange.sendReport)
      (start fun _ => []) := .start rfl
  have harrived := (hstart.tail (.poll none [] ⟨rfl, rfl⟩ rfl)).tail (.accept 5 () (List.replicate 128 0)
    (List.replicate 256 0) ⟨[], [], []⟩ ⟨0, 0⟩ true ⟨rfl, rfl⟩
    ⟨fun _ => List.not_mem_nil, fun _ _ hx => by cases hx⟩)
  have hpushed := harrived.tail (.push none ⟨.Established, 0, ()⟩ [] rfl)
  have hpolled := hpushed.tail (.poll (some ()) [] ⟨rfl, rfl⟩ ⟨List.nodup_nil, by simp⟩)
  have hswapped := hpolled.tail (.doTask (some ()) ⟨rfl, rfl⟩)
  have hentered := hswapped.tail (.task (some ()) ⟨.Established, 0, ()⟩ [] [] visitor ⟨rfl, rfl⟩ rfl)
  have hran := hentered.tail (.ranAll (some ()) [⟨.Established, 0, ()⟩] ⟨rfl, rfl⟩)
  exact hran.tail (.poll (some ()) [(0, EPOLLIN)] ⟨rfl, rfl⟩ ⟨by decide, by
    intro a ha
    rw [List.mem_singleton.mp ha]
    exact ⟨{ visitor with tcp := visitor.tcp.Established HttpServer.connectedCb }, rfl, rfl, by decide⟩⟩)

/-- Its first event has been handled. -/
def handled (recvs : List Recv) (writevs : List Writev) : Watched Unit :=
  let r := reported.server.HandleEvent Exchange.sendReport recvs writevs EPOLLIN 0
    { visitor with tcp := visitor.tcp.Established HttpServer.connectedCb }
  ⟨r.1.proceed (some ()) (.events []) r.2, see reported.lives 0 (.event EPOLLIN recvs writevs)⟩

theorem reachable_handled (recvs : List Recv) (writevs : List Writev) :
    Lib.Reachable (· = start fun _ => []) (Step (fun _ => []) Exchange.sendReport) (handled recvs writevs) :=
  reachable_reported.tail (.event () 0 EPOLLIN [] _ recvs writevs ⟨rfl, rfl⟩ rfl)

theorem reachable_answered :
    Lib.Reachable (· = start fun _ => []) (Step (fun _ => []) Exchange.sendReport) answered :=
  reachable_handled [.data form.bytes] []

theorem lives_run_answered :
    ∃ L, answered.lives 0 = some L ∧ L.Lawful Exchange.sendReport ∧
      answered.server.Follows Exchange.sendReport 0
        ⟨HttpServer.HandleEvent Exchange.sendReport EPOLLIN
          (((visitor.tcp.Established HttpServer.connectedCb).withRecvs [.data form.bytes]).withWritevs []),
          5, ()⟩ L :=
  lives_run reachable_answered rfl

end Watched
end Knpnl.Http
