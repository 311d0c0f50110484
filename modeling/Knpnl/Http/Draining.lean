import Mathlib.Data.Prod.Lex
import Mathlib.Data.Finset.Card
import Knpnl.Lib.Quiescence
import Knpnl.Http.Bookkeeping

/-!
# A server comes to rest

When no client connects and the kernel reports nothing new, the loops run what is queued. Each task
queues only tasks that are nearer to the end of a connection, so in whatever order the threads go on
they come to rest. Then the open connections, `connMap` and the pollers agree, and nothing is left of
the others.
-/
namespace Knpnl.Http

open Lib
open Relation (ReflTransGen)
open Base (Recv)
open Net (TcpConnection Writev)
open Function (update)

section
variable {ι : Type*}

/-- How many steps the task can bring about. A task that is not yet pushed takes one more. -/
def TaskFunc.weight : TaskFunc → Nat
  | Established | Destroy => 1
  | removeInLoop => 3
  | handleClose => 5
  | WriteCompleteCallback => 7

namespace ConnLoop

variable (L : ConnLoop ι)

def toHandle : Nat := L.activeChannel.length

def toRun : Nat := (L.pending.map fun t => t.func.weight).sum

def toPush : Nat := (L.queueing.map fun t => t.func.weight + 1).sum

/-- What is left of a turn of the loop: with tasks queued it takes another one. -/
def turn : Nat :=
  match L.phase with
  | .poll => if L.mTasks = [] then 0 else 3
  | .events _ => 2
  | .tasks _ _ => if L.mTasks = [] then 1 else 4

/-- The thread is in `epoll_wait`, and has nothing to run. -/
def Idle : Prop := L.phase = .poll ∧ L.mTasks = [] ∧ L.queueing = []

end ConnLoop
end

namespace TcpServer

variable {ι : Type*} [DecidableEq ι] {own : ι → List Nat} {s s' : TcpServer ι}

/-- A step with nothing new from outside: `epoll_wait` returns only because a task is queued. -/
inductive Drain (s : TcpServer ι) : TcpServer ι → Prop where
  | push (l : Option ι) (t : ConnTask ι) (rest : List (ConnTask ι)) (at_ : (s.loops l).queueing = t :: rest) :
      Drain s (s.QueueInLoop l t rest)
  | wakeup (l : Option ι) (at_ : s.At l .poll) (queued : (s.loops l).mTasks ≠ []) :
      Drain s (s.proceed l (.events []) [])
  | event (i : ι) (c : Nat) (rEvent : UInt32) (rest : List (Nat × UInt32)) (x : Conn ι)
      (HttpCallback : HttpServeFunc) (recvs : List Recv) (writevs : List Writev)
      (at_ : s.At (some i) (.events ((c, rEvent) :: rest))) (alive : s.conns c = some x) :
      Drain s ((s.HandleEvent HttpCallback recvs writevs rEvent c x).1.proceed (some i) (.events rest)
        (s.HandleEvent HttpCallback recvs writevs rEvent c x).2)
  | doTask (l : Option ι) (at_ : s.At l (.events [])) : Drain s (s.swap l)
  | task (l : Option ι) (t : ConnTask ι) (ran rest : List (ConnTask ι)) (x : Conn ι)
      (at_ : s.At l (.tasks ran (t :: rest))) (alive : s.conns t.conn = some x) :
      Drain s ((s.runTask t x).1.proceed l (.tasks (ran ++ [t]) rest) (s.runTask t x).2)
  | ranAll (l : Option ι) (ran : List (ConnTask ι)) (at_ : s.At l (.tasks ran [])) :
      Drain s (s.proceed l .poll [])
  | destruct (c : Nat) (alive : (s.conns c).isSome) (free : ¬ s.Held c) : Drain s (s.destruct c)

theorem Drain.step (h : Drain s s') : Step own s s' := by
  cases h with
  | push l t rest at_ => exact .push l t rest at_
  | wakeup l at_ queued =>
    refine .poll l [] at_ ?_
    cases l with
    | none => rfl
    | some i => exact ⟨List.nodup_nil, fun a ha => absurd ha List.not_mem_nil⟩
  | event i c rEvent rest x HttpCallback recvs writevs at_ alive =>
    exact .event i c rEvent rest x HttpCallback recvs writevs at_ alive
  | doTask l at_ => exact .doTask l at_
  | task l t ran rest x at_ alive => exact .task l t ran rest x at_ alive
  | ranAll l ran at_ => exact .ranAll l ran at_
  | destruct c alive free => exact .destruct c alive free

section
variable [Fintype ι]

def total (f : ConnLoop ι → Nat) (s : TcpServer ι) : Nat := ∑ l, f (s.loops l)

/-- The connections that are left. -/
def live (s : TcpServer ι) : Nat := ((Finset.range s.next).filter fun c => (s.conns c).isSome = true).card

/-- The events to handle come first, then the tasks, then the turns of the loops. -/
def toDo (s : TcpServer ι) : ℕ ×ₗ ℕ ×ₗ ℕ ×ₗ ℕ :=
  toLex (s.total ConnLoop.toHandle, toLex (s.total ConnLoop.toRun + s.total ConnLoop.toPush,
    toLex (s.total ConnLoop.turn, s.live)))

/-- A step of one thread. -/
theorem total_change {l : Option ι} (hne : ∀ l', l' ≠ l → s'.loops l' = s.loops l') (f : ConnLoop ι → Nat) :
    s'.total f + f (s.loops l) = s.total f + f (s'.loops l) :=
  sum_change (Nat.add_comm ..) fun l' hl' => congrArg f (hne l' hl')

/-- A thread that handles an event, or runs a task that queues less, or gets on with its turn. -/
theorem toDo_lt {l : Option ι} (hne : ∀ l', l' ≠ l → s'.loops l' = s.loops l')
    (hless : (s'.loops l).toHandle < (s.loops l).toHandle ∨ (s'.loops l).toHandle = (s.loops l).toHandle ∧
      ((s'.loops l).toRun + (s'.loops l).toPush < (s.loops l).toRun + (s.loops l).toPush ∨
        (s'.loops l).toRun = (s.loops l).toRun ∧ (s'.loops l).toPush = (s.loops l).toPush ∧
          (s'.loops l).turn < (s.loops l).turn)) : s'.toDo < s.toDo := by
  have hhandle := total_change hne ConnLoop.toHandle
  have hrun := total_change hne ConnLoop.toRun
  have hpush := total_change hne ConnLoop.toPush
  have hturn := total_change hne ConnLoop.turn
  rw [toDo, toDo]
  rcases hless with hless | ⟨hsame, hless | ⟨hran, hpushed, hless⟩⟩
  · exact Prod.Lex.left _ _ (by omega)
  · rw [show s'.total ConnLoop.toHandle = s.total ConnLoop.toHandle by omega]
    exact Prod.Lex.right _ (Prod.Lex.left _ _ (by omega))
  · rw [show s'.total ConnLoop.toHandle = s.total ConnLoop.toHandle by omega,
      show s'.total ConnLoop.toRun = s.total ConnLoop.toRun by omega,
      show s'.total ConnLoop.toPush = s.total ConnLoop.toPush by omega]
    exact Prod.Lex.right _ (Prod.Lex.right _ (Prod.Lex.left _ _ (by omega)))

/-- A push: the task is one step nearer to being run. -/
theorem toDo_push {l : Option ι} {t : ConnTask ι} {rest : List (ConnTask ι)}
    (hat : (s.loops l).queueing = t :: rest) : (s.QueueInLoop l t rest).toDo < s.toDo := by
  have hhandle : (s.QueueInLoop l t rest).total ConnLoop.toHandle = s.total ConnLoop.toHandle := by
    refine Finset.sum_congr rfl fun l' _ => ?_
    rw [loops_QueueInLoop]
    rfl
  have hrun : (s.QueueInLoop l t rest).total ConnLoop.toRun + 0 = s.total ConnLoop.toRun + t.func.weight := by
    refine sum_change (k := t.runsIn) ?_ fun l' hl' => ?_
    · rw [loops_QueueInLoop, if_pos rfl, ConnLoop.toRun, pending_append]
      simp [ConnLoop.toRun]
    · rw [loops_QueueInLoop, if_neg hl', ConnLoop.toRun, pending_append, List.append_nil]
      rfl
  have hpush : (s.QueueInLoop l t rest).total ConnLoop.toPush + (t.func.weight + 1) =
      s.total ConnLoop.toPush + 0 := by
    refine sum_change (k := l) ?_ fun l' hl' => ?_
    · rw [loops_QueueInLoop, ConnLoop.toPush, ConnLoop.toPush, hat]
      simp only [↓reduceIte, List.map_cons, List.sum_cons]
      omega
    · rw [loops_QueueInLoop, ConnLoop.toPush]
      simp only [if_neg hl']
      rfl
  rw [toDo, toDo, hhandle]
  exact Prod.Lex.right _ (Prod.Lex.left _ _ (by omega))

end

omit [DecidableEq ι] in
theorem At.loops {l : Option ι} {phase : LoopPhase ι} (h : s.At l phase) :
    s.loops l = ⟨(s.loops l).mTasks, phase, []⟩ := by
  obtain ⟨hphase, hidle⟩ := h
  rw [← hphase, ← hidle]

theorem loops_of_ne {l l' : Option ι} (phase : LoopPhase ι) (queued : List (ConnTask ι)) (hne : l' ≠ l) :
    (s.proceed l phase queued).loops l' = s.loops l' := Function.update_of_ne hne ..

omit [DecidableEq ι] in
theorem loops_assert (s : TcpServer ι) (cond : Bool) (fault : Fault) : (s.assert cond fault).loops = s.loops := by
  unfold TcpServer.assert
  split <;> rfl

theorem loops_handled (s : TcpServer ι) (c : Nat) (x : Conn ι) (tcp : TcpConnection HttpContext)
    (mods : List UInt32) : (s.handled c x tcp mods).loops = s.loops := by
  have hmods : (mods.foldl (fun s _ => s.Mod x.mLoop x.fd c) s).loops = s.loops := by
    induction mods generalizing s with
    | nil => rfl
    | cons op mods ih => exact (ih (s.Mod x.mLoop x.fd c)).trans (loops_assert s _ _)
  exact hmods

theorem loops_runTask (s : TcpServer ι) (t : ConnTask ι) (x : Conn ι) : (s.runTask t x).1.loops = s.loops := by
  unfold runTask
  cases t.func with
  | Established => exact (loops_assert _ _ _).trans (loops_assert s _ _)
  | removeInLoop => exact loops_assert s _ _
  | Destroy => exact (loops_assert _ _ _).trans ((loops_assert _ _ _).trans (loops_assert s _ _))
  | WriteCompleteCallback => rfl
  | handleClose => exact loops_handled s _ x _ _

/-- A task queues less than itself. -/
theorem weight_runTask (s : TcpServer ι) (t : ConnTask ι) (x : Conn ι) :
    ((s.runTask t x).2.map fun t => t.func.weight + 1).sum < t.func.weight := by
  unfold runTask
  cases t.func with
  | Established | removeInLoop | Destroy => simp [TaskFunc.weight, Conn.bind]
  | WriteCompleteCallback =>
    dsimp only [WriteCompleteCallback, Close]
    repeat' split
    all_goals simp [TaskFunc.weight, Conn.bind]
  | handleClose =>
    have hcloses : x.tcp.handleClose.closes - x.tcp.closes ≤ 1 ∧
        x.tcp.handleClose.writeCompletes - x.tcp.writeCompletes = 0 := by
      unfold TcpConnection.handleClose
      split
      · exact ⟨(Nat.add_sub_cancel_left ..).le, Nat.sub_self _⟩
      · exact ⟨(Nat.sub_self _).le.trans (Nat.zero_le 1), Nat.sub_self _⟩
    have honce : x.tcp.handleClose.closes - x.tcp.closes = 0 ∨ x.tcp.handleClose.closes - x.tcp.closes = 1 := by
      omega
    dsimp only [Conn.queued]
    rw [hcloses.2]
    rcases honce with hcount | hcount
    all_goals rw [hcount]; simp [TaskFunc.weight, Conn.bind]

theorem Drain.less [Fintype ι] (h : Drain s s') (hinv : Inv own s) : s'.toDo < s.toDo := by
  cases h with
  | push l t rest at_ => exact toDo_push at_
  | wakeup l at_ queued =>
    refine toDo_lt (fun l' => loops_of_ne _ _) (Or.inr ⟨?_, Or.inr ⟨?_, ?_, ?_⟩⟩)
    all_goals rw [loops_proceed, at_.loops]
    · rfl
    · rfl
    · rfl
    · simp [ConnLoop.turn, queued]
  | event i c rEvent rest x HttpCallback recvs writevs at_ alive =>
    have hloops := loops_handled s c x (HttpServer.HandleEvent HttpCallback rEvent
      ((x.tcp.withRecvs recvs).withWritevs writevs)) (HttpServer.eventMods HttpCallback rEvent
      ((x.tcp.withRecvs recvs).withWritevs writevs))
    refine toDo_lt (l := some i) (fun l' hl' => ?_) (Or.inl ?_)
    · exact (loops_of_ne _ _ hl').trans (congrFun hloops l')
    · rw [loops_proceed, at_.loops]
      exact Nat.lt_succ_self _
  | doTask l at_ =>
    have hswap : (s.swap l).loops l = ⟨[], .tasks [] (s.loops l).mTasks, []⟩ := Function.update_self ..
    refine toDo_lt (l := l) (fun l' hl' => Function.update_of_ne hl' ..) (Or.inr ⟨?_, Or.inr ⟨?_, ?_, ?_⟩⟩)
    all_goals rw [hswap, at_.loops]
    · rfl
    · simp [ConnLoop.toRun, ConnLoop.pending]
    · rfl
    · simp [ConnLoop.turn]
  | task l t ran rest x at_ alive =>
    have hloops := loops_runTask s t x
    have hweight := weight_runTask s t x
    refine toDo_lt (l := l) (fun l' hl' => ?_) (Or.inr ⟨?_, Or.inl ?_⟩)
    · exact (loops_of_ne _ _ hl').trans (congrFun hloops l')
    all_goals rw [loops_proceed, hloops, at_.loops]
    · rfl
    · simp only [ConnLoop.toRun, ConnLoop.toPush, ConnLoop.pending, List.cons_append, List.map_cons,
        List.sum_cons, List.map_nil, List.sum_nil]
      omega
  | ranAll l ran at_ =>
    refine toDo_lt (fun l' => loops_of_ne _ _) (Or.inr ⟨?_, Or.inr ⟨?_, ?_, ?_⟩⟩)
    all_goals rw [loops_proceed, at_.loops]
    · rfl
    · rfl
    · rfl
    · simp only [ConnLoop.turn]
      split <;> decide
  | destruct c alive free =>
    obtain ⟨x, hx⟩ := Option.isSome_iff_exists.mp alive
    have hlive : (s.destruct c).live < s.live := by
      refine Finset.card_lt_card ⟨fun c' hc' => ?_, fun hsub => ?_⟩
      · rw [Finset.mem_filter] at hc' ⊢
        refine ⟨hc'.1, ?_⟩
        by_cases hne : c' = c
        · rw [hne]
          exact alive
        · rw [← conns_destruct_of_ne s hne]
          exact hc'.2
      · have hmem := hsub (Finset.mem_filter.mpr ⟨Finset.mem_range.mpr (hinv.lt_next hx), alive⟩)
        rw [Finset.mem_filter, conns_destruct] at hmem
        exact absurd hmem.2 (by simp)
    exact Prod.Lex.right _ (Prod.Lex.right _ (Prod.Lex.right _ hlive))

/-- Every thread is in `epoll_wait` with nothing to run. The connections that are left are open, and they
are those that `connMap` and the pollers have. -/
structure Settled (s : TcpServer ι) : Prop where
  idle : ∀ l, (s.loops l).Idle
  conns : ∀ c x, s.conns c = some x →
    x.tcp.isOpen ∧ s.connMap x.fd = some c ∧ s.channelMap x.mLoop x.fd = some (.conn c)
  connMap : ∀ fd c, s.connMap fd = some c → ∃ x, s.conns c = some x ∧ x.fd = fd
  channelMap : ∀ i fd c, s.channelMap i fd = some (.conn c) → ∃ x, s.conns c = some x ∧ x.fd = fd ∧ x.mLoop = i

end TcpServer
end Knpnl.Http
