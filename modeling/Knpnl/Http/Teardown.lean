import Knpnl.Http.Connections

/-!
# `~TcpServer`

The destructor goes through `connMap` in the order of the descriptors and queues a task for each
connection in its loop. The loops of the pool then run what is queued, in any order among each
other. The task is `Established`, for a channel that the poller has had since `newConnection`.
-/
namespace Knpnl.Http.TcpServer

open Event
open Net (TcpConnection)
open Function (update)

variable {ι : Type*} [DecidableEq ι] (s : TcpServer ι)

/-- A thread that runs none of the loops queues a task. -/
def push (t : ConnTask ι) : TcpServer ι :=
  { s with
    loops := update s.loops t.runsIn
      { s.loops t.runsIn with mTasks := (s.loops t.runsIn).mTasks ++ [t] } }

/-- One entry of `connMap`. `Entry` is a copy, so `Entry.second.reset()` leaves the map alone. -/
def destroyEntry (connfd : Nat) : TcpServer ι :=
  match s.connMap connfd with
  | none => s
  | some c =>
    match s.conns c with
    | none => s
    | some x => s.push (x.bind c .Established)

/-- `~TcpServer`, `fds` being the keys of `connMap`. -/
def destructor (fds : List Nat) : TcpServer ι := fds.foldl destroyEntry s

/-- The I/O loop `i` takes its first task, runs it and queues what the task queues. -/
def runNext (i : ι) : TcpServer ι :=
  match (s.loops (some i)).mTasks with
  | [] => s
  | t :: rest =>
    match s.conns t.conn with
    | none => s
    | some x =>
      let s := { s with loops := update s.loops (some i) { s.loops (some i) with mTasks := rest } }
      (s.runTask t x).2.foldl push (s.runTask t x).1

/-- The loops take turns as `schedule` says. -/
def runLoops (schedule : List ι) : TcpServer ι := schedule.foldl runNext s

/-- No I/O loop has a task left. -/
def Executed : Prop := ∀ i, (s.loops (some i)).mTasks = []

/-- `connMap` has exactly the keys `fds`, in their order, and its connections are established:
each is connected and in the poller of its loop. No task is queued, and nothing has failed. -/
structure Serving (fds : List Nat) : Prop where
  sorted : fds.Pairwise (· < ·)
  keys : ∀ connfd, connfd ∈ fds ↔ (s.connMap connfd).isSome
  established : ∀ connfd c, s.connMap connfd = some c → ∃ x, s.conns c = some x ∧ x.fd = connfd ∧
    x.tcp.mState = .CONNECTED ∧ s.channelMap x.mLoop connfd = some (.conn c)
  idle : s.Executed
  unfailed : s.faults = []

/-- Every connection that was in the map is closed and out of its poller, and no assertion has
failed. `s'` is the server when the tasks have been run. -/
def TornDown (s' : TcpServer ι) : Prop :=
  (∀ connfd c x, s.connMap connfd = some c → s.conns c = some x →
    s'.channelMap x.mLoop connfd = none ∧ ∃ x', s'.conns c = some x' ∧ x'.tcp.mState = .CLOSED) ∧
  s'.faults = []

variable {s}

omit [DecidableEq ι] in
theorem faults_assert (s : TcpServer ι) (cond : Bool) (fault : Fault) :
    s.faults <+: (s.assert cond fault).faults := by
  unfold assert
  split
  · exact List.prefix_refl _
  · exact List.prefix_append _ _

theorem faults_Mod (s : TcpServer ι) (i : ι) (fd c : Nat) : s.faults <+: (s.Mod i fd c).faults :=
  faults_assert s _ _

theorem faults_Delete (s : TcpServer ι) (i : ι) (fd : Nat) : s.faults <+: (s.Delete i fd).faults :=
  (faults_assert s _ _).trans (faults_assert (s.assert _ _) _ _)

theorem faults_handled (s : TcpServer ι) (c : Nat) (x : Conn ι) (tcp : TcpConnection HttpContext)
    (mods : List UInt32) : s.faults <+: (s.handled c x tcp mods).faults := by
  show s.faults <+: (mods.foldl (fun s _ => s.Mod x.mLoop x.fd c) s).faults
  induction mods generalizing s with
  | nil => exact List.prefix_refl _
  | cons m mods ih => exact (faults_Mod s _ _ _).trans (ih _)

theorem faults_runTask (s : TcpServer ι) (t : ConnTask ι) (x : Conn ι) :
    s.faults <+: (s.runTask t x).1.faults := by
  unfold runTask
  cases t.func with
  | Established =>
    exact (faults_assert s _ _).trans (faults_Mod (s.Add x.mLoop x.fd t.conn) x.mLoop x.fd t.conn)
  | removeInLoop => exact faults_assert s _ _
  | Destroy =>
    have h₁ := faults_assert s x.tcp.mChannel.isIdle .destroyBusy
    exact h₁.trans (faults_Delete (s.assert _ _) _ _)
  | WriteCompleteCallback => exact List.prefix_refl _
  | handleClose => exact faults_handled s _ _ _ _

/-- Tasks that are queued change the queues only. -/
theorem pushes_eq {α : Type*} {f : TcpServer ι → α} (h : ∀ s t, f (push s t) = f s)
    (ts : List (ConnTask ι)) (s : TcpServer ι) : f (ts.foldl push s) = f s := by
  induction ts generalizing s with
  | nil => rfl
  | cons t ts ih => exact (ih (s.push t)).trans (h s t)

theorem faults_runNext (s : TcpServer ι) (i : ι) : s.faults <+: (s.runNext i).faults := by
  unfold runNext
  cases (s.loops (some i)).mTasks with
  | nil => exact List.prefix_refl _
  | cons t rest =>
    dsimp only
    cases s.conns t.conn with
    | none => exact List.prefix_refl _
    | some x =>
      dsimp only
      rw [pushes_eq (f := faults) fun _ _ => rfl]
      exact faults_runTask
        { s with loops := update s.loops (some i) { s.loops (some i) with mTasks := rest } } t x

theorem faults_runLoops (schedule : List ι) (s : TcpServer ι) :
    s.faults <+: (s.runLoops schedule).faults := by
  induction schedule generalizing s with
  | nil => exact List.prefix_refl _
  | cons i schedule ih => exact (faults_runNext s i).trans (ih (s.runNext i))

/-- What the destructor queues for an entry. -/
def entryTask (s : TcpServer ι) (connfd : Nat) : Option (ConnTask ι) :=
  (s.connMap connfd).bind fun c => (s.conns c).map fun x => x.bind c .Established

theorem destroyEntry_eq (s : TcpServer ι) (connfd : Nat) :
    s.destroyEntry connfd = (s.entryTask connfd).toList.foldl push s := by
  unfold destroyEntry entryTask
  cases s.connMap connfd with
  | none => rfl
  | some c =>
    dsimp only [Option.bind_some]
    cases s.conns c <;> rfl

theorem mTasks_pushes (l : Option ι) (ts : List (ConnTask ι)) (s : TcpServer ι) :
    ((ts.foldl push s).loops l).mTasks = (s.loops l).mTasks ++ ts.filter fun t => t.runsIn = l := by
  induction ts generalizing s with
  | nil => simp
  | cons t ts ih =>
    rw [List.foldl_cons, ih (s.push t)]
    by_cases h : t.runsIn = l
    · subst h
      simp [push]
    · have h' : ¬ l = t.runsIn := fun e => h e.symm
      simp [push, h, h']

theorem destructor_eq (fds : List Nat) (s : TcpServer ι) :
    s.destructor fds = (fds.filterMap s.entryTask).foldl push s := by
  induction fds generalizing s with
  | nil => rfl
  | cons fd fds ih =>
    have same : (s.destroyEntry fd).entryTask = s.entryTask := by
      rw [destroyEntry_eq]
      unfold entryTask
      rw [pushes_eq (f := connMap) fun _ _ => rfl, pushes_eq (f := conns) fun _ _ => rfl]
    show (s.destroyEntry fd).destructor fds = _
    rw [ih, same, destroyEntry_eq]
    cases h : s.entryTask fd with
    | none => simp [h]
    | some t => simp [h]

/-- Each waiting task is `Established`, for a connection whose channel the poller has. -/
def Doomed (s : TcpServer ι) : Prop :=
  ∀ i, ∀ t ∈ (s.loops (some i)).mTasks, t.func = .Established ∧
    ∃ x, s.conns t.conn = some x ∧ (s.channelMap x.mLoop x.fd).isSome

/-- `Poller::Add` does not find its place free. -/
theorem fails_runNext {i : ι} (doomed : s.Doomed) (waits : (s.loops (some i)).mTasks ≠ []) :
    (s.runNext i).faults ≠ [] := by
  obtain ⟨t, rest, tasks⟩ := List.exists_cons_of_ne_nil waits
  obtain ⟨func, x, alive, present⟩ := doomed i t (by rw [tasks]; exact List.mem_cons_self)
  unfold runNext
  rw [tasks]
  dsimp only
  rw [alive]
  dsimp only
  rw [pushes_eq (f := faults) fun _ _ => rfl]
  unfold runTask
  rw [func]
  intro none
  have added := faults_Mod
    (({ s with loops := update s.loops (some i) { s.loops (some i) with mTasks := rest } }).Add
      x.mLoop x.fd t.conn) x.mLoop x.fd t.conn
  have absent := List.prefix_nil.1 (none ▸ added)
  have present' : (s.channelMap x.mLoop x.fd).isNone = false := by
    simpa using present
  simp [Add, assert, setChannel, present'] at absent

theorem fails_runLoops (schedule : List ι) (doomed : s.Doomed) (waits : ¬ s.Executed)
    (executed : (s.runLoops schedule).Executed) : (s.runLoops schedule).faults ≠ [] := by
  induction schedule with
  | nil => exact absurd executed waits
  | cons i schedule ih =>
    by_cases empty : (s.loops (some i)).mTasks = []
    · have idle : s.runNext i = s := by
        unfold runNext
        rw [empty]
      simp only [runLoops, List.foldl_cons, idle] at executed ⊢
      exact ih executed
    · have failed := fails_runNext doomed empty
      intro none
      exact failed (List.prefix_nil.1 (none ▸ faults_runLoops schedule (s.runNext i)))

namespace Serving

variable {fds : List Nat}

theorem mem_waiting (serving : s.Serving fds) {i : ι} {t : ConnTask ι}
    (h : t ∈ ((s.destructor fds).loops (some i)).mTasks) : ∃ fd ∈ fds, s.entryTask fd = some t := by
  rw [destructor_eq, mTasks_pushes, serving.idle i, List.nil_append] at h
  exact List.mem_filterMap.1 (List.mem_filter.1 h).1

theorem doomed (serving : s.Serving fds) : (s.destructor fds).Doomed := by
  intro i t h
  obtain ⟨fd, -, task⟩ := serving.mem_waiting h
  obtain ⟨c, mapped, task⟩ := Option.bind_eq_some_iff.1 task
  obtain ⟨x, alive, fd_eq, -, channel⟩ := serving.established fd c mapped
  rw [alive] at task
  obtain rfl := Option.some.inj task
  refine ⟨rfl, x, ?_, ?_⟩
  · rw [destructor_eq, pushes_eq (f := conns) fun _ _ => rfl]
    exact alive
  · rw [destructor_eq, pushes_eq (f := channelMap) fun _ _ => rfl, fd_eq, channel]
    rfl

theorem waits (serving : s.Serving fds) (h : fds ≠ []) : ¬ (s.destructor fds).Executed := by
  obtain ⟨fd, rest, rfl⟩ := List.exists_cons_of_ne_nil h
  obtain ⟨c, mapped⟩ := Option.isSome_iff_exists.1 ((serving.keys fd).1 List.mem_cons_self)
  obtain ⟨x, alive, -⟩ := serving.established fd c mapped
  intro executed
  have none := executed x.mLoop
  rw [destructor_eq, mTasks_pushes, serving.idle, List.nil_append] at none
  have task : s.entryTask fd = some (x.bind c .Established) := by simp [entryTask, mapped, alive]
  simp [task, Conn.bind, ConnTask.runsIn] at none

end Serving

/-- The connections are torn down exactly when there are none. -/
theorem tornDown_iff {fds schedule} (serving : s.Serving fds)
    (executed : ((s.destructor fds).runLoops schedule).Executed) :
    s.TornDown ((s.destructor fds).runLoops schedule) ↔ fds = [] := by
  constructor
  · intro tornDown
    by_contra some
    exact fails_runLoops schedule serving.doomed (serving.waits some) executed tornDown.2
  · rintro rfl
    have idle : ∀ schedule : List ι, s.runLoops schedule = s := by
      intro schedule
      induction schedule with
      | nil => rfl
      | cons i schedule ih =>
        have : s.runNext i = s := by
          unfold runNext
          rw [serving.idle i]
        simpa [runLoops, this] using ih
    refine ⟨fun connfd c _ mapped => ?_, ?_⟩
    · have : (s.connMap connfd).isSome := by rw [mapped]; rfl
      exact absurd ((serving.keys connfd).2 this) List.not_mem_nil
    · show (s.runLoops schedule).faults = []
      rw [idle]
      exact serving.unfailed

/-- A new connection with the descriptor `fd`, established in its loop `i`. -/
def joined (s : TcpServer ι) (fd : Nat) (i : ι) : TcpServer ι :=
  (s.newConnection fd i (.new [] [] {} ⟨[], [], []⟩ ⟨0, 0⟩ true)).Established s.next
    ⟨.new [] [] {} ⟨[], [], []⟩ ⟨0, 0⟩ true, fd, i⟩

/-- Two connections, one in each loop. -/
def twoConnections : TcpServer Bool := ((start fun _ => [3, 4]).joined 5 false).joined 6 true

theorem connMap_twoConnections :
    twoConnections.connMap = update (update (fun _ => none) 5 (some 0)) 6 (some 1) := rfl

theorem serving_twoConnections : twoConnections.Serving [5, 6] where
  sorted := by decide
  keys connfd := by
    rw [connMap_twoConnections]
    simp only [List.mem_cons, List.not_mem_nil, or_false, Function.update_apply]
    split_ifs <;> simp_all
  established connfd c mapped := by
    rw [connMap_twoConnections] at mapped
    simp only [Function.update_apply] at mapped
    split_ifs at mapped with h₆ h₅
    · obtain rfl := Option.some.inj mapped
      exact ⟨_, rfl, h₆.symm, rfl, by subst h₆; rfl⟩
    · obtain rfl := Option.some.inj mapped
      exact ⟨_, rfl, h₅.symm, rfl, by subst h₅; rfl⟩
  idle i := rfl
  unfailed := rfl

theorem tornDown_iff_twoConnections :
    ¬ twoConnections.TornDown ((twoConnections.destructor [5, 6]).runLoops [true, false]) :=
  mt (tornDown_iff serving_twoConnections fun i => by cases i <;> rfl).mp (by decide)

/-- `~TcpServer` tears down whatever connections there are. -/
def AlwaysTornDown : Prop :=
  ∀ (s : TcpServer Bool) (fds : List Nat) (schedule : List Bool), s.Serving fds →
    ((s.destructor fds).runLoops schedule).Executed → s.TornDown ((s.destructor fds).runLoops schedule)

/-- The channel of the first connection is added again. -/
theorem alwaysTornDown_twoConnections : ¬ AlwaysTornDown := by
  intro claim
  have tornDown := claim twoConnections [5, 6] [true, false] serving_twoConnections
    (fun i => by cases i <;> rfl)
  exact absurd tornDown.2 (by decide)

end Knpnl.Http.TcpServer
