import Knpnl.Lib.Reach
import Knpnl.Lib.WorkQueue
import Knpnl.Net.TcpConnection
import Mathlib.Data.Fintype.Basic

/-!
# Who owns a connection

Tasks of a connection are bound to its shared pointer, or to `this`. `Send` and `Close` from
another thread queue the second kind, which keeps nothing alive. What is followed here is one
connection with the map of the server, the queues of its own and of the accepting loop, and any
number of threads that hold a pointer to it.
-/
namespace Knpnl.Net

open Lib

inductive ConnTask where
  | Established
  | handleClose
  | WriteCompleteCallback
  | removeInLoop
  | Destroy
  | sendInLoop
  | closeInLoop
  deriving DecidableEq

namespace ConnTask

/-- Bound to the shared pointer. -/
def isShared : ConnTask → Bool
  | .sendInLoop | .closeInLoop => false
  | .Established | .handleClose | .WriteCompleteCallback | .removeInLoop | .Destroy => true

/-- Tasks in which the connection may be closed, or a user's callback be called. -/
def callsBack : ConnTask → Bool
  | .Established | .handleClose | .WriteCompleteCallback | .sendInLoop => true
  | .removeInLoop | .Destroy | .closeInLoop => false

end ConnTask

/-- The connection's own loop, and the loop that accepts connections. `LoopThreadPool` gives every
connection a loop of another thread. -/
inductive LoopSide where
  | io
  | accepting
  deriving DecidableEq

/-- `held` are the threads that have a pointer. `guard` is the pointer that a handler has made
of `this`, and `handling` says that an event is being handled. `destroyed` says that `Destroy`
has run. -/
structure Shared (ι : Type*) where
  mState : CONNECTION_STATE
  inMap : Bool
  held : ι → Bool
  guard : Bool
  handling : Bool
  registered : Bool
  destroyed : Bool
  tasks : LoopSide → WorkQueue ConnTask

/-- What a thread with a pointer does, what happens in the handlers of the connection's loop, and
how the loops work off their tasks. `ServerClose` is a call that finds the descriptor in the map,
whoever has it by then. -/
inductive SharedStep (ι : Type*) where
  | Send (i : ι)
  | Close (i : ι)
  | ServerClose (i : ι)
  | copy (i : ι)
  | drop (i : ι)
  | event
  | handled
  | shared_from_this
  | unguard
  | handleClose
  | writeComplete
  | swap (side : LoopSide)
  | start (side : LoopSide)
  | finish (side : LoopSide)
  | discard (side : LoopSide)

namespace Shared

variable {ι : Type*}

def onTasks (s : Shared ι) (side : LoopSide) (f : WorkQueue ConnTask → WorkQueue ConnTask) : Shared ι :=
  { s with tasks := Function.update s.tasks side (f (s.tasks side)) }

def QueueInLoop (s : Shared ι) (side : LoopSide) (t : ConnTask) : Shared ι := s.onTasks side (·.push t)

/-- What a task has done when it returns. What it calls on the way are steps of their own. -/
def effect (s : Shared ι) : ConnTask → Shared ι
  | .Established => { s with registered := true, mState := .CONNECTED }
  | .removeInLoop => { s with inMap := false }.QueueInLoop .io .Destroy
  | .Destroy => { s with registered := false, mState := .CLOSED, destroyed := true }
  | .handleClose | .WriteCompleteCallback | .sendInLoop | .closeInLoop => s

/-- The body of `handleClose`, which ends in `removeConnection`. -/
def handleClose (s : Shared ι) : Shared ι :=
  if s.mState = .CONNECTING ∨ s.mState = .CONNECTED then
    { s with mState := .CLOSING }.QueueInLoop .accepting .removeInLoop
  else s

def step [DecidableEq ι] (s : Shared ι) : SharedStep ι → Shared ι
  | .Send _ => s.QueueInLoop .io .sendInLoop
  | .Close _ => s.QueueInLoop .io .closeInLoop
  | .ServerClose _ => s.QueueInLoop .io .handleClose
  | .copy i => { s with held := Function.update s.held i true }
  | .drop i => { s with held := Function.update s.held i false }
  | .event => { s with handling := true }
  | .handled => { s with handling := false }
  | .shared_from_this => { s with guard := true }
  | .unguard => { s with guard := false }
  | .handleClose => s.handleClose
  | .writeComplete => s.QueueInLoop .io .WriteCompleteCallback
  | .swap side => s.onTasks side .swap
  | .start side => s.onTasks side .start
  | .finish side =>
      match (s.tasks side).running with
      | some t => (s.onTasks side .finish).effect t
      | none => s
  | .discard side => s.onTasks side .discard

def run [DecidableEq ι] (s : Shared ι) (steps : List (SharedStep ι)) : Shared ι := steps.foldl step s

/-- When `newConnection` has returned. -/
def new (ι : Type*) : Shared ι where
  mState := .CONNECTING
  inMap := true
  held _ := false
  guard := false
  handling := false
  registered := false
  destroyed := false
  tasks
    | .io => ⟨[.Established], none⟩
    | .accepting => ⟨[], none⟩

/-- Some owning reference exists. -/
def Owned (s : Shared ι) : Prop :=
  s.inMap = true ∨ s.guard = true ∨ (∃ i, s.held i = true) ∨
    (∃ t ∈ (s.tasks .io).kept, t.isShared = true) ∨ ∃ t ∈ (s.tasks .accepting).kept, t.isShared = true

/-- A handler of the connection is running in its loop. -/
def InHandler (s : Shared ι) : Prop :=
  s.handling = true ∨ (s.tasks .io).running.any ConnTask.callsBack = true

/-- A thread needs a pointer to call a function, and something to copy one from. The poller
reports a channel that it has. -/
def Possible (s : Shared ι) : SharedStep ι → Prop
  | .Send i | .Close i | .ServerClose i | .drop i => s.held i = true
  | .copy _ => s.Owned
  | .event => (s.tasks .io).Idle ∧ s.handling = false ∧ s.registered = true
  | .handled => s.handling = true ∧ s.guard = false
  | .shared_from_this => s.InHandler ∧ s.guard = false ∧ s.Owned
  | .unguard => s.guard = true
  | .handleClose | .writeComplete => s.InHandler ∧ s.guard = true
  | .swap side => (s.tasks side).Idle ∧ (side = .io → s.handling = false)
  | .start side => (s.tasks side).Ready
  | .finish side => (s.tasks side).running.isSome = true ∧ (side = .io → s.guard = false)
  | .discard side => (s.tasks side).Worked

/-- Every task of the connection that is running runs while somebody owns it. -/
def RunsOwned (s : Shared ι) : Prop := ∀ side, (s.tasks side).running.isSome = true → s.Owned

/-- A `sendInLoop` or `closeInLoop` that has not finished. -/
def RawPending (s : Shared ι) : Prop :=
  (∃ t ∈ (s.tasks .io).pending, t.isShared = false) ∨ ∃ t ∈ (s.tasks .accepting).pending, t.isShared = false

/-- Once `Destroy` has run, nobody gives up the last owning reference while a `sendInLoop` or
`closeInLoop` is queued or running. -/
def LeavesOwner [DecidableEq ι] (s : Shared ι) : SharedStep ι → Prop
  | .drop i => s.destroyed = true → s.RawPending → (s.step (.drop i)).Owned
  | .unguard => s.destroyed = true → s.RawPending → (s.step .unguard).Owned
  | .discard side => s.destroyed = true → s.RawPending → (s.step (.discard side)).Owned
  | _ => True

instance [Fintype ι] (s : Shared ι) : Decidable s.Owned := inferInstanceAs (Decidable (_ ∨ _ ∨ _ ∨ _ ∨ _))

instance (s : Shared ι) : Decidable s.InHandler := inferInstanceAs (Decidable (_ ∨ _))

instance (s : Shared ι) : Decidable s.RawPending := inferInstanceAs (Decidable (_ ∨ _))

instance [Fintype ι] (s : Shared ι) : (a : SharedStep ι) → Decidable (s.Possible a)
  | .Send _ | .Close _ | .ServerClose _ | .drop _ | .unguard => inferInstanceAs (Decidable (_ = _))
  | .copy _ => inferInstanceAs (Decidable s.Owned)
  | .event | .shared_from_this => inferInstanceAs (Decidable (_ ∧ _ ∧ _))
  | .handled | .handleClose | .writeComplete => inferInstanceAs (Decidable (_ ∧ _))
  | .swap _ | .finish _ => inferInstanceAs (Decidable (_ ∧ (_ → _)))
  | .start _ => inferInstanceAs (Decidable (WorkQueue.Ready _))
  | .discard _ => inferInstanceAs (Decidable (WorkQueue.Worked _))

instance [DecidableEq ι] [Fintype ι] (s : Shared ι) : (a : SharedStep ι) → Decidable (s.LeavesOwner a)
  | .drop _ | .unguard | .discard _ => inferInstanceAs (Decidable (_ → _ → Owned _))
  | .Send _ | .Close _ | .ServerClose _ | .copy _ | .event | .handled | .shared_from_this | .handleClose
  | .writeComplete | .swap _ | .start _ | .finish _ => isTrue trivial

section
variable {s s' : Shared ι}

theorem tasks_onTasks (s : Shared ι) (side side' : LoopSide) (f : WorkQueue ConnTask → WorkQueue ConnTask) :
    (s.onTasks side f).tasks side' = if side' = side then f (s.tasks side') else s.tasks side' := by
  by_cases h : side' = side
  · rw [if_pos h, h]
    exact Function.update_self _ _ _
  · rw [if_neg h]
    exact Function.update_of_ne h _ _

theorem tasks_self (s : Shared ι) (side : LoopSide) (f : WorkQueue ConnTask → WorkQueue ConnTask) :
    (s.onTasks side f).tasks side = f (s.tasks side) := by
  rw [tasks_onTasks, if_pos rfl]

/-- A step on one queue that leaves the pending tasks alone. -/
theorem pending_onTasks {side : LoopSide} {f : WorkQueue ConnTask → WorkQueue ConnTask}
    (hf : (f (s.tasks side)).pending = (s.tasks side).pending) (side' : LoopSide) :
    ((s.onTasks side f).tasks side').pending = (s.tasks side').pending := by
  rw [tasks_onTasks]
  split
  · rename_i heq
    rw [heq, hf]
  · rfl

/-- The references of `s` are there in `s'`. -/
structure Retains (s s' : Shared ι) : Prop where
  inMap : s.inMap = true → s'.inMap = true
  guard : s.guard = true → s'.guard = true
  held : ∀ i, s.held i = true → s'.held i = true
  kept : ∀ side, (s.tasks side).kept ⊆ (s'.tasks side).kept

theorem owned_of_kept {side : LoopSide} {t : ConnTask} (ht : t ∈ (s.tasks side).kept)
    (hshared : t.isShared = true) : s.Owned := by
  cases side with
  | io => exact Or.inr (Or.inr (Or.inr (Or.inl ⟨t, ht, hshared⟩)))
  | accepting => exact Or.inr (Or.inr (Or.inr (Or.inr ⟨t, ht, hshared⟩)))

theorem Retains.owned (h : Retains s s') (howned : s.Owned) : s'.Owned := by
  rcases howned with hmap | hguard | ⟨i, hi⟩ | ⟨t, ht, hshared⟩ | ⟨t, ht, hshared⟩
  · exact Or.inl (h.inMap hmap)
  · exact Or.inr (Or.inl (h.guard hguard))
  · exact Or.inr (Or.inr (Or.inl ⟨i, h.held i hi⟩))
  · exact owned_of_kept (h.kept .io ht) hshared
  · exact owned_of_kept (h.kept .accepting ht) hshared

theorem retains_onTasks (s : Shared ι) {side : LoopSide} {f : WorkQueue ConnTask → WorkQueue ConnTask}
    (hf : (s.tasks side).kept ⊆ (f (s.tasks side)).kept) : Retains s (s.onTasks side f) := by
  refine ⟨id, id, fun _ => id, fun side' => ?_⟩
  rw [tasks_onTasks]
  split
  · rename_i h
    exact h ▸ hf
  · exact List.Subset.refl _

theorem retains_queue (s : Shared ι) (side : LoopSide) (t : ConnTask) : Retains s (s.QueueInLoop side t) :=
  retains_onTasks s (WorkQueue.kept_subset_push _ t)

/-- A loop that works on makes no owner. -/
theorem not_owned_onTasks {side : LoopSide} {f : WorkQueue ConnTask → WorkQueue ConnTask}
    (hf : (f (s.tasks side)).kept ⊆ (s.tasks side).kept) (h : ¬ s.Owned) : ¬ (s.onTasks side f).Owned := by
  have hretains : Retains (s.onTasks side f) s := by
    refine ⟨id, id, fun _ => id, fun side' => ?_⟩
    rw [tasks_onTasks]
    split
    · rename_i heq
      exact heq ▸ hf
    · exact List.Subset.refl _
  exact mt hretains.owned h

theorem rawPending_iff : s.RawPending ↔ ∃ side, ∃ t ∈ (s.tasks side).pending, t.isShared = false := by
  constructor
  · rintro (h | h)
    · exact ⟨.io, h⟩
    · exact ⟨.accepting, h⟩
  · rintro ⟨_ | _, h⟩
    · exact Or.inl h
    · exact Or.inr h

/-- A step on one queue that finishes nothing new. -/
theorem rawPending_of_onTasks {side : LoopSide} {f : WorkQueue ConnTask → WorkQueue ConnTask}
    (hf : (f (s.tasks side)).pending ⊆ (s.tasks side).pending) (h : (s.onTasks side f).RawPending) :
    s.RawPending := by
  obtain ⟨side', t, ht, hraw⟩ := rawPending_iff.mp h
  rw [tasks_onTasks] at ht
  refine rawPending_iff.mpr ⟨side', t, ?_, hraw⟩
  split at ht
  · rename_i heq
    exact heq ▸ hf (heq ▸ ht)
  · exact ht

end

/-- Until `Destroy` has run the connection is in the map, or `Destroy` is on its way. A task that
is bound to `this` is queued by a thread with a pointer, so somebody owns the connection then. -/
structure Inv (s : Shared ι) : Prop where
  alive : s.destroyed = false → s.inMap = true ∨ .Destroy ∈ (s.tasks .io).pending
  owned : s.RawPending → s.Owned

theorem owned_of_alive {s : Shared ι} (h : s.inMap = true ∨ .Destroy ∈ (s.tasks .io).pending) : s.Owned := by
  rcases h with hmap | hpending
  · exact Or.inl hmap
  · exact owned_of_kept (WorkQueue.pending_subset_kept _ hpending) rfl

section
variable {s s' : Shared ι}

/-- A task that is queued behind the others. -/
theorem Inv.queue (h : s.Inv) (side : LoopSide) {t : ConnTask} (ht : t.isShared = true ∨ s.Owned) :
    (s.QueueInLoop side t).Inv := by
  have hretains := retains_queue s side t
  have hpending : ∀ side', (s.tasks side').pending ⊆ ((s.QueueInLoop side t).tasks side').pending := by
    intro side'
    rw [QueueInLoop, tasks_onTasks]
    split
    · rw [WorkQueue.pending_push]
      exact List.subset_append_left _ _
    · exact List.Subset.refl _
  refine ⟨fun halive => (h.alive halive).imp id fun hmem => hpending .io hmem, fun hraw => ?_⟩
  obtain ⟨side', u, hu, huraw⟩ := rawPending_iff.mp hraw
  rcases ht with hshared | howned
  · apply hretains.owned
    rw [QueueInLoop, tasks_onTasks] at hu
    refine h.owned (rawPending_iff.mpr ⟨side', u, ?_, huraw⟩)
    split at hu
    · rw [WorkQueue.pending_push] at hu
      rcases List.mem_append.mp hu with hold | hnew
      · exact hold
      · rw [List.mem_singleton.mp hnew, hshared] at huraw
        cases huraw
    · exact hu
  · exact hretains.owned howned

/-- References are given up, and no task is queued or finished. -/
theorem Inv.release (h : s.Inv) (htasks : ∀ side, (s'.tasks side).pending = (s.tasks side).pending)
    (hmap : s'.inMap = s.inMap) (hdestroyed : s'.destroyed = s.destroyed)
    (howned : s.destroyed = true → s.RawPending → s'.Owned) : s'.Inv := by
  have halive : s'.destroyed = false → s'.inMap = true ∨ .Destroy ∈ (s'.tasks .io).pending := by
    intro hlast
    rw [hmap, htasks]
    exact h.alive (hdestroyed ▸ hlast)
  refine ⟨halive, fun hraw => ?_⟩
  have hraw' : s.RawPending := by
    unfold RawPending at hraw ⊢
    rwa [htasks, htasks] at hraw
  cases hlast : s.destroyed with
  | true => exact howned hlast hraw'
  | false => exact owned_of_alive (halive (hdestroyed.trans hlast))

/-- References stay, and no task is queued or finished. -/
theorem Inv.retain (h : s.Inv) (htasks : ∀ side, (s'.tasks side).pending = (s.tasks side).pending)
    (hdestroyed : s'.destroyed = s.destroyed) (hmap : s'.inMap = s.inMap) (hretains : Retains s s') :
    s'.Inv :=
  h.release htasks hmap hdestroyed fun _ hraw => hretains.owned (h.owned hraw)

/-- The batch is swapped in, or its next task begins. -/
theorem Inv.worked (h : s.Inv) {side : LoopSide} {f : WorkQueue ConnTask → WorkQueue ConnTask}
    (hpending : (f (s.tasks side)).pending = (s.tasks side).pending)
    (hkept : (f (s.tasks side)).kept = (s.tasks side).kept) : (s.onTasks side f).Inv := by
  have hretains : Retains s (s.onTasks side f) := retains_onTasks s (by rw [hkept]; exact List.Subset.refl _)
  exact h.retain (pending_onTasks hpending) rfl rfl hretains

/-- A task has run. -/
theorem Inv.finish (h : s.Inv) {side : LoopSide} {t : ConnTask} (ht : (s.tasks side).running = some t) :
    ((s.onTasks side .finish).effect t).Inv := by
  have hretains : Retains s (s.onTasks side .finish) :=
    retains_onTasks s (by rw [WorkQueue.kept_finish]; exact List.Subset.refl _)
  have hpending := WorkQueue.pending_finish ht
  have hraw : (s.onTasks side .finish).RawPending → s.RawPending :=
    rawPending_of_onTasks (by rw [hpending]; exact List.subset_cons_self _ _)
  have hkept : t ∈ ((s.onTasks side .finish).tasks side).kept :=
    hretains.kept side (WorkQueue.pending_subset_kept _ (WorkQueue.mem_pending_of_running ht))
  -- a task other than `Destroy` leaves `Destroy` pending
  have hdestroy : t ≠ .Destroy → ConnTask.Destroy ∈ (s.tasks .io).pending →
      ConnTask.Destroy ∈ ((s.onTasks side .finish).tasks .io).pending := by
    intro hne hmem
    rw [tasks_onTasks]
    split
    · rename_i heq
      rw [heq, hpending] at hmem
      exact heq ▸ (List.mem_cons.mp hmem).resolve_left (Ne.symm hne)
    · exact hmem
  have kept : t ≠ .Destroy → (s.onTasks side .finish).Inv := fun hne =>
    ⟨fun hlast => (h.alive hlast).imp id (hdestroy hne), fun h' => hretains.owned (h.owned (hraw h'))⟩
  cases t with
  | Established => exact ⟨(kept (by decide)).alive, (kept (by decide)).owned⟩
  | Destroy => exact ⟨fun hlast => (by cases hlast), fun h' => hretains.owned (h.owned (hraw h'))⟩
  | removeInLoop =>
    have howned : ({ s.onTasks side .finish with inMap := false } : Shared ι).Owned := owned_of_kept hkept rfl
    have hafter := retains_queue { s.onTasks side .finish with inMap := false } .io .Destroy
    refine ⟨fun _ => Or.inr ?_, fun _ => hafter.owned howned⟩
    show ConnTask.Destroy ∈ ((QueueInLoop _ .io .Destroy).tasks .io).pending
    rw [QueueInLoop, tasks_onTasks, if_pos rfl, WorkQueue.pending_push]
    exact List.mem_append_right _ (List.mem_singleton.mpr rfl)
  | handleClose | WriteCompleteCallback | sendInLoop | closeInLoop => exact kept (by decide)

/-- A task that is running has an owner: its own pointer, or somebody else's. -/
theorem Inv.runsOwned (h : s.Inv) : s.RunsOwned := by
  intro side hrunning
  obtain ⟨t, ht⟩ := Option.isSome_iff_exists.mp hrunning
  have hpending := WorkQueue.mem_pending_of_running ht
  cases hshared : t.isShared with
  | true => exact owned_of_kept (WorkQueue.pending_subset_kept _ hpending) hshared
  | false => exact h.owned (rawPending_iff.mpr ⟨side, t, hpending, hshared⟩)

theorem inv_new : (new ι).Inv := by
  refine ⟨fun _ => Or.inl rfl, ?_⟩
  rintro (⟨t, ht, hraw⟩ | ⟨t, ht, -⟩)
  · obtain rfl : t = .Established := List.mem_singleton.mp ht
    cases hraw
  · cases ht

end

variable [DecidableEq ι] {s : Shared ι}

theorem Inv.step (h : s.Inv) {a : SharedStep ι} (hpossible : s.Possible a) (howner : s.LeavesOwner a) :
    (s.step a).Inv := by
  have held : ∀ {i}, s.held i = true → s.Owned := fun hi => Or.inr (Or.inr (Or.inl ⟨_, hi⟩))
  cases a with
  | Send i => exact h.queue .io (Or.inr (held hpossible))
  | Close i => exact h.queue .io (Or.inr (held hpossible))
  | ServerClose i => exact h.queue .io (Or.inl rfl)
  | writeComplete => exact h.queue .io (Or.inl rfl)
  | copy i =>
    refine h.retain (fun _ => rfl) rfl rfl ⟨id, id, fun j hj => ?_, fun _ => List.Subset.refl _⟩
    show Function.update s.held i true j = true
    rw [Function.update_apply]
    split
    · rfl
    · exact hj
  | drop i => exact h.release (fun _ => rfl) rfl rfl howner
  | unguard => exact h.release (fun _ => rfl) rfl rfl howner
  | event => exact h.retain (fun _ => rfl) rfl rfl ⟨id, id, fun _ => id, fun _ => List.Subset.refl _⟩
  | handled => exact h.retain (fun _ => rfl) rfl rfl ⟨id, id, fun _ => id, fun _ => List.Subset.refl _⟩
  | shared_from_this =>
    exact h.retain (fun _ => rfl) rfl rfl ⟨id, fun _ => rfl, fun _ => id, fun _ => List.Subset.refl _⟩
  | handleClose =>
    have hclosing : ({ s with mState := .CLOSING } : Shared ι).Inv := ⟨h.alive, h.owned⟩
    show s.handleClose.Inv
    unfold Shared.handleClose
    split
    · exact hclosing.queue .accepting (Or.inl rfl)
    · exact h
  | swap side => exact h.worked (WorkQueue.pending_swap hpossible.1) (WorkQueue.kept_swap hpossible.1)
  | start side => exact h.worked (WorkQueue.pending_start _) (WorkQueue.kept_start _)
  | finish side =>
    obtain ⟨t, ht⟩ := Option.isSome_iff_exists.mp hpossible.1
    show (match (s.tasks side).running with
      | some t => (s.onTasks side .finish).effect t
      | none => s).Inv
    rw [ht]
    exact h.finish ht
  | discard side => exact h.release (pending_onTasks (WorkQueue.pending_discard hpossible)) rfl rfl howner

/-- Some run from here has a task running on a connection that nobody owns. -/
def Dangling (s : Shared ι) : Prop := ∃ steps, Along Shared.step Possible s steps ∧ ¬ (s.run steps).RunsOwned

theorem Dangling.of_step {a : SharedStep ι} (hpossible : s.Possible a) (h : (s.step a).Dangling) :
    s.Dangling := by
  obtain ⟨steps, halong, hunowned⟩ := h
  exact ⟨a :: steps, ⟨hpossible, halong⟩, hunowned⟩

theorem dangling_of_running {side : LoopSide} (h : ¬ s.Owned)
    (hrunning : (s.tasks side).running.isSome = true) :
    s.Dangling :=
  ⟨[], trivial, fun hruns => h (hruns side hrunning)⟩

theorem dangling_of_ready {side : LoopSide} (h : ¬ s.Owned) (hready : (s.tasks side).Ready) : s.Dangling := by
  have hnot : ¬ (s.onTasks side .start).Owned :=
    not_owned_onTasks (by rw [WorkQueue.kept_start]; exact List.Subset.refl _) h
  have hrunning : ((s.onTasks side .start).tasks side).running.isSome = true := by
    rw [tasks_self]
    exact hready.running_start
  exact .of_step (a := .start side) hready (dangling_of_running hnot hrunning)

theorem dangling_of_idle {side : LoopSide} (h : ¬ s.Owned) (hhandling : s.handling = false)
    (hidle : (s.tasks side).Idle) (hpending : (s.tasks side).pending ≠ []) : s.Dangling := by
  have hnot : ¬ (s.onTasks side .swap).Owned :=
    not_owned_onTasks (by rw [WorkQueue.kept_swap hidle]; exact List.Subset.refl _) h
  have hready : ((s.onTasks side .swap).tasks side).Ready := by
    rw [tasks_self]
    exact hidle.ready_swap hpending
  exact .of_step (a := .swap side) ⟨hidle, fun _ => hhandling⟩ (dangling_of_ready hnot hready)

/-- The loop goes on until a task runs. -/
theorem dangling_of_pending {side : LoopSide} (h : ¬ s.Owned) (hhandling : s.handling = false)
    (hpending : (s.tasks side).pending ≠ []) : s.Dangling := by
  rcases WorkQueue.cases_pending hpending with hrunning | hready | hworked | hidle
  · exact dangling_of_running h hrunning
  · exact dangling_of_ready h hready
  · have hnot : ¬ (s.onTasks side .discard).Owned := not_owned_onTasks (WorkQueue.kept_discard _) h
    have hidle : ((s.onTasks side .discard).tasks side).Idle := by
      rw [tasks_self]
      rfl
    have hstill : ((s.onTasks side .discard).tasks side).pending ≠ [] := by
      rwa [tasks_self, WorkQueue.pending_discard hworked]
    exact .of_step (a := .discard side) hworked (dangling_of_idle hnot hhandling hidle hstill)
  · exact dangling_of_idle h hhandling hidle hpending

theorem dangling_of_rawPending (h : ¬ s.Owned) (hraw : s.RawPending) : s.Dangling := by
  obtain ⟨side, t, ht, _⟩ := rawPending_iff.mp hraw
  have hpending : (s.tasks side).pending ≠ [] := List.ne_nil_of_mem ht
  cases hhandling : s.handling with
  | false => exact dangling_of_pending h hhandling hpending
  | true =>
    have hguard : s.guard = false := Bool.eq_false_iff.mpr fun hguard => h (Or.inr (Or.inl hguard))
    exact .of_step (a := .handled) ⟨hhandling, hguard⟩ (dangling_of_pending h rfl hpending)

/-- Whoever else gives up the last reference leaves a task to run on a connection without owner. -/
theorem dangling_of_not_leavesOwner {a : SharedStep ι} (hpossible : s.Possible a) (hnot : ¬ s.LeavesOwner a) :
    (s.step a).Dangling := by
  cases a with
  | drop i | unguard =>
    obtain ⟨_, hgone⟩ := Classical.not_imp.mp hnot
    obtain ⟨hraw, hunowned⟩ := Classical.not_imp.mp hgone
    exact dangling_of_rawPending hunowned hraw
  | discard side =>
    obtain ⟨_, hgone⟩ := Classical.not_imp.mp hnot
    obtain ⟨hraw, hunowned⟩ := Classical.not_imp.mp hgone
    refine dangling_of_rawPending hunowned ?_
    obtain ⟨side', t, ht, htraw⟩ := rawPending_iff.mp hraw
    have hpending := pending_onTasks (WorkQueue.pending_discard hpossible) side'
    exact rawPending_iff.mpr ⟨side', t, hpending ▸ ht, htraw⟩
  | _ => exact absurd trivial hnot

/-- In every run in which, once `Destroy` has run, nobody gives up the last reference while a task
bound to `this` is queued or running, tasks run on a connection that is owned. After a step that
gives it up then, the loops can go on until such a task runs on a connection that nobody owns. -/
theorem runsOwned_run (steps : List (SharedStep ι)) (hpossible : Along step Possible (new ι) steps) :
    (Along step LeavesOwner (new ι) steps → ((new ι).run steps).RunsOwned) ∧
      ∀ pre a, (pre ++ [a]) <+: steps → ¬ ((new ι).run pre).LeavesOwner a →
        ((new ι).run (pre ++ [a])).Dangling := by
  constructor
  · intro howner
    exact (Along.invariant (P := Inv) (fun _ _ hinv ha => hinv.step ha.1 ha.2) inv_new
      (along_and.mpr ⟨hpossible, howner⟩)).runsOwned
  · rintro pre a ⟨post, rfl⟩ hnot
    obtain ⟨_, ha, _⟩ := along_append.mp (along_append.mp hpossible).1
    rw [run, List.foldl_concat]
    exact dangling_of_not_leavesOwner ha hnot

/-- The connect callback hands the pointer to a thread, and the peer hangs up. -/
def hangup : List (SharedStep Unit) :=
  [.swap .io, .start .io, .shared_from_this, .copy (), .unguard, .finish .io, .discard .io,
    .event, .shared_from_this, .handleClose, .unguard, .handled,
    .swap .accepting, .start .accepting, .finish .accepting, .discard .accepting]

/-- `Destroy` runs. -/
def destroy : List (SharedStep Unit) := [.swap .io, .start .io, .finish .io, .discard .io]

/-- The thread sends, and drops its pointer when that has been done. -/
def patient : List (SharedStep Unit) :=
  hangup ++ destroy ++ [.Send (), .swap .io, .start .io, .finish .io, .drop ()]

theorem runsOwned_run_patient : ((new Unit).run patient).RunsOwned :=
  (runsOwned_run patient (by decide +kernel)).1 (by decide +kernel)

/-- In every run whatsoever. -/
def AlwaysRunsOwned : Prop :=
  ∀ steps : List (SharedStep Unit), Along step Possible (new Unit) steps → ((new Unit).run steps).RunsOwned

/-- The thread drops its pointer before the task runs. -/
theorem alwaysRunsOwned_dropped : ¬ AlwaysRunsOwned := by
  intro hclaim
  have howned := hclaim (hangup ++ destroy ++ [.Send (), .drop (), .swap .io, .start .io])
    (by decide +kernel) .io (by decide +kernel)
  revert howned
  decide +kernel

end Shared
end Knpnl.Net
