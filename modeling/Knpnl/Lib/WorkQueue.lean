import Mathlib.Data.List.Basic

/-!
# A queue that is worked off in batches

The worker swaps the queue for an empty one, runs the items of the batch one after the other, and
throws the batch away when all have run. Until then it keeps the items that have run.
-/
namespace Knpnl.Lib

variable {α : Type*}

structure Batch (α : Type*) where
  ran : List α
  running : Option α
  todo : List α

structure WorkQueue (α : Type*) where
  queue : List α
  batch : Option (Batch α)

namespace WorkQueue

def push (q : WorkQueue α) (a : α) : WorkQueue α := { q with queue := q.queue ++ [a] }

def swap (q : WorkQueue α) : WorkQueue α := ⟨[], some ⟨[], none, q.queue⟩⟩

/-- The next item of the batch begins to run. -/
def start (q : WorkQueue α) : WorkQueue α :=
  match q.batch with
  | some ⟨ran, none, a :: todo⟩ => { q with batch := some ⟨ran, some a, todo⟩ }
  | _ => q

def finish (q : WorkQueue α) : WorkQueue α :=
  match q.batch with
  | some ⟨ran, some a, todo⟩ => { q with batch := some ⟨ran ++ [a], none, todo⟩ }
  | _ => q

def discard (q : WorkQueue α) : WorkQueue α := { q with batch := none }

/-- The item that is running. -/
def running (q : WorkQueue α) : Option α := q.batch.bind Batch.running

/-- Items that have not finished. -/
def pending (q : WorkQueue α) : List α :=
  match q.batch with
  | none => q.queue
  | some b => b.running.toList ++ b.todo ++ q.queue

/-- Items that have not been thrown away. -/
def kept (q : WorkQueue α) : List α :=
  match q.batch with
  | none => q.queue
  | some b => b.ran ++ q.pending

/-- No batch is worked off. -/
def Idle (q : WorkQueue α) : Prop := q.batch.isNone = true

/-- An item can begin to run. -/
def Ready (q : WorkQueue α) : Prop :=
  match q.batch with
  | some ⟨_, none, _ :: _⟩ => True
  | _ => False

/-- All items of the batch have run. -/
def Worked (q : WorkQueue α) : Prop :=
  match q.batch with
  | some ⟨_, none, []⟩ => True
  | _ => False

instance (q : WorkQueue α) : Decidable q.Idle := inferInstanceAs (Decidable (_ = _))

instance (q : WorkQueue α) : Decidable q.Ready :=
  match h : q.batch with
  | some ⟨_, none, _ :: _⟩ => isTrue (by simp [Ready, h])
  | some ⟨_, none, []⟩ | some ⟨_, some _, _⟩ | none => isFalse (by simp [Ready, h])

instance (q : WorkQueue α) : Decidable q.Worked :=
  match h : q.batch with
  | some ⟨_, none, []⟩ => isTrue (by simp [Worked, h])
  | some ⟨_, none, _ :: _⟩ | some ⟨_, some _, _⟩ | none => isFalse (by simp [Worked, h])

variable {q : WorkQueue α}

theorem pending_subset_kept (q : WorkQueue α) : q.pending ⊆ q.kept := by
  obtain ⟨queue, batch⟩ := q
  cases batch with
  | none => exact List.Subset.refl _
  | some b => exact List.subset_append_right _ _

theorem mem_pending_of_running {a : α} (h : q.running = some a) : a ∈ q.pending := by
  obtain ⟨queue, batch⟩ := q
  cases batch with
  | none => cases h
  | some b =>
    have hb : b.running = some a := h
    simp [pending, hb]

@[simp] theorem pending_push (q : WorkQueue α) (a : α) : (q.push a).pending = q.pending ++ [a] := by
  obtain ⟨queue, batch⟩ := q
  cases batch <;> simp [push, pending]

theorem kept_subset_push (q : WorkQueue α) (a : α) : q.kept ⊆ (q.push a).kept := by
  obtain ⟨queue, batch⟩ := q
  cases batch with
  | none => exact List.subset_append_left _ _
  | some b =>
    simp only [kept, push, pending]
    intro x hx
    simp only [List.mem_append] at hx ⊢
    tauto

theorem pending_swap (h : q.Idle) : q.swap.pending = q.pending := by
  obtain ⟨queue, batch⟩ := q
  cases batch with
  | none => simp [swap, pending]
  | some b => cases h

theorem kept_swap (h : q.Idle) : q.swap.kept = q.kept := by
  obtain ⟨queue, batch⟩ := q
  cases batch with
  | none => simp [swap, kept, pending]
  | some b => cases h

theorem pending_start (q : WorkQueue α) : q.start.pending = q.pending := by
  obtain ⟨queue, _ | ⟨ran, _ | a, _ | ⟨b, todo⟩⟩⟩ := q <;> rfl

theorem kept_start (q : WorkQueue α) : q.start.kept = q.kept := by
  obtain ⟨queue, _ | ⟨ran, _ | a, _ | ⟨b, todo⟩⟩⟩ := q <;> rfl

theorem pending_finish {a : α} (h : q.running = some a) : q.pending = a :: q.finish.pending := by
  obtain ⟨queue, _ | ⟨ran, _ | b, todo⟩⟩ := q
  · cases h
  · cases h
  · obtain rfl := Option.some.inj h
    rfl

theorem kept_finish (q : WorkQueue α) : q.finish.kept = q.kept := by
  obtain ⟨queue, _ | ⟨ran, _ | b, todo⟩⟩ := q
  · rfl
  · rfl
  · simp [finish, kept, pending]

theorem pending_discard (h : q.Worked) : q.discard.pending = q.pending := by
  obtain ⟨queue, _ | ⟨ran, _ | b, _ | ⟨c, todo⟩⟩⟩ := q
  · cases h
  · rfl
  · cases h
  · cases h
  · cases h

theorem kept_discard (q : WorkQueue α) : q.discard.kept ⊆ q.kept := by
  obtain ⟨queue, _ | ⟨ran, running, todo⟩⟩ := q
  · exact List.Subset.refl _
  · exact fun a ha => List.mem_append_right _ (List.mem_append_right _ ha)

/-- Where the worker is when items are pending. -/
theorem cases_pending (h : q.pending ≠ []) : q.running.isSome = true ∨ q.Ready ∨ q.Worked ∨ q.Idle := by
  obtain ⟨queue, _ | ⟨ran, _ | a, _ | ⟨b, todo⟩⟩⟩ := q
  · exact Or.inr (Or.inr (Or.inr rfl))
  · exact Or.inr (Or.inr (Or.inl trivial))
  · exact Or.inr (Or.inl trivial)
  · exact Or.inl rfl
  · exact Or.inl rfl

theorem Ready.running_start (h : q.Ready) : q.start.running.isSome = true := by
  obtain ⟨queue, _ | ⟨ran, _ | a, _ | ⟨b, todo⟩⟩⟩ := q
  · cases h
  · cases h
  · rfl
  · cases h
  · cases h

theorem Idle.ready_swap (h : q.Idle) (hpending : q.pending ≠ []) : q.swap.Ready := by
  obtain ⟨_ | ⟨a, queue⟩, batch⟩ := q
  · cases batch with
    | none => exact absurd rfl hpending
    | some b => cases h
  · exact trivial

end WorkQueue
end Knpnl.Lib
