import Mathlib.Data.List.Basic

/-!
# A bounded queue

The purpose of a bounded buffer, with no memory and no pointers: a list whose length
never exceeds the capacity. A push is taken whole or refused, and a pop takes from
the front.
-/
namespace Knpnl.Lib

/-- At most `cap` elements, oldest first. -/
structure BoundedFifo (α : Type*) (cap : Nat) where
  items : List α
  bounded : items.length ≤ cap

namespace BoundedFifo

variable {α : Type*} {cap : Nat}

@[ext] theorem ext {q r : BoundedFifo α cap} (h : q.items = r.items) : q = r := by
  cases q
  cases r
  simpa using h

def empty : BoundedFifo α cap := ⟨[], Nat.zero_le _⟩

def free (q : BoundedFifo α cap) : Nat := cap - q.items.length

/-- All of `xs`, or nothing. -/
def push (q : BoundedFifo α cap) (xs : List α) : BoundedFifo α cap :=
  if h : xs.length ≤ q.free then
    ⟨q.items ++ xs, by have := q.bounded; simp only [free] at h; simp; omega⟩
  else q

/-- As much of the front of `xs` as there is room for. -/
def fill (q : BoundedFifo α cap) (xs : List α) : BoundedFifo α cap :=
  ⟨q.items ++ xs.take q.free, by have := q.bounded; simp only [free]; simp; omega⟩

def pop (q : BoundedFifo α cap) (n : Nat) : BoundedFifo α cap :=
  ⟨q.items.drop n, by have := q.bounded; simp; omega⟩

@[simp] theorem items_fill (q : BoundedFifo α cap) (xs : List α) :
    (q.fill xs).items = q.items ++ xs.take q.free := rfl

theorem items_push {q : BoundedFifo α cap} {xs : List α} (h : xs.length ≤ q.free) :
    (q.push xs).items = q.items ++ xs := by simp [push, h]

theorem push_refused {q : BoundedFifo α cap} {xs : List α} (h : ¬ xs.length ≤ q.free) :
    q.push xs = q := by simp [push, h]

/-- Which of the pieces are taken that are pushed in turn, with room for `free` elements. -/
def taken (free : Nat) : List (List α) → List (List α)
  | [] => []
  | p :: ps => if p.length ≤ free then p :: taken (free - p.length) ps else taken free ps

variable {free : Nat} {ps : List (List α)}

theorem items_foldl_push (ps : List (List α)) (q : BoundedFifo α cap) :
    (ps.foldl push q).items = q.items ++ (taken q.free ps).flatten := by
  induction ps generalizing q with
  | nil => simp [taken]
  | cons p ps ih =>
    rw [List.foldl_cons, ih, taken]
    by_cases hp : p.length ≤ q.free
    · have hfree : (q.push p).free = q.free - p.length := by
        rw [BoundedFifo.free, items_push hp, BoundedFifo.free, List.length_append, Nat.sub_add_eq]
      rw [if_pos hp, items_push hp, hfree, List.flatten_cons, List.append_assoc]
    · rw [if_neg hp, push_refused hp]

theorem length_taken_le_all (free : Nat) (ps : List (List α)) :
    (taken free ps).flatten.length ≤ ps.flatten.length := by
  induction ps generalizing free with
  | nil => exact Nat.le_refl _
  | cons p ps ih =>
    rw [taken, List.flatten_cons, List.length_append]
    split
    · have hrest := ih (free - p.length)
      rw [List.flatten_cons, List.length_append]
      omega
    · have hrest := ih free
      omega

theorem length_taken_le (free : Nat) (ps : List (List α)) : (taken free ps).flatten.length ≤ free := by
  induction ps generalizing free with
  | nil => exact Nat.zero_le free
  | cons p ps ih =>
    rw [taken]
    split
    · have hrest := ih (free - p.length)
      rw [List.flatten_cons, List.length_append]
      omega
    · exact ih free

/-- Nothing is taken exactly if there is no room for any piece with something in it. -/
theorem taken_eq_nil_iff : (taken free ps).flatten = [] ↔ ∀ p ∈ ps, p = [] ∨ free < p.length := by
  induction ps with
  | nil => simp [taken]
  | cons p ps ih =>
    rw [taken, List.forall_mem_cons, ← ih]
    by_cases hp : p.length ≤ free
    · rw [if_pos hp, List.flatten_cons, List.append_eq_nil_iff]
      constructor
      · rintro ⟨rfl, hrest⟩
        exact ⟨Or.inl rfl, by simpa using hrest⟩
      · rintro ⟨hpiece, hrest⟩
        obtain rfl := hpiece.resolve_right (Nat.not_lt.mpr hp)
        exact ⟨rfl, by simpa using hrest⟩
    · rw [if_neg hp]
      exact ⟨fun hrest => ⟨Or.inr (Nat.lt_of_not_le hp), hrest⟩, And.right⟩

end BoundedFifo
end Knpnl.Lib
