import Mathlib.Data.List.Basic

/-!
# Maps kept in key order

The entries of a map in strictly increasing key order, which is the order in which
an ordered container is iterated. Assigning to a key replaces its entry or inserts
one at its place.
-/
namespace Knpnl.Lib

variable {κ α : Type*} [LT κ]

/-- Entries in strictly increasing key order. -/
structure SortedMap (κ α : Type*) [LT κ] where
  entries : List (κ × α)
  sorted : entries.Pairwise fun a b => a.1 < b.1

namespace SortedMap

def empty : SortedMap κ α := ⟨[], .nil⟩

variable [DecidableEq κ] [DecidableLT κ]

instance [DecidableEq α] : DecidableEq (SortedMap κ α) := fun m n =>
  decidable_of_iff (m.entries = n.entries) <| by
    cases m
    cases n
    simp

def assign (k : κ) (v : α) : List (κ × α) → List (κ × α)
  | [] => [(k, v)]
  | e :: es =>
      if k < e.1 then (k, v) :: e :: es
      else if k = e.1 then (k, v) :: es
      else e :: assign k v es

/-- A key after an assignment is the one assigned or was there before. -/
theorem key_assign {k : κ} {v : α} {es : List (κ × α)} {e : κ × α} (h : e ∈ assign k v es) :
    e.1 = k ∨ ∃ e' ∈ es, e'.1 = e.1 := by
  induction es with
  | nil =>
    obtain rfl := List.mem_singleton.mp h
    exact Or.inl rfl
  | cons d es ih =>
    rw [assign] at h
    split at h
    · rcases List.mem_cons.mp h with rfl | h
      · exact Or.inl rfl
      · exact Or.inr ⟨e, h, rfl⟩
    · split at h
      · rcases List.mem_cons.mp h with rfl | h
        · exact Or.inl rfl
        · exact Or.inr ⟨e, List.mem_cons_of_mem _ h, rfl⟩
      · rcases List.mem_cons.mp h with rfl | h
        · exact Or.inr ⟨e, List.mem_cons_self, rfl⟩
        · rcases ih h with hk | ⟨e', he', hk⟩
          · exact Or.inl hk
          · exact Or.inr ⟨e', List.mem_cons_of_mem _ he', hk⟩

variable [LE κ] [Std.IsLinearOrder κ] [Std.LawfulOrderLT κ]

theorem sorted_assign (k : κ) (v : α) {es : List (κ × α)}
    (h : es.Pairwise fun a b => a.1 < b.1) : (assign k v es).Pairwise fun a b => a.1 < b.1 := by
  induction es with
  | nil => simp [assign]
  | cons d es ih =>
    obtain ⟨hd, hes⟩ := List.pairwise_cons.mp h
    rw [assign]
    split
    · rename_i hlt
      refine List.pairwise_cons.mpr ⟨fun e he => ?_, h⟩
      rcases List.mem_cons.mp he with rfl | he
      · exact hlt
      · have := hd e he
        grind
    · split
      · rename_i heq
        exact List.pairwise_cons.mpr ⟨fun e he => heq ▸ hd e he, hes⟩
      · rename_i hlt hne
        refine List.pairwise_cons.mpr ⟨fun e he => ?_, ih hes⟩
        rcases key_assign he with hk | ⟨e', he', hk⟩
        · have : d.1 < k := by grind
          exact hk ▸ this
        · exact hk ▸ hd e' he'

def set (m : SortedMap κ α) (k : κ) (v : α) : SortedMap κ α :=
  ⟨assign k v m.entries, sorted_assign k v m.sorted⟩

end SortedMap
end Knpnl.Lib
