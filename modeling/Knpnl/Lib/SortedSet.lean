import Mathlib.Order.Lattice
import Mathlib.Data.List.Pairwise
import Mathlib.Data.List.Nodup
import Mathlib.Data.List.TakeWhile

/-!
# Sets kept in order

The items of a set in strictly increasing order, which is the order in which an ordered
container is iterated. A set is cut at a bound into the items below it and the others.
-/
namespace Knpnl.Lib

variable {α : Type*}

/-- Items in strictly increasing order. -/
structure SortedSet (α : Type*) [LT α] where
  items : List α
  sorted : items.Pairwise (· < ·)

namespace SortedSet

section
variable [LT α]

instance : Membership α (SortedSet α) := ⟨fun s a => a ∈ s.items⟩

theorem mem_def {s : SortedSet α} {a : α} : a ∈ s ↔ a ∈ s.items := Iff.rfl

def empty : SortedSet α := ⟨[], .nil⟩

theorem not_mem_empty (a : α) : a ∉ (empty : SortedSet α) := List.not_mem_nil

def size (s : SortedSet α) : Nat := s.items.length

/-- The first item. -/
def first (s : SortedSet α) : Option α := s.items.head?

theorem size_pos {s : SortedSet α} : 0 < s.size ↔ ∃ a, a ∈ s := List.length_pos_iff_exists_mem

theorem first_of_pos {s : SortedSet α} (h : 0 < s.size) : ∃ a ∈ s, s.first = some a := by
  obtain ⟨a, l, hitems⟩ := List.exists_cons_of_length_pos h
  exact ⟨a, by rw [mem_def, hitems]; exact List.mem_cons_self, by rw [first, hitems]; rfl⟩

instance [DecidableEq α] : DecidableEq (SortedSet α) := fun s t =>
  decidable_of_iff (s.items = t.items) <| by
    cases s
    cases t
    simp

instance [DecidableEq α] (a : α) (s : SortedSet α) : Decidable (a ∈ s) :=
  inferInstanceAs (Decidable (a ∈ s.items))

end

variable [LinearOrder α] {s : SortedSet α} {a b : α}

def place (a : α) : List α → List α
  | [] => [a]
  | b :: l => if a < b then a :: b :: l else if a = b then b :: l else b :: place a l

theorem mem_place {l : List α} : b ∈ place a l ↔ b = a ∨ b ∈ l := by
  induction l with
  | nil => simp [place]
  | cons c l ih =>
    rw [place]
    split
    · exact List.mem_cons
    · split
      · rename_i heq
        rw [heq]
        exact ⟨Or.inr, fun h => h.elim (fun hb => hb ▸ List.mem_cons_self) id⟩
      · rw [List.mem_cons, List.mem_cons, ih]
        exact or_left_comm

theorem sorted_place {l : List α} (h : l.Pairwise (· < ·)) : (place a l).Pairwise (· < ·) := by
  induction l with
  | nil => exact List.pairwise_singleton _ _
  | cons c l ih =>
    obtain ⟨hc, hl⟩ := List.pairwise_cons.mp h
    rw [place]
    split
    · rename_i hlt
      refine List.pairwise_cons.mpr ⟨fun b hb => ?_, h⟩
      rcases List.mem_cons.mp hb with rfl | hb
      · exact hlt
      · exact hlt.trans (hc b hb)
    · split
      · exact h
      · rename_i hlt hne
        refine List.pairwise_cons.mpr ⟨fun b hb => ?_, ih hl⟩
        rcases mem_place.mp hb with rfl | hb
        · exact lt_of_le_of_ne (not_lt.mp hlt) (Ne.symm hne)
        · exact hc b hb

def insert (s : SortedSet α) (a : α) : SortedSet α := ⟨place a s.items, sorted_place s.sorted⟩

def erase (s : SortedSet α) (a : α) : SortedSet α := ⟨s.items.erase a, s.sorted.sublist List.erase_sublist⟩

/-- The items before the first that is not below the bound `p`. -/
def below (s : SortedSet α) (p : α → Bool) : List α := s.items.takeWhile p

/-- The items from there on. -/
def dropBelow (s : SortedSet α) (p : α → Bool) : SortedSet α :=
  ⟨s.items.dropWhile p, s.sorted.sublist (List.dropWhile_sublist p)⟩

theorem nodup (s : SortedSet α) : s.items.Nodup := s.sorted.imp (fun h => h.ne)

@[simp] theorem mem_insert : b ∈ s.insert a ↔ b = a ∨ b ∈ s := mem_place

@[simp] theorem mem_erase : b ∈ s.erase a ↔ b ≠ a ∧ b ∈ s := s.nodup.mem_erase_iff

theorem mem_of_first (h : s.first = some a) : a ∈ s := List.mem_of_mem_head? h

/-- Nothing comes before the first item. -/
theorem exists_first_le (h : b ∈ s) : ∃ a, s.first = some a ∧ a ≤ b := by
  have hsorted := s.sorted
  rw [mem_def] at h
  rw [first]
  cases hitems : s.items with
  | nil =>
    rw [hitems] at h
    cases h
  | cons a l =>
    rw [hitems] at h hsorted
    refine ⟨a, rfl, ?_⟩
    rcases List.mem_cons.mp h with rfl | hb
    · exact le_rfl
    · exact (List.rel_of_pairwise_cons hsorted hb).le

theorem below_append (s : SortedSet α) (p : α → Bool) : s.below p ++ (s.dropBelow p).items = s.items :=
  List.takeWhile_append_dropWhile

theorem mem_below_or (p : α → Bool) : a ∈ s ↔ a ∈ s.below p ∨ a ∈ s.dropBelow p := by
  rw [mem_def, ← s.below_append p, List.mem_append]
  exact Iff.rfl

theorem not_mem_dropBelow_of_below {p : α → Bool} (h : a ∈ s.below p) : a ∉ s.dropBelow p := by
  have hnodup := s.nodup
  rw [← s.below_append p] at hnodup
  exact (List.disjoint_of_nodup_append hnodup) h

theorem below_nodup (s : SortedSet α) (p : α → Bool) : (s.below p).Nodup :=
  s.nodup.sublist (List.takeWhile_sublist p)

theorem mem_of_mem_below {p : α → Bool} (h : a ∈ s.below p) : a ∈ s ∧ p a = true :=
  ⟨(List.takeWhile_sublist p).subset h, List.mem_takeWhile_imp h⟩

theorem below_sorted (s : SortedSet α) (p : α → Bool) : (s.below p).Pairwise (· < ·) :=
  s.sorted.sublist (List.takeWhile_sublist p)

theorem mem_takeWhile {p : α → Bool} (hp : ∀ a b, a < b → p b = true → p a = true) {l : List α}
    (hl : l.Pairwise (· < ·)) (hmem : a ∈ l) (ha : p a = true) : a ∈ l.takeWhile p := by
  induction l with
  | nil => cases hmem
  | cons b l ih =>
    obtain ⟨hb, hl⟩ := List.pairwise_cons.mp hl
    rcases List.mem_cons.mp hmem with rfl | hmem
    · rw [List.takeWhile_cons_of_pos ha]
      exact List.mem_cons_self
    · rw [List.takeWhile_cons_of_pos (hp b a (hb a hmem) ha)]
      exact List.mem_cons_of_mem _ (ih hl hmem)

/-- Where the bound is one of the order, the items below it are those that satisfy it. -/
theorem mem_below {p : α → Bool} (hp : ∀ a b, a < b → p b = true → p a = true) :
    a ∈ s.below p ↔ a ∈ s ∧ p a = true :=
  ⟨mem_of_mem_below, fun h => mem_takeWhile hp s.sorted h.1 h.2⟩

end SortedSet
end Knpnl.Lib
