import Mathlib.Algebra.Order.BigOperators.Group.Finset
import Mathlib.Data.Fintype.BigOperators

/-!
# Balanced counts

Turns are shared out evenly as long as no two counts differ by more than one. The next turn keeps
them so exactly if it goes to one that has had no more turns than there were full rounds.
-/
namespace Knpnl.Lib

variable {κ : Type*} {count : κ → ℕ}

/-- No two of the counts differ by more than one. -/
def Balanced (count : κ → ℕ) : Prop := ∀ i j, count i ≤ count j + 1

/-- Among balanced counts the least are those that are no more than the number of full rounds. -/
theorem Balanced.least_iff [Fintype κ] (h : Balanced count) (k : κ) :
    (∀ j, count k ≤ count j) ↔ count k ≤ (∑ i, count i) / Fintype.card κ := by
  have hcard : 0 < Fintype.card κ := Fintype.card_pos_iff.mpr ⟨k⟩
  have hsame : ∑ _ : κ, count k = Fintype.card κ * count k := Finset.sum_const_nat fun _ _ => rfl
  rw [Nat.le_div_iff_mul_le hcard, Nat.mul_comm, ← hsame]
  constructor
  · intro hleast
    exact Finset.sum_le_sum fun j _ => hleast j
  · intro hle j
    by_contra hless
    -- then no count is above that of `k`, and that of `j` is below it
    have hlt : ∑ i, count i < ∑ _ : κ, count k := by
      refine Finset.sum_lt_sum (fun i _ => ?_) ⟨j, Finset.mem_univ j, not_le.mp hless⟩
      exact (h i j).trans (not_le.mp hless)
    exact absurd hle hlt.not_ge

/-- Among balanced counts none is below the number of full rounds. -/
theorem Balanced.rounds_le [Fintype κ] (h : Balanced count) (k : κ) :
    (∑ i, count i) / Fintype.card κ ≤ count k := by
  by_contra hless
  have hle : ∀ i, count i ≤ (∑ i, count i) / Fintype.card κ := fun i => by
    have hi := h i k
    omega
  have hlt : ∑ i, count i < ∑ _ : κ, (∑ i, count i) / Fintype.card κ :=
    Finset.sum_lt_sum (fun i _ => hle i) ⟨k, Finset.mem_univ k, not_le.mp hless⟩
  have hsame : ∑ _ : κ, (∑ i, count i) / Fintype.card κ = Fintype.card κ * ((∑ i, count i) / Fintype.card κ) :=
    Finset.sum_const_nat fun _ _ => rfl
  have hdiv := Nat.mul_div_le (∑ i, count i) (Fintype.card κ)
  omega

variable [DecidableEq κ]

/-- One more turn for `k`. -/
def giveTurn (count : κ → ℕ) (k : κ) : κ → ℕ := Function.update count k (count k + 1)

theorem giveTurn_self (count : κ → ℕ) (k : κ) : giveTurn count k k = count k + 1 := Function.update_self ..

theorem giveTurn_of_ne {k i : κ} (h : i ≠ k) : giveTurn count k i = count i := Function.update_of_ne h ..

/-- The counts stay balanced if and only if the turn goes to a least one. -/
theorem Balanced.giveTurn_iff (h : Balanced count) (k : κ) :
    Balanced (giveTurn count k) ↔ ∀ j, count k ≤ count j := by
  constructor
  · intro hnext j
    by_cases hj : j = k
    · rw [hj]
    · have hle := hnext k j
      rw [giveTurn_self, giveTurn_of_ne hj] at hle
      exact Nat.le_of_succ_le_succ hle
  · intro hleast i j
    by_cases hi : i = k <;> by_cases hj : j = k
    · rw [hi, hj]
      exact Nat.le_succ _
    · rw [hi, giveTurn_self, giveTurn_of_ne hj]
      exact Nat.succ_le_succ (hleast j)
    · rw [hj, giveTurn_self, giveTurn_of_ne hi]
      exact (h i k).trans (Nat.le_succ _)
    · rw [giveTurn_of_ne hi, giveTurn_of_ne hj]
      exact h i j

theorem sum_giveTurn [Fintype κ] (count : κ → ℕ) (k : κ) : ∑ i, giveTurn count k i = (∑ i, count i) + 1 := by
  rw [giveTurn, Finset.sum_update_of_mem (Finset.mem_univ k),
    ← Finset.add_sum_erase _ count (Finset.mem_univ k),
    Finset.erase_eq]
  omega

end Knpnl.Lib
