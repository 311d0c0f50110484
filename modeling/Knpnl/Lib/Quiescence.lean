import Knpnl.Lib.Condition
import Knpnl.Lib.Reach
import Mathlib.Algebra.BigOperators.Group.Finset.Piecewise
import Mathlib.Data.Fintype.BigOperators

/-!
# Running to the end

A system in which every step takes something off a measure cannot go on for ever, in whatever order
its parties take their steps. Where the measure is a sum over the parties, a step of one of them takes
off what it takes off its own part.
-/
namespace Knpnl.Lib

open Relation (ReflTransGen)

variable {σ ω κ : Type*} {step : σ → σ → Prop} {I : σ → Prop} {s : σ}

/-- Every run from `s` ends. -/
def Ends (step : σ → σ → Prop) (s : σ) : Prop := Acc (fun s' s => step s s') s

/-- No step can be taken. -/
def Final (step : σ → σ → Prop) (s : σ) : Prop := ∀ s', ¬ step s s'

theorem ends_of_measure [Preorder ω] [WellFoundedLT ω] (measure : σ → ω)
    (hkept : ∀ s s', I s → step s s' → I s') (hless : ∀ s s', I s → step s s' → measure s' < measure s)
    (h : I s) : Ends step s := by
  induction hm : measure s using WellFoundedLT.induction generalizing s with
  | ind m ih =>
    refine Acc.intro s fun s' hstep => ?_
    exact ih (measure s') (hm ▸ hless s s' h hstep) (hkept s s' h hstep) rfl

/-- A change at one index. -/
theorem sum_change [Fintype κ] [DecidableEq κ] {f g : κ → ℕ} {k : κ} {a b : ℕ} (hat : g k + a = f k + b)
    (hne : ∀ i, i ≠ k → g i = f i) : (∑ i, g i) + a = (∑ i, f i) + b := by
  have hrest : ∑ i ∈ Finset.univ.erase k, g i = ∑ i ∈ Finset.univ.erase k, f i :=
    Finset.sum_congr rfl fun i hi => hne i (Finset.ne_of_mem_erase hi)
  rw [← Finset.add_sum_erase _ g (Finset.mem_univ k), ← Finset.add_sum_erase _ f (Finset.mem_univ k), hrest]
  omega

theorem sum_update {α : Type*} [Fintype κ] [DecidableEq κ] (weight : α → ℕ) (f : κ → α) (k : κ) (a : α) :
    (∑ i, weight (Function.update f k a i)) + weight (f k) = (∑ i, weight (f i)) + weight a := by
  refine sum_change (k := k) ?_ fun i hi => ?_
  · rw [Function.update_self, Nat.add_comm]
  · rw [Function.update_of_ne hi]

/-- A signal costs what one thread costs that is woken. -/
theorem SignalIf.sum_le {α : Type*} [Fintype κ] [DecidableEq κ] {c : Prop} {wake : α → Option α} {f f' : κ → α}
    {weight : α → ℕ} {n : ℕ} (hwake : ∀ a b, wake a = some b → weight b ≤ weight a + n)
    (h : SignalIf c wake f f') : ∑ i, weight (f' i) ≤ (∑ i, weight (f i)) + n := by
  rcases h with ⟨_, hsignal⟩ | ⟨_, rfl⟩
  · cases hsignal with
    | nobody _ => exact Nat.le_add_right _ _
    | one i a woken =>
      have hsum := sum_update weight f i a
      have hcost := hwake _ _ woken
      omega
  · exact Nat.le_add_right _ _

theorem exists_signalIf {α : Type*} [DecidableEq κ] (c : Prop) (wake : α → Option α) (f : κ → α) :
    ∃ f', SignalIf c wake f f' := by
  by_cases hc : c
  · by_cases hwaits : ∀ i, wake (f i) = none
    · exact ⟨f, Or.inl ⟨hc, .nobody hwaits⟩⟩
    · obtain ⟨i, hi⟩ := not_forall.mp hwaits
      obtain ⟨a, ha⟩ := Option.ne_none_iff_exists'.mp hi
      exact ⟨_, Or.inl ⟨hc, .one i a ha⟩⟩
  · exact ⟨f, Or.inr ⟨hc, rfl⟩⟩

end Knpnl.Lib
