import Mathlib.Data.Fintype.Basic
import Mathlib.Data.Finset.Card
import Mathlib.Logic.Function.Basic

/-!
# Condition variables

Threads are indexed by `ι`, and `f i` is where thread `i` stands. A condition variable is
given by `wake`: the place a waiting thread is put to when it is woken, and `none` at all
other places. A signal wakes one waiter if there is any, a broadcast wakes all of them.
`tally` counts the threads at a kind of place.
-/
namespace Knpnl.Lib

open Function (update)

section
variable {ι α : Type*} [DecidableEq ι] {wake : α → Option α} {f f' : ι → α}

/-- Signalling the condition takes the threads from `f` to `f'`. -/
inductive Signal (wake : α → Option α) (f : ι → α) : (ι → α) → Prop where
  | nobody (idle : ∀ i, wake (f i) = none) : Signal wake f f
  | one (i : ι) (a : α) (woken : wake (f i) = some a) : Signal wake f (update f i a)

/-- A signal that is sent only if `c` holds. -/
def SignalIf (c : Prop) (wake : α → Option α) (f f' : ι → α) : Prop :=
  c ∧ Signal wake f f' ∨ ¬ c ∧ f' = f

/-- A thread at `a` waits on the condition. -/
def isWaiting (wake : α → Option α) (a : α) : Bool := (wake a).isSome

/-- A waiting thread is woken to a place where `woken` holds and where it no longer waits. -/
def WakesTo (wake : α → Option α) (woken : α → Bool) : Prop :=
  ∀ a b, wake a = some b → woken a = false ∧ woken b = true ∧ wake b = none

def broadcast (wake : α → Option α) (f : ι → α) (i : ι) : α := (wake (f i)).getD (f i)

/-- A thread is left where it is, or was waiting and is woken. -/
theorem Signal.at (h : Signal wake f f') (i : ι) : f' i = f i ∨ wake (f i) = some (f' i) := by
  cases h with
  | nobody _ => exact Or.inl rfl
  | one j a woken =>
    by_cases hi : i = j
    · subst hi
      exact Or.inr (by rw [Function.update_self]; exact woken)
    · exact Or.inl (Function.update_of_ne hi a f)

theorem SignalIf.at {c : Prop} (h : SignalIf c wake f f') (i : ι) :
    f' i = f i ∨ wake (f i) = some (f' i) := by
  rcases h with ⟨_, hsignal⟩ | ⟨_, rfl⟩
  · exact hsignal.at i
  · exact Or.inl rfl

/-- A place that nobody waits at and that nobody is woken to keeps its threads. -/
theorem SignalIf.at_iff {c : Prop} (h : SignalIf c wake f f') {a : α} (hwait : wake a = none)
    (hwoken : ∀ b, wake b ≠ some a) (i : ι) : f' i = a ↔ f i = a := by
  rcases h.at i with hsame | hwake
  · rw [hsame]
  · constructor
    · intro ha
      exact absurd (ha ▸ hwake) (hwoken _)
    · intro ha
      rw [ha, hwait] at hwake
      cases hwake

end

section
variable {ι α : Type*} [Fintype ι] {p : α → Bool} {f : ι → α}

/-- The number of threads at a place where `p` holds. -/
def tally (p : α → Bool) (f : ι → α) : Nat := (Finset.univ.filter fun i => p (f i) = true).card

theorem tally_eq_zero : tally p f = 0 ↔ ∀ i, p (f i) = false := by
  simp [tally, Finset.filter_eq_empty_iff]

theorem tally_pos : 0 < tally p f ↔ ∃ i, p (f i) = true := by
  rw [Nat.pos_iff_ne_zero, Ne, tally_eq_zero]
  simp

variable [DecidableEq ι]

/-- The threads other than `i`, and `i`. -/
theorem tally_split (p : α → Bool) (f : ι → α) (i : ι) :
    tally p f = ((Finset.univ.filter fun j => p (f j) = true).erase i).card + (p (f i)).toNat := by
  cases hp : p (f i) with
  | false =>
    rw [Finset.erase_eq_of_notMem (by simp [hp])]
    rfl
  | true =>
    have hmem : i ∈ Finset.univ.filter fun j => p (f j) = true := by simp [hp]
    have hpos := Finset.card_pos.mpr ⟨i, hmem⟩
    rw [Finset.card_erase_of_mem hmem]
    simp only [tally, Bool.toNat_true]
    omega

/-- One thread moves. -/
theorem tally_update (p : α → Bool) (f : ι → α) (i : ι) (a : α) :
    tally p (update f i a) + (p (f i)).toNat = tally p f + (p a).toNat := by
  have hrest : (Finset.univ.filter fun j => p (update f i a j) = true).erase i =
      (Finset.univ.filter fun j => p (f j) = true).erase i := by
    ext j
    by_cases hj : j = i <;> simp [hj]
  rw [tally_split p (update f i a) i, tally_split p f i, hrest, Function.update_self]
  omega

theorem tally_update_same {p : α → Bool} {f : ι → α} {i : ι} {a : α} (h : p a = p (f i)) :
    tally p (update f i a) = tally p f := by
  have hmoves := tally_update p f i a
  rw [h] at hmoves
  omega

variable {wake : α → Option α} {woken : α → Bool} {f' : ι → α}

/-- A signal finds nobody waiting, or there is one waiter less and one woken thread more. -/
theorem Signal.tally (h : Signal wake f f') (hwake : WakesTo wake woken) :
    Lib.tally (isWaiting wake) f = 0 ∧ f' = f ∨
      Lib.tally (isWaiting wake) f' + 1 = Lib.tally (isWaiting wake) f ∧
        Lib.tally woken f' = Lib.tally woken f + 1 := by
  cases h with
  | nobody idle =>
    left
    refine ⟨tally_eq_zero.mpr fun i => ?_, rfl⟩
    rw [isWaiting, idle i]
    rfl
  | one i a hsome =>
    right
    obtain ⟨hbefore, hafter, hgone⟩ := hwake _ _ hsome
    have hwaiting := tally_update (isWaiting wake) f i a
    have hwoken := tally_update woken f i a
    have hwas : isWaiting wake (f i) = true := by rw [isWaiting, hsome]; rfl
    have hnow : isWaiting wake a = false := by rw [isWaiting, hgone]; rfl
    rw [hwas, hnow] at hwaiting
    rw [hbefore, hafter] at hwoken
    exact ⟨hwaiting, hwoken⟩

end
end Knpnl.Lib
