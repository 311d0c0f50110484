import Mathlib.Logic.Relation

/-!
# Reachable states

A system is a set of initial states and a step relation, which may be taken by any of
its parties. What holds initially and is kept by every step holds of every state that
is reached, whatever the interleaving. A system with inputs is a function, and what
every admitted input keeps holds at the end of every run of admitted inputs.
-/
namespace Knpnl.Lib

open Relation (ReflTransGen)

variable {σ : Type*} {init P : σ → Prop} {step : σ → σ → Prop} {s s' : σ}

/-- Reached from an initial state. -/
def Reachable (init : σ → Prop) (step : σ → σ → Prop) (s : σ) : Prop :=
  ∃ s₀, init s₀ ∧ ReflTransGen step s₀ s

namespace Reachable

theorem start (h : init s) : Reachable init step s := ⟨s, h, .refl⟩

theorem tail (h : Reachable init step s) (hstep : step s s') : Reachable init step s' := by
  obtain ⟨s₀, hinit, hrun⟩ := h
  exact ⟨s₀, hinit, hrun.tail hstep⟩

theorem invariant (hinit : ∀ s, init s → P s) (hstep : ∀ s s', P s → step s s' → P s')
    (h : Reachable init step s) : P s := by
  obtain ⟨s₀, h₀, hrun⟩ := h
  induction hrun with
  | refl => exact hinit s₀ h₀
  | tail _ hlast ih => exact hstep _ _ ih hlast

end Reachable

section
variable {α : Type*} {run : σ → α → σ} {ok : σ → α → Prop}

/-- Each input in turn is admitted by the state it meets. -/
def Along (run : σ → α → σ) (ok : σ → α → Prop) : σ → List α → Prop
  | _, [] => True
  | s, a :: inputs => ok s a ∧ Along run ok (run s a) inputs

instance decidableAlong (run : σ → α → σ) (ok : σ → α → Prop) [∀ s a, Decidable (ok s a)] :
    (s : σ) → (inputs : List α) → Decidable (Along run ok s inputs)
  | _, [] => isTrue trivial
  | s, a :: inputs =>
      have := decidableAlong run ok (run s a) inputs
      inferInstanceAs (Decidable (ok s a ∧ Along run ok (run s a) inputs))

theorem along_congr {ok' : σ → α → Prop} (h : ∀ s a, ok s a ↔ ok' s a) (s : σ) (inputs : List α) :
    Along run ok s inputs ↔ Along run ok' s inputs := by
  induction inputs generalizing s with
  | nil => exact Iff.rfl
  | cons a inputs ih => rw [Along, Along, h, ih]

theorem along_of_forall {inputs : List α} (h : ∀ a ∈ inputs, ∀ s, ok s a) (s : σ) : Along run ok s inputs := by
  induction inputs generalizing s with
  | nil => trivial
  | cons a inputs ih =>
    exact ⟨h a List.mem_cons_self s, ih (fun b hb => h b (List.mem_cons_of_mem a hb)) (run s a)⟩

/-- Where an invariant holds, inputs may be admitted under another description. -/
theorem along_iff_along {I : σ → Prop} {ok' possible : σ → α → Prop}
    (hiff : ∀ s a, I s → possible s a → (ok s a ↔ ok' s a))
    (hkept : ∀ s a, I s → possible s a → ok s a → I (run s a)) {inputs : List α} (hI : I s)
    (hpossible : Along run possible s inputs) : Along run ok s inputs ↔ Along run ok' s inputs := by
  induction inputs generalizing s with
  | nil => exact Iff.rfl
  | cons a inputs ih =>
    rw [Along, Along, ← hiff s a hI hpossible.1]
    exact and_congr_right fun hok => ih (hkept s a hI hpossible.1 hok) hpossible.2

theorem Along.invariant (hstep : ∀ s a, P s → ok s a → P (run s a)) {inputs : List α} (hs : P s)
    (h : Along run ok s inputs) : P (inputs.foldl run s) := by
  induction inputs generalizing s with
  | nil => exact hs
  | cons a inputs ih => exact ih (hstep s a hs h.1) h.2

theorem along_append {inputs inputs' : List α} :
    Along run ok s (inputs ++ inputs') ↔ Along run ok s inputs ∧ Along run ok (inputs.foldl run s) inputs' := by
  induction inputs generalizing s with
  | nil => exact (and_iff_right trivial).symm
  | cons a inputs ih => rw [List.cons_append, Along, Along, ih, List.foldl_cons, and_assoc]

/-- Each input is admitted by the state that the inputs before it lead to. -/
theorem along_iff_getElem {inputs : List α} :
    Along run ok s inputs ↔ ∀ k a, inputs[k]? = some a → ok ((inputs.take k).foldl run s) a := by
  induction inputs generalizing s with
  | nil => exact iff_of_true trivial fun k a h => by simp at h
  | cons b inputs ih =>
    rw [Along, ih]
    constructor
    · intro ⟨hfirst, hrest⟩ k a hk
      cases k with
      | zero =>
        obtain rfl := Option.some.inj hk
        exact hfirst
      | succ k => exact hrest k a hk
    · intro hall
      exact ⟨hall 0 b rfl, fun k a hk => hall (k + 1) a hk⟩

theorem along_and {ok' : σ → α → Prop} {inputs : List α} :
    Along run (fun s a => ok s a ∧ ok' s a) s inputs ↔ Along run ok s inputs ∧ Along run ok' s inputs := by
  induction inputs generalizing s with
  | nil => exact (and_iff_left trivial).symm
  | cons a inputs ih => rw [Along, Along, Along, ih, and_and_and_comm]

/-- Inputs may be replaced by others that the states in which they are admitted take alike. -/
theorem Along.foldl_map {f : α → α} (hsame : ∀ s a, ok s a → run s (f a) = run s a) {inputs : List α}
    (h : Along run ok s inputs) : (inputs.map f).foldl run s = inputs.foldl run s := by
  induction inputs generalizing s with
  | nil => rfl
  | cons a inputs ih => rw [List.map_cons, List.foldl_cons, List.foldl_cons, hsame s a h.1, ih h.2]

/-- What the inputs bring out in turn. -/
def outputs {β : Type*} (run : σ → α → σ) (out : σ → α → List β) : σ → List α → List β
  | _, [] => []
  | s, a :: inputs => out s a ++ outputs run out (run s a) inputs

theorem outputs_append {β : Type*} (out : σ → α → List β) (s : σ) (inputs inputs' : List α) :
    outputs run out s (inputs ++ inputs') =
      outputs run out s inputs ++ outputs run out (inputs.foldl run s) inputs' := by
  induction inputs generalizing s with
  | nil => rfl
  | cons a inputs ih => rw [List.cons_append, outputs, ih, outputs, List.append_assoc, List.foldl_cons]

theorem forall_mem_outputs {β : Type*} {out : σ → α → List β} {I : σ → Prop} {Q : β → Prop}
    (hkept : ∀ s a, I s → I (run s a)) (hout : ∀ s a, I s → ∀ b ∈ out s a, Q b) (hI : I s) (inputs : List α) :
    ∀ b ∈ outputs run out s inputs, Q b := by
  induction inputs generalizing s with
  | nil => exact fun b hb => absurd hb List.not_mem_nil
  | cons a inputs ih => exact List.forall_mem_append.mpr ⟨hout s a hI, ih (hkept s a hI)⟩

/-- Where the first input that is not admitted takes the run to `B`, where it stays and `P` is
false, the end of a run tells whether all of its inputs were admitted. -/
theorem along_iff_final {I B : σ → Prop} {possible : σ → α → Prop} (hgood : ∀ s, I s → P s)
    (hbad : ∀ s, B s → ¬ P s) (hkept : ∀ s a, I s → possible s a → ok s a → I (run s a))
    (hbreak : ∀ s a, I s → possible s a → ¬ ok s a → B (run s a)) (hstay : ∀ s a, B s → B (run s a))
    {inputs : List α} (hI : I s) (hpossible : Along run possible s inputs) :
    P (inputs.foldl run s) ↔ Along run ok s inputs := by
  induction inputs generalizing s with
  | nil => exact ⟨fun _ => trivial, fun _ => hgood s hI⟩
  | cons a inputs ih =>
    by_cases hok : ok s a
    · rw [List.foldl_cons, ih (hkept s a hI hpossible.1 hok) hpossible.2]
      exact ⟨fun hrest => ⟨hok, hrest⟩, fun hall => hall.2⟩
    · refine ⟨fun hP => absurd hP (hbad _ ?_), fun hall => absurd hall.1 hok⟩
      exact List.foldlRecOn inputs run (hbreak s a hI hpossible.1 hok) fun s' hs' b _ => hstay s' b hs'

/-- Where the admitted inputs are those that keep `P`, the runs of admitted inputs are those
that never leave it. -/
theorem along_iff_always {I : σ → Prop} (hkept : ∀ s a, I s → I (run s a))
    (hstep : ∀ s a, I s → P s → (ok s a ↔ P (run s a))) (hI : I s) (hs : P s) (inputs : List α) :
    Along run ok s inputs ↔ ∀ pre, pre <+: inputs → P (pre.foldl run s) := by
  induction inputs generalizing s with
  | nil =>
    refine ⟨fun _ pre hpre => ?_, fun _ => trivial⟩
    rw [List.prefix_nil.mp hpre]
    exact hs
  | cons a inputs ih =>
    constructor
    · intro halong pre hpre
      cases pre with
      | nil => exact hs
      | cons b pre =>
        obtain ⟨rfl, hrest⟩ := List.cons_prefix_cons.mp hpre
        have hnext := (hstep s b hI hs).mp halong.1
        exact (ih (hkept s b hI) hnext).mp halong.2 pre hrest
    · intro hall
      have hnext : P (run s a) := hall [a] (List.prefix_append [a] inputs)
      refine ⟨(hstep s a hI hs).mpr hnext, (ih (hkept s a hI) hnext).mpr fun pre hpre => ?_⟩
      exact hall (a :: pre) (List.cons_prefix_cons.mpr ⟨rfl, hpre⟩)

end
end Knpnl.Lib
